import GrAta.Flowgraph.Composition
import Mathlib.Data.Fin.VecNotation
import Mathlib.Tactic.FinCases

/-!
# Alignment of the outputs

Once the synchronizer is synchronized, the vectors at one position of all outputs
should belong to one timestamp and one time row. The synchronizer aligns numbers,
so this holds when the number it synchronizes on stands for frames of one
timestamp on all inputs. It does for blocks of one packet a frame.

## Main definitions

- `FrameOrigin.BuiltFor`: the frame was built for a timestamp
- `FlowState.OutputsAligned`: the outputs agree in timestamp and row

## Main results

- `Flowgraph.Composed.aligned_of_onePacket`: blocks of one packet a frame
- `Flowgraph.run_aligned_iff`: when the outputs of a synchronized run are aligned
-/

namespace GrAta

/-- Every packet of the frame has timestamp `t`, or zeros were filled in for `t`. -/
def FrameOrigin.BuiltFor (t : ℕ) : FrameOrigin → Prop
  | .received packets => packets ≠ [] ∧ ∀ p ∈ packets, GrAta.timestamp p = t
  | .missed t' => t' = t

theorem frameAt_builtFor {ps : List Packet} {t t' : ℕ} : (frameAt ps t).BuiltFor t' ↔ t = t' := by
  by_cases hat : packetsAt ps t = []
  · rw [frameAt, if_pos hat]
    rfl
  · rw [frameAt, if_neg hat]
    refine ⟨fun h => ?_, fun h => ⟨hat, fun p hp => ?_⟩⟩
    · obtain ⟨p, hp⟩ := List.exists_mem_of_ne_nil _ hat
      rw [← h.2 p hp, (mem_packetsAt.mp hp).2]
    · rw [← h, (mem_packetsAt.mp hp).2]

/-- At every position, the vectors of all outputs were built for one timestamp and
one time row. -/
def FlowState.OutputsAligned {n : ℕ} (s : FlowState n) : Prop :=
  ∀ k : ℕ, ∃ t row : ℕ, ∀ i v, (s.synchronizer.outputItems i)[k]? = some v →
    v.origin.BuiltFor t ∧ v.row = row

/-- A later part of a stream. -/
theorem itemTime_add {ps : List Packet} {base : ℕ} (h : 16 ∣ base) (k : ℕ) :
    itemTime ps (base + k) = itemTime ps base + 16 * (k / 16) := by
  rw [itemTime, itemTime]
  omega

namespace Flowgraph

variable {n : ℕ} {G : Flowgraph n} {first : Fin n → ℕ} {events : List (Event n)}
  {s : FlowState n} {base : Fin n → ℕ} {count : ℕ}

theorem Forwarding.length_output (h : Forwarding base count s) (i : Fin n) :
    (s.synchronizer.outputItems i).length = count := by
  have hle := h.read_le i
  rw [h.output i, List.length_map, List.length_take, List.length_drop]
  omega

/-- The frame and the row of a forwarded vector. -/
theorem Forwarding.output_spec (h : Forwarding base count s) (hs : G.Composed events s)
    (ht : G.Traffic first events) {i : Fin n} {k : ℕ} {v : TimeVector}
    (hv : (s.synchronizer.outputItems i)[k]? = some v) :
    v.origin = frameAt (arrivedAt i events)
        (itemTime (arrivedAt i events) (base i) + 16 * (k / 16)) ∧ v.row = k % 16 := by
  obtain ⟨taken, delivered, queue, htracks⟩ := hs.tracks i
  have hk : k < count := by
    rw [← h.length_output i]
    exact (List.getElem?_eq_some_iff.mp hv).1
  rw [h.output i, List.getElem?_map, List.getElem?_take_of_lt hk, List.getElem?_drop,
    FlowState.stream, List.getElem?_map, Option.map_map] at hv
  obtain ⟨item, hitem, rfl⟩ := Option.map_eq_some_iff.mp hv
  obtain ⟨horigin, hrow⟩ := htracks.item_x (ht.lossy i) hitem
  have hdvd := h.boundary i
  rw [itemTime_add hdvd] at horigin
  refine ⟨horigin, hrow.trans ?_⟩
  omega

/-- The outputs are aligned exactly when the streams were aligned where they were
cut. -/
theorem Forwarding.aligned_iff (h : Forwarding base count s) (hs : G.Composed events s)
    (ht : G.Traffic first events) :
    s.OutputsAligned ↔ ∀ i j, itemTime (arrivedAt i events) (base i) =
      itemTime (arrivedAt j events) (base j) := by
  constructor
  · intro haligned
    obtain ⟨t, row, hfirst⟩ := haligned 0
    have htime : ∀ i, itemTime (arrivedAt i events) (base i) = t := by
      intro i
      have hlt : 0 < (s.synchronizer.outputItems i).length := by
        rw [h.length_output i]
        exact h.pos
      have hv := List.getElem?_eq_getElem hlt
      have hbuilt := (hfirst i _ hv).1
      rw [(h.output_spec hs ht hv).1] at hbuilt
      exact frameAt_builtFor.mp hbuilt
    intro i j
    rw [htime i, htime j]
  · intro hequal k
    by_cases hports : Nonempty (Fin n)
    · obtain ⟨i₀⟩ := hports
      refine ⟨itemTime (arrivedAt i₀ events) (base i₀) + 16 * (k / 16), k % 16, fun i v hv => ?_⟩
      obtain ⟨horigin, hrow⟩ := h.output_spec hs ht hv
      rw [horigin, hequal i i₀]
      exact ⟨frameAt_builtFor.mpr rfl, hrow⟩
    · exact ⟨0, 0, fun i => absurd ⟨i⟩ hports⟩

/-- The frame at the head of an input is the one that its number stands for. -/
theorem SynchronizedAt.itemTime_eq {before : List (Event n)} {tag : ℕ}
    (h : G.SynchronizedAt before base tag) (ht : G.Traffic first before) (i : Fin n) :
    itemTime (arrivedAt i before) (base i) =
      frameAnnounced (G.blocks i).cfg.bOnePacket (arrivedAt i before) tag := by
  obtain ⟨hcount, hhead⟩ := h.head i
  have hlossy := ht.lossy i
  rw [← hhead, hlossy.frameAnnounced_announcedAt (hlossy.later_of_lt hcount)]

theorem itemTime_append {ps qs : List Packet} (h : ps ≠ []) (k : ℕ) :
    itemTime (ps ++ qs) k = itemTime ps k := by
  rw [itemTime, itemTime, firstTimestamp_append h]

theorem Traffic.of_append {before after : List (Event n)}
    (h : G.Traffic first (before ++ after)) : G.Traffic first before where
  valid := fun e he => h.valid e (List.mem_append_left after he)
  congruent := h.congruent
  lossy := fun i => by
    have hlossy := h.lossy i
    obtain ⟨ps, hps⟩ := arrivedAt_append (i := i) before after
    rw [hps] at hlossy
    exact hlossy.of_append

/-- The outputs of a synchronized run are aligned exactly when the number that it
synchronized on stands for frames of one timestamp on all inputs. -/
theorem SynchronizedAt.aligned_iff {before after : List (Event n)} {e : Event n} {tag : ℕ}
    (h : G.SynchronizedAt before base tag) (hs : G.Composed (before ++ e :: after) s)
    (ht : G.Traffic first (before ++ e :: after)) (hfwd : Forwarding base count s) :
    s.OutputsAligned ↔ ∀ i j,
      frameAnnounced (G.blocks i).cfg.bOnePacket (arrivedAt i before) tag =
        frameAnnounced (G.blocks j).cfg.bOnePacket (arrivedAt j before) tag := by
  have htime : ∀ i, itemTime (arrivedAt i (before ++ e :: after)) (base i) =
      frameAnnounced (G.blocks i).cfg.bOnePacket (arrivedAt i before) tag := by
    intro i
    obtain ⟨ps, hps⟩ := arrivedAt_append (i := i) before (e :: after)
    rw [hps, itemTime_append (LossyStream.ne_nil_of_frameCount (h.head i).1),
      h.itemTime_eq ht.of_append]
  simp only [hfwd.aligned_iff hs ht, htime]

/-- Blocks of one packet a frame are always aligned. -/
theorem Composed.aligned_of_onePacket (hs : G.Composed events s) (ht : G.Traffic first events)
    (hone : ∀ i, (G.blocks i).packets = 1) (hsync : s.synchronizer.dSynchronized = true) :
    s.OutputsAligned := by
  cases hs.phase with
  | waiting hwait => exact absurd (hsync.symm.trans hwait.synchronized) (by decide)
  | forwarding before after noutputItems base count tag hsplit hat hpublished hfwd =>
    subst hsplit
    have hmode : ∀ i, (G.blocks i).cfg.bOnePacket = true := fun i => by
      simp [(G.blocks i).bOnePacket_eq, hone i]
    refine (hat.aligned_iff hs ht hfwd).mpr fun i j => ?_
    rw [frameAnnounced, frameAnnounced, if_pos (Or.inl (hmode i)), if_pos (Or.inl (hmode j))]

/-- **Alignment behind the synchronizer.** When lossy streams with congruent first
timestamps arrive at the sources, the flowgraph runs under any order of events.
If it is synchronized at the end, then some call of the synchronizer found one
number at the heads of all inputs and published it. The outputs are aligned from
there on exactly when that number stands for frames of one timestamp: the frame
of that timestamp, or, where a block of several packets a frame has received it,
the last frame received before. -/
theorem run_aligned_iff (ht : G.Traffic first events) :
    ∃ s, G.run events = .ok s ∧ (s.synchronizer.dSynchronized = true →
      ∃ before after noutputItems s₀ tag,
        events = before ++ .generalWork noutputItems :: after ∧
        G.run before = .ok s₀ ∧ s₀.synchronizer.dSynchronized = false ∧
        (∀ i, Synchronizer.tag0 (s₀.waiting i) = .ok tag) ∧
        s.synchronizer.published = [Synchronizer.syncPdu tag] ∧
        (s.OutputsAligned ↔ ∀ i j,
          frameAnnounced (G.blocks i).cfg.bOnePacket (arrivedAt i before) tag =
            frameAnnounced (G.blocks j).cfg.bOnePacket (arrivedAt j before) tag)) := by
  obtain ⟨s, hrun, hs⟩ := G.run_composed ht
  refine ⟨s, hrun, fun hsync => ?_⟩
  cases hs.phase with
  | waiting hwait => exact absurd (hsync.symm.trans hwait.synchronized) (by decide)
  | forwarding before after noutputItems base count tag hsplit hat hpublished hfwd =>
    subst hsplit
    obtain ⟨s₀, hs₀, hunsync, hheads⟩ := hat.found
    exact ⟨before, after, noutputItems, s₀, tag, rfl, hs₀, hunsync, hheads, hpublished,
      hat.aligned_iff hs ht hfwd⟩

/-- Two sources with two packets a frame. -/
def twoSources : Flowgraph 2 where
  blocks := fun _ => .ofWidth 2 width_two_pos width_two_le true
  env := fun _ => ⟨[], fun _ _ => 0⟩

/-- The first packets of the frames at 16 and 48 arrive at the first source, those
of the frames at 32 and 48 at the second one, and each is called once. -/
def unevenCalls : List (Event 2) :=
  [.work 0 (.taking [plainPacket 0 16, plainPacket 0 48] 16),
    .work 1 (.taking [plainPacket 0 32, plainPacket 0 48] 16)]

theorem lossyStream_first_source :
    LossyStream (.ofWidth 2 (by decide) (by decide) true) 16
      [plainPacket 0 16, plainPacket 0 48] where
  delivered := by
    have hsub : [plainPacket 0 16, plainPacket 0 48].Sublist
        [plainPacket 0 16, plainPacket 256 16, plainPacket 0 32, plainPacket 256 32,
          plainPacket 0 48, plainPacket 256 48] :=
      .cons_cons _ (.cons _ (.cons _ (.cons _ (.cons_cons _ (List.nil_sublist _)))))
    exact ⟨FullStream.plain _ 16 3 (by decide), hsub⟩
  first_pos := by decide
  synchronized p hp := by
    rw [← Option.some.inj hp]
    exact channel_plainPacket (by decide) _
  losses := by simp [timestamp_plainPacket, MAX_MISSED_SETS]

theorem lossyStream_second_source :
    LossyStream (.ofWidth 2 (by decide) (by decide) true) 32
      [plainPacket 0 32, plainPacket 0 48] where
  delivered := by
    have hsub : [plainPacket 0 32, plainPacket 0 48].Sublist
        [plainPacket 0 32, plainPacket 256 32, plainPacket 0 48, plainPacket 256 48] :=
      .cons_cons _ (.cons _ (.cons_cons _ (List.nil_sublist _)))
    exact ⟨FullStream.plain _ 32 2 (by decide), hsub⟩
  first_pos := by decide
  synchronized p hp := by
    rw [← Option.some.inj hp]
    exact channel_plainPacket (by decide) _
  losses := by simp [timestamp_plainPacket, MAX_MISSED_SETS]

theorem traffic_unevenCalls :
    twoSources.Traffic ![16, 32] (unevenCalls ++ [.generalWork 16]) where
  valid := by
    intro e he
    simp only [unevenCalls, List.cons_append, List.nil_append, List.mem_cons,
      List.not_mem_nil, or_false] at he
    rcases he with rfl | rfl | rfl
    · exact Call.taking_valid _ (by decide) (by decide)
    · exact Call.taking_valid _ (by decide) (by decide)
    · exact ⟨by decide, by decide⟩
  congruent := by decide
  lossy := by
    intro i
    fin_cases i
    · exact lossyStream_first_source
    · exact lossyStream_second_source

theorem run_aligned_iff_uneven :
    ∃ s, twoSources.run (unevenCalls ++ [.generalWork 16]) = .ok s ∧
      (s.synchronizer.dSynchronized = true →
      ∃ before after noutputItems s₀ tag,
        unevenCalls ++ [.generalWork 16] = before ++ .generalWork noutputItems :: after ∧
        twoSources.run before = .ok s₀ ∧ s₀.synchronizer.dSynchronized = false ∧
        (∀ i, Synchronizer.tag0 (s₀.waiting i) = .ok tag) ∧
        s.synchronizer.published = [Synchronizer.syncPdu tag] ∧
        (s.OutputsAligned ↔ ∀ i j,
          frameAnnounced (twoSources.blocks i).cfg.bOnePacket (arrivedAt i before) tag =
            frameAnnounced (twoSources.blocks j).cfg.bOnePacket (arrivedAt j before) tag)) :=
  run_aligned_iff traffic_unevenCalls

/-- A call of a fresh source for 16 items outputs them, when its packets make up a
frame. -/
theorem length_stream_of_call {B : VoltageBlock} {env : Environment} {call : Call}
    {first : ℕ} {w : WorkRun} (hvalid : call.Valid) (hsize : call.noutputItems = 16)
    (h : LossyStream B first call.arrived) (hrun : B.run env [call] = .ok w)
    (hframe : 0 < frameCount B.cfg.bOnePacket call.arrived) : 16 ≤ w.items.length := by
  have harrived : arrivals [call] = call.arrived := by simp [arrivals]
  obtain ⟨w', taken, delivered, queue, hw', ht, -, hserved⟩ :=
    B.run_tracks env [call] (by simpa using hvalid) (by rw [harrived]; exact h.admissible)
  obtain rfl : w' = w := Except.ok.inj (hw'.symm.trans hrun)
  rcases hserved 16 (by simp [hsize]) with ⟨hlocal, hqueue⟩ | henough
  · have htaken : call.arrived = taken := by
      rw [← harrived, ht.consumed, hlocal, List.append_nil]
    have hrows := congrArg List.length ht.frames
    rw [← htaken, h.rows_eq, hqueue, List.append_nil, List.length_map, List.length_range] at hrows
    rw [ht.items_length, hrows]
    omega
  · exact henough

/-- Both streams start with number 48, on a frame of timestamp 16 and on one of
timestamp 32. The outputs stay misaligned. -/
theorem run_misaligned :
    twoSources.Traffic ![16, 32] (unevenCalls ++ [.generalWork 16]) ∧
    ∃ s, twoSources.run (unevenCalls ++ [.generalWork 16]) = .ok s ∧
      s.synchronizer.dSynchronized = true ∧ ¬ s.OutputsAligned := by
  have ht := traffic_unevenCalls
  have h16 : timestamp (plainPacket 0 16) = 16 := timestamp_plainPacket 0 (by decide)
  have h32 : timestamp (plainPacket 0 32) = 32 := timestamp_plainPacket 0 (by decide)
  have h48 : timestamp (plainPacket 0 48) = 48 := timestamp_plainPacket 0 (by decide)
  obtain ⟨s, hrun, hs⟩ := twoSources.run_composed ht.of_append
  have hworks : ∀ e ∈ unevenCalls, ∃ i call, e = Event.work i call ∧ call.Quiet := by
    intro e he
    simp only [unevenCalls, List.mem_cons, List.not_mem_nil, or_false] at he
    rcases he with rfl | rfl
    · exact ⟨_, _, rfl, rfl⟩
    · exact ⟨_, _, rfl, rfl⟩
  obtain ⟨hsync, hsources⟩ := run_works hworks hrun
  have hwait : Waiting s := by
    cases hs.phase with
    | waiting h => exact h
    | forwarding _ _ _ _ _ _ _ _ _ h =>
      have hunsync : s.synchronizer.dSynchronized = false := by rw [hsync]; rfl
      exact absurd (hunsync.symm.trans h.synchronized) (by decide)
  have hread : ∀ i, s.synchronizer.nitemsRead i = 0 := fun i => by rw [hsync]; rfl
  have havailable : ∀ i, s.synchronizer.nitemsRead i + 16 ≤ (s.stream i).length := by
    intro i
    rw [hread i, Nat.zero_add, FlowState.stream, List.length_map]
    fin_cases i
    · refine length_stream_of_call (Call.taking_valid _ (by decide) (by decide)) rfl
        lossyStream_first_source (hsources 0) ?_
      simp [Call.taking, frameCount, lastTimestamp, firstTimestamp, h16, h48]
    · refine length_stream_of_call (Call.taking_valid _ (by decide) (by decide)) rfl
        lossyStream_second_source (hsources 1) ?_
      simp [Call.taking, frameCount, lastTimestamp, firstTimestamp, h32, h48]
  have hmode : ∀ i, (twoSources.blocks i).cfg.bOnePacket = false := fun _ => rfl
  have hfirst : arrivedAt 0 unevenCalls = [plainPacket 0 16, plainPacket 0 48] := rfl
  have hsecond : arrivedAt 1 unevenCalls = [plainPacket 0 32, plainPacket 0 48] := rfl
  have hheads : ∀ i, Synchronizer.tag0 (s.waiting i) = .ok 48 := by
    intro i
    have hi := havailable i
    rw [(hs.head hwait ht.of_append (i := i) (by omega)).2, hread i, hmode i]
    fin_cases i
    · show Except.ok (announcedAt false (arrivedAt 0 unevenCalls) _) = _
      simp [hfirst, itemTime, firstTimestamp, announcedAt, packetsAt, nextTimestamp, h16, h48]
    · show Except.ok (announcedAt false (arrivedAt 1 unevenCalls) _) = _
      simp [hsecond, itemTime, firstTimestamp, announcedAt, packetsAt, nextTimestamp, h32, h48]
  have hwork := hs.synchronize hwait ht.of_append (by decide) havailable hheads (fun _ _ => rfl)
  obtain ⟨s', hstep, hs', hat, hfwd⟩ := hwork
  refine ⟨ht, s', hs'.reached, hfwd.synchronized, fun haligned => ?_⟩
  have hframes := (hat.aligned_iff hs' ht hfwd).mp haligned 0 1
  rw [show (Finset.univ.sup fun _ : Fin 2 => 48) = 48 from rfl, hmode, hmode, hfirst,
    hsecond] at hframes
  simp [frameAnnounced, packetsAt, lastTimestamp, h16, h32, h48] at hframes

end Flowgraph

end GrAta
