import GrAta.Voltage.StreamFrames

/-!
# Reordered and duplicated packets

The source takes packets in the order in which they arrive and has no place to
sort them. A packet of another timestamp starts a new frame, also when it is late
or a duplicate, and a gap is filled only in front of a later frame. So the frames
leave the block in the order of their first packets, and they are in order
exactly when these are.

## Main definitions

- `timestampRuns`: the timestamps of successive packets, a run counted once
- `frameHeads`: the frames that a packet sequence starts and completes
- `pushedTimestamps`: the frames handed to the output queue of a run

## Main results

- `VoltageBlock.frames_timestamp`: the frames of a packet sequence
- `VoltageBlock.run_increasing_iff`: when the frames of a run are in order
-/

namespace GrAta

/-- The timestamps of a sequence without repetitions of the one before, where
`last` is the one before the first. -/
def timestampRuns : ℕ → List ℕ → List ℕ
  | _, [] => []
  | last, t :: ts => if t = last then timestampRuns last ts else t :: timestampRuns t ts

/-- The frames that packets with the given timestamps start and complete. In a
block of one packet a frame that is every packet. In a block of several packets a
run of equal timestamps is a frame, and the last one stays in assembly. -/
def frameHeads (onePacket : Bool) (ts : List ℕ) : List ℕ :=
  if onePacket then ts else (timestampRuns 0 ts).dropLast

/-- A sequence of timestamps with the filled ones in front of each. -/
def withGaps : ℕ → List ℕ → List ℕ
  | _, [] => []
  | last, t :: ts => gapOf last t ++ t :: withGaps t ts

theorem mem_gapOf {last t m : ℕ} (h : m ∈ gapOf last t) : last < m ∧ m < t := by
  rw [gapOf] at h
  split at h
  · obtain ⟨k, hk, rfl⟩ := List.mem_map.mp h
    rw [List.mem_range] at hk
    omega
  · simp at h

theorem gapOf_pairwise (last t : ℕ) : (gapOf last t).Pairwise (· < ·) := by
  rw [gapOf]
  split
  · rw [List.pairwise_map]
    exact List.pairwise_lt_range.imp fun h => by omega
  · exact List.Pairwise.nil

theorem cons_le_of_pairwise {t x : ℕ} {ts : List ℕ} (h : (t :: ts).Pairwise (· < ·))
    (hx : x ∈ t :: ts) : t ≤ x := by
  rcases List.mem_cons.mp hx with rfl | hx
  · exact le_rfl
  · exact (List.rel_of_pairwise_cons h hx).le

/-- Filling the gap in front of an ordered sequence that starts above `last`. -/
theorem gap_append_pairwise {last t : ℕ} {ts : List ℕ} (hlt : last < t)
    (hts : (t :: ts).Pairwise (· < ·)) : (last :: (gapOf last t ++ t :: ts)).Pairwise (· < ·) := by
  rw [List.pairwise_cons, List.pairwise_append]
  refine ⟨fun x hx => ?_, gapOf_pairwise last t, hts, fun x hx y hy => ?_⟩
  · rcases List.mem_append.mp hx with hx | hx
    · exact (mem_gapOf hx).1
    · have := cons_le_of_pairwise hts hx
      omega
  · have := (mem_gapOf hx).2
    have := cons_le_of_pairwise hts hy
    omega

/-- The gap in front of a nonempty sequence does not change whether it is ordered. -/
theorem gap_append_pairwise_iff {last t : ℕ} {us ts : List ℕ}
    (h : (t :: us).Pairwise (· < ·) ↔ (t :: ts).Pairwise (· < ·)) :
    (last :: (gapOf last t ++ t :: us)).Pairwise (· < ·) ↔
      (last :: t :: ts).Pairwise (· < ·) := by
  constructor
  · intro hus
    obtain ⟨hhead, htail⟩ := List.pairwise_cons.mp hus
    have hts := h.mp (List.pairwise_append.mp htail).2.1
    have hlt : last < t := hhead t (by simp)
    refine List.pairwise_cons.mpr ⟨fun x hx => ?_, hts⟩
    have := cons_le_of_pairwise hts hx
    omega
  · intro hts
    obtain ⟨hhead, htail⟩ := List.pairwise_cons.mp hts
    exact gap_append_pairwise (hhead t (by simp)) (h.mpr htail)

theorem withGaps_pairwise (last : ℕ) (ts : List ℕ) :
    (last :: withGaps last ts).Pairwise (· < ·) ↔ (last :: ts).Pairwise (· < ·) := by
  induction ts generalizing last with
  | nil => rfl
  | cons t ts ih => exact gap_append_pairwise_iff (ih t)

theorem withGaps_ne_nil {last : ℕ} {ts : List ℕ} (h : ts ≠ []) : withGaps last ts ≠ [] := by
  obtain ⟨t, ts, rfl⟩ := List.exists_cons_of_ne_nil h
  simp [withGaps]

/-- The same without the last element: only the gap in front of it remains. -/
theorem withGaps_dropLast_pairwise (last : ℕ) (ts : List ℕ) :
    (last :: withGaps last ts).dropLast.Pairwise (· < ·) ↔
      (last :: ts).dropLast.Pairwise (· < ·) := by
  induction ts generalizing last with
  | nil => rfl
  | cons t ts ih =>
    rw [withGaps, ← List.cons_append, List.dropLast_append_of_ne_nil (by simp)]
    change (last :: (gapOf last t ++ _)).Pairwise _ ↔ (last :: (t :: ts).dropLast).Pairwise _
    by_cases hts : ts = []
    · subst hts
      change (last :: (gapOf last t ++ [])).Pairwise _ ↔ [last].Pairwise _
      rw [List.append_nil]
      exact iff_of_true (List.pairwise_cons.mpr ⟨fun x hx => (mem_gapOf hx).1,
        gapOf_pairwise last t⟩) (by simp)
    · have ih := ih t
      rw [List.dropLast_cons_of_ne_nil (withGaps_ne_nil hts),
        List.dropLast_cons_of_ne_nil hts] at ih ⊢
      exact gap_append_pairwise_iff ih

-- ════════════════════════════════════════════════════════════════════════
-- The frames of a packet sequence
-- ════════════════════════════════════════════════════════════════════════

namespace FrameLog

/-- All packets of a frame in assembly have the last timestamp. -/
def Uniform (log : FrameLog) : Prop :=
  (log.last = 0 ↔ log.assembled = []) ∧ ∀ q ∈ log.assembled, timestamp q = log.last

theorem mem_recordCopy {packets : List Packet} {p q : Packet} (h : q ∈ recordCopy packets p) :
    q ∈ packets ∨ q = p := by
  rcases List.mem_append.mp h with h | h
  · exact Or.inl (List.mem_filter.mp h).1
  · exact Or.inr (List.mem_singleton.mp h)

theorem Uniform.step {log : FrameLog} (h : log.Uniform) {p : Packet} (hp : 0 < timestamp p) :
    (log.step false p).Uniform := by
  rw [FrameLog.step, FrameLog.assemble]
  by_cases hnew : 0 < log.last ∧ timestamp p ≠ log.last
  · rw [if_pos ⟨rfl, hnew⟩]
    exact ⟨by simp; omega, by simp⟩
  · rw [if_neg fun hc => hnew hc.2]
    refine ⟨by simp [recordCopy_ne_nil]; omega, fun q hq => ?_⟩
    rcases mem_recordCopy hq with hq | rfl
    · have hne : log.last ≠ 0 := fun h0 => by simp [h.1.mp h0] at hq
      have := h.2 q hq
      simp only
      omega
    · rfl

/-- The timestamps of the frames that a packet hands on. -/
def frameTimestamps (frames : List FramePush) : List ℕ := frames.map fun f => f.origin.timestamp

theorem frameTimestamps_gapPushes (last t : ℕ) :
    frameTimestamps (gapPushes last t) = gapOf last t := by
  simp [frameTimestamps, gapPushes, Function.comp_def, FrameOrigin.timestamp]

/-- The frames of a block of several packets a frame. -/
theorem framesFrom_timestamps {log : FrameLog} (h : log.Uniform) (hlast : 0 < log.last)
    {ps : List Packet} (hps : ∀ p ∈ ps, 0 < timestamp p) :
    frameTimestamps (log.framesFrom false ps) =
      (log.last :: withGaps log.last (timestampRuns log.last (ps.map timestamp))).dropLast := by
  induction ps generalizing log with
  | nil => rfl
  | cons p ps ih =>
    have hp := hps p (by simp)
    have ih := ih (h.step hp) hp fun q hq => hps q (by simp [hq])
    rw [FrameLog.framesFrom, frameTimestamps, List.map_append]
    rw [frameTimestamps, step_last] at ih
    rw [ih, List.map_cons, timestampRuns, FrameLog.newFrames, if_neg (by simp)]
    by_cases hsame : timestamp p = log.last
    · rw [if_neg fun hc => hc.2 hsame, if_pos hsame, hsame]
      rfl
    · have horigin : firstTimestamp log.assembled = log.last := by
        obtain ⟨q, qs, hq⟩ := List.exists_cons_of_ne_nil fun hc => hlast.ne' (h.1.mpr hc)
        rw [hq]
        exact h.2 q (by simp [hq])
      have hgap := frameTimestamps_gapPushes log.last (timestamp p)
      rw [frameTimestamps] at hgap
      rw [if_pos ⟨hlast, hsame⟩, if_neg hsame, List.map_cons, hgap, withGaps, ← List.cons_append,
        List.dropLast_append_of_ne_nil (by simp), FrameOrigin.timestamp, horigin]

/-- In a block of one packet a frame every packet is its own frame. -/
theorem framesFrom_timestamps_onePacket (log : FrameLog) {chan : ℕ}
    (h : ∀ q ∈ log.assembled, channel q = chan) {ps : List Packet}
    (hps : ∀ p ∈ ps, channel p = chan) :
    frameTimestamps (log.framesFrom true ps) = withGaps log.last (ps.map timestamp) := by
  induction ps generalizing log with
  | nil => rfl
  | cons p ps ih =>
    have hp := hps p (by simp)
    have hcopy : recordCopy log.assembled p = [p] := by
      have hnone : log.assembled.filter
          (fun q => voltageChan (pointer q) ≠ voltageChan (pointer p)) = [] := by
        refine List.filter_eq_nil_iff.mpr fun q hq => ?_
        have := h q hq
        rw [channel] at this hp
        simp [this, hp]
      rw [recordCopy, hnone, List.nil_append]
    have hnext : ∀ q ∈ (log.step true p).assembled, channel q = chan := by
      intro q hq
      have hasm : (log.step true p).assembled = [p] := by
        rw [← hcopy]
        simp [FrameLog.step, FrameLog.assemble]
      rw [hasm] at hq
      rw [List.mem_singleton.mp hq, hp]
    have ih := ih (log.step true p) hnext fun q hq => hps q (by simp [hq])
    have hgap := frameTimestamps_gapPushes log.last (timestamp p)
    rw [frameTimestamps, step_last] at ih
    rw [frameTimestamps] at hgap
    rw [FrameLog.framesFrom, frameTimestamps, List.map_append, ih, FrameLog.newFrames,
      if_pos rfl, List.map_append, hgap, hcopy, List.append_assoc]
    rfl

end FrameLog

namespace VoltageBlock

variable (B : VoltageBlock)

theorem channel_eq_of_inRange {p : Packet} (hone : B.packets = 1) (hp : B.InRange p) :
    channel p = B.firstChannel := by
  have hl := B.lastChannel_eq
  obtain ⟨hlo, hhi⟩ := hp
  unfold firstChannel channel at *
  omega

theorem gapOf_zero (t : ℕ) : gapOf 0 t = [] := if_neg fun h => absurd h.1 (by omega)

/-- **The frames of a packet sequence**, by timestamp. -/
theorem frames_timestamp {ps : List Packet} (hps : ∀ p ∈ ps, B.InRange p ∧ 0 < timestamp p) :
    FrameLog.frameTimestamps (frameLog B.cfg.bOnePacket ps).pushed =
      if B.packets = 1 then withGaps 0 (ps.map timestamp)
      else (withGaps 0 (timestampRuns 0 (ps.map timestamp))).dropLast := by
  rw [frameLog, FrameLog.foldl_pushed, B.bOnePacket_eq]
  change FrameLog.frameTimestamps (FrameLog.empty.framesFrom _ ps) = _
  by_cases hone : B.packets = 1
  · rw [if_pos hone, decide_eq_true hone]
    exact FrameLog.framesFrom_timestamps_onePacket .empty (by simp [FrameLog.empty])
      fun p hp => B.channel_eq_of_inRange hone (hps p hp).1
  · rw [if_neg hone, decide_eq_false hone]
    cases ps with
    | nil => rfl
    | cons p ps =>
      have hp := (hps p (by simp)).2
      have huniform : FrameLog.empty.Uniform := ⟨by simp [FrameLog.empty], by simp [FrameLog.empty]⟩
      rw [FrameLog.framesFrom, show FrameLog.empty.newFrames false p = [] from rfl,
        List.nil_append, FrameLog.framesFrom_timestamps (huniform.step hp) hp
          fun q hq => (hps q (by simp [hq])).2, List.map_cons, timestampRuns, if_neg hp.ne',
        withGaps, gapOf_zero, List.nil_append, FrameLog.step_last]

/-- The frames of a packet sequence are in order exactly when the packets that
start them are. -/
theorem frames_increasing_iff {ps : List Packet}
    (hps : ∀ p ∈ ps, B.InRange p ∧ 0 < timestamp p) :
    (FrameLog.frameTimestamps (frameLog B.cfg.bOnePacket ps).pushed).Pairwise (· < ·) ↔
      (frameHeads B.cfg.bOnePacket (ps.map timestamp)).Pairwise (· < ·) := by
  have hgaps : ∀ t ts, withGaps 0 (t :: ts) = t :: withGaps t ts := by
    intro t ts
    rw [withGaps, gapOf_zero, List.nil_append]
  rw [B.frames_timestamp hps, frameHeads, B.bOnePacket_eq]
  by_cases hone : B.packets = 1
  · rw [if_pos hone, if_pos (decide_eq_true hone)]
    cases ps.map timestamp with
    | nil => rfl
    | cons t ts =>
      rw [hgaps]
      exact withGaps_pairwise t ts
  · rw [if_neg hone, if_neg (by simp [hone])]
    cases timestampRuns 0 (ps.map timestamp) with
    | nil => rfl
    | cons t ts =>
      rw [hgaps]
      exact withGaps_dropLast_pairwise t ts

end VoltageBlock

/-- All vectors that a run has pushed to the queue of the first port: those it has
output, and those still queued. -/
def pushedVectors (w : WorkRun) : List TimeVector :=
  w.items.map OutItem.x ++ w.source.volt.xVectorQueue

/-- The frames pushed by a run, one for each first row, by timestamp. -/
def pushedTimestamps (w : WorkRun) : List ℕ :=
  ((pushedVectors w).filter fun v => v.row = 0).map fun v => v.origin.timestamp

namespace VoltageBlock

variable (B : VoltageBlock)

theorem filter_frame (f : FramePush) :
    ((B.queuedItems f).map Queued.x).filter (fun v => v.row = 0) =
      [⟨B.rowData .x f.origin 0, f.origin, 0⟩] := by
  rw [queuedItems, List.map_map, List.filter_map]
  have hfilter : (List.range 16).filter ((fun v : TimeVector => decide (v.row = 0)) ∘
      Queued.x ∘ B.queuedRow f) = [0] := by
    rfl
  rw [hfilter]
  rfl

theorem Tracks.pushedVectors_eq {B : VoltageBlock} {arrived taken : List Packet}
    {delivered queue : List Queued} {w : WorkRun} (h : B.Tracks arrived taken delivered queue w) :
    pushedVectors w = (frameLog B.cfg.bOnePacket taken).pushed.flatMap fun f =>
      (B.queuedItems f).map Queued.x := by
  rw [pushedVectors, h.items_x, h.shows.xQueue, ← List.map_append, h.frames, List.map_flatMap]

theorem Tracks.pushedTimestamps_eq {B : VoltageBlock} {arrived taken : List Packet}
    {delivered queue : List Queued} {w : WorkRun} (h : B.Tracks arrived taken delivered queue w) :
    pushedTimestamps w =
      FrameLog.frameTimestamps (frameLog B.cfg.bOnePacket taken).pushed := by
  rw [pushedTimestamps, h.pushedVectors_eq, List.filter_flatMap]
  simp only [filter_frame, List.map_flatMap, List.map_cons, List.map_nil]
  rw [FrameLog.frameTimestamps, List.map_eq_flatMap]

/-- **Order of the frames.** For in-range packets with timestamps that are non-zero
multiples of 16, in any order, every schedule returns, and the frames it pushes
have increasing timestamps exactly when the frames that the packets taken start
and complete come in that order. -/
theorem run_increasing_iff (env : Environment) {calls : List Call}
    (hcalls : ∀ call ∈ calls, call.Valid)
    (hpackets : ∀ p ∈ arrivals calls, B.InRange p ∧ 0 < timestamp p ∧ 16 ∣ timestamp p) :
    ∃ w taken, B.run env calls = .ok w ∧
      arrivals calls = taken ++ w.source.recv.dLocalqueue ∧
      ((pushedTimestamps w).Pairwise (· < ·) ↔
        (frameHeads B.cfg.bOnePacket (taken.map timestamp)).Pairwise (· < ·)) := by
  have hadm : ∀ last ps, 16 ∣ last → (∀ p ∈ ps, B.InRange p ∧ 0 < timestamp p ∧
      16 ∣ timestamp p) → B.Admissible last ps := by
    intro last ps
    induction ps generalizing last with
    | nil => exact fun _ _ => trivial
    | cons p ps ih =>
      intro hlast hps
      obtain ⟨hp, _, hd⟩ := hps p (by simp)
      exact ⟨hp, gapEnds_of_dvd (timestamp_lt p) (Nat.dvd_sub hd hlast),
        ih _ hd fun q hq => hps q (by simp [hq])⟩
  obtain ⟨w, taken, delivered, queue, hw, ht, -, -⟩ :=
    B.run_tracks env calls hcalls (hadm 0 _ (Nat.dvd_zero 16) hpackets)
  refine ⟨w, taken, hw, ht.consumed, ?_⟩
  rw [ht.pushedTimestamps_eq]
  exact B.frames_increasing_iff fun p hp => by
    obtain ⟨h1, h2, _⟩ := hpackets p (ht.taken_arrived.subset hp)
    exact ⟨h1, h2⟩

theorem run_increasing_iff_two_frames :
    let B := ofWidth 1 (by decide) (by decide) true
    let calls := [Call.taking [plainPacket 0 16, plainPacket 0 48] 48]
    ∃ w taken, B.run ⟨[], fun _ _ => 0⟩ calls = .ok w ∧
      arrivals calls = taken ++ w.source.recv.dLocalqueue ∧
      ((pushedTimestamps w).Pairwise (· < ·) ↔
        (frameHeads B.cfg.bOnePacket (taken.map timestamp)).Pairwise (· < ·)) := by
  intro B calls
  refine run_increasing_iff B _ ?_ ?_
  · intro call hcall
    rw [List.mem_singleton.mp hcall]
    exact Call.taking_valid _ (by decide) (by decide)
  · intro p hp
    have hrange : ∀ ts, B.InRange (plainPacket 0 ts) :=
      ofWidth_inRange (s := 0) (by decide) (by decide) true (by decide)
    rcases List.mem_cons.mp hp with rfl | hp
    · exact ⟨hrange _, by rw [timestamp_plainPacket _ (by decide)]; decide⟩
    · rw [List.mem_singleton.mp hp]
      exact ⟨hrange _, by rw [timestamp_plainPacket _ (by decide)]; decide⟩

/-- A duplicated packet: the frame at 16 is pushed twice. -/
theorem run_duplicate_frame :
    let B := ofWidth 1 (by decide) (by decide) true
    let calls := [Call.taking [plainPacket 0 16, plainPacket 0 16] 48]
    (∀ call ∈ calls, call.Valid) ∧
      (∀ p ∈ arrivals calls, B.InRange p ∧ 0 < timestamp p ∧ 16 ∣ timestamp p) ∧
      ∃ w, B.run ⟨[], fun _ _ => 0⟩ calls = .ok w ∧ pushedTimestamps w = [16, 16] ∧
        ¬(pushedTimestamps w).Pairwise (· < ·) := by
  intro B calls
  have hcalls : ∀ call ∈ calls, call.Valid := by
    intro call hcall
    rw [List.mem_singleton.mp hcall]
    exact Call.taking_valid _ (by decide) (by decide)
  have h16 : timestamp (plainPacket 0 16) = 16 := timestamp_plainPacket 0 (by decide)
  have hrange : B.InRange (plainPacket 0 16) :=
    ofWidth_inRange (s := 0) (by decide) (by decide) true (by decide) 16
  have hpackets : ∀ p ∈ arrivals calls, p = plainPacket 0 16 := by
    simp [calls, arrivals, Call.taking]
  have hadm : B.Admissible 0 (arrivals calls) :=
    ⟨hrange, gapEnds_zero _, hrange, gapEnds_of_le (by rw [h16]; decide), trivial⟩
  obtain ⟨w, taken, delivered, queue, hw, ht, -⟩ :=
    B.run_tracks ⟨[], fun _ _ => 0⟩ calls hcalls hadm
  have hframes : FrameLog.frameTimestamps (frameLog B.cfg.bOnePacket (arrivals calls)).pushed =
      [16, 16] := by
    rw [B.frames_timestamp fun p hp => by rw [hpackets p hp, h16]; exact ⟨hrange, by decide⟩,
      if_pos (show B.packets = 1 from rfl)]
    simp [calls, arrivals, Call.taking, h16, withGaps, gapOf]
  -- the call asks for more items than there are, so it takes both packets
  have htaken : arrivals calls = taken := by
    have hcount := congrArg List.length hframes
    rw [FrameLog.frameTimestamps, List.length_map] at hcount
    have hlocal : w.source.recv.dLocalqueue = [] :=
      run_takes_all hcalls hadm (n := 48) (by simp [calls, Call.taking])
        (by rw [hcount]; decide) hw
    rw [ht.consumed, hlocal, List.append_nil]
  have hpushed : pushedTimestamps w = [16, 16] := by
    rw [ht.pushedTimestamps_eq, ← htaken, hframes]
  refine ⟨hcalls, fun p hp => ?_, w, hw, hpushed, ?_⟩
  · rw [hpackets p hp, h16]
    exact ⟨hrange, by decide, by decide⟩
  · rw [hpushed]
    decide

end VoltageBlock

end GrAta
