import GrAta.Flowgraph.Supply
import GrAta.Library.Fairness
import Mathlib.Algebra.Order.BigOperators.Group.Finset

/-!
# What the flowgraph delivers

From the frame on with which the last stream starts, the outputs show the streams of all
sources, as far as all of them go. Under a fair schedule they come out completely: the
sources bring their streams to the end, and then the synchronizer uses one of them up.

## Main definitions

- `Flowgraph.Supply.Fair`: every block is called again and again

## Main results

- `Flowgraph.Supply.run_delivers`: every schedule, and fair ones
-/

namespace GrAta

/-- **A call advances.** Unless it leaves nothing behind, it outputs what it is asked for. -/
theorem VoltageBlock.workCall_advances {B : VoltageBlock} {arrived taken : List Packet}
    {delivered queue : List Queued} {w w' : WorkRun}
    (h : B.Tracks arrived taken delivered queue w) {call : Call} (hcall : call.Valid)
    (hadm : B.Admissible 0 (arrived ++ call.arrived)) (hwork : workCall B.cfg w call = .ok w') :
    w'.items.length =
        ((frameLog B.cfg.bOnePacket (arrived ++ call.arrived)).pushed.flatMap
          B.queuedItems).length ∨
      w.items.length < w'.items.length := by
  obtain ⟨t, hmsgs, ht⟩ := handleMessages_spec hcall.messages w.source.volt
  have hrest : B.Admissible (frameLog B.cfg.bOnePacket taken).last
      (call.receive w.source.recv).dLocalqueue := by
    rw [h.consumed, List.append_assoc] at hadm
    rw [frameLog_last]
    exact (B.admissible_append.mp hadm).2
  obtain ⟨more, result, s', hvolt, hserves⟩ :=
    B.workVoltMode_shows (s := { w.source with
      recv := call.receive w.source.recv
      volt := { w.source.volt with syncTimestamp := t } })
      (h.shows.announced fun h0 => h.shows.seqNums (ht h0)) hrest call.noutputItems true
  have htracks := h.serve hcall.pos ht hserves rfl
  rw [workCall, hmsgs, ok_bind, hvolt, ok_bind] at hwork
  cases hwork
  have hcount := congrArg List.length hserves.items
  rw [List.length_map, List.length_take] at hcount
  by_cases hfew : (queue ++ ((frameLog B.cfg.bOnePacket taken).framesFrom
      B.cfg.bOnePacket more).flatMap B.queuedItems).length < call.noutputItems
  · left
    have hlocal := hserves.enough.resolve_right (by omega)
    have hframes := htracks.frames
    have hconsumed := htracks.consumed
    rw [hlocal, List.append_nil] at hconsumed
    rw [List.drop_eq_nil_of_le hfew.le, List.append_nil] at hframes
    rw [htracks.items_length, hframes, hconsumed]
  · right
    have hpos := hcall.pos
    rw [w.items_concat, List.length_append]
    omega

/-- The event is a call of source `i`. -/
def Event.isWork {n : ℕ} (i : Fin n) : Event n → Bool
  | .work j _ => j = i
  | .generalWork _ => false

/-- The event is a call of the synchronizer for one block of items. -/
def Event.isBlock {n : ℕ} : Event n → Bool
  | .work _ _ => false
  | .generalWork noutputItems => noutputItems = 16

namespace Flowgraph

namespace Supply

variable {n : ℕ} {G : Flowgraph n} {S : G.Supply} {events : List (Event n)} {s s' : FlowState n}

-- ════════════════════════════════════════════════════════════════════════
-- Outputs
-- ════════════════════════════════════════════════════════════════════════

/-- The streams as far as they have come. -/
theorem Reached.stream (h : S.Reached events s) (i : Fin n) :
    (s.stream i).map Item.data = (List.range (s.stream i).length).map (S.item i) ∧
      (s.stream i).length ≤ S.length i := by
  have hitems := Blocks.eq_of_prefix (h.arrived.stream h.composed i)
  rwa [List.length_map] at hitems

/-- What the outputs hold once the synchronizer forwards. -/
theorem Reached.forwarded (h : S.Reached events s) {count : ℕ}
    (hforward : Forwarding S.behind count s) (i : Fin n) :
    s.synchronizer.outputItems i = (List.range count).map fun k => S.item i (S.behind i + k) := by
  rw [hforward.output i, List.map_take, List.map_drop, (h.stream i).1,
    Blocks.take_drop_range _ (hforward.read_le i)]

theorem Reached.published (h : S.Reached events s) :
    s.synchronizer.published <+: [Synchronizer.syncPdu (S.lead + S.ahead)] := by
  cases h.phase with
  | waiting hwait hread =>
    rw [hwait.published]
    exact List.nil_prefix
  | forwarding count hdvd hforward hpublished => exact hpublished ▸ List.prefix_rfl

theorem Reached.dvd_read (h : S.Reached events s) (i : Fin n) :
    16 ∣ s.synchronizer.nitemsRead i := by
  cases h.phase with
  | waiting hwait hread => exact hwait.boundary i
  | forwarding count hdvd hforward hpublished =>
    rw [hforward.read i]
    exact Nat.dvd_add (dvd_behind i) hdvd

theorem Reached.read_le (h : S.Reached events s) (i : Fin n) :
    s.synchronizer.nitemsRead i ≤ (s.stream i).length := by
  cases h.phase with
  | waiting hwait hread => exact hwait.read_le i
  | forwarding count hdvd hforward hpublished =>
    rw [hforward.read i]
    exact hforward.read_le i

variable [NeZero n] in
theorem Reached.count_le (h : S.Reached events s) {count : ℕ}
    (hforward : Forwarding S.behind count s) : count ≤ S.count := by
  refine Finset.le_inf' _ _ fun i _ => ?_
  have hread := hforward.read_le i
  have hlength := (h.stream i).2
  omega

variable [NeZero n] in
/-- The outputs are the beginning of what they should be. -/
theorem Reached.output (h : S.Reached events s) (i : Fin n) :
    s.synchronizer.outputItems i <+: S.output i := by
  cases h.phase with
  | waiting hwait hread =>
    rw [hwait.silent i]
    exact List.nil_prefix
  | forwarding count hdvd hforward hpublished =>
    rw [h.forwarded hforward i, output_eq]
    exact (Blocks.range_mono (h.count_le hforward)).map _

/-- Some input is used up. -/
def UsedUp (S : G.Supply) (s : FlowState n) : Prop :=
  ∃ i, s.synchronizer.nitemsRead i = S.length i

variable [NeZero n] in
/-- When one input is used up, everything has come out. -/
theorem Reached.complete (h : S.Reached events s) (hend : S.UsedUp s) :
    (∀ i, s.synchronizer.outputItems i = S.output i) ∧
      (S.count ≠ 0 → s.synchronizer.published = [Synchronizer.syncPdu (S.lead + S.ahead)]) := by
  obtain ⟨i, hend⟩ := hend
  have hcount := S.count_le i
  cases h.phase with
  | waiting hwait hread =>
    have hi := hread i
    have hnone : S.count = 0 := by omega
    refine ⟨fun j => ?_, fun hsome => absurd hnone hsome⟩
    rw [hwait.silent j, Supply.output, hnone]
    rfl
  | forwarding count hdvd hforward hpublished =>
    have hi := hforward.read i
    have hle := h.count_le hforward
    refine ⟨fun j => ?_, fun _ => hpublished⟩
    rw [h.forwarded hforward j, output_eq, show count = S.count by omega]

-- ════════════════════════════════════════════════════════════════════════
-- What brings a run forward
-- ════════════════════════════════════════════════════════════════════════

theorem step_grows {e : Event n} (h : G.step s e = .ok s') (i : Fin n) :
    s.stream i <+: s'.stream i := by
  cases e with
  | work j call => exact (work_grows h).2 i
  | generalWork noutputItems =>
    rw [Flowgraph.step] at h
    split at h
    · obtain ⟨t, -, h⟩ := bind_eq_ok h
      cases h
      exact List.prefix_rfl
    · cases h
      exact List.prefix_rfl

/-- A call of a source when all packets have arrived. -/
theorem Reached.work_advances (h : S.Reached events s) {i : Fin n} {call : Call}
    (ha : S.Arrived (events ++ [.work i call])) (hall : arrivedAt i events = S.packets i)
    (hstep : G.step s (.work i call) = .ok s') :
    (s'.stream i).length = S.length i ∨ (s.stream i).length < (s'.stream i).length := by
  rw [Flowgraph.step] at hstep
  obtain ⟨w, hw, hstep⟩ := bind_eq_ok hstep
  cases hstep
  have hcall : ∀ c, (if s.synchronizer.dSynchronized then call else call.quiet) = c →
      c.Valid ∧ c.arrived = call.arrived := by
    have hvalid : call.Valid := ha.valid (.work i call) (by simp)
    rintro c rfl
    split
    · exact ⟨hvalid, rfl⟩
    · exact ⟨Call.quiet_valid hvalid, rfl⟩
  obtain ⟨hvalid, harrived⟩ := hcall _ rfl
  have hnone : call.arrived = [] := by
    have hle := (ha.packets i).length_le
    rw [arrivedAt_work_self, hall, List.length_append] at hle
    exact List.eq_nil_of_length_eq_zero (by omega)
  rw [hnone] at harrived
  obtain ⟨taken, delivered, queue, htracks⟩ := h.composed.tracks i
  rw [hall] at htracks
  have hadvances := VoltageBlock.workCall_advances htracks hvalid
    (by rw [harrived, List.append_nil]; exact (S.lossy i).admissible) hw
  rw [harrived, List.append_nil, (S.lossy i).rows_eq, List.length_map, List.length_range,
    S.mode i] at hadvances
  rw [FlowState.stream, FlowState.stream, s.withSource_self, List.length_map, List.length_map]
  exact hadvances

/-- How much a source has still to output. -/
def remaining (S : G.Supply) (i : Fin n) (s : FlowState n) : ℕ := S.length i - (s.stream i).length

/-- Calls of a source bring its stream to the end. -/
theorem Reached.stream_advances (h : S.Reached events s) {e : Event n}
    (h' : S.Reached (events ++ [e]) s') (hstep : G.step s e = .ok s') {i : Fin n}
    (hall : arrivedAt i events = S.packets i) :
    Execution.Advances (fun s => S.remaining i s = 0) (S.remaining i) (fun _ => true)
      (e.isWork i) s s' := by
  have hgrow := (step_grows hstep i).length_le
  have hle := (h'.stream i).2
  by_cases hkind : e.isWork i = true
  · cases e with
    | generalWork noutputItems => cases hkind
    | work j call =>
      obtain rfl : j = i := of_decide_eq_true hkind
      rcases h.work_advances h'.arrived hall hstep with hend | hmore
      · exact .reached (by rw [remaining, hend, Nat.sub_self])
      · exact .lower (by rw [remaining, remaining]; omega)
  · rcases hgrow.lt_or_eq with hlt | heq
    · exact .lower (by rw [remaining, remaining]; omega)
    · exact .waits hkind (by rw [remaining, remaining, heq]) rfl

/-- How much of the streams the synchronizer has still to consume. -/
def unread (S : G.Supply) (s : FlowState n) : ℕ :=
  ∑ i, (S.length i - s.synchronizer.nitemsRead i)

-- ════════════════════════════════════════════════════════════════════════
-- Fair schedules
-- ════════════════════════════════════════════════════════════════════════

theorem Arrived.of_concat {e : Event n} (h : S.Arrived (events ++ [e])) : S.Arrived events where
  valid := fun e' he' => h.valid e' (List.mem_append_left [e] he')
  packets := fun i => by
    obtain ⟨ps, hps⟩ := arrivedAt_append (i := i) events [e]
    exact (List.prefix_append _ ps).trans (hps ▸ h.packets i)

/-- The schedule of a supply. All packets arrive, every source is called again and again, and
the synchronizer is called again and again for one block of items. -/
structure Fair (S : G.Supply) (schedule : ℕ → Event n) : Prop where
  arrives : ∃ m, ∀ i, arrivedAt i (Execution.first schedule m) = S.packets i
  works : ∀ i m, ∃ m', m ≤ m' ∧ ∃ call, schedule m' = .work i call
  forwards : ∀ m, ∃ m', m ≤ m' ∧ schedule m' = .generalWork 16

theorem all_arrived {schedule : ℕ → Event n}
    (ha : ∀ m, S.Arrived (Execution.first schedule m)) {m m' : ℕ} (hm : m ≤ m') {i : Fin n}
    (hall : arrivedAt i (Execution.first schedule m) = S.packets i) :
    arrivedAt i (Execution.first schedule m') = S.packets i := by
  induction m', hm using Nat.le_induction with
  | base => exact hall
  | succ m' _ ih =>
    obtain ⟨ps, hps⟩ := arrivedAt_append (i := i) (Execution.first schedule m') [schedule m']
    have hle := ((ha (m' + 1)).packets i).length_le
    rw [Execution.first_succ, hps, ih, List.length_append] at hle
    rw [Execution.first_succ, hps, ih, List.eq_nil_of_length_eq_zero (by omega : ps.length = 0),
      List.append_nil]

variable [NeZero n]

/-- Calls of the synchronizer use up an input, when all streams have come to their ends. -/
theorem Reached.input_advances (h : S.Reached events s) {e : Event n}
    (h' : S.Reached (events ++ [e]) s') (hstep : G.step s e = .ok s')
    (hends : ∀ i, S.remaining i s = 0) (hnot : ¬S.UsedUp s) :
    Execution.Advances S.UsedUp S.unread (fun _ => true) e.isBlock s s' := by
  cases e with
  | work j call =>
    refine .waits Bool.false_ne_true ?_ rfl
    rw [unread, unread, (work_grows hstep).1]
  | generalWork noutputItems =>
    obtain ⟨hpos, hdvd⟩ := h'.arrived.valid (.generalWork noutputItems) (by simp)
    by_cases hlen : ∀ i, noutputItems ≤ (s.waiting i).length
    · obtain ⟨s'', hstep', hprogress⟩ := h.generalWork hpos hdvd hlen
      obtain rfl := Except.ok.inj (hstep.symm.trans hstep')
      obtain ⟨i, hi⟩ := hprogress.some
      refine .lower (Finset.sum_lt_sum (fun j _ => ?_) ⟨i, Finset.mem_univ i, ?_⟩)
      · exact Nat.sub_le_sub_left (hprogress.read j) _
      · have hread := h'.read_le i
        have hle := (h'.stream i).2
        omega
    · have hstay : G.step s (.generalWork noutputItems) = .ok s := if_neg hlen
      obtain rfl := Except.ok.inj (hstep.symm.trans hstay)
      refine .waits (fun hkind => hnot ?_) rfl rfl
      -- an input that has not one block left has nothing left
      obtain ⟨i, hi⟩ := not_forall.mp hlen
      have hblock : noutputItems = 16 := of_decide_eq_true hkind
      have hend : S.length i - (s'.stream i).length = 0 := hends i
      have hread := h.read_le i
      have hle := (h.stream i).2
      have hmultiple := h.dvd_read i
      have hlength : 16 ∣ S.length i := Nat.dvd_mul_left 16 _
      rw [FlowState.waiting, List.length_drop] at hi
      exact ⟨i, by omega⟩

theorem Reached.grows_read (h : S.Reached events s) {e : Event n}
    (h' : S.Reached (events ++ [e]) s') (hstep : G.step s e = .ok s') (i : Fin n) :
    s.synchronizer.nitemsRead i ≤ s'.synchronizer.nitemsRead i := by
  cases e with
  | work j call => rw [(work_grows hstep).1]
  | generalWork noutputItems =>
    obtain ⟨hpos, hdvd⟩ := h'.arrived.valid (.generalWork noutputItems) (by simp)
    by_cases hlen : ∀ i, noutputItems ≤ (s.waiting i).length
    · obtain ⟨s'', hstep', hprogress⟩ := h.generalWork hpos hdvd hlen
      rw [Except.ok.inj (hstep.symm.trans hstep')]
      exact hprogress.read i
    · have hstay : G.step s (.generalWork noutputItems) = .ok s := if_neg hlen
      rw [Except.ok.inj (hstep.symm.trans hstay)]

/-- Every run over a supply returns, in one of the two phases. -/
theorem run_reached (ha : S.Arrived events) :
    ∃ s, G.run events = .ok s ∧ S.Reached events s := by
  obtain ⟨s₀, hinit, h₀⟩ := G.composed_initial
  have hphase : S.Phase s₀ := by
    cases h₀.phase with
    | waiting hwait =>
      obtain ⟨sources, -, hinit⟩ := bind_eq_ok hinit
      cases hinit
      exact .waiting hwait fun i => Nat.zero_le _
    | forwarding before _ _ _ _ _ hsplit => cases before <;> cases hsplit
  have hnone : S.Arrived [] := ⟨fun e he => absurd he List.not_mem_nil, fun i => List.nil_prefix⟩
  obtain ⟨s, hs, hreached⟩ := Execution.run_closed S.Reached S.Arrived
    (fun _ _ h => h.of_concat) (fun _ _ _ h ha => h.step ha) ⟨hnone, h₀, hphase⟩ ha
  refine ⟨s, ?_, hreached⟩
  rw [run, hinit, ok_bind]
  exact hs

theorem next_reached {schedule : ℕ → Event n}
    (ha : ∀ m, S.Arrived (Execution.first schedule m)) {m : ℕ}
    (h : S.Reached (Execution.first schedule m) s) :
    ∃ s', G.step s (schedule m) = .ok s' ∧
      S.Reached (Execution.first schedule m ++ [schedule m]) s' :=
  h.step (Execution.first_succ schedule m ▸ ha (m + 1))

/-- The runs of a schedule from the initial state. -/
theorem reached_iff {schedule : ℕ → Event n}
    (ha : ∀ m, S.Arrived (Execution.first schedule m)) {s₀ : FlowState n}
    (hinit : G.initial = .ok s₀) {m : ℕ} :
    S.Reached (Execution.first schedule m) s ↔
      Execution.run G.step s₀ (Execution.first schedule m) = .ok s := by
  have hrun : G.run (Execution.first schedule m) =
      Execution.run G.step s₀ (Execution.first schedule m) := by
    rw [run, hinit, ok_bind]
  refine ⟨fun h => hrun.symm.trans h.composed.reached, fun h => ?_⟩
  obtain ⟨t, ht, hreached⟩ := run_reached (ha m)
  rwa [Except.ok.inj ((hrun.trans h).symm.trans ht)]

/-- What no event raises is never higher later on. -/
theorem later_le {schedule : ℕ → Event n}
    (ha : ∀ m, S.Arrived (Execution.first schedule m)) {f : FlowState n → ℕ}
    (hstep : ∀ events s e s', S.Reached events s → S.Reached (events ++ [e]) s' →
      G.step s e = .ok s' → f s' ≤ f s) {m m' : ℕ} (hm : m ≤ m')
    (h : S.Reached (Execution.first schedule m) s)
    (h' : S.Reached (Execution.first schedule m') s') : f s' ≤ f s := by
  induction m', hm using Nat.le_induction generalizing s' with
  | base => rw [Except.ok.inj (h'.composed.reached.symm.trans h.composed.reached)]
  | succ m' _ ih =>
    obtain ⟨t, -, ht⟩ := run_reached (ha m')
    obtain ⟨t', hnext, ht'⟩ := next_reached ha ht
    have hsame : t' = s' := by
      have hrun := ht'.composed.reached
      rw [← Execution.first_succ] at hrun
      exact Except.ok.inj (hrun.symm.trans h'.composed.reached)
    exact (hsame ▸ hstep _ _ _ _ ht ht' hnext).trans (ih ht)

/-- Under a fair schedule every stream comes to its end. -/
theorem Fair.stream_ends {schedule : ℕ → Event n} (hfair : S.Fair schedule)
    (ha : ∀ m, S.Arrived (Execution.first schedule m)) (i : Fin n) :
    ∃ m s, S.Reached (Execution.first schedule m) s ∧ S.remaining i s = 0 := by
  obtain ⟨s₀, hinit, -⟩ := G.composed_initial
  have hiff := fun {m s} => reached_iff (m := m) (s := s) ha hinit
  obtain ⟨m₁, hall⟩ := hfair.arrives
  obtain ⟨s₁, -, hs₁⟩ := run_reached (ha m₁)
  have hcomes : ∀ (_ : FlowState n) k, ∃ m, k ≤ m ∧ (schedule m).isWork i = true := by
    intro _ k
    obtain ⟨m, hm, call, hcall⟩ := hfair.works i k
    exact ⟨m, hm, by rw [hcall]; exact decide_eq_true rfl⟩
  obtain ⟨m, s, -, hs, hend⟩ := Execution.reaches hcomes (fun m s hm hs _ => by
    obtain ⟨s', hstep, hs'⟩ := next_reached ha (hiff.mpr hs)
    exact ⟨s', hstep, (hiff.mpr hs).stream_advances hs' hstep (all_arrived ha hm (hall i))⟩)
    (hiff.mp hs₁)
  exact ⟨m, s, hiff.mpr hs, hend⟩

/-- Under a fair schedule some input of the synchronizer is used up. -/
theorem Fair.usedUp {schedule : ℕ → Event n} (hfair : S.Fair schedule)
    (ha : ∀ m, S.Arrived (Execution.first schedule m)) :
    ∃ m s, S.Reached (Execution.first schedule m) s ∧ S.UsedUp s := by
  obtain ⟨s₀, hinit, -⟩ := G.composed_initial
  have hiff := fun {m s} => reached_iff (m := m) (s := s) ha hinit
  choose m₁ s₁ hs₁ hends using hfair.stream_ends ha
  -- a stream that has come to its end stays there
  have hall : ∀ {m s}, Finset.univ.sup m₁ ≤ m → S.Reached (Execution.first schedule m) s →
      ∀ i, S.remaining i s = 0 := by
    intro m s hm hs i
    have hle := later_le ha (f := S.remaining i)
      (fun _ _ _ _ _ _ hstep => Nat.sub_le_sub_left (step_grows hstep i).length_le _)
      ((Finset.le_sup (f := m₁) (Finset.mem_univ i)).trans hm) (hs₁ i) hs
    rw [hends i] at hle
    exact Nat.eq_zero_of_le_zero hle
  obtain ⟨t, -, ht⟩ := run_reached (ha (Finset.univ.sup m₁))
  have hcomes : ∀ (_ : FlowState n) k, ∃ m, k ≤ m ∧ (schedule m).isBlock = true := by
    intro _ k
    obtain ⟨m, hm, hcall⟩ := hfair.forwards k
    exact ⟨m, hm, by rw [hcall]; rfl⟩
  obtain ⟨m, s, -, hs, hend⟩ := Execution.reaches hcomes (fun m s hm hs hnot => by
    obtain ⟨s', hstep, hs'⟩ := next_reached ha (hiff.mpr hs)
    exact ⟨s', hstep, (hiff.mpr hs).input_advances hs' hstep (hall hm (hiff.mpr hs)) hnot⟩)
    (hiff.mp ht)
  exact ⟨m, s, hiff.mpr hs, hend⟩

/-- **What the flowgraph delivers.** At any time the outputs are the beginning of what they
should be. Under a fair schedule they are complete from some point on. -/
theorem run_delivers (S : G.Supply) {schedule : ℕ → Event n}
    (ha : ∀ m, S.Arrived (Execution.first schedule m)) :
    (∀ m, ∃ s, G.run (Execution.first schedule m) = .ok s ∧
      (∀ i, s.synchronizer.outputItems i <+: S.output i) ∧
      s.synchronizer.published <+: [Synchronizer.syncPdu (S.lead + S.ahead)]) ∧
    (S.Fair schedule → ∃ m₀, ∀ m, m₀ ≤ m → ∃ s, G.run (Execution.first schedule m) = .ok s ∧
      (∀ i, s.synchronizer.outputItems i = S.output i) ∧
      (S.count ≠ 0 →
        s.synchronizer.published = [Synchronizer.syncPdu (S.lead + S.ahead)])) := by
  refine ⟨fun m => ?_, fun hfair => ?_⟩
  · obtain ⟨s, hs, hreached⟩ := run_reached (ha m)
    exact ⟨s, hs, hreached.output, hreached.published⟩
  · obtain ⟨m₀, s₀, hs₀, i, hend⟩ := hfair.usedUp ha
    refine ⟨m₀, fun m hm => ?_⟩
    obtain ⟨s, hs, hreached⟩ := run_reached (ha m)
    refine ⟨s, hs, hreached.complete ⟨i, ?_⟩⟩
    -- what is used up stays used up
    have hle := later_le ha (f := fun s => S.length i - s.synchronizer.nitemsRead i)
      (fun _ _ _ _ h h' hstep => Nat.sub_le_sub_left (h.grows_read h' hstep i) _) hm hs₀ hreached
    have hread := (hreached.read_le i).trans (hreached.stream i).2
    simp only [hend] at hle
    omega

-- ════════════════════════════════════════════════════════════════════════
-- Two sources
-- ════════════════════════════════════════════════════════════════════════

end Supply

/-- The first packets of the frames from 16 on, and of those from 32 on. -/
def lateStart : Fin 2 → List Packet :=
  ![[plainPacket 0 16, plainPacket 0 32, plainPacket 0 48], [plainPacket 0 32, plainPacket 0 48]]

theorem lossyStream_lateStart (i : Fin 2) :
    LossyStream (twoSources.blocks i) (![16, 32] i) (lateStart i) := by
  fin_cases i
  · exact
      { delivered := by
          have hsub : [plainPacket 0 16, plainPacket 0 32, plainPacket 0 48].Sublist
              [plainPacket 0 16, plainPacket 256 16, plainPacket 0 32, plainPacket 256 32,
                plainPacket 0 48, plainPacket 256 48] :=
            .cons_cons _ (.cons _ (.cons_cons _ (.cons _ (.cons_cons _ (List.nil_sublist _)))))
          exact ⟨FullStream.plain _ 16 3 (by decide), hsub⟩
        first_pos := by decide
        synchronized := fun p hp => by
          rw [← Option.some.inj hp]
          exact channel_plainPacket (by decide) _
        losses := by simp [lateStart, timestamp_plainPacket, MAX_MISSED_SETS] }
  · exact lossyStream_second_source

def lateSupply : twoSources.Supply where
  onePacket := false
  mode _ := rfl
  first := ![16, 32]
  congruent := by decide
  packets := lateStart
  arrives := by decide
  lossy := lossyStream_lateStart
  dense := .inr fun i => by
    fin_cases i <;> simp [Dense, lateStart, timestamp_plainPacket]

/-- The sources are called one after the other, and then the synchronizer. -/
def round (packets : Fin 2 → List Packet) : List (Event 2) :=
  (List.finRange 2).map (fun i => .work i (.taking (packets i) 16)) ++ [.generalWork 16]

/-- Rounds without end. All packets arrive in the first one. -/
def inTurn (m : ℕ) : Event 2 :=
  (if m < 3 then round lateStart else round fun _ => []).getD (m % 3) (.generalWork 16)

theorem inTurn_work {m : ℕ} {i : Fin 2} (hm : m % 3 = i) :
    inTurn m = .work i (.taking (if m < 3 then lateStart i else []) 16) := by
  rw [inTurn, hm]
  fin_cases i
  · split <;> rfl
  · split <;> rfl

theorem inTurn_generalWork {m : ℕ} (hm : m % 3 = 2) : inTurn m = .generalWork 16 := by
  rw [inTurn, hm]
  split <;> rfl

/-- An event of the schedule. -/
theorem inTurn_cases (m : ℕ) :
    (∃ i : Fin 2, m % 3 = i ∧
      inTurn m = .work i (.taking (if m < 3 then lateStart i else []) 16)) ∨
    inTurn m = .generalWork 16 := by
  have hlt : m % 3 < 3 := Nat.mod_lt m (by decide)
  by_cases hm : m % 3 = 2
  · exact .inr (inTurn_generalWork hm)
  · have hi : m % 3 = (⟨m % 3, by omega⟩ : Fin 2) := rfl
    exact .inl ⟨_, hi, inTurn_work hi⟩

theorem arrivedAt_inTurn (m : ℕ) (i : Fin 2) :
    arrivedAt i (Execution.first inTurn (m + 2)) = lateStart i := by
  induction m with
  | zero => fin_cases i <;> rfl
  | succ m ih =>
    rw [show m + 1 + 2 = m + 2 + 1 by omega, Execution.first_succ]
    rcases inTurn_cases (m + 2) with ⟨j, hj, h⟩ | h
    · have hlate : ¬m + 2 < 3 := by omega
      rw [h, if_neg hlate]
      fin_cases j <;> fin_cases i <;> simpa [arrivedAt, callsAt, arrivals, Call.taking] using ih
    · rw [h]
      fin_cases i <;> simpa [arrivedAt, callsAt, arrivals, Call.taking] using ih

theorem arrived_inTurn (m : ℕ) : lateSupply.Arrived (Execution.first inTurn m) where
  valid e he := by
    obtain ⟨k, rfl⟩ := Execution.mem_first he
    rcases inTurn_cases k with ⟨i, -, h⟩ | h
    · rw [h]
      exact Call.taking_valid _ (by decide) (by decide)
    · rw [h]
      exact ⟨by decide, by decide⟩
  packets i := by
    match m with
    | 0 => exact List.nil_prefix
    | 1 => fin_cases i <;> first | exact List.prefix_rfl | exact List.nil_prefix
    | m + 2 => exact (arrivedAt_inTurn m i).symm ▸ List.prefix_rfl

theorem fair_inTurn : lateSupply.Fair inTurn where
  arrives := ⟨2, arrivedAt_inTurn 0⟩
  works i m := by
    have hi : (3 * m + i) % 3 = i := by
      have := i.isLt
      omega
    exact ⟨3 * m + i, by omega, _, inTurn_work hi⟩
  forwards m := ⟨3 * m + 2, by omega, inTurn_generalWork (by omega)⟩

/-- The streams of a frame that starts at 16 and one that starts at 32. -/
theorem run_delivers_inTurn :
    ((∀ m, ∃ s, twoSources.run (Execution.first inTurn m) = .ok s ∧
      (∀ i, s.synchronizer.outputItems i <+: lateSupply.output i) ∧
      s.synchronizer.published <+:
        [Synchronizer.syncPdu (lateSupply.lead + lateSupply.ahead)]) ∧
    ∃ m₀, ∀ m, m₀ ≤ m → ∃ s, twoSources.run (Execution.first inTurn m) = .ok s ∧
      (∀ i, s.synchronizer.outputItems i = lateSupply.output i) ∧
      (lateSupply.count ≠ 0 → s.synchronizer.published =
        [Synchronizer.syncPdu (lateSupply.lead + lateSupply.ahead)])) ∧
    lateSupply.count = 16 := by
  refine ⟨⟨(lateSupply.run_delivers arrived_inTurn).1,
    (lateSupply.run_delivers arrived_inTurn).2 fair_inTurn⟩, ?_⟩
  have h16 : timestamp (plainPacket 0 16) = 16 := timestamp_plainPacket 0 (by decide)
  have h32 : timestamp (plainPacket 0 32) = 32 := timestamp_plainPacket 0 (by decide)
  have h48 : timestamp (plainPacket 0 48) = 48 := timestamp_plainPacket 0 (by decide)
  have hhead : lateSupply.head = ![16, 32] := by
    funext i
    fin_cases i
    · exact h16
    · exact h32
  have hlead : lateSupply.lead = 32 := by
    rw [Supply.lead, hhead]
    decide
  have hlength : lateSupply.length = ![32, 16] := by
    funext i
    fin_cases i
    · simp [Supply.length, lateSupply, lateStart, frameCount, lastTimestamp, firstTimestamp,
        h16, h48]
    · simp [Supply.length, lateSupply, lateStart, frameCount, lastTimestamp, firstTimestamp,
        h32, h48]
  simp only [Supply.count, Supply.behind, hlead, hhead, hlength]
  decide

end Flowgraph

end GrAta
