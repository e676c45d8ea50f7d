import GrAta.Flowgraph.Model
import GrAta.Voltage.Announced

/-!
# The handshake loop

The port `sync` of the synchronizer is connected back to the sources. A message that the
synchronizer publishes is handled by every source once, in order, between two of its
calls, at whatever time the runtime delivers it. The same order of calls without any
deliveries shows what the handshake changes: from the delivery on the items of a source
carry no tags. Everything else is the same.

## Main definitions

- `LoopEvent`: a call, or the delivery of a message
- `Flowgraph.loopRun`: the flowgraph with its handshake loop
- `Transparent`: a state of the loop beside one without deliveries

## Main results

- `Flowgraph.loopRun_transparent`: every order of calls and deliveries
-/

namespace GrAta

open Execution

/-- What the runtime may do next in a flowgraph with a handshake loop. -/
inductive LoopEvent (n : ℕ) where
  | work (source : Fin n) (call : Call)
  | generalWork (noutputItems : ℕ)
  | deliver (source : Fin n)

/-- The flowgraph, and how many of the published messages each source has handled. -/
structure LoopState (n : ℕ) where
  flow : FlowState n
  handled : Fin n → ℕ

namespace FlowState

variable {n : ℕ}

/-- The state after source `i` has handled a message. -/
def withVolt (s : FlowState n) (i : Fin n) (volt : VoltState) : FlowState n :=
  s.withSource i ⟨{ (s.sources i).source with volt := volt }, (s.sources i).results⟩

end FlowState

namespace Flowgraph

variable {n : ℕ} (G : Flowgraph n)

/-- One event. A source without unhandled messages has nothing delivered. -/
def loopStep (s : LoopState n) : LoopEvent n → Except Fault (LoopState n)
  | .work i call => do
    let flow ← G.step s.flow (.work i call.quiet)
    .ok { s with flow := flow }
  | .generalWork noutputItems => do
    let flow ← G.step s.flow (.generalWork noutputItems)
    .ok { s with flow := flow }
  | .deliver i =>
    match s.flow.synchronizer.published[s.handled i]? with
    | none => .ok s
    | some msg => do
      let volt ← handleSyncMsg (s.flow.sources i).source.volt msg
      .ok ⟨s.flow.withVolt i volt, Function.update s.handled i (s.handled i + 1)⟩

def loopRun (events : List (LoopEvent n)) : Except Fault (LoopState n) := do
  let flow ← G.initial
  Execution.run G.loopStep ⟨flow, fun _ => 0⟩ events

end Flowgraph

/-- The call that an event makes when nothing is ever delivered. -/
def LoopEvent.undelivered {n : ℕ} : LoopEvent n → Option (Event n)
  | .work i call => some (.work i call.quiet)
  | .generalWork noutputItems => some (.generalWork noutputItems)
  | .deliver _ => none

-- ════════════════════════════════════════════════════════════════════════
-- One source
-- ════════════════════════════════════════════════════════════════════════

/-- A source that has received the handshake `t`, beside the same source `w` without it.
The results of its calls since then carry no tags. -/
structure WorkRun.Announced (t : ℕ) (w w' : WorkRun) : Prop where
  volt : ∃ q, GrAta.Announced t q w.source.volt w'.source.volt
  recv : w'.source.recv = w.source.recv
  spect : w'.source.spect = w.source.spect
  results : ∃ before after, w.results = before ++ after ∧
    w'.results = before ++ after.map WorkResult.untagged

/-- A source of the loop beside the source `w` without deliveries. Until a handshake with
a number other than zero has been delivered the two are the same. -/
structure WorkRun.Beside (w w' : WorkRun) : Prop where
  quiet : w.source.volt.syncTimestamp = 0
  paced : w.source.volt.seqNumQueue.length = w.source.volt.xVectorQueue.length
  same : w'.source.volt.syncTimestamp = 0 → w' = w
  announced : w'.source.volt.syncTimestamp ≠ 0 →
    w.Announced w'.source.volt.syncTimestamp w'

namespace WorkRun

variable {w w' : WorkRun} {c : Config}

theorem Beside.of_announced {t : ℕ} (ht : t ≠ 0) (h : w.Announced t w') : w.Beside w' := by
  obtain ⟨q, hvolt⟩ := h.volt
  have hsync : w'.source.volt.syncTimestamp = t := by rw [hvolt.state]
  exact ⟨hvolt.quiet, hvolt.paced, fun hzero => absurd (hsync.symm.trans hzero) ht,
    fun _ => hsync.symm ▸ h⟩

theorem workCall_quiet (c : Config) (w : WorkRun) (call : Call) :
    workCall c w call.quiet =
      workVoltMode c call.noutputItems true
        { w.source with recv := call.receive w.source.recv } >>= fun r =>
          .ok ⟨r.2, w.results ++ [r.1]⟩ := rfl

theorem Announced.call {t : ℕ} (ht : t ≠ 0) (h : w.Announced t w') (call : Call) :
    Related (WorkRun.Announced t) (workCall c w call.quiet) (workCall c w' call.quiet) := by
  obtain ⟨⟨q, hvolt⟩, hrecv, hspect, before, after, hresults, hresults'⟩ := h
  rw [workCall_quiet, workCall_quiet]
  have hreceived : ({ w'.source with recv := call.receive w'.source.recv } : SnapSource).recv =
      ({ w.source with recv := call.receive w.source.recv } : SnapSource).recv := by
    rw [hrecv]
  refine (hvolt.work c ht call.noutputItems true hreceived hspect).bind fun a b hab => .ok ?_
  obtain ⟨hitems, hr, hs, hv⟩ := hab
  refine ⟨⟨q, hv⟩, hr, hs, before, after ++ [a.1], ?_, ?_⟩
  · rw [hresults, List.append_assoc]
  · rw [hresults', List.append_assoc, List.map_append, hitems, List.map_singleton]

/-- **One call** of a source. -/
theorem Beside.call (h : w.Beside w') (call : Call) :
    Related (fun a b => a.Beside b ∧
        b.source.volt.syncTimestamp = w'.source.volt.syncTimestamp)
      (workCall c w call.quiet) (workCall c w' call.quiet) := by
  by_cases hsync : w'.source.volt.syncTimestamp = 0
  · rw [h.same hsync, workCall_quiet]
    cases hwork : workVoltMode c call.noutputItems true
        { w.source with recv := call.receive w.source.recv } with
    | error f =>
      rw [error_bind]
      exact .fault f
    | ok r =>
      obtain ⟨hquiet, hpaced⟩ := Announced.paced_work c
        (s := { w.source with recv := call.receive w.source.recv }) h.quiet h.paced hwork
      rw [ok_bind]
      refine .ok ⟨⟨hquiet, hpaced, fun _ => rfl, fun hne => absurd hquiet hne⟩, ?_⟩
      exact hquiet.trans h.quiet.symm
  · refine ((h.announced hsync).call hsync call).mono fun a b hab => ?_
    obtain ⟨q, hvolt⟩ := hab.volt
    refine ⟨.of_announced hsync hab, ?_⟩
    rw [hvolt.state]

/-- **A delivery** to a source that has handled no other number. -/
theorem Beside.deliver (h : w.Beside w') {t : ℕ}
    (hfirst : w'.source.volt.syncTimestamp = 0 ∨ w'.source.volt.syncTimestamp = t) :
    w.Beside ⟨{ w'.source with volt := { w'.source.volt with syncTimestamp := t } },
      w'.results⟩ := by
  by_cases hsync : w'.source.volt.syncTimestamp = 0
  · rw [h.same hsync]
    by_cases ht : t = 0
    · have hself : { w.source.volt with syncTimestamp := t } = w.source.volt := by
        rw [ht, ← h.quiet]
      rw [hself]
      exact ⟨h.quiet, h.paced, fun _ => rfl, fun hne => absurd h.quiet hne⟩
    · refine .of_announced ht ⟨⟨w.source.volt.seqNumQueue, rfl, h.quiet, h.paced⟩, rfl, rfl,
        w.results, [], ?_, ?_⟩
      · rw [List.append_nil]
      · rw [List.map_nil, List.append_nil]
  · have hself : { w'.source.volt with syncTimestamp := t } = w'.source.volt := by
      rw [← hfirst.resolve_left hsync]
    rw [hself]
    exact h

/-- The tags do not matter for how many items there are and for their vectors. -/
theorem Beside.vectors (h : w.Beside w') :
    w'.items.map OutItem.untagged = w.items.map OutItem.untagged := by
  by_cases hsync : w'.source.volt.syncTimestamp = 0
  · rw [h.same hsync]
  · obtain ⟨before, after, hresults, hresults'⟩ := (h.announced hsync).results
    have huntagged : ∀ r : WorkResult,
        r.untagged.items.map OutItem.untagged = r.items.map OutItem.untagged := fun r =>
      List.map_map ..
    rw [items, items, hresults, hresults', List.flatMap_append, List.flatMap_append,
      List.map_append, List.map_append, List.flatMap_map, List.map_flatMap, List.map_flatMap,
      List.map_flatMap]
    simp only [huntagged]

end WorkRun

-- ════════════════════════════════════════════════════════════════════════
-- The loop
-- ════════════════════════════════════════════════════════════════════════

/-- The synchronizer publishes one message, in the call that synchronizes it. -/
inductive Synchronizer.Announces {n : ℕ} {α : Type} (s : Synchronizer n α) : Prop
  | before (hsync : s.dSynchronized = false) (hpublished : s.published = [])
  | after (tag : ℕ) (hsync : s.dSynchronized = true) (hpublished : s.published = [syncPdu tag])

/-- A call that finds the block unsynchronized leaves it so or publishes. -/
theorem Synchronizer.announces_of_generalWork {n noutputItems : ℕ} {α : Type}
    {inputItems : Fin n → List (Item α)} {s s' : Synchronizer n α}
    (h : generalWork noutputItems inputItems s = .ok s') (hsync : s.dSynchronized = false)
    (hpublished : s.published = []) : s'.Announces := by
  rw [generalWork, hsync, if_neg Bool.false_ne_true] at h
  obtain ⟨tagList, -, h⟩ := bind_eq_ok h
  dsimp only at h
  split_ifs at h
  · obtain ⟨t, hforward, h⟩ := bind_eq_ok h
    rw [forward] at hforward
    obtain ⟨copied, -, hforward⟩ := bind_eq_ok hforward
    rw [← Except.ok.inj hforward, hpublished] at h
    rw [← Except.ok.inj h]
    exact .after _ rfl rfl
  · rw [← Except.ok.inj h]
    exact .before rfl hpublished

/-- A state of the loop beside the state of the flowgraph without deliveries. Only the
tags that the synchronizer copies may differ, and what the sources keep about tags. -/
structure Transparent {n : ℕ} (s : FlowState n) (t : LoopState n) : Prop where
  unsynchronized : s.synchronizer.dSynchronized = false →
    t.flow.synchronizer = s.synchronizer
  synchronized : t.flow.synchronizer.dSynchronized = s.synchronizer.dSynchronized
  read : t.flow.synchronizer.nitemsRead = s.synchronizer.nitemsRead
  output : t.flow.synchronizer.outputItems = s.synchronizer.outputItems
  published : t.flow.synchronizer.published = s.synchronizer.published
  announces : s.synchronizer.Announces
  sources : ∀ i, (s.sources i).Beside (t.flow.sources i)
  /-- A source has handled no other number than the one that was published. -/
  received : ∀ i, (t.flow.sources i).source.volt.syncTimestamp ≠ 0 →
    s.synchronizer.published =
      [Synchronizer.syncPdu (t.flow.sources i).source.volt.syncTimestamp]
  handled : ∀ i, t.handled i ≤ s.synchronizer.published.length

namespace Transparent

variable {n : ℕ} {s : FlowState n} {t : LoopState n}

theorem same_source (h : Transparent s t) (hsync : s.synchronizer.dSynchronized = false)
    (i : Fin n) : t.flow.sources i = s.sources i := by
  refine (h.sources i).same ?_
  by_contra hne
  have hpublished := h.received i hne
  cases h.announces with
  | before _ hnone =>
    rw [hnone] at hpublished
    cases hpublished
  | after _ hdone _ =>
    rw [hsync] at hdone
    cases hdone

/-- Streams that differ in their tags only. -/
theorem waiting_data (h : Transparent s t) (i : Fin n) :
    (t.flow.waiting i).map Item.data = (s.waiting i).map Item.data := by
  have hdata : ∀ items : List OutItem, (items.map OutItem.toItem).map Item.data =
      (items.map OutItem.untagged).map OutItem.x := fun items => by
    rw [List.map_map, List.map_map]
    rfl
  rw [FlowState.waiting, FlowState.waiting, FlowState.stream, FlowState.stream, List.map_drop,
    List.map_drop, hdata, hdata, (h.sources i).vectors, h.read]

theorem waiting_length (h : Transparent s t) (i : Fin n) :
    (t.flow.waiting i).length = (s.waiting i).length := by
  have hdata := congrArg List.length (h.waiting_data i)
  rwa [List.length_map, List.length_map] at hdata

variable (G : Flowgraph n)

/-- **A call of a source.** -/
theorem work (h : Transparent s t) (i : Fin n) (call : Call) :
    Related Transparent (G.step s (.work i call.quiet)) (G.loopStep t (.work i call)) := by
  have hquiet : ∀ b : Bool, (if b = true then call.quiet else call.quiet.quiet) = call.quiet :=
    fun b => by cases b <;> rfl
  rw [Flowgraph.loopStep, Flowgraph.step, Flowgraph.step, hquiet, hquiet]
  have hcall := (h.sources i).call (c := (G.blocks i).cfg) call
  generalize workCall (G.blocks i).cfg (s.sources i) call.quiet = x at hcall ⊢
  generalize workCall (G.blocks i).cfg (t.flow.sources i) call.quiet = y at hcall ⊢
  cases hcall with
  | fault f => exact .fault f
  | @ok a b hab =>
    obtain ⟨hbeside, hsync⟩ := hab
    refine .ok ⟨h.unsynchronized, h.synchronized, h.read, h.output, h.published, h.announces,
      fun j => ?_, fun j => ?_, h.handled⟩
    · by_cases hj : j = i
      · subst hj
        simp only [FlowState.withSource_self]
        exact hbeside
      · simp only [FlowState.withSource_of_ne _ hj]
        exact h.sources j
    · by_cases hj : j = i
      · subst hj
        simp only [FlowState.withSource_self, hsync]
        exact h.received j
      · simp only [FlowState.withSource_of_ne _ hj]
        exact h.received j

/-- **A delivery** changes nothing that can be seen without it. -/
theorem deliver (h : Transparent s t) (i : Fin n) :
    ∃ t', G.loopStep t (.deliver i) = .ok t' ∧ Transparent s t' := by
  rw [Flowgraph.loopStep]
  cases hmsg : t.flow.synchronizer.published[t.handled i]? with
  | none => exact ⟨t, rfl, h⟩
  | some msg =>
    rw [h.published] at hmsg
    obtain ⟨tag, hpublished⟩ : ∃ tag, s.synchronizer.published = [Synchronizer.syncPdu tag] := by
      cases h.announces with
      | before _ hnone =>
        rw [hnone] at hmsg
        cases hmsg
      | after tag _ hpublished => exact ⟨tag, hpublished⟩
    rw [hpublished] at hmsg
    obtain ⟨hzero, rfl⟩ : t.handled i = 0 ∧ Synchronizer.syncPdu tag = msg := by
      obtain ⟨hlt, hget⟩ := List.getElem?_eq_some_iff.mp hmsg
      rw [List.length_singleton, Nat.lt_one_iff] at hlt
      simp only [hlt, List.getElem_cons_zero] at hget
      exact ⟨hlt, hget⟩
    have hfirst : (t.flow.sources i).source.volt.syncTimestamp = 0 ∨
        (t.flow.sources i).source.volt.syncTimestamp = tag := by
      by_cases hsync : (t.flow.sources i).source.volt.syncTimestamp = 0
      · exact .inl hsync
      · have hsame := (h.received i hsync).symm.trans hpublished
        rw [Synchronizer.syncPdu, Synchronizer.syncPdu] at hsame
        injection hsame with hsame
        injection hsame with _ hsame
        injection hsame with hsame
        exact .inr hsame
    refine ⟨_, rfl, h.unsynchronized, h.synchronized, h.read, h.output, h.published,
      h.announces, fun j => ?_, fun j => ?_, fun j => ?_⟩
    · by_cases hj : j = i
      · subst hj
        simp only [FlowState.withVolt, FlowState.withSource_self]
        exact (h.sources j).deliver hfirst
      · simp only [FlowState.withVolt, FlowState.withSource_of_ne _ hj]
        exact h.sources j
    · by_cases hj : j = i
      · subst hj
        simp only [FlowState.withVolt, FlowState.withSource_self]
        exact fun _ => hpublished
      · simp only [FlowState.withVolt, FlowState.withSource_of_ne _ hj]
        exact h.received j
    · by_cases hj : j = i
      · subst hj
        simp only [Function.update_self, hzero, hpublished]
        exact le_rfl
      · simp only [Function.update_of_ne hj]
        exact h.handled j

/-- A call of the synchronizer before it is synchronized, when no source has received
anything. -/
theorem generalWork_unsynchronized (h : Transparent s t)
    (hsync : s.synchronizer.dSynchronized = false) (noutputItems : ℕ) :
    Related Transparent (G.step s (.generalWork noutputItems))
      (G.loopStep t (.generalWork noutputItems)) := by
  have hsources : t.flow.sources = s.sources := funext fun i => h.same_source hsync i
  have hsame : t.flow = s := by
    cases s with
    | mk sources synchronizer =>
      cases hflow : t.flow with
      | mk sources' synchronizer' =>
        have hsynchronizer := h.unsynchronized hsync
        rw [hflow] at hsynchronizer hsources
        exact congrArg₂ FlowState.mk hsources hsynchronizer
  have hnone : s.synchronizer.published = [] := by
    cases h.announces with
    | before _ hnone => exact hnone
    | after _ hdone _ => exact absurd (hsync.symm.trans hdone) Bool.noConfusion
  obtain ⟨_, handled⟩ := t
  obtain rfl : s = _ := hsame.symm
  rw [Flowgraph.loopStep, Flowgraph.step]
  split_ifs
  · cases hwork : Synchronizer.generalWork noutputItems s.waiting s.synchronizer with
    | error f =>
      rw [error_bind, error_bind]
      exact .fault f
    | ok synchronizer =>
      rw [ok_bind, ok_bind]
      refine .ok ⟨fun _ => rfl, rfl, rfl, rfl, rfl,
        Synchronizer.announces_of_generalWork hwork hsync hnone, fun i => ?_, fun i hne => ?_,
        fun i => ?_⟩
      · exact h.sources i
      · have hreceived := h.received i hne
        rw [hnone] at hreceived
        cases hreceived
      · have hhandled : handled i ≤ s.synchronizer.published.length := h.handled i
        rw [hnone, List.length_nil, Nat.le_zero] at hhandled
        exact hhandled.trans_le (Nat.zero_le _)
  · rw [ok_bind]
    exact .ok h

/-- **A call of the synchronizer.** -/
theorem generalWork (h : Transparent s t) (noutputItems : ℕ) :
    Related Transparent (G.step s (.generalWork noutputItems))
      (G.loopStep t (.generalWork noutputItems)) := by
  cases hsync : s.synchronizer.dSynchronized with
  | false => exact h.generalWork_unsynchronized G hsync noutputItems
  | true =>
    have hsync' : t.flow.synchronizer.dSynchronized = true := h.synchronized.trans hsync
    rw [Flowgraph.loopStep, Flowgraph.step, Flowgraph.step]
    simp only [h.waiting_length]
    split_ifs with hlen
    · have hlen' : ∀ i, noutputItems ≤ (t.flow.waiting i).length := fun i =>
        (h.waiting_length i).symm ▸ hlen i
      rw [Synchronizer.generalWork_synchronized hsync hlen,
        Synchronizer.generalWork_synchronized hsync' hlen', ok_bind, ok_bind, ok_bind]
      refine .ok ⟨fun hfalse => absurd (hfalse.symm.trans hsync) Bool.noConfusion,
        h.synchronized, ?_, ?_, h.published, ?_, h.sources, h.received, h.handled⟩
      · funext i
        exact congrArg (· + noutputItems) (congrFun h.read i)
      · funext i
        refine congrArg₂ (· ++ ·) (congrFun h.output i) ?_
        rw [List.map_take, List.map_take, h.waiting_data]
      · cases h.announces with
        | before hfalse _ => exact absurd (hfalse.symm.trans hsync) Bool.noConfusion
        | after tag _ hpublished => exact .after tag hsync hpublished
    · rw [ok_bind]
      exact .ok h

end Transparent

namespace Flowgraph

variable {n : ℕ} (G : Flowgraph n)

/-- **Transparency.** Every order of calls and deliveries returns, or faults, as the same
calls do when nothing is ever delivered, in a state that differs in tags only. -/
theorem loopRun_transparent (events : List (LoopEvent n)) :
    Related Transparent (G.run (events.filterMap LoopEvent.undelivered))
      (G.loopRun events) := by
  rw [run, loopRun, initial]
  cases hstart : Ports.collect fun i => start (G.blocks i).cfg (G.blocks i).unset (G.env i) with
  | error f =>
    rw [error_bind, error_bind, error_bind]
    exact .fault f
  | ok source =>
    rw [ok_bind, ok_bind, ok_bind]
    have hfresh : ∀ i, (source i).volt.syncTimestamp = 0 ∧ (source i).volt.seqNumQueue = [] ∧
        (source i).volt.xVectorQueue = [] := fun i => by
      have hi := Ports.ok_of_collect hstart i
      rw [start] at hi
      split_ifs at hi
      all_goals
        rw [← Except.ok.inj hi]
        exact ⟨rfl, rfl, rfl⟩
    refine Execution.run_related_filterMap Transparent ?_ ?_ events
      ⟨fun _ => rfl, rfl, rfl, rfl, rfl, .before rfl rfl, fun i => ?_, fun i hne => ?_,
        fun _ => Nat.zero_le _⟩
    · intro e e' s t he h
      cases e with
      | work i call =>
        obtain rfl := Option.some.inj he
        exact h.work G i call
      | generalWork noutputItems =>
        obtain rfl := Option.some.inj he
        exact h.generalWork G noutputItems
      | deliver i => cases he
    · intro e s t he h
      cases e with
      | work i call => cases he
      | generalWork noutputItems => cases he
      | deliver i => exact h.deliver G i
    · obtain ⟨hquiet, hnums, hvectors⟩ := hfresh i
      refine ⟨hquiet, ?_, fun _ => rfl, fun hne => absurd hquiet hne⟩
      rw [hnums, hvectors]
      rfl
    · exact absurd (hfresh i).1 hne

end Flowgraph

end GrAta
