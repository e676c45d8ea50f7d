import Mathlib.Logic.Function.Basic
import GrAta.Synchronizer.Model
import GrAta.Voltage.Schedule

/-!
# Sources behind a synchronizer

A flowgraph of `n` voltage sources whose first ports feed one synchronizer. The
runtime calls the work functions of the blocks in any order. The stream between a
source and the synchronizer is what the source has output so far, with its tags.

The runtime makes a call of `general_work` only when every input holds the items
that `forecast` names, and a handshake reaches a source only after the
synchronizer has published one.
-/

namespace GrAta

/-- An output item as the next block finds it on the stream of the first port. -/
def OutItem.toItem (item : OutItem) : Item TimeVector where
  data := item.x
  tags := item.tag.toList.map fun t => ⟨.symbol "sample_num", .uint64 t⟩

/-- What the runtime may do next. -/
inductive Event (n : ℕ) where
  | work (source : Fin n) (call : Call)
  | generalWork (noutputItems : ℕ)

/-- Output sizes are positive multiples of 16. -/
def Event.Valid {n : ℕ} : Event n → Prop
  | .work _ call => call.Valid
  | .generalWork noutputItems => 0 < noutputItems ∧ 16 ∣ noutputItems

structure Flowgraph (n : ℕ) where
  blocks : Fin n → VoltageBlock
  env : Fin n → Environment

structure FlowState (n : ℕ) where
  sources : Fin n → WorkRun
  synchronizer : Synchronizer n TimeVector

namespace FlowState

variable {n : ℕ} (s : FlowState n)

/-- The stream from source `i`. -/
def stream (i : Fin n) : List (Item TimeVector) := (s.sources i).items.map OutItem.toItem

/-- The items that wait on input `i`. -/
def waiting (i : Fin n) : List (Item TimeVector) :=
  (s.stream i).drop (s.synchronizer.nitemsRead i)

/-- The state after a call of source `i`. -/
def withSource (i : Fin n) (w : WorkRun) : FlowState n :=
  { s with sources := Function.update s.sources i w }

@[simp] theorem withSource_self (i : Fin n) (w : WorkRun) :
    (s.withSource i w).sources i = w := Function.update_self ..

@[simp] theorem withSource_of_ne {i j : Fin n} (h : j ≠ i) (w : WorkRun) :
    (s.withSource i w).sources j = s.sources j := Function.update_of_ne h ..

end FlowState

/-- The call as it finds port `sync` when no handshake has been published. -/
def Call.quiet (call : Call) : Call := { call with messages := [] }

namespace Flowgraph

variable {n : ℕ} (G : Flowgraph n)

def initial : Except Fault (FlowState n) := do
  let sources ← Ports.collect fun i => start (G.blocks i).cfg (G.blocks i).unset (G.env i)
  .ok ⟨fun i => ⟨sources i, []⟩, Synchronizer.initial n TimeVector⟩

/-- One event. A call of `general_work` that lacks items is not made. -/
def step (s : FlowState n) : Event n → Except Fault (FlowState n)
  | .work i call => do
    let call := if s.synchronizer.dSynchronized then call else call.quiet
    let source ← workCall (G.blocks i).cfg (s.sources i) call
    .ok (s.withSource i source)
  | .generalWork noutputItems =>
    if ∀ i, forecast noutputItems i ≤ (s.waiting i).length then do
      let synchronizer ← Synchronizer.generalWork noutputItems s.waiting s.synchronizer
      .ok { s with synchronizer := synchronizer }
    else .ok s

def run (events : List (Event n)) : Except Fault (FlowState n) := do
  let s ← G.initial
  Execution.run G.step s events

end Flowgraph

/-- The calls of source `i`. -/
def callsAt {n : ℕ} (i : Fin n) (events : List (Event n)) : List Call :=
  events.flatMap fun
    | .work j call => if j = i then [call] else []
    | .generalWork _ => []

/-- The packets that have arrived at source `i`. -/
def arrivedAt {n : ℕ} (i : Fin n) (events : List (Event n)) : List Packet :=
  arrivals (callsAt i events)

section Concat

variable {n : ℕ} {i j : Fin n} (events : List (Event n)) (call : Call)

theorem callsAt_work_self :
    callsAt i (events ++ [.work i call]) = callsAt i events ++ [call] := by
  simp [callsAt]

theorem callsAt_work_ne (h : j ≠ i) :
    callsAt i (events ++ [.work j call]) = callsAt i events := by
  simp [callsAt, h]

theorem callsAt_generalWork (noutputItems : ℕ) :
    callsAt i (events ++ [.generalWork noutputItems]) = callsAt i events := by
  simp [callsAt]

theorem arrivedAt_work_self :
    arrivedAt i (events ++ [.work i call]) = arrivedAt i events ++ call.arrived := by
  rw [arrivedAt, callsAt_work_self, arrivals_concat, arrivedAt]

theorem arrivedAt_work_ne (h : j ≠ i) :
    arrivedAt i (events ++ [.work j call]) = arrivedAt i events := by
  rw [arrivedAt, callsAt_work_ne _ _ h, arrivedAt]

theorem arrivedAt_generalWork (noutputItems : ℕ) :
    arrivedAt i (events ++ [.generalWork noutputItems]) = arrivedAt i events := by
  rw [arrivedAt, callsAt_generalWork, arrivedAt]

theorem arrivedAt_append (later : List (Event n)) :
    ∃ ps, arrivedAt i (events ++ later) = arrivedAt i events ++ ps := by
  refine ⟨arrivedAt i later, ?_⟩
  simp [arrivedAt, callsAt, arrivals]

end Concat

end GrAta
