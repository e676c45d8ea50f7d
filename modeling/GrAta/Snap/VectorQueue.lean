import GrAta.Snap.Ownership
import Mathlib.Algebra.GroupWithZero.Nat
import Mathlib.Data.List.FinRange

/-!
# Queues of vectors

The output queues are deques of `data_vector` objects. A vector is built from a row of a
buffer, copied into the queue and destroyed at the end of its scope. It leaves the queue
after its bytes have been copied to the output. On the heap such a queue is a list of
vectors: what it outputs, and one block for each vector that waits.

## Main definitions

- `VectorQueue.step`: the queue as a program of objects
- `RowQueue.step`: the queue as a list of rows
- `Stores`: the blocks of the heap are the rows of the list

## Main results

- `VectorQueue.run_stores`: every sequence of operations
-/

namespace GrAta

open Execution

/-- The operations on an output queue. -/
inductive QueueOp (α : Type) where
  /-- Queue the vector that starts at a pointer into a buffer. -/
  | pushBack (buffer : List α)
  /-- Copy the oldest vector to the output and remove it. -/
  | popFront

/-- A deque whose elements are the objects from `front` on, numbered from one. Object 0 is
the local variable that a vector is built in. -/
structure VectorQueue (α : Type) where
  memory : Memory α
  front : ℕ
  back : ℕ

namespace VectorQueue

variable {α : Type} [Zero α] (junk : ℕ → ℕ → α) (dVeclen : ℕ)

def empty (α : Type) : VectorQueue α := ⟨.empty α, 0, 0⟩

/-- The objects that an operation constructs, reads and destroys. -/
def program (s : VectorQueue α) : QueueOp α → List (VectorOp α)
  | .pushBack buffer =>
    [.constructFrom 0 (.memory buffer) dVeclen, .constructCopy (s.back + 1) 0, .destruct 0]
  | .popFront => [.copyOut (s.front + 1) dVeclen, .destruct (s.front + 1)]

def step (s : VectorQueue α) (op : QueueOp α) : Except MemoryFault (VectorQueue α) := do
  let memory ← Execution.run (Memory.step junk) s.memory (s.program dVeclen op)
  .ok (match op with
    | .pushBack _ => ⟨memory, s.front, s.back + 1⟩
    | .popFront => ⟨memory, s.front + 1, s.back⟩)

def run (ops : List (QueueOp α)) : Except MemoryFault (VectorQueue α) :=
  Execution.run (step junk dVeclen) (.empty α) ops

end VectorQueue

/-- The rows that wait, and those that have been output. -/
structure RowQueue (α : Type) where
  queue : List (List α)
  output : List (List α)

namespace RowQueue

variable {α : Type} (dVeclen : ℕ)

def step (t : RowQueue α) : QueueOp α → Except MemoryFault (RowQueue α)
  | .pushBack buffer =>
    if dVeclen ≤ buffer.length then .ok { t with queue := t.queue ++ [buffer.take dVeclen] }
    else .error (.heap .outOfBounds)
  | .popFront =>
    match t.queue with
    | [] => .error .noObject
    | row :: rows => .ok ⟨rows, t.output ++ [row]⟩

def run (ops : List (QueueOp α)) : Except MemoryFault (RowQueue α) :=
  Execution.run (step dVeclen) ⟨[], []⟩ ops

end RowQueue

/-- The live blocks are the rows that wait, one block for each. -/
structure Stores {α : Type} (s : VectorQueue α) (t : RowQueue α) : Prop where
  output : s.memory.output = t.output
  blocks : ∃ addresses : List ℕ, addresses.Nodup ∧
    addresses.map s.memory.heap.block = t.queue.map some ∧
    ∀ a l, s.memory.heap.block a = some l → a ∈ addresses

section Queue

variable {α : Type} {dVeclen : ℕ}

/-- The contents of the objects of a queue. -/
def Values.ofQueue (front : ℕ) (rows output : List (List α)) : Values α where
  value := fun x => if front < x then (rows[x - (front + 1)]?).map some else none
  output := output

/-- The objects of a queue hold its rows. -/
structure Backs (dVeclen : ℕ) (s : VectorQueue α) (t : RowQueue α) : Prop where
  owns : Owns s.memory (.ofQueue s.front t.queue t.output)
  back : s.back = s.front + t.queue.length
  length : ∀ row ∈ t.queue, row.length = dVeclen

theorem Backs.stores {s : VectorQueue α} {t : RowQueue α} (h : Backs dVeclen s t) :
    Stores s t := by
  obtain ⟨hholds, hseparate, howned, houtput⟩ := h.owns
  have hobject : ∀ k : Fin t.queue.length, ∃ a,
      s.memory.pointer (s.front + 1 + k) = some a ∧
        s.memory.heap.block a = some t.queue[k] := fun k => by
    have hk := hholds (s.front + 1 + k)
    have hvalue : (Values.ofQueue s.front t.queue t.output).value (s.front + 1 + k) =
        some (some t.queue[k]) := by
      simp only [Values.ofQueue, Nat.add_sub_cancel_left]
      rw [if_pos (by omega), List.getElem?_eq_getElem k.2]
      rfl
    rw [hvalue] at hk
    rw [Memory.pointer]
    generalize s.memory.object (s.front + 1 + k) = o at hk ⊢
    cases hk with
    | block hb => exact ⟨_, rfl, hb⟩
  choose address hpointer hblock using hobject
  refine ⟨houtput, List.ofFn address, ?_, ?_, fun a l ha => ?_⟩
  · rw [List.nodup_ofFn]
    intro j k hjk
    have hsame := hseparate _ _ _ (hpointer j) (hjk ▸ hpointer k)
    exact Fin.ext (by omega)
  · rw [List.map_ofFn]
    refine List.ext_getElem (by simp) fun k hk _ => ?_
    rw [List.getElem_ofFn, List.getElem_map]
    exact hblock ⟨k, by simpa using hk⟩
  · obtain ⟨x, hx⟩ := howned a l ha
    have hvalue := hholds x
    have halive : (Values.ofQueue s.front t.queue t.output).value x ≠ none := by
      intro hnone
      rw [hnone] at hvalue
      rw [Memory.pointer] at hx
      generalize s.memory.object x = o at hvalue hx
      cases hvalue
      cases hx
    simp only [Values.ofQueue, ne_eq, ite_eq_right_iff, Option.map_eq_none_iff,
      List.getElem?_eq_none_iff, Classical.not_imp, Nat.not_le] at halive
    obtain ⟨hfront, hlt⟩ := halive
    have hk := hpointer ⟨x - (s.front + 1), hlt⟩
    rw [show s.front + 1 + (x - (s.front + 1)) = x by omega] at hk
    obtain rfl := Option.some.inj (hx.symm.trans hk)
    exact List.mem_ofFn.mpr ⟨_, rfl⟩

-- ════════════════════════════════════════════════════════════════════════
-- Operations
-- ════════════════════════════════════════════════════════════════════════

variable {front : ℕ} {rows output : List (List α)}

theorem Values.copied_of_pos {row : List α} (h : 0 < row.length) :
    Values.copied (some row) = some row := by
  cases row with
  | nil => cases h
  | cons c row => rfl

/-- The object behind the last one of a queue is not alive. -/
theorem Values.value_back :
    (Values.ofQueue front rows output).value (front + rows.length + 1) = none := by
  simp only [Values.ofQueue]
  rw [if_pos (by omega), show front + rows.length + 1 - (front + 1) = rows.length by omega,
    List.getElem?_eq_none (Nat.le_refl _), Option.map_none]

/-- A row goes through the local variable to the end of the queue. -/
theorem Values.set_pushBack (row : List α) :
    (((Values.ofQueue front rows output).set 0 (some (some row))).set (front + rows.length + 1)
        (some (some row))).set 0 none = .ofQueue front (rows ++ [row]) output := by
  simp only [Values.set, Values.ofQueue, Values.mk.injEq, and_true]
  funext x
  by_cases hzero : x = 0
  · subst hzero
    rw [Function.update_self, if_neg (Nat.not_lt_zero front)]
  · rw [Function.update_of_ne hzero]
    by_cases hback : x = front + rows.length + 1
    · subst hback
      rw [Function.update_self, if_pos (by omega),
        show front + rows.length + 1 - (front + 1) = rows.length by omega,
        List.getElem?_append_right (Nat.le_refl _), Nat.sub_self]
      rfl
    · rw [Function.update_of_ne hback, Function.update_of_ne hzero]
      split_ifs with hfront
      · rw [List.getElem?_append]
        split_ifs with hlt
        · rfl
        · rw [List.getElem?_eq_none (by omega), List.getElem?_eq_none (by simp; omega)]
      · rfl

variable [Zero α]

/-- Queueing a vector, on the contents of the objects. -/
theorem Values.run_pushBack (hpos : 0 < dVeclen) (buffer : List α) :
    Execution.run Values.step (.ofQueue front rows output)
        [.constructFrom 0 (.memory buffer) dVeclen,
          .constructCopy (front + rows.length + 1) 0, .destruct 0] =
      if dVeclen ≤ buffer.length then
        .ok (.ofQueue front (rows ++ [buffer.take dVeclen]) output)
      else .error (.heap .outOfBounds) := by
  set v : Values α := .ofQueue front rows output with hv
  have hlocal : v.value 0 = none := by
    simp only [hv, Values.ofQueue, Nat.not_lt_zero, if_false]
  have hfirst : Values.step v (.constructFrom 0 (.memory buffer) dVeclen) =
      (Values.load (some buffer) dVeclen >>= fun l => .ok (v.set 0 (some (some l)))) := by
    rw [Values.step, Values.declare, if_pos hlocal]
    rfl
  rw [Values.load, Option.getD_some] at hfirst
  split_ifs at hfirst ⊢ with hle
  · set row := buffer.take dVeclen with hrow
    have hlen : 0 < row.length := by
      rw [hrow, List.length_take, Nat.min_eq_left hle]
      exact hpos
    have hsecond : Values.step (v.set 0 (some (some row)))
        (.constructCopy (front + rows.length + 1) 0) =
          .ok ((v.set 0 (some (some row))).set (front + rows.length + 1) (some (some row))) := by
      have hfree : (v.set 0 (some (some row))).value (front + rows.length + 1) = none := by
        simp only [Values.set, ne_eq, Nat.succ_ne_zero, not_false_eq_true,
          Function.update_of_ne]
        exact Values.value_back
      have hget : (v.set 0 (some (some row))).get 0 = .ok (some row) := by
        simp only [Values.get, Values.set, Function.update_self]
      rw [Values.step, Values.declare, if_pos hfree, hget]
      change Except.ok _ = _
      rw [Values.copied_of_pos hlen]
    have hthird : Values.step ((v.set 0 (some (some row))).set (front + rows.length + 1)
        (some (some row))) (.destruct 0) =
          .ok (((v.set 0 (some (some row))).set (front + rows.length + 1)
            (some (some row))).set 0 none) := by
      have hget : ((v.set 0 (some (some row))).set (front + rows.length + 1)
          (some (some row))).get 0 = .ok (some row) := by
        simp only [Values.get, Values.set, ne_eq, (Nat.succ_ne_zero _).symm, not_false_eq_true,
          Function.update_of_ne, Function.update_self]
      rw [Values.step, hget]
      rfl
    rw [Execution.run_cons_ok hfirst, Execution.run_cons_ok hsecond, Execution.run_singleton,
      hthird, Values.set_pushBack]
  · rw [Execution.run, hfirst]
    rfl

/-- Nothing can be removed from an empty queue. -/
theorem Values.run_popFront_nil :
    Execution.run Values.step (.ofQueue front [] output)
        [.copyOut (front + 1) dVeclen, .destruct (front + 1)] =
      (.error .noObject : Except MemoryFault (Values α)) := by
  have hget : (Values.ofQueue front ([] : List (List α)) output).get (front + 1) =
      .error .noObject := by
    simp only [Values.get, Values.ofQueue, List.getElem?_nil, Option.map_none, ite_self]
  rw [Execution.run, Values.step, hget]
  rfl

/-- Removing a vector. -/
theorem Values.run_popFront_cons {row : List α} (hlength : row.length = dVeclen) :
    Execution.run Values.step (.ofQueue front (row :: rows) output)
        [.copyOut (front + 1) dVeclen, .destruct (front + 1)] =
      .ok (.ofQueue (front + 1) rows (output ++ [row])) := by
  set v : Values α := .ofQueue front (row :: rows) output with hv
  have hvalue : v.value (front + 1) = some (some row) := by
    simp only [hv, Values.ofQueue, Nat.lt_succ_self, if_true, Nat.sub_self]
    rfl
  have hget : v.get (front + 1) = .ok (some row) := by rw [Values.get, hvalue]
  have hload : Values.load (some row) dVeclen = .ok row := by
    rw [Values.load, Option.getD_some, ← hlength, if_pos (Nat.le_refl _), List.take_length]
  have hfirst : Values.step v (.copyOut (front + 1) dVeclen) =
      .ok { v with output := v.output ++ [row] } := by
    rw [Values.step, hget]
    change (Values.load (some row) dVeclen >>= _) = _
    rw [hload]
    rfl
  have hsecond : Values.step { v with output := v.output ++ [row] } (.destruct (front + 1)) =
      .ok ({ v with output := v.output ++ [row] }.set (front + 1) none) := by
    have hget' : ({ v with output := v.output ++ [row] } : Values α).get (front + 1) =
        .ok (some row) := hget
    rw [Values.step, hget']
    rfl
  rw [Execution.run_cons_ok hfirst, Execution.run_singleton, hsecond]
  simp only [Values.set, hv, Values.ofQueue, Except.ok.injEq, Values.mk.injEq, and_true]
  funext x
  by_cases hx : x = front + 1
  · subst hx
    rw [Function.update_self, if_neg (Nat.lt_irrefl _)]
  · rw [Function.update_of_ne hx]
    by_cases hlt : front + 1 < x
    · rw [if_pos (by omega), if_pos hlt,
        show x - (front + 1) = x - (front + 1 + 1) + 1 by omega, List.getElem?_cons_succ]
    · rw [if_neg (by omega), if_neg hlt]

theorem Backs.step (junk : ℕ → ℕ → α) (hpos : 0 < dVeclen) {s : VectorQueue α} {t : RowQueue α}
    (h : Backs dVeclen s t) (op : QueueOp α) :
    Related (Backs dVeclen) (s.step junk dVeclen op) (t.step dVeclen op) := by
  have hrun := h.owns.run junk (s.program dVeclen op)
  rw [VectorQueue.step]
  cases op with
  | pushBack buffer =>
    rw [VectorQueue.program, h.back, Values.run_pushBack hpos] at hrun
    rw [RowQueue.step, VectorQueue.program, h.back]
    generalize Execution.run (Memory.step junk) s.memory _ = x at hrun ⊢
    split_ifs at hrun ⊢ with hle
    · cases hrun with
      | ok howns =>
        refine .ok ⟨howns, ?_, fun row hrow => ?_⟩
        · simp only [List.length_append, List.length_singleton, Nat.add_assoc]
        · rcases List.mem_append.mp hrow with hold | hnew
          · exact h.length row hold
          · rw [List.mem_singleton.mp hnew, List.length_take, Nat.min_eq_left hle]
    · cases hrun
      exact .fault _
  | popFront =>
    obtain ⟨queue, output⟩ := t
    rw [VectorQueue.program] at hrun ⊢
    generalize Execution.run (Memory.step junk) s.memory _ = x at hrun ⊢
    cases queue with
    | nil =>
      rw [Values.run_popFront_nil] at hrun
      cases hrun
      exact .fault _
    | cons row rows =>
      rw [Values.run_popFront_cons (h.length row List.mem_cons_self)] at hrun
      cases hrun with
      | ok howns =>
        refine .ok ⟨howns, ?_, fun row' hrow => h.length row' (List.mem_cons_of_mem _ hrow)⟩
        have hback := h.back
        rw [List.length_cons] at hback
        simp only [hback]
        omega

/-- **The queues on the heap.** Every sequence of operations outputs the rows that the list
of rows outputs, faults where that does, and leaves one live block for each row that
waits. -/
theorem VectorQueue.run_stores (junk : ℕ → ℕ → α) (hpos : 0 < dVeclen) (ops : List (QueueOp α)) :
    Related Stores (VectorQueue.run junk dVeclen ops) (RowQueue.run dVeclen ops) := by
  have hempty : Backs dVeclen (VectorQueue.empty α) ⟨[], []⟩ := by
    refine ⟨?_, rfl, fun row hrow => absurd hrow List.not_mem_nil⟩
    have hvalues : Values.ofQueue 0 [] [] = Values.empty α := by
      rw [Values.ofQueue, Values.empty]
      congr 1
      funext x
      split <;> rfl
    show Owns (Memory.empty α) (Values.ofQueue 0 [] [])
    rw [hvalues]
    exact Owns.empty α
  have hrun : Related (Backs dVeclen) (VectorQueue.run junk dVeclen ops)
      (Execution.run (RowQueue.step dVeclen) ⟨[], []⟩ (ops.map id)) :=
    Execution.run_related (fun _ => Backs dVeclen) (fun op _ _ _ h => h.step junk hpos op) hempty
  rw [List.map_id] at hrun
  exact hrun.mono fun _ _ h => h.stores

/-- Rows of two bytes, one of which has been output. -/
theorem VectorQueue.run_stores_two :
    0 < 2 ∧ Related Stores
      (VectorQueue.run (fun _ _ => (0 : ℕ)) 2
        ([.pushBack [1, 2, 3], .pushBack [4, 5], .popFront] : List (QueueOp ℕ)))
      (RowQueue.run 2 ([.pushBack [1, 2, 3], .pushBack [4, 5], .popFront] : List (QueueOp ℕ))) :=
  ⟨Nat.two_pos, VectorQueue.run_stores (fun _ _ => (0 : ℕ)) Nat.two_pos _⟩

end Queue

end GrAta
