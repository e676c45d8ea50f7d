import Mathlib.Data.List.Basic
import Mathlib.Logic.Function.Basic
import Mathlib.Tactic.Common

/-!
# A heap of blocks

Blocks are allocated at fresh addresses and given back one by one. Giving back a block
twice, and reading or writing one that has been given back, are faults.

## Main definitions

- `Heap`: the live blocks, below the next fresh address
- `Heap.alloc`, `Heap.free`: allocation and release of a block
- `Heap.read`, `Heap.write`: copies out of and into the first cells of a block
-/

/-- Why an operation on a heap has no defined outcome. -/
inductive HeapFault where
  | doubleFree
  | useAfterFree
  | outOfBounds
  deriving DecidableEq, Repr

/-- The live blocks of a heap, with their cells. -/
structure Heap (α : Type*) where
  next : ℕ
  block : ℕ → Option (List α)
  fresh : ∀ a, next ≤ a → block a = none

namespace Heap

variable {α : Type*} (h : Heap α)

def empty (α : Type*) : Heap α := ⟨0, fun _ => none, fun _ _ => rfl⟩

/-- Allocate a block that holds `cells`, at the next address. -/
def alloc (cells : List α) : Heap α where
  next := h.next + 1
  block := Function.update h.block h.next (some cells)
  fresh := fun a ha => by
    rw [Function.update_of_ne (Nat.ne_of_gt ha)]
    exact h.fresh a (Nat.le_of_succ_le ha)

/-- The heap with other cells in the block at `a`, or without the block. -/
def put (a : ℕ) (b : Option (List α)) (ha : a < h.next) : Heap α where
  next := h.next
  block := Function.update h.block a b
  fresh := fun a' ha' => by
    rw [Function.update_of_ne (Nat.ne_of_gt (Nat.lt_of_lt_of_le ha ha'))]
    exact h.fresh a' ha'

variable {h} in
theorem lt_next {a : ℕ} {b : List α} (ha : h.block a = some b) : a < h.next := by
  by_contra hle
  rw [h.fresh a (Nat.le_of_not_lt hle)] at ha
  cases ha

/-- Give back the block at `a`. -/
def free (a : ℕ) : Except HeapFault (Heap α) :=
  match hb : h.block a with
  | none => .error .doubleFree
  | some _ => .ok (h.put a none (lt_next hb))

/-- The first `n` cells of the block at `a`. -/
def read (a n : ℕ) : Except HeapFault (List α) :=
  match h.block a with
  | none => .error .useAfterFree
  | some b => if n ≤ b.length then .ok (b.take n) else .error .outOfBounds

/-- Store `values` in the first cells of the block at `a`. -/
def write (a : ℕ) (values : List α) : Except HeapFault (Heap α) :=
  match hb : h.block a with
  | none => .error .useAfterFree
  | some b =>
    if values.length ≤ b.length then
      .ok (h.put a (some (values ++ b.drop values.length)) (lt_next hb))
    else .error .outOfBounds

variable {h}

@[simp] theorem alloc_next (cells : List α) : (h.alloc cells).block h.next = some cells :=
  Function.update_self ..

theorem alloc_of_ne {cells : List α} {a : ℕ} (ha : a ≠ h.next) :
    (h.alloc cells).block a = h.block a := Function.update_of_ne ha ..

theorem block_next : h.block h.next = none := h.fresh _ (Nat.le_refl _)

@[simp] theorem put_self {a : ℕ} {b : Option (List α)} (ha : a < h.next) :
    (h.put a b ha).block a = b := Function.update_self ..

theorem put_of_ne {a a' : ℕ} {b : Option (List α)} (ha : a < h.next) (hne : a' ≠ a) :
    (h.put a b ha).block a' = h.block a' := Function.update_of_ne hne ..

theorem free_of_live {a : ℕ} {b : List α} (hb : h.block a = some b) :
    h.free a = .ok (h.put a none (lt_next hb)) := by
  rw [free]
  split
  next hnone => rw [hb] at hnone; cases hnone
  next => rfl

theorem read_of_live {a n : ℕ} {b : List α} (hb : h.block a = some b) :
    h.read a n = if n ≤ b.length then .ok (b.take n) else .error .outOfBounds := by
  rw [read, hb]

theorem read_of_dead {a n : ℕ} (hb : h.block a = none) :
    h.read a n = .error .useAfterFree := by
  rw [read, hb]

/-- Overwriting a whole block. -/
theorem write_whole {a : ℕ} {b values : List α} (hb : h.block a = some b)
    (hlen : values.length = b.length) :
    h.write a values = .ok (h.put a (some values) (lt_next hb)) := by
  rw [write]
  split
  next hnone => rw [hb] at hnone; cases hnone
  next b' hb' =>
    obtain rfl : b = b' := Option.some.inj (hb.symm.trans hb')
    rw [if_pos (Nat.le_of_eq hlen)]
    simp only [hlen, List.drop_length, List.append_nil]

end Heap
