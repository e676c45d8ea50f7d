import Mathlib.Data.List.Basic
import Mathlib.Data.Int.Basic
import Mathlib.Logic.Function.Basic
import Mathlib.Tactic.Common

/-!
# Bounded memory regions

A region is an allocated block of cells. A store names a cell by a signed
index, as pointer arithmetic does, and is refused outside the block. The store
sequences of loop nests are lists of indexed values. When the value a loop
writes is a function of the cell, the outcome does not depend on the order of
the loop, and `Region.storeAll_eq` describes it cell by cell.

## Main definitions

- `Region`: a block of `size` cells
- `Region.store`, `Region.storeAll`: one store, a sequence of stores
- `Region.rows`: a copy of consecutive rows of cells
- `Region.fill`: one value in every cell
-/

/-- An allocated block of `size` cells. Cells from `size` on are not part of
the block: no operation reads or writes them. -/
structure Region (α : Type*) where
  size : ℕ
  cell : ℕ → α

namespace Region

variable {α β γ : Type*}

/-- Store `a` at index `i`, refused when `i` is not a cell of the block. -/
def store (r : Region α) (i : ℤ) (a : α) : Option (Region α) :=
  if 0 ≤ i ∧ i < r.size then some { r with cell := Function.update r.cell i.toNat a } else none

/-- Perform a sequence of stores, refused as soon as one of them is. -/
def storeAll (r : Region α) : List (ℤ × α) → Option (Region α)
  | [] => some r
  | w :: ws => (r.store w.1 w.2).bind fun r' => r'.storeAll ws

/-- Copy the first `n` rows of `len` cells each, refused when the block is
shorter. -/
def rows (r : Region α) (n len : ℕ) : Option (List (List α)) :=
  if n * len ≤ r.size then
    some ((List.range n).map fun t => (List.range len).map fun k => r.cell (t * len + k))
  else none

/-- The block with `a` in every cell. -/
def fill (r : Region α) (a : α) : Region α := { r with cell := fun _ => a }

theorem store_of_mem {r : Region α} {i : ℤ} (h : 0 ≤ i ∧ i < r.size) (a : α) :
    r.store i a = some { r with cell := Function.update r.cell i.toNat a } := if_pos h

theorem store_of_notMem {r : Region α} {i : ℤ} (h : ¬(0 ≤ i ∧ i < r.size)) (a : α) :
    r.store i a = none := if_neg h

theorem rows_of_le {r : Region α} {n len : ℕ} (h : n * len ≤ r.size) :
    r.rows n len =
      some ((List.range n).map fun t => (List.range len).map fun k => r.cell (t * len + k)) :=
  if_pos h

/-- Stores inside the block whose values are a function `g` of the cell: a
named cell ends up with its value of `g`, every other cell is unchanged. -/
theorem storeAll_eq {r : Region α} {ws : List (ℤ × α)} (g : ℕ → α)
    (hin : ∀ w ∈ ws, 0 ≤ w.1 ∧ w.1 < r.size) (hval : ∀ w ∈ ws, w.2 = g w.1.toNat) :
    r.storeAll ws = some { r with
      cell := fun i => if (i : ℤ) ∈ ws.map Prod.fst then g i else r.cell i } := by
  induction ws generalizing r with
  | nil => simp [storeAll]
  | cons w ws ih =>
    have hw := hin w (by simp)
    rw [storeAll, store_of_mem hw, Option.bind_some]
    rw [ih (r := ⟨r.size, Function.update r.cell w.1.toNat w.2⟩)
      (fun v hv => hin v (by simp [hv])) (fun v hv => hval v (by simp [hv]))]
    congr 2
    funext i
    by_cases hi : (i : ℤ) ∈ ws.map Prod.fst
    · simp only [hi, List.map_cons, List.mem_cons, or_true, if_true]
    · by_cases he : (i : ℤ) = w.1
      · have hn : w.1.toNat = i := by omega
        rw [if_neg hi, if_pos (by simp [he])]
        change Function.update r.cell w.1.toNat w.2 i = g i
        rw [hn, Function.update_self, hval w (by simp), hn]
      · have hn : i ≠ w.1.toNat := by omega
        simp only [hi, List.map_cons, List.mem_cons, he, or_self, if_false]
        exact Function.update_of_ne hn _ _

/-- A sequence with a store outside the block is refused. -/
theorem storeAll_eq_none {r : Region α} {ws : List (ℤ × α)}
    (h : ∃ w ∈ ws, ¬(0 ≤ w.1 ∧ w.1 < r.size)) : r.storeAll ws = none := by
  induction ws generalizing r with
  | nil => obtain ⟨w, hw, _⟩ := h; simp at hw
  | cons v ws ih =>
    by_cases hv : 0 ≤ v.1 ∧ v.1 < r.size
    · rw [storeAll, store_of_mem hv, Option.bind_some]
      apply ih
      obtain ⟨w, hw, hout⟩ := h
      rcases List.mem_cons.mp hw with rfl | hmem
      · exact absurd hv hout
      · exact ⟨w, hmem, hout⟩
    · rw [storeAll, store_of_notMem hv, Option.bind_none]

end Region
