import Mathlib.Data.List.Basic
import Mathlib.Data.List.Infix
import Mathlib.Tactic.Common

/-!
# Lists in blocks

Sequences that are produced in blocks of a fixed length, as functions of the
position: element `k` is the one with number `k % b` of block `k / b`. A prefix of
such a sequence is described by its length alone.

## Main results

- `Blocks.flatMap_range`: a sequence of blocks by position
- `Blocks.eq_of_prefix`: a prefix of a sequence given by position
- `Blocks.take_drop_range`: a part of a sequence given by position
- `Blocks.getElem?_flatMap`: an entry of one block
-/

namespace Blocks

variable {α β : Type*}

theorem range_mono {n m : ℕ} (h : n ≤ m) : List.range n <+: List.range m := by
  obtain ⟨k, rfl⟩ := Nat.exists_eq_add_of_le h
  rw [List.range_add]
  exact List.prefix_append _ _

/-- `n` blocks of `b` elements each, by position. -/
theorem flatMap_range (f : ℕ → ℕ → α) (b n : ℕ) :
    ((List.range n).flatMap fun j => (List.range b).map (f j)) =
      (List.range (n * b)).map fun k => f (k / b) (k % b) := by
  induction n with
  | zero => rw [Nat.zero_mul]; rfl
  | succ n ih =>
    rw [List.range_succ, List.flatMap_append, ih, Nat.add_mul, Nat.one_mul, List.range_add,
      List.map_append, List.map_map]
    congr 1
    simp only [List.flatMap_cons, List.flatMap_nil, List.append_nil]
    refine List.map_congr_left fun r hr => ?_
    rw [List.mem_range] at hr
    have hb : 0 < b := by omega
    have hdiv : (n * b + r) / b = n := by
      rw [Nat.mul_comm, Nat.mul_add_div hb, Nat.div_eq_of_lt hr, Nat.add_zero]
    have hmod : (n * b + r) % b = r := by
      rw [Nat.mul_comm, Nat.mul_add_mod, Nat.mod_eq_of_lt hr]
    simp only [Function.comp, hdiv, hmod]

/-- A prefix of a sequence given by position is given by its length. -/
theorem eq_of_prefix {f : ℕ → α} {n : ℕ} {l : List α} (h : l <+: (List.range n).map f) :
    l = (List.range l.length).map f ∧ l.length ≤ n := by
  have hlen : l.length ≤ n := by simpa using h.length_le
  refine ⟨?_, hlen⟩
  rw [List.prefix_iff_eq_take, ← List.map_take, List.take_range, Nat.min_eq_left hlen] at h
  exact h

/-- A part of a sequence given by position. -/
theorem take_drop_range (f : ℕ → α) {b c n : ℕ} (h : b + c ≤ n) :
    (((List.range n).map f).drop b).take c = (List.range c).map fun k => f (b + k) := by
  obtain ⟨r, rfl⟩ := Nat.exists_eq_add_of_le h
  rw [Nat.add_assoc, List.range_add, List.map_append,
    List.drop_left' (by rw [List.length_map, List.length_range]), List.map_map, ← List.map_take,
    List.take_range, Nat.min_eq_left (Nat.le_add_right c r)]
  rfl

/-- The elements of a sequence given by position. -/
theorem getElem?_eq {f : ℕ → α} {n k : ℕ} {l : List α} (h : l = (List.range n).map f)
    (hk : k < n) : l[k]? = some (f k) := by
  rw [h, List.getElem?_map, List.getElem?_range hk, Option.map_some]

/-- Blocks of one length, whatever is in them. -/
theorem length_flatMap {g : α → List β} {b : ℕ} (hg : ∀ x, (g x).length = b) (l : List α) :
    (l.flatMap g).length = l.length * b := by
  rw [List.length_flatMap, List.map_congr_left fun x _ => hg x, List.map_const',
    List.sum_replicate_nat]

/-- The entry `r` of block `n`. -/
theorem getElem?_flatMap {l : List α} {g : α → List β} {b n r : ℕ} {x : α}
    (hg : ∀ x, (g x).length = b) (hx : l[n]? = some x) (hr : r < b) :
    (l.flatMap g)[n * b + r]? = (g x)[r]? := by
  induction l generalizing n with
  | nil => cases hx
  | cons y l ih =>
    rw [List.flatMap_cons]
    cases n with
    | zero =>
      obtain rfl : y = x := Option.some.inj hx
      rw [Nat.zero_mul, Nat.zero_add, List.getElem?_append_left ((hg y).symm ▸ hr)]
    | succ n =>
      have hplace : (n + 1) * b + r = (g y).length + (n * b + r) := by
        rw [hg y, Nat.add_mul, Nat.one_mul, Nat.add_comm (n * b), Nat.add_assoc]
      rw [hplace, List.getElem?_append_right (Nat.le_add_right ..), Nat.add_sub_cancel_left]
      exact ih hx

end Blocks
