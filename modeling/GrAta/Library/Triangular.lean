import Mathlib.Algebra.Ring.Nat
import Mathlib.Data.List.Basic
import Mathlib.Tactic.Common
import Mathlib.Tactic.Ring

/-!
# Triangular order

The pairs `(i, j)` with `j ≤ i < n`, row by row. Pair `(i, j)` has the number
`i (i + 1) / 2 + j`.

## Main definitions

- `Triangular.size`: how many pairs `n` rows have
- `Triangular.pairs`: the pairs in their order

## Main results

- `Triangular.pairs_getElem?`: the number of a pair
- `Triangular.exists_pair`: the pair with a number
-/

namespace Triangular

/-- The number of pairs in `n` rows. -/
def size (n : ℕ) : ℕ := n * (n + 1) / 2

/-- The pairs of `n` rows. -/
def pairs (n : ℕ) : List (ℕ × ℕ) :=
  (List.range n).flatMap fun i => (List.range (i + 1)).map fun j => (i, j)

theorem size_succ (n : ℕ) : size (n + 1) = size n + (n + 1) := by
  have hrow : (n + 1) * (n + 1 + 1) = n * (n + 1) + 2 * (n + 1) := by ring
  rw [size, size, hrow, Nat.add_mul_div_left _ _ two_pos]

theorem size_add_lt {i j n : ℕ} (hj : j ≤ i) (hi : i < n) : size i + j < size n := by
  induction n with
  | zero => exact absurd hi (Nat.not_lt_zero i)
  | succ n ih =>
    rw [size_succ]
    rcases Nat.lt_succ_iff_lt_or_eq.mp hi with hlt | rfl
    · have := ih hlt
      omega
    · omega

theorem size_pos {n : ℕ} (h : 0 < n) : 0 < size n :=
  Nat.lt_of_le_of_lt (Nat.zero_le _) (size_add_lt (Nat.zero_le 0) h)

theorem pairs_succ (n : ℕ) :
    pairs (n + 1) = pairs n ++ (List.range (n + 1)).map fun j => (n, j) := by
  rw [pairs, pairs]
  nth_rewrite 1 [List.range_succ]
  rw [List.flatMap_append, List.flatMap_singleton]

theorem pairs_length (n : ℕ) : (pairs n).length = size n := by
  induction n with
  | zero => rfl
  | succ n ih =>
    rw [pairs_succ, List.length_append, ih, List.length_map, List.length_range, size_succ]

theorem mem_pairs {n : ℕ} {p : ℕ × ℕ} : p ∈ pairs n ↔ p.2 ≤ p.1 ∧ p.1 < n := by
  obtain ⟨i, j⟩ := p
  simp only [pairs, List.mem_flatMap, List.mem_map, List.mem_range, Prod.mk.injEq]
  constructor
  · rintro ⟨i', hi, j', hj, rfl, rfl⟩
    exact ⟨Nat.lt_succ_iff.mp hj, hi⟩
  · rintro ⟨hj, hi⟩
    exact ⟨i, hi, j, Nat.lt_succ_iff.mpr hj, rfl, rfl⟩

/-- The number of a pair. -/
theorem pairs_getElem? {i j n : ℕ} (hj : j ≤ i) (hi : i < n) :
    (pairs n)[size i + j]? = some (i, j) := by
  induction n with
  | zero => exact absurd hi (Nat.not_lt_zero i)
  | succ n ih =>
    rw [pairs_succ]
    rcases Nat.lt_succ_iff_lt_or_eq.mp hi with hlt | rfl
    · rw [List.getElem?_append_left (by rw [pairs_length]; exact size_add_lt hj hlt), ih hlt]
    · rw [← pairs_length, List.getElem?_append_right (Nat.le_add_right _ _),
        Nat.add_sub_cancel_left, List.getElem?_map,
        List.getElem?_range (Nat.lt_succ_iff.mpr hj), Option.map_some]

/-- The pair with a number. -/
theorem exists_pair {k n : ℕ} (h : k < size n) : ∃ i j, j ≤ i ∧ i < n ∧ size i + j = k := by
  induction n with
  | zero => exact absurd h (Nat.not_lt_zero k)
  | succ n ih =>
    by_cases hk : k < size n
    · obtain ⟨i, j, hj, hi, heq⟩ := ih hk
      exact ⟨i, j, hj, Nat.lt_succ_of_lt hi, heq⟩
    · rw [size_succ] at h
      exact ⟨n, k - size n, by omega, Nat.lt_succ_self n, by omega⟩

end Triangular
