import Mathlib.Data.Finset.Card
import Mathlib.Data.List.Infix
import Mathlib.Order.Interval.Finset.Nat
import Mathlib.Tactic.Common

/-!
# Sequences with missing positions

Numbered items of which only some are there: the positions of these as an increasing list
of numbers. The others between the first and the last one of them are missing.

## Main definitions

- `Positions.first`, `Positions.last`: the ends of a list of positions
- `Positions.missing`: how many positions are missing in between
- `Positions.missingBefore`: how many are missing before each of them

## Main results

- `Positions.missing_add_length`: each position in between is there or missing
- `Positions.missingBefore_getLast`: all missing positions are missing before the last one
-/

namespace Positions

def first (ks : List ℕ) : ℕ := ks.head?.getD 0

def last (ks : List ℕ) : ℕ := ks.getLast?.getD 0

/-- The number of missing positions between the first and the last one. -/
def missing (ks : List ℕ) : ℕ := (Finset.Icc (first ks) (last ks) \ ks.toFinset).card

/-- The numbers of positions that are missing before each one, from position `next` on. -/
def missingFrom (next : ℕ) : List ℕ → List ℕ
  | [] => []
  | k :: ks => (k - next) :: missingFrom (next + 1) ks

/-- The numbers of missing positions between the first position and each one. -/
def missingBefore (ks : List ℕ) : List ℕ := missingFrom (first ks) ks

variable {ks : List ℕ}

/-- Every position in between is there or missing. -/
theorem missing_add_length (hsorted : ks.Pairwise (· < ·)) (hsome : ks ≠ []) :
    (missing ks : ℤ) + ks.length = last ks - first ks + 1 := by
  obtain ⟨k, rest, hk⟩ := List.exists_cons_of_ne_nil hsome
  obtain ⟨init, z, hz⟩ := (List.eq_nil_or_concat ks).resolve_left hsome
  rw [List.concat_eq_append] at hz
  have hfirst : first ks = k := by rw [first, hk]; rfl
  have hlast : last ks = z := by rw [last, hz, List.getLast?_concat]; rfl
  have hge : ∀ i ∈ ks, k ≤ i := by
    rw [hk] at hsorted ⊢
    exact List.forall_mem_cons.mpr ⟨le_rfl, fun i hi => (List.rel_of_pairwise_cons hsorted hi).le⟩
  have hle : ∀ i ∈ ks, i ≤ z := by
    rw [hz] at hsorted ⊢
    intro i hi
    rcases List.mem_append.mp hi with hinit | heq
    · exact ((List.pairwise_append.mp hsorted).2.2 i hinit z (List.mem_singleton_self z)).le
    · exact (List.mem_singleton.mp heq).le
  have hsub : ks.toFinset ⊆ Finset.Icc k z := by
    intro i hi
    have hmem := List.mem_toFinset.mp hi
    exact Finset.mem_Icc.mpr ⟨hge i hmem, hle i hmem⟩
  have hnodup : ks.Nodup := hsorted.imp Nat.ne_of_lt
  have hcard := Finset.card_sdiff_add_card_eq_card hsub
  rw [List.toFinset_card_of_nodup hnodup, Nat.card_Icc] at hcard
  have hkz := hle k (hk ▸ List.mem_cons_self)
  rw [missing, hfirst, hlast]
  omega

theorem missingFrom_length (next : ℕ) (ks : List ℕ) :
    (missingFrom next ks).length = ks.length := by
  induction ks generalizing next with
  | nil => rfl
  | cons k ks ih => rw [missingFrom, List.length_cons, ih, List.length_cons]

theorem missingFrom_getLast? (next : ℕ) (ks : List ℕ) :
    (missingFrom next ks).getLast? = ks.getLast?.map fun k => k - (next + (ks.length - 1)) := by
  induction ks generalizing next with
  | nil => rfl
  | cons k ks ih =>
    rw [missingFrom, List.getLast?_cons, List.getLast?_cons, ih]
    cases hlast : ks.getLast? with
    | none =>
      obtain rfl := List.getLast?_eq_none_iff.mp hlast
      rfl
    | some z =>
      have hlen : 0 < ks.length := List.length_pos_of_mem (List.mem_of_getLast? hlast)
      simp only [Option.map_some, Option.getD_some, Option.some.injEq, List.length_cons]
      omega

/-- All missing positions are missing before the last one. -/
theorem missingBefore_getLast (hsorted : ks.Pairwise (· < ·)) (hsome : ks ≠ []) :
    last (missingBefore ks) = missing ks := by
  have hcount := missing_add_length hsorted hsome
  have hlen : 0 < ks.length := List.length_pos_of_ne_nil hsome
  have hlast := missingFrom_getLast? (first ks) ks
  rw [last, missingBefore, hlast]
  rw [last] at hcount
  cases hz : ks.getLast? with
  | none => exact absurd (List.getLast?_eq_none_iff.mp hz) hsome
  | some z =>
    rw [hz] at hcount
    simp only [Option.map_some, Option.getD_some] at hcount ⊢
    omega

end Positions
