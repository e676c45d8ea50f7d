import Mathlib.Algebra.GroupWithZero.Nat
import Mathlib.Data.Finset.Lattice.Fold
import Mathlib.Data.Fintype.Basic
import Mathlib.Data.Fin.Tuple.Basic
import Mathlib.Data.List.OfFn
import Mathlib.Order.Lattice.Nat
import Mathlib.Tactic.Common

/-!
# Loops over ports

A block with `n` ports handles them in loops, from port 0 up. A loop whose body
may fault collects the results of all ports, or stops at the first fault. A loop
that looks for the largest of `n` numbers, or compares all of them with the
first one, is a fold of the list of the numbers.

## Main definitions

- `Ports.collect`: the results of a loop over the ports
- `Ports.largest`: the running maximum, starting from zero
- `Ports.allEqual`: every number is the first one

## Main results

- `Ports.collect_eq_ok`: a loop returns when its body does on every port
- `Ports.largest_ofFn`: the running maximum is the supremum
- `Ports.allEqual_ofFn`: the comparison decides that all numbers agree
-/

namespace Ports

variable {n : ℕ} {ε : Type} {β : Type}

/-- Run `f` on the ports in order. -/
def collect : {n : ℕ} → (Fin n → Except ε β) → Except ε (Fin n → β)
  | 0, _ => .ok Fin.elim0
  | _ + 1, f =>
    match f 0 with
    | .error e => .error e
    | .ok b =>
      match collect fun i => f i.succ with
      | .error e => .error e
      | .ok bs => .ok (Fin.cons b bs)

theorem collect_ok {f : Fin n → Except ε β} {b : Fin n → β} (h : ∀ i, f i = .ok (b i)) :
    collect f = .ok b := by
  induction n with
  | zero => exact congrArg Except.ok (funext fun i => i.elim0)
  | succ n ih =>
    have hrest : (collect fun i => f i.succ) = .ok fun i => b i.succ := ih fun i => h i.succ
    simp only [collect, h 0, hrest]
    exact congrArg Except.ok (Fin.cons_self_tail b)

theorem ok_of_collect {f : Fin n → Except ε β} {b : Fin n → β} (h : collect f = .ok b)
    (i : Fin n) : f i = .ok (b i) := by
  induction n with
  | zero => exact i.elim0
  | succ n ih =>
    cases h0 : f 0 with
    | error e => simp [collect, h0] at h
    | ok b0 =>
      cases hs : collect fun i => f i.succ with
      | error e => simp [collect, h0, hs] at h
      | ok bs =>
        simp only [collect, h0, hs, Except.ok.injEq] at h
        subst h
        refine Fin.cases ?_ (fun j => ?_) i
        · exact h0
        · exact ih hs j

def largest (ns : List ℕ) : ℕ := ns.foldl (fun high m => if m > high then m else high) 0

/-- Every number is the first one. -/
def allEqual : List ℕ → Bool
  | [] => true
  | first :: rest => rest.all fun m => m = first

theorem foldl_largest (ns : List ℕ) (high : ℕ) :
    ns.foldl (fun high m => if m > high then m else high) high = max high (largest ns) := by
  induction ns generalizing high with
  | nil => simp [largest]
  | cons m ns ih =>
    rw [largest, List.foldl_cons, List.foldl_cons, ih, ih]
    split_ifs <;> omega

theorem largest_cons (m : ℕ) (ns : List ℕ) : largest (m :: ns) = max m (largest ns) := by
  rw [largest, List.foldl_cons, foldl_largest]
  split_ifs <;> omega

theorem largest_ofFn (f : Fin n → ℕ) : largest (List.ofFn f) = Finset.univ.sup f := by
  induction n with
  | zero => rfl
  | succ n ih =>
    rw [List.ofFn_succ, largest_cons, ih, Fin.univ_succ, Finset.sup_cons, Finset.sup_map]
    rfl

theorem allEqual_ofFn {f : Fin n → ℕ} :
    allEqual (List.ofFn f) = true ↔ ∀ i j, f i = f j := by
  cases n with
  | zero => exact iff_of_true rfl fun i => i.elim0
  | succ n =>
    have hall : allEqual (List.ofFn f) = true ↔ ∀ i : Fin n, f i.succ = f 0 := by
      simp [List.ofFn_succ, allEqual]
    rw [hall]
    constructor
    · intro h i j
      have hfirst : ∀ k, f k = f 0 := fun k => Fin.cases rfl h k
      rw [hfirst i, hfirst j]
    · exact fun h i => h _ _

end Ports
