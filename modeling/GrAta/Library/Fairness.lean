import GrAta.Library.Execution
import Mathlib.Order.WellFounded

/-!
# Fair schedules

An endless schedule feeds a step function one input after the other. It is fair when inputs
of every kind come again and again. A run then reaches its goal if in each state the inputs
of one kind help: they bring a rank down, and every other input brings it down or leaves
both the rank and the kind that helps.

## Main definitions

- `Execution.first`: the first inputs of a schedule
- `Execution.Fair`: inputs of every kind come again
- `Execution.Advances`: a step on the way to a goal

## Main results

- `Execution.reaches`: a schedule reaches the goal if the inputs that help come again
- `Execution.fair_reaches`: a fair schedule reaches the goal
-/

namespace Execution

variable {σ ι ε κ ρ : Type*}

/-- The first `n` inputs of a schedule. -/
def first (inputs : ℕ → ι) (n : ℕ) : List ι := (List.range n).map inputs

theorem first_succ (inputs : ℕ → ι) (n : ℕ) :
    first inputs (n + 1) = first inputs n ++ [inputs n] := by
  rw [first, List.range_succ, List.map_append]
  rfl

theorem mem_first {inputs : ℕ → ι} {n : ℕ} {i : ι} (h : i ∈ first inputs n) :
    ∃ m, i = inputs m := by
  obtain ⟨m, -, rfl⟩ := List.mem_map.mp h
  exact ⟨m, rfl⟩

/-- Whatever has happened, an input of each kind is still to come. -/
def Fair (kind : ι → κ) (inputs : ℕ → ι) : Prop := ∀ k n, ∃ m, n ≤ m ∧ kind (inputs m) = k

/-- A step by an input of kind `k` on the way to a goal. -/
inductive Advances [LT ρ] (Goal : σ → Prop) (rank : σ → ρ) (helpful : σ → κ) (k : κ)
    (s s' : σ) : Prop
  | reached (h : Goal s')
  | lower (h : rank s' < rank s)
  | waits (hkind : k ≠ helpful s) (hrank : rank s' = rank s) (hhelpful : helpful s' = helpful s)

variable [LT ρ] [WellFoundedLT ρ] {step : σ → ι → Except ε σ} {Goal : σ → Prop} {rank : σ → ρ}
  {kind : ι → κ} {helpful : σ → κ} {inputs : ℕ → ι} {s₀ : σ}

/-- **Progress rule.** From some point on every step of a schedule advances, and inputs of
the kind that helps come again and again. Then the goal is reached. -/
theorem reaches {n₀ : ℕ} (hcomes : ∀ s n, ∃ m, n ≤ m ∧ kind (inputs m) = helpful s)
    (hstep : ∀ n s, n₀ ≤ n → run step s₀ (first inputs n) = .ok s → ¬Goal s →
      ∃ s', step s (inputs n) = .ok s' ∧ Advances Goal rank helpful (kind (inputs n)) s s')
    {s : σ} (hs : run step s₀ (first inputs n₀) = .ok s) :
    ∃ n s, n₀ ≤ n ∧ run step s₀ (first inputs n) = .ok s ∧ Goal s := by
  suffices h : ∀ r n s, n₀ ≤ n → rank s = r → run step s₀ (first inputs n) = .ok s →
      ∃ n s, n₀ ≤ n ∧ run step s₀ (first inputs n) = .ok s ∧ Goal s from h _ n₀ s le_rfl rfl hs
  intro r
  induction r using WellFoundedLT.induction with
  | ind r ih =>
    intro n s hn hr hs
    by_contra hnever
    -- the rank stays what it is, so no input of the helpful kind ever comes
    have hwaits : ∀ d, ∃ s', run step s₀ (first inputs (n + d)) = .ok s' ∧ rank s' = rank s ∧
        helpful s' = helpful s ∧ ∀ j < d, kind (inputs (n + j)) ≠ helpful s := by
      intro d
      induction d with
      | zero => exact ⟨s, hs, rfl, rfl, fun j hj => absurd hj (Nat.not_lt_zero j)⟩
      | succ d ihd =>
        obtain ⟨s₁, hs₁, hrank₁, hhelpful₁, hkinds⟩ := ihd
        have hd : n₀ ≤ n + d := hn.trans (Nat.le_add_right n d)
        obtain ⟨s', hs', hadvances⟩ :=
          hstep (n + d) s₁ hd hs₁ fun hgoal => hnever ⟨_, s₁, hd, hs₁, hgoal⟩
        have hrun : run step s₀ (first inputs (n + (d + 1))) = .ok s' := by
          rw [← Nat.add_assoc, first_succ]
          exact run_concat_ok hs₁ hs'
        have hd' : n₀ ≤ n + (d + 1) := hn.trans (Nat.le_add_right n (d + 1))
        cases hadvances with
        | reached hgoal => exact absurd ⟨_, s', hd', hrun, hgoal⟩ hnever
        | lower hlower =>
          rw [hrank₁, hr] at hlower
          exact absurd (ih _ hlower _ s' hd' rfl hrun) hnever
        | waits hkind hrank hhelpful =>
          refine ⟨s', hrun, hrank.trans hrank₁, hhelpful.trans hhelpful₁, fun j hj => ?_⟩
          rcases Nat.lt_succ_iff_lt_or_eq.mp hj with hlt | rfl
          · exact hkinds j hlt
          · rwa [hhelpful₁] at hkind
    obtain ⟨m, hm, hkind⟩ := hcomes s n
    obtain ⟨d, rfl⟩ := Nat.exists_eq_add_of_le hm
    obtain ⟨-, -, -, -, hkinds⟩ := hwaits (d + 1)
    exact hkinds d (Nat.lt_succ_self d) hkind

/-- If every step of a fair schedule advances, the goal is reached. -/
theorem fair_reaches (hfair : Fair kind inputs)
    (hstep : ∀ n s, run step s₀ (first inputs n) = .ok s → ¬Goal s →
      ∃ s', step s (inputs n) = .ok s' ∧ Advances Goal rank helpful (kind (inputs n)) s s') :
    ∃ n s, run step s₀ (first inputs n) = .ok s ∧ Goal s := by
  have hstart : run step s₀ (first inputs 0) = .ok s₀ := rfl
  obtain ⟨n, s, -, hs, hgoal⟩ :=
    reaches (fun s => hfair (helpful s)) (fun n s _ => hstep n s) hstart
  exact ⟨n, s, hs, hgoal⟩

end Execution
