import Mathlib.Data.List.Basic
import Mathlib.Data.List.Induction
import Mathlib.Tactic.Common

/-!
# Faulting executions

Runs of a step function that may stop with a fault, over a list of inputs. A
step either returns the next state or reports why it cannot return. The rules
below turn one statement about a step into a statement about whole runs: an
invariant that may mention the inputs consumed so far, a map that carries one run to
another in lockstep, and a relation between two runs in lockstep.

## Main definitions

- `Execution.run`: the state after a list of inputs, or the first fault
- `Execution.Related`: two outcomes fault together or return related states

## Main results

- `Execution.run_history`: an invariant relating the state to the inputs so far
- `Execution.run_closed`: the same, under a property of the whole history
- `Execution.run_map`: a map of states that commutes with steps commutes with runs
- `Execution.run_related`: a relation that steps keep is kept by runs
- `Execution.run_related_filterMap`: the same, where one run skips some of the inputs
-/

namespace Execution

variable {σ τ ι ε : Type*}

/-- Feed the inputs to `step` in order, stopping at the first fault. -/
def run (step : σ → ι → Except ε σ) : σ → List ι → Except ε σ
  | s, [] => .ok s
  | s, i :: is =>
    match step s i with
    | .error e => .error e
    | .ok s' => run step s' is

@[simp] theorem run_nil (step : σ → ι → Except ε σ) (s : σ) : run step s [] = .ok s := rfl

theorem run_cons_ok {step : σ → ι → Except ε σ} {s s' : σ} {i : ι}
    (h : step s i = .ok s') (is : List ι) : run step s (i :: is) = run step s' is := by
  simp only [run, h]

theorem run_singleton (step : σ → ι → Except ε σ) (s : σ) (i : ι) :
    run step s [i] = step s i := by
  rw [run]
  cases step s i <;> rfl

/-- A run over a concatenation that returns passes through the middle state. -/
theorem run_append_ok {step : σ → ι → Except ε σ} {s s' : σ} {is : List ι}
    (h : run step s is = .ok s') (js : List ι) :
    run step s (is ++ js) = run step s' js := by
  induction is generalizing s with
  | nil =>
    have hs : s = s' := Except.ok.inj h
    rw [hs, List.nil_append]
  | cons i is ih =>
    cases hi : step s i with
    | error e => simp [run, hi] at h
    | ok m =>
      rw [run_cons_ok hi] at h
      rw [List.cons_append, run_cons_ok hi]
      exact ih h

/-- A fault in the first part of a run is the fault of the run. -/
theorem run_append_error {step : σ → ι → Except ε σ} {s : σ} {e : ε} {is : List ι}
    (h : run step s is = .error e) (js : List ι) : run step s (is ++ js) = .error e := by
  induction is generalizing s with
  | nil => cases h
  | cons i is ih =>
    rw [List.cons_append, run]
    rw [run] at h
    cases hi : step s i with
    | error e' => rwa [hi] at h
    | ok m =>
      rw [hi] at h
      exact ih h

/-- A returning run over a concatenation splits at the middle state. -/
theorem run_append_split {step : σ → ι → Except ε σ} {s t : σ} {is js : List ι}
    (h : run step s (is ++ js) = .ok t) :
    ∃ m, run step s is = .ok m ∧ run step m js = .ok t := by
  induction is generalizing s with
  | nil => exact ⟨s, rfl, h⟩
  | cons i is ih =>
    cases hi : step s i with
    | error e => simp [run, hi] at h
    | ok m =>
      rw [List.cons_append, run_cons_ok hi] at h
      obtain ⟨m', hm, hj⟩ := ih h
      exact ⟨m', by rw [run_cons_ok hi]; exact hm, hj⟩

theorem run_concat_ok {step : σ → ι → Except ε σ} {s s' s'' : σ} {is : List ι} {i : ι}
    (h : run step s is = .ok s') (hi : step s' i = .ok s'') :
    run step s (is ++ [i]) = .ok s'' := by
  rw [run_append_ok h, run_cons_ok hi, run_nil]

/-- **History rule.** If every admissible input takes a state that fits the
history `h` to a state that fits `h ++ [i]`, then every run over admissible
inputs returns, in a state that fits the whole history. -/
theorem run_history {step : σ → ι → Except ε σ} (Inv : List ι → σ → Prop) (P : ι → Prop)
    (hstep : ∀ h s i, Inv h s → P i → ∃ s', step s i = .ok s' ∧ Inv (h ++ [i]) s')
    (past : List ι) {s : σ} (hs : Inv past s) (is : List ι) (his : ∀ i ∈ is, P i) :
    ∃ s', run step s is = .ok s' ∧ Inv (past ++ is) s' := by
  induction is generalizing past s with
  | nil => exact ⟨s, rfl, by rwa [List.append_nil]⟩
  | cons i is ih =>
    obtain ⟨m, hm, hinv⟩ := hstep past s i hs (his i (by simp))
    obtain ⟨t, ht, htinv⟩ := ih (past ++ [i]) hinv (fun j hj => his j (by simp [hj]))
    refine ⟨t, by rw [run_cons_ok hm]; exact ht, ?_⟩
    rwa [List.append_assoc, List.singleton_append] at htinv

/-- **Partial history rule.** As `run_history`, for steps that may fault: only
the states of returning runs are constrained. -/
theorem run_history_partial {step : σ → ι → Except ε σ} (Inv : List ι → σ → Prop)
    (P : ι → Prop)
    (hstep : ∀ h s i s', Inv h s → P i → step s i = .ok s' → Inv (h ++ [i]) s')
    (past : List ι) {s s' : σ} (hs : Inv past s) {is : List ι} (his : ∀ i ∈ is, P i)
    (hrun : run step s is = .ok s') : Inv (past ++ is) s' := by
  induction is generalizing past s with
  | nil =>
    obtain rfl : s = s' := Except.ok.inj hrun
    rwa [List.append_nil]
  | cons i is ih =>
    cases hi : step s i with
    | error e => simp [run, hi] at hrun
    | ok m =>
      rw [run_cons_ok hi] at hrun
      have hm := hstep past s i m hs (his i (by simp)) hi
      have := ih (past ++ [i]) hm (fun j hj => his j (by simp [hj])) hrun
      rwa [List.append_assoc, List.singleton_append] at this

/-- **Closed history rule.** As `run_history`, for a property of the whole history
that carries over to every shorter one. -/
theorem run_closed {step : σ → ι → Except ε σ} (Inv : List ι → σ → Prop)
    (Q : List ι → Prop) (hclosed : ∀ h i, Q (h ++ [i]) → Q h)
    (hstep : ∀ h s i, Inv h s → Q (h ++ [i]) →
      ∃ s', step s i = .ok s' ∧ Inv (h ++ [i]) s')
    {s : σ} (hs : Inv [] s) {is : List ι} (his : Q is) :
    ∃ s', run step s is = .ok s' ∧ Inv is s' := by
  induction is using List.reverseRecOn with
  | nil => exact ⟨s, rfl, hs⟩
  | append_singleton is i ih =>
    obtain ⟨m, hm, hinv⟩ := ih (hclosed is i his)
    obtain ⟨t, ht, htinv⟩ := hstep is m i hinv his
    exact ⟨t, run_concat_ok hm ht, htinv⟩

/-- Both outcomes are the same fault, or both return and the results are
related. -/
inductive Related (R : σ → τ → Prop) : Except ε σ → Except ε τ → Prop
  | fault (e : ε) : Related R (.error e) (.error e)
  | ok {s : σ} {t : τ} (h : R s t) : Related R (.ok s) (.ok t)

/-- An outcome is related to its image under a function that respects the relation. -/
theorem Related.of_map {R : σ → τ → Prop} {u : σ → τ} (h : ∀ s, R s (u s)) (x : Except ε σ) :
    Related R x (x.map u) := by
  cases x with
  | error e => exact .fault e
  | ok s => exact .ok (h s)

theorem Related.mono {R S : σ → τ → Prop} {x : Except ε σ} {y : Except ε τ} (h : Related R x y)
    (hRS : ∀ s t, R s t → S s t) : Related S x y := by
  cases h with
  | fault e => exact .fault e
  | ok hR => exact .ok (hRS _ _ hR)

/-- Related results, continued in related ways. -/
theorem Related.bind {α β γ δ : Type} {R : α → β → Prop} {S : γ → δ → Prop} {x : Except ε α}
    {y : Except ε β} {f : α → Except ε γ} {g : β → Except ε δ} (h : Related R x y)
    (hfg : ∀ a b, R a b → Related S (f a) (g b)) : Related S (x >>= f) (y >>= g) := by
  cases h with
  | fault e => exact .fault e
  | ok hR => exact hfg _ _ hR

/-- The second outcome returns if the first one does. -/
theorem Related.of_ok {R : σ → τ → Prop} {x : Except ε σ} {y : Except ε τ} (h : Related R x y)
    {s : σ} (hx : x = .ok s) : ∃ t, y = .ok t ∧ R s t := by
  subst hx
  cases h with
  | ok hR => exact ⟨_, rfl, hR⟩

/-- A function `u` between intermediate results commutes with the continuations. -/
theorem map_bind {α β γ δ : Type} {x : Except ε α} {u : α → β} {w : γ → δ}
    {f : α → Except ε γ} {g : β → Except ε δ} (h : ∀ a, g (u a) = (f a).map w) :
    (x.map u >>= g) = (x >>= f).map w := by
  cases x with
  | error e => rfl
  | ok a => exact h a

/-- If one step function acts on images as the other one does on the states, then
so do the runs, faults included. -/
theorem run_map {step : σ → ι → Except ε σ} {step' : τ → ι → Except ε τ} {u : σ → τ}
    (hstep : ∀ s i, step' (u s) i = (step s i).map u) (s : σ) (is : List ι) :
    run step' (u s) is = (run step s is).map u := by
  induction is generalizing s with
  | nil => rfl
  | cons i is ih =>
    simp only [run, hstep]
    cases step s i with
    | error e => rfl
    | ok s' => exact ih s'

/-- Two runs in lockstep, where the relation may mention the inputs to come. -/
theorem run_related {κ : Type*} {step : σ → ι → Except ε σ} {step' : τ → κ → Except ε τ}
    {u : ι → κ} (R : List ι → σ → τ → Prop)
    (hstep : ∀ i is s t, R (i :: is) s t → Related (R is) (step s i) (step' t (u i)))
    {is : List ι} {s : σ} {t : τ} (h : R is s t) :
    Related (R []) (run step s is) (run step' t (is.map u)) := by
  induction is generalizing s t with
  | nil => exact .ok h
  | cons i is ih =>
    have hi := hstep i is s t h
    rw [List.map_cons, run, run]
    generalize step s i = x at hi ⊢
    generalize step' t (u i) = x' at hi ⊢
    cases hi with
    | fault e => exact .fault e
    | ok hnext => exact ih hnext

/-- Two runs, where the first one does not see the inputs that `u` maps to none. -/
theorem run_related_filterMap {κ : Type*} {step : σ → κ → Except ε σ}
    {step' : τ → ι → Except ε τ} {u : ι → Option κ} (R : σ → τ → Prop)
    (hstep : ∀ i k s t, u i = some k → R s t → Related R (step s k) (step' t i))
    (hskip : ∀ i s t, u i = none → R s t → ∃ t', step' t i = .ok t' ∧ R s t')
    (is : List ι) {s : σ} {t : τ} (h : R s t) :
    Related R (run step s (is.filterMap u)) (run step' t is) := by
  induction is generalizing s t with
  | nil => exact .ok h
  | cons i is ih =>
    cases hu : u i with
    | none =>
      obtain ⟨t', ht, h'⟩ := hskip i s t hu h
      rw [List.filterMap_cons_none hu, run_cons_ok ht]
      exact ih h'
    | some k =>
      have hi := hstep i k s t hu h
      rw [List.filterMap_cons_some hu, run, run]
      generalize step s k = x at hi ⊢
      generalize step' t i = x' at hi ⊢
      cases hi with
      | fault e => exact .fault e
      | ok hnext => exact ih hnext

end Execution
