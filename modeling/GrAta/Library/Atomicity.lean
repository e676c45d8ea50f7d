import GrAta.Library.Execution

/-!
# Interrupted calls

A server works on a call in turns, and inputs change the state in between. If the inputs
commute with the turns, a call that is interrupted has the outcome of a whole one that the
inputs follow. So every interleaving has the outcome of a run of whole calls, with the calls
and the inputs each in their order.

## Main definitions

- `Server`: calls in turns, and inputs
- `Server.Ends`: what becomes of an open call when no input comes
- `Server.Commutes`: no input disturbs a turn
- `Server.Serialized`: the outcome of an interleaving, as that of a run of whole calls

## Main results

- `Server.Ends.input`: an input that comes before the last turns of a call
- `Server.run_serialized`: every interleaving
- `Server.Serialized.returns`: an open call comes to its end
-/

namespace Execution

/-- A server for calls from `α` in a state from `σ`. The place in an open call is from `π`,
and there are inputs from `ι`. -/
structure Server (σ α π ι ε : Type*) where
  enter : σ → α → Except ε (σ × Option π)
  turn : π → σ → Except ε (σ × Option π)
  input : σ → ι → σ

namespace Server

/-- Where a server is, with the calls that it has entered. -/
structure Point (σ α π : Type*) where
  state : σ
  place : Option π
  calls : List α

/-- The server moves on, or an input comes. -/
inductive Event (α ι : Type*) where
  | move (a : α)
  | input (i : ι)

/-- The input of an event. -/
def Event.input? {α ι : Type*} : Event α ι → Option ι
  | .move _ => none
  | .input i => some i

/-- The call that a server enters if it has no open one. -/
def Event.call? {α ι : Type*} : Event α ι → Option α
  | .move a => some a
  | .input _ => none

variable {σ α π ι ε : Type*} (S : Server σ α π ι ε)

/-- A server that moves on takes the next turn of the open call, or enters a call. -/
def step (p : Point σ α π) : Event α ι → Except ε (Point σ α π)
  | .move a =>
    match p.place with
    | none => (S.enter p.state a).map fun r => ⟨r.1, r.2, p.calls ++ [a]⟩
    | some l => (S.turn l p.state).map fun r => ⟨r.1, r.2, p.calls⟩
  | .input i => .ok { p with state := S.input p.state i }

theorem step_enter (s : σ) (calls : List α) (a : α) :
    S.step ⟨s, none, calls⟩ (.move a) =
      (S.enter s a).map fun r => ⟨r.1, r.2, calls ++ [a]⟩ := rfl

theorem step_turn (s : σ) (l : π) (calls : List α) (a : α) :
    S.step ⟨s, some l, calls⟩ (.move a) = (S.turn l s).map fun r => ⟨r.1, r.2, calls⟩ := rfl

/-- A step of the system in which calls are whole. -/
def wholeStep (call : σ → α → Except ε σ) (s : σ) : α ⊕ ι → Except ε σ
  | .inl a => call s a
  | .inr i => .ok (S.input s i)

/-- What becomes of an open call when no input comes. -/
inductive Ends : Except ε (σ × Option π) → Except ε σ → Prop
  | fault (e : ε) : Ends (.error e) (.error e)
  | done (s : σ) : Ends (.ok (s, none)) (.ok s)
  | turn {l : π} {s : σ} {r : Except ε σ} (h : Ends (S.turn l s) r) : Ends (.ok (s, some l)) r

/-- No input disturbs a turn, as long as there is room for it. -/
structure Commutes (Inv : Option π → σ → Prop) (Room : ι → σ → Prop) : Prop where
  enter : ∀ {s a s' l}, Inv none s → S.enter s a = .ok (s', l) → Inv l s'
  turn : ∀ {l s s' l'}, Inv (some l) s → S.turn l s = .ok (s', l') → Inv l' s'
  idle : ∀ {s i}, Inv none s → Inv none (S.input s i)
  input : ∀ {l s i}, Inv (some l) s → Room i s → Inv (some l) (S.input s i)
  room : ∀ {l s i s' l'}, Inv (some l) s → Room i s → S.turn l s = .ok (s', some l') → Room i s'
  comm : ∀ {l s i}, Inv (some l) s → Room i s →
    S.turn l (S.input s i) = (S.turn l s).map fun r => (S.input r.1 i, r.2)

variable {S} {Inv : Option π → σ → Prop} {Room : ι → σ → Prop}

-- ════════════════════════════════════════════════════════════════════════
-- Open calls
-- ════════════════════════════════════════════════════════════════════════

/-- **An input before the last turns.** The call ends as it does without the input, and the
input follows. -/
theorem Ends.input (hcomm : S.Commutes Inv Room) {x : Except ε (σ × Option π)} {r : Except ε σ}
    (h : S.Ends x r) {i : ι}
    (hx : ∀ s l, x = .ok (s, some l) → Inv (some l) s ∧ Room i s) :
    S.Ends (x.map fun q => (S.input q.1 i, q.2)) (r.map fun s => S.input s i) := by
  induction h with
  | fault e => exact .fault e
  | done s => exact .done _
  | @turn l s r h ih =>
    obtain ⟨hinv, hroom⟩ := hx s l rfl
    refine .turn ?_
    rw [hcomm.comm hinv hroom]
    refine ih fun s' l' hturn => ?_
    exact ⟨hcomm.turn hinv hturn, hcomm.room hinv hroom hturn⟩

/-- An open call ends after some turns, with its outcome. -/
theorem Ends.exists_turns {x : Except ε (σ × Option π)} {r : Except ε σ} (h : S.Ends x r) (a : α)
    {s : σ} {l : π} (hx : x = .ok (s, some l)) (calls : List α) :
    ∃ k, run S.step ⟨s, some l, calls⟩ (List.replicate k (.move a)) =
      r.map fun s => ⟨s, none, calls⟩ := by
  induction h generalizing s l with
  | fault e => cases hx
  | done t => cases hx
  | @turn m t r h ih =>
    obtain ⟨rfl, hl⟩ := Prod.mk.inj (Except.ok.inj hx)
    obtain rfl := Option.some.inj hl
    have hstep := S.step_turn t m calls a
    generalize S.turn m t = x at h hstep ih
    cases h with
    | fault e =>
      refine ⟨1, ?_⟩
      rw [List.replicate_one, run_singleton, hstep]
      rfl
    | done t' =>
      refine ⟨1, ?_⟩
      rw [List.replicate_one, run_singleton, hstep]
      rfl
    | @turn m' t' _ h =>
      obtain ⟨k, hk⟩ := ih rfl
      exact ⟨k + 1, by rw [List.replicate_succ, run_cons_ok hstep, hk]⟩

-- ════════════════════════════════════════════════════════════════════════
-- Interleavings
-- ════════════════════════════════════════════════════════════════════════

/-- The calls of a run of whole calls. -/
def callsOf (serial : List (α ⊕ ι)) : List α := serial.filterMap Sum.getLeft?

/-- The inputs of a run of whole calls. -/
def inputsOf (serial : List (α ⊕ ι)) : List ι := serial.filterMap Sum.getRight?

variable {call : σ → α → Except ε σ} {s₀ : σ} {offered : List α} {inputs : List ι}

variable (S Inv call s₀ offered inputs) in
/-- The outcome of an interleaving with the given calls on offer and inputs, as that of a run
of whole calls. An open call is still to come in that run, and the inputs since its beginning
follow it. -/
inductive Serialized : Except ε (Point σ α π) → Prop
  | fault {e : ε} (serial : List (α ⊕ ι))
      (hrun : run (S.wholeStep call) s₀ serial = .error e)
      (hinputs : inputsOf serial <+: inputs) (hoffered : (callsOf serial).Sublist offered) :
      Serialized (.error e)
  | idle {s : σ} {calls : List α} (serial : List (α ⊕ ι))
      (hrun : run (S.wholeStep call) s₀ serial = .ok s) (hinputs : inputsOf serial = inputs)
      (hcalls : callsOf serial = calls) (hoffered : calls.Sublist offered) (hinv : Inv none s) :
      Serialized (.ok ⟨s, none, calls⟩)
  | busy {s c : σ} {l : π} {calls : List α} (serial : List (α ⊕ ι)) (a : α) (pending : List ι)
      (hrun : run (S.wholeStep call) s₀ serial = .ok c)
      (hinputs : inputsOf serial ++ pending = inputs) (hcalls : callsOf serial ++ [a] = calls)
      (hoffered : calls.Sublist offered)
      (hends : S.Ends (.ok (s, some l)) ((call c a).map fun s => pending.foldl S.input s))
      (hinv : Inv (some l) s) : Serialized (.ok ⟨s, some l, calls⟩)

theorem callsOf_append (serial serial' : List (α ⊕ ι)) :
    callsOf (serial ++ serial') = callsOf serial ++ callsOf serial' := List.filterMap_append

theorem inputsOf_append (serial serial' : List (α ⊕ ι)) :
    inputsOf (serial ++ serial') = inputsOf serial ++ inputsOf serial' := List.filterMap_append

/-- Inputs only. -/
theorem run_inputs (s : σ) (is : List ι) :
    run (S.wholeStep call) s (is.map .inr) = .ok (is.foldl S.input s) := by
  induction is generalizing s with
  | nil => rfl
  | cons i is ih =>
    rw [List.map_cons, run_cons_ok (show S.wholeStep call s (.inr i) = .ok (S.input s i) from rfl),
      ih]
    rfl

@[simp] theorem inputsOf_map_inr (is : List ι) :
    inputsOf (is.map .inr : List (α ⊕ ι)) = is := by
  rw [inputsOf, List.filterMap_map]
  exact List.filterMap_some

@[simp] theorem callsOf_map_inr (is : List ι) : callsOf (is.map .inr : List (α ⊕ ι)) = [] := by
  rw [callsOf, List.filterMap_map]
  exact List.filterMap_eq_nil_iff.mpr fun _ _ => rfl

/-- An input to a server without an open call. -/
theorem Serialized.input_idle (hcomm : S.Commutes Inv Room) {s : σ} {calls : List α}
    (h : S.Serialized Inv call s₀ offered inputs (.ok ⟨s, none, calls⟩)) (i : ι) :
    S.Serialized Inv call s₀ offered (inputs ++ [i]) (.ok ⟨S.input s i, none, calls⟩) := by
  cases h with
  | idle serial hrun hinputs hcalls hoffered hinv =>
    refine .idle (serial ++ [.inr i]) (run_concat_ok hrun rfl) ?_ ?_ hoffered (hcomm.idle hinv)
    · rw [inputsOf_append, hinputs]
      rfl
    · rw [callsOf_append, hcalls]
      exact List.append_nil _

/-- An input during a call. -/
theorem Serialized.input_busy (hcomm : S.Commutes Inv Room) {s : σ} {l : π} {calls : List α}
    (h : S.Serialized Inv call s₀ offered inputs (.ok ⟨s, some l, calls⟩)) {i : ι}
    (hroom : Room i s) :
    S.Serialized Inv call s₀ offered (inputs ++ [i]) (.ok ⟨S.input s i, some l, calls⟩) := by
  cases h with
  | @busy _ c _ _ serial a pending hrun hinputs hcalls hoffered hends hinv =>
    refine .busy serial a (pending ++ [i]) hrun ?_ hcalls hoffered ?_ (hcomm.input hinv hroom)
    · rw [← List.append_assoc, hinputs]
    · have hlater := hends.input hcomm (i := i) fun s' l' hx => by
        cases hx
        exact ⟨hinv, hroom⟩
      cases hc : call c a with
      | error e =>
        rw [hc] at hlater
        exact hlater
      | ok c' =>
        rw [hc] at hlater
        simp only [Except.map, List.foldl_append, List.foldl_cons, List.foldl_nil] at hlater ⊢
        exact hlater

/-- A call that is entered. -/
theorem Serialized.enter (hcall : ∀ s a, S.Ends (S.enter s a) (call s a))
    (hcomm : S.Commutes Inv Room) {s : σ} {calls : List α}
    (h : S.Serialized Inv call s₀ offered inputs (.ok ⟨s, none, calls⟩)) (a : α) :
    S.Serialized Inv call s₀ (offered ++ [a]) inputs (S.step ⟨s, none, calls⟩ (.move a)) := by
  cases h with
  | idle serial hrun hinputs hcalls hoffered hinv =>
    have hoffered' : (calls ++ [a]).Sublist (offered ++ [a]) := hoffered.append_right [a]
    have hinputs' : inputsOf (serial ++ [.inl a]) = inputs := by
      rw [inputsOf_append, hinputs]
      exact List.append_nil _
    have hcalls' : callsOf (serial ++ [.inl a]) = calls ++ [a] := by
      rw [callsOf_append, hcalls]
      rfl
    have hends := hcall s a
    rw [step_enter]
    generalize hx : S.enter s a = x at hends
    generalize hr : call s a = r at hends
    cases hends with
    | fault e =>
      refine .fault (serial ++ [.inl a]) ?_ (hinputs' ▸ List.prefix_rfl) (hcalls' ▸ hoffered')
      rw [run_append_ok hrun, run_singleton]
      exact hr
    | done t =>
      have hwhole : S.wholeStep call s (.inl a) = .ok t := hr
      exact .idle (serial ++ [.inl a]) (run_concat_ok hrun hwhole) hinputs' hcalls' hoffered'
        (hcomm.enter hinv hx)
    | @turn l t _ h =>
      refine .busy serial a [] hrun (by rw [List.append_nil, hinputs]) (by rw [hcalls]) hoffered' ?_
        (hcomm.enter hinv hx)
      have hsame : r.map (fun s => [].foldl S.input s) = r := by cases r <;> rfl
      rw [hr, hsame]
      exact .turn h

/-- A turn of a call. -/
theorem Serialized.turn (hcomm : S.Commutes Inv Room) {s : σ} {l : π} {calls : List α}
    (h : S.Serialized Inv call s₀ offered inputs (.ok ⟨s, some l, calls⟩)) (b : α) :
    S.Serialized Inv call s₀ (offered ++ [b]) inputs (S.step ⟨s, some l, calls⟩ (.move b)) := by
  cases h with
  | @busy _ c _ _ serial a pending hrun hinputs hcalls hoffered hends hinv =>
    have hoffered' : calls.Sublist (offered ++ [b]) :=
      hoffered.trans (List.sublist_append_left offered [b])
    cases hends with
    | turn hends =>
      rw [step_turn]
      generalize hx : S.turn l s = x at hends
      generalize hr : (call c a).map (fun s => pending.foldl S.input s) = r at hends
      have hwhole : run (S.wholeStep call) s₀ (serial ++ [.inl a]) = call c a := by
        rw [run_append_ok hrun, run_singleton]
        rfl
      cases hends with
      | fault e =>
        refine .fault (serial ++ [.inl a]) ?_ ?_ ?_
        · rw [hwhole]
          cases hc : call c a with
          | error e' => rw [hc] at hr; exact hr
          | ok c' => rw [hc] at hr; cases hr
        · rw [inputsOf_append, ← hinputs]
          exact (List.append_nil _).symm ▸ List.prefix_append _ _
        · rw [callsOf_append]
          exact hcalls ▸ hoffered'
      | done t =>
        cases hc : call c a with
        | error e' => rw [hc] at hr; cases hr
        | ok c' =>
          rw [hc] at hr hwhole
          refine .idle (serial ++ [.inl a] ++ pending.map .inr) ?_ ?_ ?_ hoffered'
            (hcomm.turn hinv hx)
          · rw [run_append_ok hwhole, run_inputs]
            exact hr
          · rw [inputsOf_append, inputsOf_append, inputsOf_map_inr, ← hinputs]
            exact congrArg (· ++ pending) (List.append_nil _)
          · rw [callsOf_append, callsOf_append, callsOf_map_inr, List.append_nil]
            exact hcalls
      | @turn l' t _ h =>
        refine .busy serial a pending hrun hinputs hcalls hoffered' ?_ (hcomm.turn hinv hx)
        rw [hr]
        exact .turn h

/-- **Every interleaving** has the outcome of a run of whole calls, if there is room for the
inputs that come during calls. -/
theorem run_serialized (hcall : ∀ s a, S.Ends (S.enter s a) (call s a))
    (hcomm : S.Commutes Inv Room) (h₀ : Inv none s₀) {events : List (Event α ι)}
    (hroom : ∀ before i, before ++ [.input i] <+: events → ∀ s l calls,
      run S.step ⟨s₀, none, []⟩ before = .ok ⟨s, some l, calls⟩ → Room i s) :
    S.Serialized Inv call s₀ (events.filterMap Event.call?) (events.filterMap Event.input?)
      (run S.step ⟨s₀, none, []⟩ events) := by
  induction events using List.reverseRecOn with
  | nil => exact .idle [] rfl rfl rfl (List.Sublist.refl []) h₀
  | append_singleton events e ih =>
    have hpast := ih fun before i hbefore =>
      hroom before i (hbefore.trans (List.prefix_append _ _))
    rw [List.filterMap_append, List.filterMap_append]
    generalize hx : run S.step ⟨s₀, none, []⟩ events = x at hpast
    rcases x with fault | ⟨s, place, calls⟩
    · rw [run_append_error hx]
      cases hpast with
      | fault serial hrun hinputs hoffered =>
        exact .fault serial hrun (hinputs.trans (List.prefix_append _ _))
          (hoffered.trans (List.sublist_append_left _ _))
    · rw [run_append_ok hx, run_singleton]
      cases e with
      | move a =>
        rw [show [(.move a : Event α ι)].filterMap Event.input? = [] from rfl, List.append_nil]
        cases place with
        | none => exact hpast.enter hcall hcomm a
        | some l => exact hpast.turn hcomm a
      | input i =>
        rw [show [(.input i : Event α ι)].filterMap Event.call? = [] from rfl, List.append_nil]
        cases place with
        | none => exact hpast.input_idle hcomm i
        | some l => exact hpast.input_busy hcomm (hroom events i List.prefix_rfl s l calls hx)

/-- An open call comes to its end, if the server moves on. -/
theorem Serialized.returns {s : σ} {l : π} {calls : List α}
    (h : S.Serialized Inv call s₀ offered inputs (.ok ⟨s, some l, calls⟩)) (a : α) :
    ∃ k r, run S.step ⟨s, some l, calls⟩ (List.replicate k (.move a)) =
      Except.map (fun s => ⟨s, none, calls⟩) r := by
  cases h with
  | busy _ _ _ _ _ _ _ hends _ =>
    obtain ⟨k, hk⟩ := hends.exists_turns a rfl calls
    exact ⟨k, _, hk⟩

end Server

end Execution
