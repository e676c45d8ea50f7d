import Mathlib.Data.List.Induction
import GrAta.Control.Command

/-!
# The on-off block

An on-off observation points at the target for a while, and then beside it. The block
runs each observation in a thread of its own that sleeps in between. All threads and the
message handler share one command, which each of them rewrites.

## Main definitions

- `OnOff`: the block with its threads
- `OnOff.step`: a message, or one half of a thread, as one atomic step
- `OnOff.NeverMixed`: every observation is on source first and beside the same source then
- `OnOff.Undisturbed`: a step that leaves the observations apart

## Main results

- `OnOff.neverMixed_iff`: the runs whose observations never mix
- `OnOff.single_cycle_mixed`: a single observation leaves an offset behind
-/

namespace GrAta

/-- The arguments of the constructor. -/
structure OnOffArgs where
  cfreq : ℚ
  antList : String
  dur : ℚ
  azOff : ℚ
  elOff : ℚ

/-- The command of an off-source scan. -/
def OnOffArgs.addOffsets (a : OnOffArgs) (command : Command) : Command :=
  (command.dictAdd .azOff a.azOff).dictAdd .elOff a.elOff

/-- A thread that runs `wait_duration`, with the commands it has published. -/
inductive Cycle where
  | started
  | asleep (first : Command)
  | finished (first second : Command)

/-- The block. The member `ended` is ghost state: a thread has finished since the last
message that named a target. -/
structure OnOff where
  args : OnOffArgs
  command : Command
  published : List Command
  cycles : List Cycle
  ended : Bool

namespace OnOff

def construct (a : OnOffArgs) : OnOff where
  args := a
  command := (((Command.make.dictAdd .antennasList a.antList).dictAdd .freq a.cfreq).dictAdd
    .dur a.dur).dictAdd .obsType "onoff"
  published := []
  cycles := []
  ended := false

/-- The block as a flowgraph builds it. -/
def configure (a : OnOffArgs) (setters : List Setter) : OnOff :=
  { construct a with command := setters.foldl Setter.apply (construct a).command }

/-- `thr.Thread(target=self.wait_duration).start()`. -/
def startThread (b : OnOff) : OnOff := { b with cycles := b.cycles ++ [.started] }

/-- The branch of a message that names a target. -/
def observe (b : OnOff) (m : ObsMessage) : OnOff :=
  startThread
    { b with
      command := ((setTarget (clearTarget b.command) m).dictDelete .azOff).dictDelete .elOff
      ended := false }

/-- `handle_msg`. -/
def handleMsg (b : OnOff) : ObsMessage → OnOff
  | .sourceId id => b.observe (.sourceId id)
  | .azel az el => b.observe (.azel az el)
  | .radec ra dec => b.observe (.radec ra dec)
  | .other _ => { b with command := clearTarget b.command }

/-- `wait_duration` up to the call of `sleep`. -/
def beforeSleep (b : OnOff) (i : ℕ) : OnOff :=
  match b.cycles[i]? with
  | some .started =>
    { b with
      published := b.published ++ [b.command]
      cycles := b.cycles.set i (.asleep b.command) }
  | _ => b

/-- `wait_duration` from the call of `sleep` on. The key of the azimuth offset is deleted
twice, that of the elevation offset is not deleted. -/
def afterSleep (b : OnOff) (i : ℕ) : OnOff :=
  match b.cycles[i]? with
  | some (.asleep first) =>
    let command := b.args.addOffsets b.command
    { b with
      command := (command.dictDelete .azOff).dictDelete .azOff
      published := b.published ++ [command]
      cycles := b.cycles.set i (.finished first command)
      ended := true }
  | _ => b

end OnOff

/-- What happens to the block: it is started, a message arrives, or a thread runs up to
its next stop. -/
inductive OnOffEvent where
  | start
  | handleMsg (m : ObsMessage)
  | beforeSleep (i : ℕ)
  | afterSleep (i : ℕ)
  deriving DecidableEq, Repr

namespace OnOff

def step (b : OnOff) : OnOffEvent → OnOff
  | .start => b.startThread
  | .handleMsg m => b.handleMsg m
  | .beforeSleep i => b.beforeSleep i
  | .afterSleep i => b.afterSleep i

def run (a : OnOffArgs) (setters : List Setter) (events : List OnOffEvent) : OnOff :=
  events.foldl step (configure a setters)

-- ════════════════════════════════════════════════════════════════════════
-- Observations that stay apart
-- ════════════════════════════════════════════════════════════════════════

/-- A command without offsets. -/
def OnSource (command : Command) : Prop := ∀ k : CommandKey, k.IsOffset → command k = none

/-- The first command is on source, and the second one the same with both offsets. -/
def Ordered (a : OnOffArgs) : Cycle → Prop
  | .started => True
  | .asleep first => OnSource first
  | .finished first second => OnSource first ∧ second = a.addOffsets first

def IsFinished : Cycle → Prop
  | .finished _ _ => True
  | _ => False

/-- All observations so far are in order, and when all have finished no offset is left. -/
structure NeverMixed (b : OnOff) : Prop where
  ordered : ∀ cycle ∈ b.cycles, Ordered b.args cycle
  cleanUp : (∀ cycle ∈ b.cycles, IsFinished cycle) → OnSource b.command

/-- A step that leaves the observations apart. A thread starts its scan when no thread has
finished since the last message, and goes beside the source when the target is still the
one it found and another thread has not finished yet. -/
def Undisturbed (b : OnOff) : OnOffEvent → Prop
  | .beforeSleep i => b.cycles[i]? = some .started → b.ended = false
  | .afterSleep i => ∀ first, b.cycles[i]? = some (.asleep first) →
      (∀ k : CommandKey, k.IsTarget → b.command k = first k) ∧
        ∃ j cycle, j ≠ i ∧ b.cycles[j]? = some cycle ∧ ¬IsFinished cycle
  | _ => True

/-- A command with the settings of the block. -/
def HasSettings (a : OnOffArgs) (command : Command) : Prop :=
  ∀ k : CommandKey, ¬k.IsTarget → ¬k.IsOffset → command k = (construct a).command k

/-- What every step keeps. The elevation offset is in the command as long as `ended`. -/
structure Kept (a : OnOffArgs) (b : OnOff) : Prop where
  args : b.args = a
  settings : HasSettings a b.command
  azOff : b.command .azOff = none
  elOff : b.command .elOff = none ↔ b.ended = false
  asleep : ∀ first, .asleep first ∈ b.cycles → HasSettings a first

variable {a : OnOffArgs} {b : OnOff}

theorem Kept.onSource_iff (h : Kept a b) : OnSource b.command ↔ b.ended = false := by
  rw [← h.elOff]
  constructor
  · exact fun hsource => hsource .elOff trivial
  · intro hnone k hk
    cases k with
    | azOff => exact h.azOff
    | elOff => exact hnone
    | _ => exact hk.elim

theorem addOffsets_of_isOffset (c c' : Command) {k : CommandKey} (h : k.IsOffset) :
    a.addOffsets c k = a.addOffsets c' k := by
  cases k <;> first | rfl | exact h.elim

theorem addOffsets_of_not_isOffset (c : Command) {k : CommandKey} (h : ¬k.IsOffset) :
    a.addOffsets c k = c k := by
  cases k <;> first | rfl | exact absurd trivial h

theorem not_isOffset_of_isTarget {k : CommandKey} (h : k.IsTarget) : ¬k.IsOffset := by
  cases k <;> first | exact id | exact h.elim

/-- A second command is the first one with both offsets when the target is the same. -/
theorem addOffsets_congr {command first : Command} (h : HasSettings a command)
    (hfirst : HasSettings a first) :
    a.addOffsets command = a.addOffsets first ↔
      ∀ k : CommandKey, k.IsTarget → command k = first k := by
  constructor
  · intro heq k hk
    have hoff := not_isOffset_of_isTarget hk
    have := congrFun heq k
    rwa [addOffsets_of_not_isOffset _ hoff, addOffsets_of_not_isOffset _ hoff] at this
  · intro htarget
    funext k
    by_cases hoff : k.IsOffset
    · exact addOffsets_of_isOffset _ _ hoff
    · rw [addOffsets_of_not_isOffset _ hoff, addOffsets_of_not_isOffset _ hoff]
      by_cases hk : k.IsTarget
      · exact htarget k hk
      · exact (h k hk hoff).trans (hfirst k hk hoff).symm

-- ════════════════════════════════════════════════════════════════════════
-- Steps
-- ════════════════════════════════════════════════════════════════════════

theorem configure_kept (a : OnOffArgs) (setters : List Setter) :
    Kept a (configure a setters) := by
  have hother : ∀ k : CommandKey, ¬k.IsTarget →
      (configure a setters).command k = (construct a).command k := fun k hk =>
    foldl_apply_of_not_isTarget setters _ hk
  exact
    { args := rfl
      settings := fun k hk _ => hother k hk
      azOff := hother .azOff not_false
      elOff := iff_of_true (hother .elOff not_false) rfl
      asleep := fun first hfirst => absurd hfirst List.not_mem_nil }

theorem Kept.startThread (h : Kept a b) : Kept a b.startThread where
  args := h.args
  settings := h.settings
  azOff := h.azOff
  elOff := h.elOff
  asleep first hfirst := by
    rcases List.mem_append.mp hfirst with hold | hnew
    · exact h.asleep first hold
    · cases List.mem_singleton.mp hnew

theorem Kept.observe (h : Kept a b) (m : ObsMessage) : Kept a (b.observe m) := by
  refine Kept.startThread ⟨h.args, fun k hk hoff => ?_, rfl, iff_of_true rfl rfl, h.asleep⟩
  have haz : k ≠ .azOff := by rintro rfl; exact hoff trivial
  have hel : k ≠ .elOff := by rintro rfl; exact hoff trivial
  simp only [Command.dictDelete_of_ne _ hel, Command.dictDelete_of_ne _ haz]
  rw [setTarget_of_not_isTarget m hk, clearTarget_of_not_isTarget hk]
  exact h.settings k hk hoff

theorem Kept.handleMsg (h : Kept a b) (m : ObsMessage) : Kept a (b.handleMsg m) := by
  cases m with
  | other key =>
    exact
      { args := h.args
        settings := fun k hk hoff => (clearTarget_of_not_isTarget hk).trans (h.settings k hk hoff)
        azOff := h.azOff
        elOff := h.elOff
        asleep := h.asleep }
  | _ => exact h.observe _

/-- An entry of a list of threads with one of them replaced. -/
theorem mem_set_asleep {cycles : List Cycle} {i : ℕ} {cycle : Cycle} {first : Command}
    (h : .asleep first ∈ cycles.set i cycle) : .asleep first ∈ cycles ∨ cycle = .asleep first :=
  (List.mem_or_eq_of_mem_set h).imp_right Eq.symm

theorem Kept.beforeSleep (h : Kept a b) (i : ℕ) : Kept a (b.beforeSleep i) := by
  rw [OnOff.beforeSleep]
  split
  · refine ⟨h.args, h.settings, h.azOff, h.elOff, fun first hfirst => ?_⟩
    rcases mem_set_asleep hfirst with hold | hnew
    · exact h.asleep first hold
    · cases hnew
      exact h.settings
  · exact h

theorem Kept.afterSleep (h : Kept a b) (i : ℕ) : Kept a (b.afterSleep i) := by
  rw [OnOff.afterSleep]
  split
  · refine ⟨h.args, fun k hk hoff => ?_, rfl, ?_, fun first hfirst => ?_⟩
    · have haz : k ≠ .azOff := by rintro rfl; exact hoff trivial
      simp only [Command.dictDelete_of_ne _ haz]
      rw [addOffsets_of_not_isOffset _ hoff]
      exact h.settings k hk hoff
    · exact iff_of_false (fun hnone => Option.some_ne_none _ hnone) (fun hended => nomatch hended)
    · rcases mem_set_asleep hfirst with hold | hnew
      · exact h.asleep first hold
      · cases hnew
  · exact h

theorem Kept.step (h : Kept a b) (e : OnOffEvent) : Kept a (b.step e) := by
  cases e with
  | start => exact h.startThread
  | handleMsg m => exact h.handleMsg m
  | beforeSleep i => exact h.beforeSleep i
  | afterSleep i => exact h.afterSleep i

theorem run_kept (a : OnOffArgs) (setters : List Setter) (events : List OnOffEvent) :
    Kept a (run a setters events) := by
  rw [run]
  induction events using List.reverseRecOn with
  | nil => exact configure_kept a setters
  | append_singleton events e ih =>
    rw [List.foldl_append, List.foldl_cons, List.foldl_nil]
    exact ih.step e

-- ════════════════════════════════════════════════════════════════════════
-- Apart in every state
-- ════════════════════════════════════════════════════════════════════════

/-- A property of all threads when one of them is replaced. -/
theorem forall_mem_set {cycles : List Cycle} {i : ℕ} (hi : i < cycles.length) (cycle : Cycle)
    (p : Cycle → Prop) :
    (∀ c ∈ cycles.set i cycle, p c) ↔
      p cycle ∧ ∀ j c, j ≠ i → cycles[j]? = some c → p c := by
  constructor
  · intro hall
    refine ⟨hall _ (List.mem_set hi cycle), fun j c hj hc => hall c ?_⟩
    refine List.mem_of_getElem? (i := j) ?_
    rw [List.getElem?_set_ne hj.symm]
    exact hc
  · rintro ⟨hcycle, hothers⟩ c hc
    obtain ⟨j, hj⟩ := List.mem_iff_getElem?.mp hc
    by_cases hij : j = i
    · subst hij
      rw [List.getElem?_set_self hi, Option.some_inj] at hj
      exact hj ▸ hcycle
    · rw [List.getElem?_set_ne (Ne.symm hij)] at hj
      exact hothers j c hij hj

theorem lt_length_of_getElem? {cycles : List Cycle} {i : ℕ} {cycle : Cycle}
    (h : cycles[i]? = some cycle) : i < cycles.length := (List.getElem?_eq_some_iff.mp h).1

/-- A thread that has not finished leaves nothing to clean up. -/
theorem NeverMixed.of_unfinished {b : OnOff} {cycle : Cycle} (hcycle : cycle ∈ b.cycles)
    (hunfinished : ¬IsFinished cycle) (hordered : ∀ c ∈ b.cycles, Ordered b.args c) :
    NeverMixed b :=
  ⟨hordered, fun hall => absurd (hall cycle hcycle) hunfinished⟩

theorem NeverMixed.startThread (h : ∀ c ∈ b.cycles, Ordered b.args c) :
    NeverMixed b.startThread := by
  refine .of_unfinished (List.mem_append_right b.cycles (List.mem_singleton_self _)) id ?_
  intro c hc
  rcases List.mem_append.mp hc with hold | hnew
  · exact h c hold
  · cases List.mem_singleton.mp hnew
    trivial

theorem NeverMixed.handleMsg (h : NeverMixed b) (m : ObsMessage) : NeverMixed (b.handleMsg m) := by
  cases m with
  | other key =>
    refine ⟨h.ordered, fun hall k hk => ?_⟩
    have hnot : ¬k.IsTarget := fun htarget => not_isOffset_of_isTarget htarget hk
    exact (clearTarget_of_not_isTarget hnot).trans (h.cleanUp hall k hk)
  | _ => exact NeverMixed.startThread h.ordered

/-- A first half keeps the observations apart when it finds no offset. -/
theorem NeverMixed.beforeSleep_iff (hkept : Kept a b) (h : NeverMixed b) (i : ℕ) :
    Undisturbed b (.beforeSleep i) ↔ NeverMixed (b.beforeSleep i) := by
  rw [OnOff.beforeSleep, Undisturbed]
  split
  next hi =>
    have hlen := lt_length_of_getElem? hi
    have hothers : ∀ j c, j ≠ i → b.cycles[j]? = some c → Ordered b.args c :=
      fun j c _ hc => h.ordered c (List.mem_of_getElem? hc)
    constructor
    · intro hended
      refine .of_unfinished (List.mem_set hlen (.asleep b.command)) id ?_
      exact (forall_mem_set hlen _ _).mpr ⟨hkept.onSource_iff.mpr (hended hi), hothers⟩
    · intro hnew _
      exact hkept.onSource_iff.mp ((forall_mem_set hlen _ _).mp hnew.ordered).1
  next hi =>
    exact iff_of_true (fun hstarted => absurd hstarted hi) h

/-- A second half keeps them apart when the target has not changed and another thread still
runs. -/
theorem NeverMixed.afterSleep_iff (hkept : Kept a b) (h : NeverMixed b) (i : ℕ) :
    Undisturbed b (.afterSleep i) ↔ NeverMixed (b.afterSleep i) := by
  rw [OnOff.afterSleep, Undisturbed]
  split
  next first hi =>
    have hlen := lt_length_of_getElem? hi
    have hmem := List.mem_of_getElem? hi
    have hothers : ∀ j c, j ≠ i → b.cycles[j]? = some c → Ordered b.args c :=
      fun j c _ hc => h.ordered c (List.mem_of_getElem? hc)
    have hcongr := addOffsets_congr hkept.settings (hkept.asleep first hmem)
    rw [← hkept.args] at hcongr
    constructor
    · intro hund
      obtain ⟨htarget, j, cycle, hj, hcycle, hunfinished⟩ := hund first hi
      have hmem' : cycle ∈ b.cycles.set i (.finished first (b.args.addOffsets b.command)) := by
        refine List.mem_of_getElem? (i := j) ?_
        rw [List.getElem?_set_ne hj.symm]
        exact hcycle
      exact .of_unfinished hmem' hunfinished ((forall_mem_set hlen _ _).mpr
        ⟨⟨h.ordered _ hmem, hcongr.mpr htarget⟩, hothers⟩)
    · intro hnew first' hfirst'
      cases Cycle.asleep.inj (Option.some.inj (hi.symm.trans hfirst'))
      refine ⟨hcongr.mp ((forall_mem_set hlen _ _).mp hnew.ordered).1.2, ?_⟩
      by_contra hnone
      push Not at hnone
      -- all threads have finished, and the elevation offset has not been deleted
      have hclean := hnew.cleanUp ((forall_mem_set hlen _ _).mpr ⟨trivial, hnone⟩)
      exact Option.some_ne_none _ (hclean .elOff trivial)
  next hi =>
    exact iff_of_true (fun first hfirst => absurd hfirst (hi first)) h

/-- A step that leaves the observations apart is an undisturbed one. -/
theorem NeverMixed.step_iff (hkept : Kept a b) (h : NeverMixed b) (e : OnOffEvent) :
    Undisturbed b e ↔ NeverMixed (b.step e) := by
  cases e with
  | start => exact iff_of_true trivial (NeverMixed.startThread h.ordered)
  | handleMsg m => exact iff_of_true trivial (h.handleMsg m)
  | beforeSleep i => exact h.beforeSleep_iff hkept i
  | afterSleep i => exact h.afterSleep_iff hkept i

theorem configure_neverMixed (a : OnOffArgs) (setters : List Setter) :
    NeverMixed (configure a setters) :=
  ⟨fun _ hc => absurd hc List.not_mem_nil,
    fun _ => (configure_kept a setters).onSource_iff.mpr rfl⟩

/-- The observations stay apart in every state of a run exactly when every step is an
undisturbed one. -/
theorem neverMixed_iff (a : OnOffArgs) (setters : List Setter) (events : List OnOffEvent) :
    (∀ before, before <+: events → NeverMixed (run a setters before)) ↔
      ∀ before e, before ++ [e] <+: events → Undisturbed (run a setters before) e := by
  have hstep : ∀ before e, run a setters (before ++ [e]) = (run a setters before).step e := by
    intro before e
    rw [run, List.foldl_append]
    rfl
  constructor
  · intro h before e hbefore
    have hnow := h before ((List.prefix_append before [e]).trans hbefore)
    rw [hnow.step_iff (run_kept a setters before), ← hstep]
    exact h _ hbefore
  · intro h before hbefore
    induction before using List.reverseRecOn with
    | nil => exact configure_neverMixed a setters
    | append_singleton before e ih =>
      have hnow := ih ((List.prefix_append before [e]).trans hbefore)
      rw [hstep]
      exact (hnow.step_iff (run_kept a setters before) e).mp (h before e hbefore)

/-- A single observation leaves the elevation offset behind. -/
theorem single_cycle_mixed :
    ¬NeverMixed (run ⟨1420, "1a", 60, 5, 10⟩ [.setSource "casa"]
      [.start, .beforeSleep 0, .afterSleep 0]) := by
  intro h
  have hclean := h.cleanUp fun cycle hcycle => by
    cases List.mem_singleton.mp hcycle
    trivial
  exact Option.some_ne_none _ (hclean .elOff trivial)

end OnOff

end GrAta
