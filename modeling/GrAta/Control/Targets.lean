import GrAta.Control.Cycles

/-!
# The target of the command

Three setters and three kinds of messages write the target into the command of an
observing block. A message first removes the keys of the target before it, a setter does
not. The control block resolves a command with several kinds of targets by a fixed order.

## Main definitions

- `TargetStep`: a call of a setter, or a message that names a target
- `OneTarget`: the command names one target, and the control block points at it
- `OneKind`: the steps from the last message on name targets of one kind
- `OnOff.Renewed`: a message arrives after every end of a thread

## Main results

- `latest_target_iff`: when the command of either block names the latest target only
- `setter_keeps_old_target`: a source stays the target when coordinates are set
-/

namespace GrAta

/-- The kind of a target, by the branch of the control block that is meant for it. -/
def Target.kind : Target → Branch
  | .srcId _ => .srcId
  | .radec _ _ => .radec
  | .azel _ _ => .azel

def Target.toMessage : Target → ObsMessage
  | .srcId id => .sourceId id
  | .radec ra dec => .radec ra dec
  | .azel az el => .azel az el

/-- The keys of a target with their values. -/
def Target.entries (t : Target) : Command := setTarget .make t.toMessage

def Setter.target : Setter → Target
  | .setSource src => .srcId src
  | .setSrcRadec ra dec => .radec ra dec
  | .setSrcAzel az el => .azel az el

def ObsMessage.target : (m : ObsMessage) → m.Valid → Target
  | .sourceId id, _ => .srcId id
  | .azel az el, _ => .azel az el
  | .radec ra dec, _ => .radec ra dec
  | .other _, h => h.elim

/-- A call of a setter, which a flowgraph makes when it is built and when a parameter
changes at run time, or a message that names a target. -/
inductive TargetStep where
  | setter (s : Setter)
  | message (m : ObsMessage) (valid : m.Valid)

namespace TargetStep

def target : TargetStep → Target
  | .setter s => s.target
  | .message m valid => m.target valid

/-- What a step does with the command of either block. -/
def effect (command : Command) : TargetStep → Command
  | .setter s => s.apply command
  | .message m _ => setTarget (clearTarget command) m

end TargetStep

def TrackScan.applyStep (b : TrackScan) : TargetStep → TrackScan
  | .setter s => { b with command := s.apply b.command }
  | .message m _ => b.handleMsg m

def OnOff.applyStep (b : OnOff) : TargetStep → OnOff
  | .setter s => { b with command := s.apply b.command }
  | .message m _ => b.handleMsg m

/-- What happens to the on-off block. Its threads run beside the steps that name a target. -/
inductive OnOffMove where
  | target (s : TargetStep)
  | start
  | beforeSleep (i : ℕ)
  | afterSleep (i : ℕ)

namespace OnOffMove

def target? : OnOffMove → Option TargetStep
  | .target s => some s
  | _ => none

def IsMessage : OnOffMove → Prop
  | .target (.message _ _) => True
  | _ => False

end OnOffMove

namespace OnOff

def move (b : OnOff) : OnOffMove → OnOff
  | .target s => b.applyStep s
  | .start => b.startThread
  | .beforeSleep i => b.beforeSleep i
  | .afterSleep i => b.afterSleep i

/-- A thread wakes up and ends. -/
def Finishes (b : OnOff) : OnOffMove → Prop
  | .afterSleep i => ∃ first, b.cycles[i]? = some (.asleep first)
  | _ => False

/-- A message arrives after every end of a thread. -/
def Renewed (b : OnOff) : List OnOffMove → Prop
  | [] => True
  | x :: moves => (b.Finishes x → ∃ y ∈ moves, y.IsMessage) ∧ (b.move x).Renewed moves

end OnOff

/-- The command has the keys of one target, with its values, and the control block calls
the pointing function of this target. -/
structure OneTarget (d : Command) (t : Target) : Prop where
  entries : ∀ k : CommandKey, k.IsTarget → d k = t.entries k
  pointed : ∀ minElev isUp c, ∃ cfreq ants,
    (Control.handleMsg minElev isUp d).run c =
      (.ok (), { c.tuned d cfreq ants with
        calls := (c.tuned d cfreq ants).calls ++
          Control.point minElev isUp (antList ants) ⟨t, none⟩
        isConfigured := true })

/-- The steps from the last message on, or all steps when there is none. -/
def sinceMessage (steps : List TargetStep) : List TargetStep :=
  steps.foldl (fun kept step =>
    match step with
    | .setter _ => kept ++ [step]
    | .message _ _ => [step]) []

/-- The steps from the last message on name targets of one kind. -/
def OneKind (steps : List TargetStep) (last : TargetStep) : Prop :=
  ∀ s ∈ sinceMessage (steps ++ [last]), s.target.kind = last.target.kind

theorem sinceMessage_setter (steps : List TargetStep) (s : Setter) :
    sinceMessage (steps ++ [.setter s]) = sinceMessage steps ++ [.setter s] := by
  rw [sinceMessage, List.foldl_append]
  rfl

theorem sinceMessage_message (steps : List TargetStep) {m : ObsMessage} (valid : m.Valid) :
    sinceMessage (steps ++ [.message m valid]) = [.message m valid] := by
  rw [sinceMessage, List.foldl_append]
  rfl

/-- The last step is one of them. -/
theorem mem_sinceMessage (steps : List TargetStep) (last : TargetStep) :
    last ∈ sinceMessage (steps ++ [last]) := by
  cases last with
  | setter s =>
    rw [sinceMessage_setter]
    exact List.mem_append_right _ List.mem_cons_self
  | message m valid =>
    rw [sinceMessage_message]
    exact List.mem_cons_self

-- ════════════════════════════════════════════════════════════════════════
-- The keys of a target
-- ════════════════════════════════════════════════════════════════════════

variable {command d : Command} {t t' : Target} {k : CommandKey}

theorem setTarget_toMessage (t : Target) (command : Command) (k : CommandKey) :
    setTarget command t.toMessage k = if (t.entries k).isSome then t.entries k else command k := by
  cases t <;> cases k <;> rfl

theorem clearTarget_of_isTarget (command : Command) (h : k.IsTarget) :
    clearTarget command k = none := by
  cases k <;> first | rfl | exact h.elim

theorem Setter.apply_target (s : Setter) (command : Command) :
    s.apply command = setTarget command s.target.toMessage := by
  cases s <;> rfl

theorem ObsMessage.toMessage_target (m : ObsMessage) (valid : m.Valid) :
    (m.target valid).toMessage = m := by
  cases m <;> first | rfl | exact valid.elim

/-- Targets of one kind have the same keys. -/
theorem entries_eq_none_iff (h : t.kind = t'.kind) (k : CommandKey) :
    t.entries k = none ↔ t'.entries k = none := by
  have hsome : (t.entries k).isSome = (t'.entries k).isSome := by
    cases t <;> cases t' <;> first | (cases k <;> rfl) | cases h
  rw [← Option.not_isSome_iff_eq_none, hsome, Option.not_isSome_iff_eq_none]

/-- Targets of two kinds have no key in common. -/
theorem exists_entry_of_kind_ne (h : t.kind ≠ t'.kind) :
    ∃ (k : CommandKey) (v : k.Value), k.IsTarget ∧ t.entries k = some v ∧ t'.entries k = none := by
  cases t with
  | srcId id =>
    refine ⟨.sourceId, id, trivial, rfl, ?_⟩
    cases t' <;> first | rfl | exact absurd rfl h
  | radec ra dec =>
    refine ⟨.ra, ra, trivial, rfl, ?_⟩
    cases t' <;> first | rfl | exact absurd rfl h
  | azel az el =>
    refine ⟨.az, az, trivial, rfl, ?_⟩
    cases t' <;> first | rfl | exact absurd rfl h

namespace TargetStep

variable (s : TargetStep)

/-- A step sets its target in the command as it is, or in the cleared command. -/
theorem effect_eq (command : Command) : ∃ command' : Command,
    s.effect command = setTarget command' s.target.toMessage ∧
      ∀ k : CommandKey, ¬k.IsTarget → command' k = command k := by
  cases s with
  | setter s => exact ⟨command, s.apply_target command, fun k _ => rfl⟩
  | message m valid =>
    refine ⟨clearTarget command, ?_, fun k hk => clearTarget_of_not_isTarget hk⟩
    exact congrArg (setTarget (clearTarget command)) (m.toMessage_target valid).symm

/-- The entries of the target of a step are there after it. -/
theorem effect_of_some (command : Command) {v : k.Value} (h : s.target.entries k = some v) :
    s.effect command k = some v := by
  obtain ⟨command', heffect, -⟩ := s.effect_eq command
  rw [heffect, setTarget_toMessage, h]
  rfl

theorem effect_of_not_isTarget (command : Command) (hk : ¬k.IsTarget) :
    s.effect command k = command k := by
  obtain ⟨command', heffect, hother⟩ := s.effect_eq command
  rw [heffect, setTarget_of_not_isTarget _ hk]
  exact hother k hk

theorem effect_congr {command command' : Command} (h : command k = command' k) :
    s.effect command k = s.effect command' k := by
  cases s with
  | setter s => cases s <;> cases k <;> first | rfl | exact h
  | message m valid => cases m <;> cases k <;> first | rfl | exact h

/-- A message leaves no other entry of a target. -/
theorem effect_message {m : ObsMessage} (valid : m.Valid) (command : Command)
    (hk : k.IsTarget) :
    (TargetStep.message m valid).effect command k = (m.target valid).entries k := by
  have hset := setTarget_toMessage (m.target valid) (clearTarget command) k
  rw [m.toMessage_target valid, clearTarget_of_isTarget command hk] at hset
  apply hset.trans
  cases (m.target valid).entries k <;> rfl

/-- A setter keeps the other entries. -/
theorem effect_setter (s : Setter) (command : Command) (h : s.target.entries k = none) :
    (TargetStep.setter s).effect command k = command k := by
  have hset := setTarget_toMessage s.target command k
  rw [h, ← s.apply_target] at hset
  exact hset

theorem oneKind_message (steps : List TargetStep) {m : ObsMessage} (valid : m.Valid) :
    OneKind steps (.message m valid) := by
  intro s hs
  rw [sinceMessage_message] at hs
  rw [List.mem_singleton.mp hs]

theorem oneKind_setter (steps : List TargetStep) (s : Setter) :
    OneKind steps (.setter s) ↔ ∀ s' ∈ sinceMessage steps, s'.target.kind = s.target.kind := by
  rw [OneKind, sinceMessage_setter, List.forall_mem_append]
  refine and_iff_left fun s' hs' => ?_
  rw [List.mem_singleton.mp hs']

/-- A setter leaves its own entries only when the step before it left entries of the same
kind only. -/
theorem effect_setter_entries_iff (command : Command) (prev : TargetStep) (s : Setter) :
    (∀ k : CommandKey, k.IsTarget →
      (TargetStep.setter s).effect (prev.effect command) k = s.target.entries k) ↔
    prev.target.kind = s.target.kind ∧
      ∀ k : CommandKey, k.IsTarget → prev.effect command k = prev.target.entries k := by
  constructor
  · intro h
    have hnone : ∀ k : CommandKey, k.IsTarget → s.target.entries k = none →
        prev.effect command k = none := by
      intro k hk hentry
      rw [← effect_setter s (prev.effect command) hentry, h k hk, hentry]
    have hkind : prev.target.kind = s.target.kind := by
      by_contra hne
      obtain ⟨k, v, hk, hsome, hentry⟩ := exists_entry_of_kind_ne hne
      have hleft := prev.effect_of_some command hsome
      rw [hnone k hk hentry] at hleft
      cases hleft
    refine ⟨hkind, fun k hk => ?_⟩
    cases hentry : prev.target.entries k with
    | none => exact hnone k hk ((entries_eq_none_iff hkind k).mp hentry)
    | some v => exact prev.effect_of_some command hentry
  · rintro ⟨hkind, h⟩ k hk
    cases hentry : s.target.entries k with
    | none =>
      rw [effect_setter s _ hentry, h k hk]
      exact (entries_eq_none_iff hkind k).mpr hentry
    | some v => exact effect_of_some (.setter s) _ hentry

/-- The command has the entries of the last target only when the steps from the last
message on are of one kind. The induction is on the steps before the last one. -/
theorem foldl_effect_entries_iff {command : Command}
    (hnone : ∀ k : CommandKey, k.IsTarget → command k = none) (steps : List TargetStep)
    (last : TargetStep) :
    (∀ k : CommandKey, k.IsTarget →
      (steps ++ [last]).foldl effect command k = last.target.entries k) ↔
    OneKind steps last := by
  induction steps using List.reverseRecOn generalizing last with
  | nil =>
    rw [List.nil_append, List.foldl_cons, List.foldl_nil]
    cases last with
    | message m valid =>
      exact iff_of_true (fun k hk => effect_message valid command hk) (oneKind_message [] valid)
    | setter s =>
      refine iff_of_true (fun k hk => ?_) ((oneKind_setter [] s).mpr fun s' hs' =>
        absurd hs' List.not_mem_nil)
      have hentry : ∀ e, s.target.entries k = e →
          effect command (.setter s) k = e := by
        rintro (_ | v) he
        · exact (effect_setter s command he).trans (hnone k hk)
        · exact effect_of_some (.setter s) command he
      exact hentry _ rfl
  | append_singleton steps prev ih =>
    cases last with
    | message m valid =>
      rw [List.foldl_append, List.foldl_cons, List.foldl_nil]
      exact iff_of_true (fun k hk => effect_message valid _ hk) (oneKind_message _ valid)
    | setter s =>
      rw [List.foldl_append, List.foldl_cons, List.foldl_nil, List.foldl_append, List.foldl_cons,
        List.foldl_nil]
      apply (effect_setter_entries_iff _ prev s).trans
      have hprev := ih prev
      rw [List.foldl_append, List.foldl_cons, List.foldl_nil] at hprev
      rw [hprev, oneKind_setter, OneKind]
      constructor
      · rintro ⟨hkind, h⟩ s' hs'
        exact (h s' hs').trans hkind
      · intro h
        have hkind := h prev (mem_sinceMessage steps prev)
        exact ⟨hkind, fun s' hs' => (h s' hs').trans hkind.symm⟩

theorem foldl_effect_of_not_isTarget (steps : List TargetStep) (command : Command)
    (hk : ¬k.IsTarget) : steps.foldl effect command k = command k := by
  induction steps generalizing command with
  | nil => rfl
  | cons s steps ih => exact (ih _).trans (s.effect_of_not_isTarget command hk)

end TargetStep

-- ════════════════════════════════════════════════════════════════════════
-- One target
-- ════════════════════════════════════════════════════════════════════════

theorem Target.selectedBy_of_entries (h : ∀ k : CommandKey, k.IsTarget → d k = t.entries k) :
    t.SelectedBy d := by
  cases t with
  | srcId id => exact h .sourceId trivial
  | radec ra dec => exact ⟨h .sourceId trivial, h .ra trivial, h .dec trivial⟩
  | azel az el =>
    exact ⟨h .sourceId trivial, h .dec trivial, h .az trivial, h .el trivial⟩

/-- Without the second offset, a command of one target points the array at it. -/
theorem OneTarget.of_entries (hfreq : d.has .freq) (hants : d.has .antennasList)
    (hel : d .elOff = none) (h : ∀ k : CommandKey, k.IsTarget → d k = t.entries k) :
    OneTarget d t := by
  refine ⟨h, fun minElev isUp c => ?_⟩
  obtain ⟨cfreq, hfreq⟩ := Command.exists_of_has hfreq
  obtain ⟨ants, hants⟩ := Command.exists_of_has hants
  have hoffsets : d.offsets = .ok none := (Command.offsets_eq_ok_iff none).mpr (.inl ⟨hel, rfl⟩)
  have hdispatch : dispatch d = .ok (some ⟨t, none⟩) :=
    (dispatch_eq_some_iff _).mpr ⟨Target.selectedBy_of_entries h, hoffsets⟩
  refine ⟨cfreq, ants, ?_⟩
  rw [Control.handleMsg_of_some c hfreq hants, hdispatch]

/-- The second offset without the first one raises its key. -/
theorem dispatch_of_offsets_error (ht : t.SelectedBy d) (h : d.offsets = .error k) :
    dispatch d = .error k := by
  rw [dispatch, branch]
  cases t with
  | srcId id =>
    have hid : d .sourceId = some id := ht
    rw [Command.has_of_some hid, Command.item_of_some hid, h]
    rfl
  | radec ra dec =>
    obtain ⟨hid, hra, hdec⟩ := ht
    rw [Command.has_of_none hid, Command.has_of_some hdec, Command.item_of_some hra,
      Command.item_of_some hdec, h]
    rfl
  | azel az el =>
    obtain ⟨hid, hdec, haz, hel⟩ := ht
    rw [Command.has_of_none hid, Command.has_of_none hdec, Command.has_of_some hel,
      Command.item_of_some haz, Command.item_of_some hel, h]
    rfl

theorem OneTarget.elOff_eq_none (hfreq : d.has .freq) (hants : d.has .antennasList)
    (haz : d .azOff = none) (h : OneTarget d t) : d .elOff = none := by
  by_contra hel
  have hoffsets : d.offsets = .error .azOff := by
    rw [Command.offsets, isOffSource, Command.has, Option.isSome_iff_ne_none.mpr hel,
      Command.item_of_none haz]
    rfl
  have hdispatch := dispatch_of_offsets_error (Target.selectedBy_of_entries h.entries) hoffsets
  have hhandled : ∀ minElev isUp c, ((Control.handleMsg minElev isUp d).run c).1 = .ok () := by
    intro minElev isUp c
    obtain ⟨cfreq, ants, hrun⟩ := h.pointed minElev isUp c
    rw [hrun]
  obtain ⟨pointing, hpointing⟩ := (handled_iff hfreq hants).mp hhandled
  rw [hdispatch] at hpointing
  cases hpointing

/-- When a command of a block names one target, by the entries of the target and by the
second offset. -/
theorem oneTarget_iff (hfreq : d.has .freq) (hants : d.has .antennasList)
    (haz : d .azOff = none) :
    OneTarget d t ↔ (∀ k : CommandKey, k.IsTarget → d k = t.entries k) ∧ d .elOff = none :=
  ⟨fun h => ⟨h.entries, h.elOff_eq_none hfreq hants haz⟩,
    fun h => OneTarget.of_entries hfreq hants h.2 h.1⟩

-- ════════════════════════════════════════════════════════════════════════
-- The blocks
-- ════════════════════════════════════════════════════════════════════════

theorem TrackScan.applyStep_command (b : TrackScan) (s : TargetStep) :
    (b.applyStep s).command = s.effect b.command := by
  cases s with
  | setter s => rfl
  | message m valid => cases m <;> rfl

theorem TrackScan.foldl_applyStep_command (steps : List TargetStep) (b : TrackScan) :
    (steps.foldl applyStep b).command = steps.foldl TargetStep.effect b.command := by
  induction steps generalizing b with
  | nil => rfl
  | cons s steps ih => rw [List.foldl_cons, List.foldl_cons, ih, b.applyStep_command]

namespace OnOff

variable {a : OnOffArgs} {b : OnOff}

theorem Kept.applyStep (h : Kept a b) (s : TargetStep) : Kept a (b.applyStep s) := by
  cases s with
  | setter s =>
    obtain ⟨m, -, hm⟩ := s.apply_eq b.command
    have hother : ∀ k : CommandKey, ¬k.IsTarget → s.apply b.command k = b.command k :=
      fun k hk => hm ▸ setTarget_of_not_isTarget m hk
    exact
      { args := h.args
        settings := fun k hk hoff => (hother k hk).trans (h.settings k hk hoff)
        azOff := (hother .azOff not_false).trans h.azOff
        elOff := (Eq.congr_left (hother .elOff not_false)).trans h.elOff
        asleep := h.asleep }
  | message m valid => exact h.handleMsg m

theorem Kept.move (h : Kept a b) (x : OnOffMove) : Kept a (b.move x) := by
  cases x with
  | target s => exact h.applyStep s
  | start => exact h.startThread
  | beforeSleep i => exact h.beforeSleep i
  | afterSleep i => exact h.afterSleep i

theorem Kept.foldl_move (h : Kept a b) (moves : List OnOffMove) :
    Kept a (moves.foldl OnOff.move b) := by
  induction moves generalizing b with
  | nil => exact h
  | cons x moves ih => exact ih (h.move x)

/-- The target entries of the command change with the steps that name a target only. -/
theorem applyStep_command (b : OnOff) (s : TargetStep) (hk : k.IsTarget) :
    (b.applyStep s).command k = s.effect b.command k := by
  cases s with
  | setter s => rfl
  | message m valid =>
    have haz : k ≠ .azOff := by rintro rfl; exact hk
    have hel : k ≠ .elOff := by rintro rfl; exact hk
    cases m with
    | other key => exact valid.elim
    | _ => exact (Command.dictDelete_of_ne _ hel).trans (Command.dictDelete_of_ne _ haz)

theorem beforeSleep_command (b : OnOff) (i : ℕ) : (b.beforeSleep i).command = b.command := by
  rw [beforeSleep]
  split <;> rfl

theorem afterSleep_command (b : OnOff) (i : ℕ) (hk : k.IsTarget) :
    (b.afterSleep i).command k = b.command k := by
  rw [afterSleep]
  split
  · cases k <;> first | rfl | exact hk.elim
  · rfl

/-- The threads leave the target alone. -/
theorem foldl_move_command (moves : List OnOffMove) (b : OnOff) (hk : k.IsTarget) :
    (moves.foldl move b).command k =
      ((moves.filterMap OnOffMove.target?).foldl TargetStep.effect b.command) k := by
  suffices h : ∀ command : Command, b.command k = command k → (moves.foldl move b).command k =
      ((moves.filterMap OnOffMove.target?).foldl TargetStep.effect command) k from
    h b.command rfl
  induction moves generalizing b with
  | nil => exact fun command h => h
  | cons x moves ih =>
    intro command h
    cases x with
    | target s => exact ih _ _ ((applyStep_command b s hk).trans (s.effect_congr h))
    | start => exact ih _ _ h
    | beforeSleep i => exact ih _ _ ((congrFun (beforeSleep_command b i) k).trans h)
    | afterSleep i => exact ih _ _ ((afterSleep_command b i hk).trans h)

-- ════════════════════════════════════════════════════════════════════════
-- Threads that have ended
-- ════════════════════════════════════════════════════════════════════════

/-- A thread that ends sets the flag, and a message clears it. -/
theorem move_ended_iff (b : OnOff) (x : OnOffMove) :
    (b.move x).ended = true ↔ b.ended = true ∧ ¬x.IsMessage ∨ b.Finishes x := by
  cases x with
  | target s =>
    cases s with
    | setter s => simp [move, applyStep, OnOffMove.IsMessage, Finishes]
    | message m valid =>
      cases m with
      | other key => exact valid.elim
      | _ => simp [move, applyStep, OnOff.handleMsg, observe, startThread, OnOffMove.IsMessage,
          Finishes]
  | start => simp [move, startThread, OnOffMove.IsMessage, Finishes]
  | beforeSleep i =>
    have hended : (b.beforeSleep i).ended = b.ended := by
      rw [beforeSleep]
      split <;> rfl
    simp [move, hended, OnOffMove.IsMessage, Finishes]
  | afterSleep i =>
    simp only [move, afterSleep, OnOffMove.IsMessage, Finishes]
    split
    next first hasleep => simp [hasleep]
    next hother =>
      have hnot : ¬∃ first, b.cycles[i]? = some (.asleep first) := not_exists.mpr hother
      simp [hnot]

theorem not_isMessage_of_finishes {x : OnOffMove} (h : b.Finishes x) : ¬x.IsMessage := by
  cases x <;> first | exact h.elim | exact id

/-- No end of a thread is left when every one is followed by a message. -/
theorem foldl_move_ended_iff (moves : List OnOffMove) (b : OnOff) :
    (moves.foldl move b).ended = false ↔
      (b.ended = true → ∃ y ∈ moves, y.IsMessage) ∧ b.Renewed moves := by
  induction moves generalizing b with
  | nil => simp [Renewed]
  | cons x moves ih =>
    rw [List.foldl_cons, ih, Renewed, move_ended_iff]
    have hfinishes := @not_isMessage_of_finishes b x
    simp only [List.mem_cons, exists_eq_or_imp]
    tauto

end OnOff

-- ════════════════════════════════════════════════════════════════════════
-- The latest target
-- ════════════════════════════════════════════════════════════════════════

/-- The command of a track scan names the latest target only when the steps from the last
message on are of one kind. In an on-off observation, beside which the threads run, the
control block also needs that a message has followed every end of a thread. -/
theorem latest_target_iff (a : TrackScanArgs) (a' : OnOffArgs) {steps : List TargetStep}
    {last : TargetStep} {moves : List OnOffMove}
    (h : moves.filterMap OnOffMove.target? = steps ++ [last]) :
    (OneTarget ((steps ++ [last]).foldl TrackScan.applyStep (.construct a)).command last.target ↔
      OneKind steps last) ∧
    (OneTarget (moves.foldl OnOff.move (.construct a')).command last.target ↔
      OneKind steps last ∧ (OnOff.construct a').Renewed moves) := by
  have htrack : ∀ k : CommandKey, k.IsTarget → (TrackScan.construct a).command k = none := by
    intro k hk
    cases k <;> first | rfl | exact hk.elim
  have honOff : ∀ k : CommandKey, k.IsTarget → (OnOff.construct a').command k = none := by
    intro k hk
    cases k <;> first | rfl | exact hk.elim
  constructor
  · rw [TrackScan.foldl_applyStep_command]
    have hother := fun k hk => TargetStep.foldl_effect_of_not_isTarget (k := k) (steps ++ [last])
      (TrackScan.construct a).command hk
    rw [oneTarget_iff (Command.has_congr (hother .freq id))
      (Command.has_congr (hother .antennasList id)) (hother .azOff id),
      TargetStep.foldl_effect_entries_iff htrack]
    exact and_iff_left (hother .elOff id)
  · have hkept : OnOff.Kept a' (moves.foldl OnOff.move (.construct a')) :=
      OnOff.Kept.foldl_move (OnOff.configure_kept a' []) moves
    have hsetting := hkept.settings
    rw [oneTarget_iff (Command.has_congr (hsetting .freq id id))
      (Command.has_congr (hsetting .antennasList id id)) hkept.azOff, hkept.elOff,
      OnOff.foldl_move_ended_iff]
    refine and_congr ?_ (and_iff_right fun hended => nomatch hended)
    rw [← TargetStep.foldl_effect_entries_iff honOff, ← h]
    exact forall₂_congr fun k hk => by rw [OnOff.foldl_move_command moves _ hk]

/-- A setter, whose source a message replaces while a thread has come to its end. -/
theorem latest_target_iff_message :
    OneTarget ([.setter (.setSource "casa"), .message (.radec 23 58) trivial].foldl
      TrackScan.applyStep (.construct ⟨1420, "1a", "id"⟩)).command (.radec 23 58) ∧
    OneTarget ([.target (.setter (.setSource "casa")), .start, .beforeSleep 0, .afterSleep 0,
      .target (.message (.radec 23 58) trivial)].foldl
        OnOff.move (.construct ⟨1420, "1a", 10, 5, 5⟩)).command (.radec 23 58) := by
  have hsteps : List.filterMap OnOffMove.target? [.target (.setter (.setSource "casa")), .start,
      .beforeSleep 0, .afterSleep 0, .target (.message (.radec 23 58) trivial)] =
      [.setter (.setSource "casa")] ++ [.message (.radec 23 58) trivial] := rfl
  have h := latest_target_iff ⟨1420, "1a", "id"⟩ ⟨1420, "1a", 10, 5, 5⟩ hsteps
  have hkind := TargetStep.oneKind_message [.setter (.setSource "casa")] (m := .radec 23 58)
    trivial
  have hend : ∃ x ∈ [OnOffMove.target (.message (.radec 23 58) trivial)], x.IsMessage :=
    ⟨_, List.mem_singleton_self _, trivial⟩
  exact ⟨h.1.mpr hkind, h.2.mpr ⟨hkind, False.elim, False.elim, False.elim, fun _ => hend,
    False.elim, trivial⟩⟩

/-- A source is set, and then coordinates. The array stays at the source. -/
def sourceThenCoordinates : List TargetStep :=
  [.setter (.setSource "casa"), .setter (.setSrcRadec 23 58)]

/-- The command of either block has the keys of both targets. -/
theorem setter_keeps_old_target :
    ¬OneTarget (sourceThenCoordinates.foldl TrackScan.applyStep
      (.construct ⟨1420, "1a", "id"⟩)).command (.radec 23 58) ∧
    ¬OneTarget ((sourceThenCoordinates.map .target).foldl OnOff.move
      (.construct ⟨1420, "1a", 10, 5, 5⟩)).command (.radec 23 58) :=
  ⟨fun h => absurd (h.entries .sourceId trivial) (Option.some_ne_none "casa"),
    fun h => absurd (h.entries .sourceId trivial) (Option.some_ne_none "casa")⟩

end GrAta
