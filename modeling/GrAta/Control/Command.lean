import Mathlib.Data.Rat.Defs
import Mathlib.Logic.Function.Basic
import Mathlib.Tactic.Common

/-!
# Observing commands

The dictionaries that the observing blocks publish for the control block, and the
messages by which a user changes the target. A value has the type that the blocks give
to its key; a decimal number is a rational one.

## Main definitions

- `Command`, `dictAdd`, `dictDelete`: dictionaries
- `ObsMessage`: a message of the user, with its numbers parsed
- `clearTarget`, `setTarget`: what both observing blocks do with it
- `Setter`: the calls that set a target when a flowgraph is built
-/

namespace GrAta

inductive CommandKey where
  | antennasList
  | freq
  | dur
  | obsType
  | coordType
  | sourceId
  | ra
  | dec
  | az
  | el
  | azOff
  | elOff
  deriving DecidableEq, Repr

/-- The type of the values of a key. -/
abbrev CommandKey.Value : CommandKey → Type
  | .antennasList | .obsType | .coordType | .sourceId => String
  | .freq | .dur | .ra | .dec | .az | .el | .azOff | .elOff => ℚ

/-- A dictionary. -/
def Command := (k : CommandKey) → Option k.Value

namespace Command

def make : Command := fun _ => none

/-- `dict_add`, which replaces the value of a key that is there. -/
def dictAdd (d : Command) (k : CommandKey) (v : k.Value) : Command :=
  Function.update d k (some v)

/-- `dict_delete`, which ignores a key that is not there. -/
def dictDelete (d : Command) (k : CommandKey) : Command := Function.update d k none

/-- `k in d`. -/
def has (d : Command) (k : CommandKey) : Bool := (d k).isSome

variable (d : Command) {k k' : CommandKey}

@[simp] theorem dictDelete_of_ne (h : k' ≠ k) : d.dictDelete k k' = d k' :=
  Function.update_of_ne h ..

end Command

-- ════════════════════════════════════════════════════════════════════════
-- Targets
-- ════════════════════════════════════════════════════════════════════════

/-- A message of the user. A key that is neither of the three is reported. -/
inductive ObsMessage where
  | sourceId (id : String)
  | azel (az el : ℚ)
  | radec (ra dec : ℚ)
  | other (key : String)
  deriving DecidableEq, Repr

/-- A message that names a target. -/
def ObsMessage.Valid : ObsMessage → Prop
  | .other _ => False
  | _ => True

/-- The five keys that name a target. -/
def CommandKey.IsTarget : CommandKey → Prop
  | .sourceId | .ra | .dec | .az | .el => True
  | _ => False

/-- The two keys of an off-source command. -/
def CommandKey.IsOffset : CommandKey → Prop
  | .azOff | .elOff => True
  | _ => False

/-- The first lines of `handle_msg`. -/
def clearTarget (command : Command) : Command :=
  ((((command.dictDelete .sourceId).dictDelete .ra).dictDelete .dec).dictDelete .az).dictDelete .el

/-- The target of a message. -/
def setTarget (command : Command) : ObsMessage → Command
  | .sourceId id => command.dictAdd .sourceId id
  | .azel az el => (command.dictAdd .az az).dictAdd .el el
  | .radec ra dec => (command.dictAdd .ra ra).dictAdd .dec dec
  | .other _ => command

/-- A setter, called when the flowgraph is built. -/
inductive Setter where
  | setSource (src : String)
  | setSrcRadec (ra dec : ℚ)
  | setSrcAzel (az el : ℚ)
  deriving DecidableEq, Repr

/-- What a setter does with the command: the same as a message, but without clearing the
old target. -/
def Setter.apply (command : Command) : Setter → Command
  | .setSource src => setTarget command (.sourceId src)
  | .setSrcRadec ra dec => setTarget command (.radec ra dec)
  | .setSrcAzel az el => setTarget command (.azel az el)

/-- The target keys come in pairs: right ascension with declination, azimuth with
elevation. -/
def Command.Paired (d : Command) : Prop :=
  d.has .ra = d.has .dec ∧ d.has .az = d.has .el

/-- A command with a target. -/
def Command.HasTarget (d : Command) : Prop := d.has .sourceId ∨ d.has .dec ∨ d.has .el

variable {command : Command}

theorem clearTarget_of_not_isTarget {k : CommandKey} (h : ¬k.IsTarget) :
    clearTarget command k = command k := by
  cases k <;> first | rfl | exact absurd trivial h

/-- A target touches no other key. -/
theorem setTarget_of_not_isTarget (m : ObsMessage) {k : CommandKey} (h : ¬k.IsTarget) :
    setTarget command m k = command k := by
  cases m <;> cases k <;> first | rfl | exact absurd trivial h

theorem Command.has_congr {d d' : Command} {k : CommandKey} (h : d k = d' k) :
    d.has k = d'.has k := by
  rw [has, h, has]

theorem Command.Paired.congr {d d' : Command} (hd : d.Paired)
    (h : ∀ k : CommandKey, k.IsTarget → d' k = d k) : d'.Paired := by
  rw [Paired, has_congr (h .ra trivial), has_congr (h .dec trivial), has_congr (h .az trivial),
    has_congr (h .el trivial)]
  exact hd

theorem Command.HasTarget.congr {d d' : Command} (hd : d.HasTarget)
    (h : ∀ k : CommandKey, k.IsTarget → d' k = d k) : d'.HasTarget := by
  rw [HasTarget, has_congr (h .sourceId trivial), has_congr (h .dec trivial),
    has_congr (h .el trivial)]
  exact hd

theorem clearTarget_paired (command : Command) : (clearTarget command).Paired := ⟨rfl, rfl⟩

/-- A target keeps the pairs. -/
theorem setTarget_paired (h : command.Paired) (m : ObsMessage) : (setTarget command m).Paired := by
  cases m with
  | sourceId id => exact h
  | azel az el => exact ⟨h.1, rfl⟩
  | radec ra dec => exact ⟨rfl, h.2⟩
  | other key => exact h

theorem setTarget_hasTarget (command : Command) {m : ObsMessage} (hm : m.Valid) :
    (setTarget command m).HasTarget := by
  cases m with
  | sourceId id => exact .inl rfl
  | azel az el => exact .inr (.inr rfl)
  | radec ra dec => exact .inr (.inl rfl)
  | other key => exact hm.elim

theorem Setter.apply_eq (s : Setter) (command : Command) :
    ∃ m : ObsMessage, m.Valid ∧ s.apply command = setTarget command m := by
  cases s with
  | setSource src => exact ⟨.sourceId src, trivial, rfl⟩
  | setSrcRadec ra dec => exact ⟨.radec ra dec, trivial, rfl⟩
  | setSrcAzel az el => exact ⟨.azel az el, trivial, rfl⟩

/-- The setters touch no other key. -/
theorem foldl_apply_of_not_isTarget (setters : List Setter) (command : Command)
    {k : CommandKey} (h : ¬k.IsTarget) : (setters.foldl Setter.apply command) k = command k := by
  induction setters generalizing command with
  | nil => rfl
  | cons setter setters ih =>
    obtain ⟨m, -, hm⟩ := setter.apply_eq command
    rw [List.foldl_cons, ih, hm]
    exact setTarget_of_not_isTarget m h

theorem foldl_apply_paired (setters : List Setter) (h : command.Paired) :
    (setters.foldl Setter.apply command).Paired := by
  induction setters generalizing command with
  | nil => exact h
  | cons setter setters ih =>
    obtain ⟨m, -, hm⟩ := setter.apply_eq command
    rw [List.foldl_cons, hm]
    exact ih (setTarget_paired h m)

/-- The last setter leaves a target. -/
theorem foldl_apply_hasTarget {setters : List Setter} (h : setters ≠ []) :
    (setters.foldl Setter.apply command).HasTarget := by
  obtain ⟨init, last, rfl⟩ := (List.eq_nil_or_concat setters).resolve_left h
  obtain ⟨m, hvalid, hm⟩ := last.apply_eq (init.foldl Setter.apply command)
  rw [List.concat_eq_append, List.foldl_append, List.foldl_cons, List.foldl_nil, hm]
  exact setTarget_hasTarget _ hvalid

end GrAta
