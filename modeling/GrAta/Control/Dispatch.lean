import GrAta.Control.Command
import Mathlib.Algebra.Order.Ring.Rat
import Mathlib.Data.List.DropRight

/-!
# The control block

The control block turns each command into calls of the array's control library. It tunes
the antennas with the first command, and points them with every one. The limit of the
elevation, which the library names, is a parameter, and so is whether a source is up at
the time of a command.

## Main definitions

- `Control.handleMsg`: the message handler, which a missing key stops
- `dispatch`: the pointing function that a command selects, with its arguments
- `StaysAbove`: a command whose offset does not cross the limit of the elevation

## Main results

- `Control.setAzEl_above_iff`: the commands with which the array stays above the limit
- `Control.setAzEl_below`: an offset leads below the limit
-/

namespace GrAta

/-- A call of the control library. -/
inductive AcCall where
  | tryOnLnas (ants : List String)
  | setFreq (freq : ℚ) (ants : List String) (lo : String)
  | setFreqFocus (freq : ℚ) (ants : List String) (lo : String)
  | createEphems2 (srcId : String) (azOff elOff : ℚ)
  | pointAnts2 (srcId onOff : String) (ants : List String)
  | createEphems2Radec (ra dec azOff elOff : ℚ)
  | pointAnts2Radec (ra dec : ℚ) (onOff : String) (ants : List String)
  | setAzEl (ants : List String) (az el : ℚ)
  deriving DecidableEq, Repr

def freqOff : ℚ := 0

/-- The tuning that is connected to the receiver. -/
def usrpLo : String := "d"

-- ════════════════════════════════════════════════════════════════════════
-- The handler
-- ════════════════════════════════════════════════════════════════════════

/-- `obs_info[k]`, which raises the key that is not there. -/
def Command.item (d : Command) (k : CommandKey) : Except CommandKey k.Value :=
  match d k with
  | some v => .ok v
  | none => .error k

inductive Target where
  | srcId (srcId : String)
  | radec (ra dec : ℚ)
  | azel (az el : ℚ)
  deriving DecidableEq, Repr

/-- A call of one of the three pointing functions. Without offsets it leaves the optional
arguments to their defaults. -/
structure Pointing where
  target : Target
  offsets : Option (ℚ × ℚ)
  deriving DecidableEq, Repr

inductive Branch where
  | srcId
  | radec
  | azel
  | noTarget
  deriving DecidableEq, Repr

/-- The branch that the handler takes. The conditions on a pair of coordinates, such as
`('ra' and 'dec') in obs_info`, ask for the second key only. -/
def branch (obsInfo : Command) : Branch :=
  if obsInfo.has .sourceId then .srcId
  else if obsInfo.has .dec then .radec
  else if obsInfo.has .el then .azel
  else .noTarget

/-- The condition of an off-source scan, `('az_off' and 'el_off') in obs_info`. -/
def isOffSource (obsInfo : Command) : Bool := obsInfo.has .elOff

/-- The optional arguments of a pointing function. -/
def Command.offsets (d : Command) : Except CommandKey (Option (ℚ × ℚ)) :=
  if isOffSource d then do
    let azOff ← d.item .azOff
    let elOff ← d.item .elOff
    return some (azOff, elOff)
  else return none

/-- The call of a pointing function in the branch that is taken. -/
def dispatch (obsInfo : Command) : Except CommandKey (Option Pointing) :=
  match branch obsInfo with
  | .srcId => do
    let srcId ← obsInfo.item .sourceId
    let offsets ← obsInfo.offsets
    return some ⟨.srcId srcId, offsets⟩
  | .radec => do
    let ra ← obsInfo.item .ra
    let dec ← obsInfo.item .dec
    let offsets ← obsInfo.offsets
    return some ⟨.radec ra dec, offsets⟩
  | .azel => do
    let az ← obsInfo.item .az
    let el ← obsInfo.item .el
    let offsets ← obsInfo.offsets
    return some ⟨.azel az el, offsets⟩
  | .noTarget => return none

/-- The characters that `strip` removes. -/
def isSpace (c : Char) : Bool :=
  (9 ≤ c.toNat && c.toNat ≤ 13) || (28 ≤ c.toNat && c.toNat ≤ 32) || c.toNat == 0x85 ||
    c.toNat == 0xa0 || c.toNat == 0x1680 || (0x2000 ≤ c.toNat && c.toNat ≤ 0x200a) ||
    c.toNat == 0x2028 || c.toNat == 0x2029 || c.toNat == 0x202f || c.toNat == 0x205f ||
    c.toNat == 0x3000

def strip (s : List Char) : String := String.ofList ((s.dropWhile isSpace).rdropWhile isSpace)

/-- `[a.strip() for a in s.split(',')]`. -/
def antList (s : String) : List String := (s.toList.splitOn ',').map strip

/-- The block, with the calls that it has made. -/
structure Control where
  obsInfo : Command
  myAnts : List String
  isConfigured : Bool
  isUser : Bool
  calls : List AcCall

namespace Control

/-- The block in the mode in which it commands the array. -/
def construct : Control where
  obsInfo := .make
  myAnts := []
  isConfigured := false
  isUser := true
  calls := []

/-- A handler that raises a key keeps what it has done before. -/
abbrev Handler := ExceptT CommandKey (StateM Control)

def ac (calls : List AcCall) : Handler Unit := modify fun c => { c with calls := c.calls ++ calls }

/-- Set the centre frequency, and turn on the amplifiers. -/
def configure (c : Control) (cfreq : ℚ) : List AcCall :=
  if cfreq ≠ 0 ∧ c.myAnts ≠ [] then
    if c.isUser then [.tryOnLnas c.myAnts, .setFreq (cfreq - freqOff) c.myAnts usrpLo]
    else [.tryOnLnas c.myAnts, .setFreqFocus (cfreq - freqOff) c.myAnts usrpLo]
  else []

def pointSrcId (srcId : String) (ants : List String) (offsets : Option (ℚ × ℚ)) : List AcCall :=
  let (azOff, elOff) := offsets.getD (0, 0)
  [.createEphems2 srcId azOff elOff,
    .pointAnts2 srcId (if offsets.isSome then "off" else "on") ants]

def pointSrcRadec (isUp : ℚ → ℚ → Bool) (ra dec : ℚ) (ants : List String)
    (offsets : Option (ℚ × ℚ)) : List AcCall :=
  let (azOff, elOff) := offsets.getD (0, 0)
  if isUp ra dec then
    [.createEphems2Radec ra dec azOff elOff,
      .pointAnts2Radec ra dec (if offsets.isSome then "off" else "on") ants]
  else []

/-- The limit is compared with the elevation without its offset. -/
def pointSrcAzel (minElev az el : ℚ) (ants : List String) (offsets : Option (ℚ × ℚ)) :
    List AcCall :=
  let (azOff, elOff) := offsets.getD (0, 0)
  if minElev < el then [.setAzEl ants (az + azOff) (el + elOff)] else []

def point (minElev : ℚ) (isUp : ℚ → ℚ → Bool) (ants : List String) (p : Pointing) :
    List AcCall :=
  match p.target with
  | .srcId srcId => pointSrcId srcId ants p.offsets
  | .radec ra dec => pointSrcRadec isUp ra dec ants p.offsets
  | .azel az el => pointSrcAzel minElev az el ants p.offsets

def handleMsg (minElev : ℚ) (isUp : ℚ → ℚ → Bool) (msg : Command) : Handler Unit := do
  modify fun c => { c with obsInfo := msg }
  let cfreq ← MonadExcept.ofExcept (msg.item .freq)
  let ants ← MonadExcept.ofExcept (msg.item .antennasList)
  modify fun c => { c with myAnts := antList ants }
  let c ← get
  if !c.isConfigured then
    ac (c.configure cfreq)
  let pointing ← MonadExcept.ofExcept (dispatch msg)
  match pointing with
  | some p => ac (point minElev isUp c.myAnts p)
  | none => pure ()
  modify fun c => { c with isConfigured := true }

/-- A command as it is delivered, with the sources that are up at that time. -/
structure Delivery where
  msg : Command
  isUp : ℚ → ℚ → Bool

def deliver (minElev : ℚ) (c : Control) (d : Delivery) : Control :=
  ((handleMsg minElev d.isUp d.msg).run c).2

def run (minElev : ℚ) (deliveries : List Delivery) : Control :=
  deliveries.foldl (deliver minElev) construct

end Control

-- ════════════════════════════════════════════════════════════════════════
-- Branches
-- ════════════════════════════════════════════════════════════════════════

variable {d : Command}

theorem Command.item_of_some {k : CommandKey} {v : k.Value} (h : d k = some v) :
    d.item k = .ok v := by
  rw [Command.item, h]

theorem Command.item_of_none {k : CommandKey} (h : d k = none) : d.item k = .error k := by
  rw [Command.item, h]

theorem Command.has_of_some {k : CommandKey} {v : k.Value} (h : d k = some v) : d.has k = true := by
  rw [Command.has, h]
  rfl

theorem Command.has_of_none {k : CommandKey} (h : d k = none) : d.has k = false := by
  rw [Command.has, h]
  rfl

/-- The offsets are asked for when the second one is there. -/
theorem Command.offsets_eq_ok_iff (offsets : Option (ℚ × ℚ)) : d.offsets = .ok offsets ↔
    (d .elOff = none ∧ offsets = none) ∨
      ∃ azOff elOff, d .azOff = some azOff ∧ d .elOff = some elOff ∧
        offsets = some (azOff, elOff) := by
  rw [Command.offsets, isOffSource]
  cases hel : d .elOff with
  | none =>
    rw [has_of_none hel]
    constructor
    · exact fun h => .inl ⟨rfl, (Except.ok.inj h).symm⟩
    · rintro (⟨-, rfl⟩ | ⟨_, _, -, h, -⟩)
      · rfl
      · cases h
  | some elOff =>
    rw [has_of_some hel, item_of_some hel]
    cases haz : d .azOff with
    | none =>
      rw [item_of_none haz]
      constructor
      · exact fun h => nomatch h
      · rintro (⟨h, -⟩ | ⟨_, _, h, -, -⟩) <;> cases h
    | some azOff =>
      rw [item_of_some haz]
      constructor
      · exact fun h => .inr ⟨azOff, elOff, rfl, rfl, (Except.ok.inj h).symm⟩
      · rintro (⟨h, -⟩ | ⟨_, _, haz', hel', rfl⟩)
        · cases h
        · cases haz'
          cases hel'
          rfl

/-- The target that a command names, in the order of the branches. -/
def Target.SelectedBy (d : Command) : Target → Prop
  | .srcId id => d .sourceId = some id
  | .radec ra dec => d .sourceId = none ∧ d .ra = some ra ∧ d .dec = some dec
  | .azel az el => d .sourceId = none ∧ d .dec = none ∧ d .az = some az ∧ d .el = some el

/-- The end of each branch. -/
theorem Command.offsets_bind_eq_iff (t : Target) (p : Pointing) :
    (d.offsets >>= fun offsets => Except.ok (some (Pointing.mk t offsets))) = .ok (some p) ↔
      p.target = t ∧ d.offsets = .ok p.offsets := by
  obtain ⟨target, offsets⟩ := p
  cases d.offsets with
  | error k => exact iff_of_false (fun h => nomatch h) (fun h => nomatch h.2)
  | ok offsets' =>
    constructor
    · intro h
      cases h
      exact ⟨rfl, rfl⟩
    · rintro ⟨rfl, h⟩
      cases h
      rfl

/-- A branch is taken with the target that the command names and with its offsets. -/
theorem dispatch_eq_some_iff (p : Pointing) :
    dispatch d = .ok (some p) ↔ p.target.SelectedBy d ∧ d.offsets = .ok p.offsets := by
  rw [dispatch, branch]
  cases hid : d .sourceId with
  | some id =>
    rw [Command.has_of_some hid, Command.item_of_some hid]
    refine (Command.offsets_bind_eq_iff (.srcId id) p).trans (and_congr_left' ?_)
    cases p.target <;> simp [Target.SelectedBy, hid, eq_comm]
  | none =>
    rw [Command.has_of_none hid]
    cases hdec : d .dec with
    | some dec =>
      rw [Command.has_of_some hdec, Command.item_of_some hdec]
      cases hra : d .ra with
      | none =>
        rw [Command.item_of_none hra]
        refine iff_of_false (fun h => nomatch h) fun h => ?_
        revert h
        cases p.target <;> simp [Target.SelectedBy, hid, hdec, hra]
      | some ra =>
        rw [Command.item_of_some hra]
        refine (Command.offsets_bind_eq_iff (.radec ra dec) p).trans (and_congr_left' ?_)
        cases p.target <;> simp [Target.SelectedBy, hid, hdec, hra, eq_comm]
    | none =>
      rw [Command.has_of_none hdec]
      cases hel : d .el with
      | none =>
        rw [Command.has_of_none hel]
        refine iff_of_false (fun h => nomatch h) fun h => ?_
        revert h
        cases p.target <;> simp [Target.SelectedBy, hid, hdec, hel]
      | some el =>
        rw [Command.has_of_some hel, Command.item_of_some hel]
        cases haz : d .az with
        | none =>
          rw [Command.item_of_none haz]
          refine iff_of_false (fun h => nomatch h) fun h => ?_
          revert h
          cases p.target <;> simp [Target.SelectedBy, hid, hdec, haz]
        | some az =>
          rw [Command.item_of_some haz]
          refine (Command.offsets_bind_eq_iff (.azel az el) p).trans (and_congr_left' ?_)
          cases p.target <;> simp [Target.SelectedBy, hid, hdec, hel, haz, eq_comm]

namespace Control

variable {minElev : ℚ} {isUp : ℚ → ℚ → Bool} {msg : Command}

/-- The block before it points the array. -/
def tuned (c : Control) (msg : Command) (cfreq : ℚ) (ants : String) : Control :=
  let c := { c with obsInfo := msg, myAnts := antList ants }
  if c.isConfigured then c else { c with calls := c.calls ++ c.configure cfreq }

theorem handleMsg_of_freq_none (c : Control) (h : msg .freq = none) :
    (handleMsg minElev isUp msg).run c = (.error .freq, { c with obsInfo := msg }) := by
  rw [handleMsg, Command.item_of_none h]
  rfl

theorem handleMsg_of_antennasList_none (c : Control) {cfreq : ℚ} (hfreq : msg .freq = some cfreq)
    (h : msg .antennasList = none) :
    (handleMsg minElev isUp msg).run c = (.error .antennasList, { c with obsInfo := msg }) := by
  rw [handleMsg, Command.item_of_some hfreq, Command.item_of_none h]
  rfl

/-- A command with the keys that every command has. -/
theorem handleMsg_of_some (c : Control) {cfreq : ℚ} {ants : String}
    (hfreq : msg .freq = some cfreq) (hants : msg .antennasList = some ants) :
    (handleMsg minElev isUp msg).run c =
      let c := c.tuned msg cfreq ants
      match dispatch msg with
      | .error k => (.error k, c)
      | .ok none => (.ok (), { c with isConfigured := true })
      | .ok (some p) =>
        (.ok (), { c with
          calls := c.calls ++ point minElev isUp (antList ants) p
          isConfigured := true }) := by
  rw [handleMsg, Command.item_of_some hfreq, Command.item_of_some hants, tuned]
  obtain ⟨_, _, isConfigured, _, _⟩ := c
  cases isConfigured <;> rcases dispatch msg with k | _ | p <;> rfl

-- ════════════════════════════════════════════════════════════════════════
-- The limit of the elevation
-- ════════════════════════════════════════════════════════════════════════

/-- Every position to which the array is pointed lies above the limit. -/
def Above (minElev : ℚ) (calls : List AcCall) : Prop :=
  ∀ ants az el, .setAzEl ants az el ∈ calls → minElev < el

/-- A command whose offset does not lead a target above the limit to a position below it.
It matters for a command that reaches the branch of the azimuth and the elevation. -/
def StaysAbove (minElev : ℚ) (msg : Command) : Prop :=
  msg.has .freq → msg.has .antennasList →
    ∀ az el azOff elOff, (Target.azel az el).SelectedBy msg →
      msg .azOff = some azOff → msg .elOff = some elOff →
        minElev < el → minElev < el + elOff

theorem above_append (calls calls' : List AcCall) :
    Above minElev (calls ++ calls') ↔ Above minElev calls ∧ Above minElev calls' := by
  simp only [Above, List.mem_append, or_imp, forall_and]

theorem above_nil : Above minElev [] := fun _ _ _ h => absurd h List.not_mem_nil

theorem configure_above (c : Control) (cfreq : ℚ) : Above minElev (c.configure cfreq) := by
  intro ants az el h
  rw [configure] at h
  split at h
  · split at h <;> simp at h
  · exact absurd h List.not_mem_nil

theorem tuned_above_iff (c : Control) (msg : Command) (cfreq : ℚ) (ants : String) :
    Above minElev (c.tuned msg cfreq ants).calls ↔ Above minElev c.calls := by
  rw [tuned]
  split
  · rfl
  · exact (above_append ..).trans (and_iff_left (configure_above _ cfreq))

/-- Only a target by azimuth and elevation sets a position. -/
theorem point_above_iff (ants : List String) (p : Pointing) :
    Above minElev (point minElev isUp ants p) ↔
      ∀ az el, p.target = .azel az el → minElev < el →
        minElev < el + (p.offsets.getD (0, 0)).2 := by
  obtain ⟨target, offsets⟩ := p
  cases target with
  | srcId id => simp [Above, point, pointSrcId]
  | radec ra dec =>
    simp only [Above, point, pointSrcRadec]
    split <;> simp
  | azel az el =>
    simp only [Above, point, pointSrcAzel]
    constructor
    · intro h az' el' htarget hel
      cases htarget
      rw [if_pos hel] at h
      exact h ants _ _ (List.mem_singleton_self _)
    · intro h ants' az' el' hcall
      split at hcall
      next hel =>
        cases List.mem_singleton.mp hcall
        exact h az el rfl hel
      next => exact absurd hcall List.not_mem_nil

/-- The branches that a command with an offset below the limit takes. -/
theorem staysAbove_iff (hfreq : msg.has .freq) (hants : msg.has .antennasList) :
    StaysAbove minElev msg ↔
      ∀ p, dispatch msg = .ok (some p) → ∀ az el, p.target = .azel az el → minElev < el →
        minElev < el + (p.offsets.getD (0, 0)).2 := by
  constructor
  · rintro h ⟨target, offsets⟩ hp az el rfl hel
    obtain ⟨hselected, hoffsets⟩ := (dispatch_eq_some_iff _).mp hp
    rcases (Command.offsets_eq_ok_iff _).mp hoffsets with
      ⟨-, rfl⟩ | ⟨azOff, elOff, hazOff, helOff, rfl⟩
    · rwa [Option.getD_none, add_zero]
    · exact h hfreq hants az el azOff elOff hselected hazOff helOff hel
  · intro h _ _ az el azOff elOff hselected hazOff helOff hel
    have hoffsets : msg.offsets = .ok (some (azOff, elOff)) :=
      (Command.offsets_eq_ok_iff _).mpr (.inr ⟨azOff, elOff, hazOff, helOff, rfl⟩)
    exact h ⟨.azel az el, some (azOff, elOff)⟩
      ((dispatch_eq_some_iff _).mpr ⟨hselected, hoffsets⟩) az el rfl hel

/-- One command keeps the array above the limit when its offset does. -/
theorem handleMsg_above_iff (c : Control) (msg : Command) :
    Above minElev ((handleMsg minElev isUp msg).run c).2.calls ↔
      Above minElev c.calls ∧ StaysAbove minElev msg := by
  cases hfreq : msg .freq with
  | none =>
    rw [handleMsg_of_freq_none c hfreq, iff_self_and]
    intro _ hhas
    rw [Command.has_of_none hfreq] at hhas
    cases hhas
  | some cfreq =>
    cases hants : msg .antennasList with
    | none =>
      rw [handleMsg_of_antennasList_none c hfreq hants, iff_self_and]
      intro _ _ hhas
      rw [Command.has_of_none hants] at hhas
      cases hhas
    | some ants =>
      rw [handleMsg_of_some c hfreq hants,
        staysAbove_iff (Command.has_of_some hfreq) (Command.has_of_some hants)]
      cases hdispatch : dispatch msg with
      | error k => simp [tuned_above_iff]
      | ok pointing =>
        cases pointing with
        | none => simp [tuned_above_iff]
        | some p =>
          simp only [Except.ok.injEq, Option.some.injEq, forall_eq']
          rw [above_append, tuned_above_iff, point_above_iff]

/-- In a run every position to which the array is pointed lies above the limit exactly when
no command has an offset that crosses it. -/
theorem setAzEl_above_iff (minElev : ℚ) (deliveries : List Delivery) :
    (∀ ants az el, .setAzEl ants az el ∈ (run minElev deliveries).calls → minElev < el) ↔
      ∀ d ∈ deliveries, StaysAbove minElev d.msg := by
  suffices h : ∀ c : Control, Above minElev (deliveries.foldl (deliver minElev) c).calls ↔
      Above minElev c.calls ∧ ∀ d ∈ deliveries, StaysAbove minElev d.msg from
    (h construct).trans (and_iff_right above_nil)
  induction deliveries with
  | nil => exact fun c => (and_iff_left fun d hd => absurd hd List.not_mem_nil).symm
  | cons d deliveries ih =>
    intro c
    rw [List.foldl_cons, ih, deliver, handleMsg_above_iff, List.forall_mem_cons, and_assoc]

/-- A source one degree above the limit, with an offset of five degrees down. -/
def lowOffset : Command :=
  (((((Command.make.dictAdd .antennasList "1a").dictAdd .freq 1420).dictAdd .az 90).dictAdd
    .el 19).dictAdd .azOff 0).dictAdd .elOff (-5)

/-- The array is pointed four degrees below the limit. -/
theorem setAzEl_below :
    ¬∀ ants az el, .setAzEl ants az el ∈ (run 18 [⟨lowOffset, fun _ _ => true⟩]).calls →
      18 < el := by
  intro h
  have hstays : StaysAbove 18 lowOffset := ((handleMsg_above_iff construct lowOffset).mp h).2
  have hbelow := hstays rfl rfl 90 19 0 (-5) ⟨rfl, rfl, rfl, rfl⟩ rfl rfl (by decide)
  exact absurd hbelow (by decide +kernel)

end Control

end GrAta
