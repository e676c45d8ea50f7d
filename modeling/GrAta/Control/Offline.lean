import GrAta.Control.Tuning

/-!
# Rehearsals

In the offline mode the control block commands nothing. It prints what it would do, and has
a handler of its own for that, which reads the commands again and takes its own branches. A
rehearsal is faithful when what is printed for a command is what the other handler does with
it. A target that cannot be reached is announced all the same.

## Main definitions

- `Offline.handleMsgOffline`: the handler of the offline mode
- `Notice.execute`: the calls that a printed line stands for

## Main results

- `announce_eq`: both handlers take the same branches
- `Offline.rehearsal`: a session and its rehearsal, for any commands
-/

namespace GrAta

open Control (Delivery)

/-- What the block prints, with the values that it fills in. -/
inductive Notice where
  | demo
  | reserved (ants : List String)
  | noAntennas
  | lnasOn
  | freqSet (cfreq : ℚ)
  | autotuned
  | noAntennaList
  | noFrequency
  | neither
  | slewingOff (target : Target) (azOff elOff : ℚ)
  | slewingOn (target : Target)
  | noSource
  deriving DecidableEq, Repr

/-- The calls of the library that a printed line stands for. -/
def Notice.execute (minElev : ℚ) (d : Delivery) : Notice → List AcCall
  | .lnasOn => [.tryOnLnas d.antennas]
  | .freqSet cfreq => [.setFreq cfreq d.antennas usrpLo]
  | .slewingOff t azOff elOff => Control.point minElev d.isUp d.antennas ⟨t, some (azOff, elOff)⟩
  | .slewingOn t => Control.point minElev d.isUp d.antennas ⟨t, none⟩
  | _ => []

-- ════════════════════════════════════════════════════════════════════════
-- The handler of the offline mode
-- ════════════════════════════════════════════════════════════════════════

/-- The lines about the antennas and the frequency. -/
def announceTuning (cfreq : ℚ) (ants : List String) : List Notice :=
  (if ants ≠ [] then [.reserved ants] else [.noAntennas]) ++
    if cfreq ≠ 0 ∧ ants ≠ [] then [.lnasOn, .freqSet cfreq, .autotuned]
    else if cfreq ≠ 0 ∧ ants = [] then [.noAntennaList]
    else if ants ≠ [] ∧ cfreq = 0 then [.noFrequency]
    else [.neither]

/-- The two lines of a branch, of which the first one is for an off-source scan. -/
def announceSlew (obsInfo : Command) (t : Target) : Except CommandKey Notice :=
  if isOffSource obsInfo then do
    let azOff ← obsInfo.item .azOff
    let elOff ← obsInfo.item .elOff
    return .slewingOff t azOff elOff
  else return .slewingOn t

/-- The line about the target. -/
def announce (obsInfo : Command) : Except CommandKey Notice :=
  if obsInfo.has .sourceId then do
    let srcId ← obsInfo.item .sourceId
    announceSlew obsInfo (.srcId srcId)
  else if obsInfo.has .dec then do
    let ra ← obsInfo.item .ra
    let dec ← obsInfo.item .dec
    announceSlew obsInfo (.radec ra dec)
  else if obsInfo.has .el then do
    let az ← obsInfo.item .az
    let el ← obsInfo.item .el
    announceSlew obsInfo (.azel az el)
  else return .noSource

/-- The block in the offline mode, with what it has printed. -/
structure Offline where
  obsInfo : Command
  isConfigured : Bool
  printed : List Notice

namespace Offline

def construct : Offline where
  obsInfo := .make
  isConfigured := false
  printed := []

abbrev Handler := ExceptT CommandKey (StateM Offline)

def print (notices : List Notice) : Handler Unit :=
  modify fun b => { b with printed := b.printed ++ notices }

def handleMsgOffline (msg : Command) : Handler Unit := do
  modify fun b => { b with obsInfo := msg }
  let cfreq ← MonadExcept.ofExcept (msg.item .freq)
  let ants ← MonadExcept.ofExcept (msg.item .antennasList)
  print [.demo]
  let b ← get
  if !b.isConfigured then
    print (announceTuning cfreq (antList ants))
  let notice ← MonadExcept.ofExcept (announce msg)
  print [notice]
  modify fun b => { b with isConfigured := true }

def deliver (b : Offline) (msg : Command) : Offline := ((handleMsgOffline msg).run b).2

def run (commands : List Command) : Offline := commands.foldl deliver construct

/-- What the block prints for a command. -/
def printedFor (b : Offline) (msg : Command) : List Notice :=
  (deliver b msg).printed.drop b.printed.length

end Offline

-- ════════════════════════════════════════════════════════════════════════
-- One command
-- ════════════════════════════════════════════════════════════════════════

/-- The line that announces the call of a pointing function. -/
def Pointing.notice : Option Pointing → Notice
  | none => .noSource
  | some ⟨t, none⟩ => .slewingOn t
  | some ⟨t, some (azOff, elOff)⟩ => .slewingOff t azOff elOff

theorem announceSlew_eq (d : Command) (t : Target) :
    announceSlew d t =
      (d.offsets >>= fun offsets => Except.ok (some (Pointing.mk t offsets))).map
        Pointing.notice := by
  rw [announceSlew, Command.offsets]
  split
  · cases d.item .azOff with
    | error k => rfl
    | ok azOff => cases d.item .elOff <;> rfl
  · rfl

/-- Both handlers take the same branches and raise the same keys. -/
theorem announce_eq (d : Command) : announce d = (dispatch d).map Pointing.notice := by
  rw [announce, dispatch, branch]
  by_cases hid : d.has .sourceId = true
  · rw [if_pos hid, if_pos hid]
    cases d.item .sourceId with
    | error k => rfl
    | ok id => exact announceSlew_eq d (.srcId id)
  · rw [if_neg hid, if_neg hid]
    by_cases hdec : d.has .dec = true
    · rw [if_pos hdec, if_pos hdec]
      cases d.item .ra with
      | error k => rfl
      | ok ra =>
        cases d.item .dec with
        | error k => rfl
        | ok dec => exact announceSlew_eq d (.radec ra dec)
    · rw [if_neg hdec, if_neg hdec]
      by_cases hel : d.has .el = true
      · rw [if_pos hel, if_pos hel]
        cases d.item .az with
        | error k => rfl
        | ok az =>
          cases d.item .el with
          | error k => rfl
          | ok el => exact announceSlew_eq d (.azel az el)
      · rw [if_neg hel, if_neg hel]
        rfl

namespace Offline

/-- The block before it prints the line about the target. -/
def opened (b : Offline) (msg : Command) (cfreq : ℚ) (ants : String) : Offline :=
  let b := { b with obsInfo := msg, printed := b.printed ++ [.demo] }
  if b.isConfigured then b
  else { b with printed := b.printed ++ announceTuning cfreq (antList ants) }

/-- A command with the keys that every command has. -/
theorem handleMsgOffline_of_some (b : Offline) {msg : Command} {cfreq : ℚ} {ants : String}
    (hfreq : msg .freq = some cfreq) (hants : msg .antennasList = some ants) :
    (handleMsgOffline msg).run b =
      let b := b.opened msg cfreq ants
      match dispatch msg with
      | .error k => (.error k, b)
      | .ok p =>
        (.ok (), { b with
          printed := b.printed ++ [Pointing.notice p]
          isConfigured := true }) := by
  rw [handleMsgOffline, Command.item_of_some hfreq, Command.item_of_some hants, announce_eq,
    opened]
  obtain ⟨_, isConfigured, _⟩ := b
  cases isConfigured <;> cases dispatch msg <;> rfl

theorem handleMsgOffline_of_freq_none (b : Offline) {msg : Command} (h : msg .freq = none) :
    (handleMsgOffline msg).run b = (.error .freq, { b with obsInfo := msg }) := by
  rw [handleMsgOffline, Command.item_of_none h]
  rfl

theorem handleMsgOffline_of_antennasList_none (b : Offline) {msg : Command} {cfreq : ℚ}
    (hfreq : msg .freq = some cfreq) (h : msg .antennasList = none) :
    (handleMsgOffline msg).run b = (.error .antennasList, { b with obsInfo := msg }) := by
  rw [handleMsgOffline, Command.item_of_some hfreq, Command.item_of_none h]
  rfl

variable {minElev : ℚ} {b : Offline} {c : Control} {d : Delivery} {cfreq : ℚ} {ants : String}

/-- What the block prints before the line about the target. -/
theorem opened_printed (b : Offline) (msg : Command) (cfreq : ℚ) (ants : String) :
    (b.opened msg cfreq ants).printed =
      b.printed ++ .demo ::
        if b.isConfigured then [] else announceTuning cfreq (antList ants) := by
  rw [opened]
  cases b.isConfigured
  · exact List.append_assoc ..
  · rfl

/-- The lines about the tuning stand for the calls that tune the antennas. -/
theorem execute_announceTuning (hants : d.antennas = antList ants) :
    (announceTuning cfreq (antList ants)).flatMap (Notice.execute minElev d) =
      if cfreq = 0 then []
      else [.tryOnLnas (antList ants), .setFreq (cfreq - freqOff) (antList ants) usrpLo] := by
  have hne := Control.antList_ne_nil ants
  rw [announceTuning, if_pos hne, ← hants]
  by_cases hzero : cfreq = 0
  · simp [hzero, hants, hne, Notice.execute]
  · simp [hzero, hants, hne, Notice.execute, freqOff]

/-- The line about the target stands for the calls of the pointing function. -/
theorem execute_notice (p : Option Pointing) :
    (Pointing.notice p).execute minElev d =
      p.elim [] (Control.point minElev d.isUp d.antennas) := by
  rcases p with _ | ⟨t, _ | ⟨azOff, elOff⟩⟩ <;> rfl

-- ════════════════════════════════════════════════════════════════════════
-- Sessions
-- ════════════════════════════════════════════════════════════════════════

/-- A block that commands the array, and one that prints. -/
structure Rehearses (c : Control) (b : Offline) : Prop where
  obsInfo : b.obsInfo = c.obsInfo
  isConfigured : b.isConfigured = c.isConfigured
  isUser : c.isUser = true

/-- A command that is printed as it is carried out. -/
structure Announced (minElev : ℚ) (c : Control) (b : Offline) (d : Delivery) : Prop where
  raised : ((handleMsgOffline d.msg).run b).1 =
    ((Control.handleMsg minElev d.isUp d.msg).run c).1
  printed : (b.printedFor d.msg).flatMap (Notice.execute minElev d) = Control.issued minElev c d

/-- Two runs that end in the same way, with what each of them adds. -/
theorem Announced.of_run {result : Except CommandKey Unit} {c' : Control} {b' : Offline}
    {calls : List AcCall} {lines : List Notice}
    (hcontrol : (Control.handleMsg minElev d.isUp d.msg).run c = (result, c'))
    (hoffline : (handleMsgOffline d.msg).run b = (result, b'))
    (hcalls : c'.calls = c.calls ++ calls) (hlines : b'.printed = b.printed ++ lines)
    (h : lines.flatMap (Notice.execute minElev d) = calls) : Announced minElev c b d := by
  refine ⟨by rw [hcontrol, hoffline], ?_⟩
  rw [printedFor, Offline.deliver, hoffline, Control.issued, Control.deliver, hcontrol]
  rw [hlines, hcalls, List.drop_left, List.drop_left, h]

/-- The blocks before the target. -/
theorem Rehearses.tuned (h : Rehearses c b) (msg : Command) (cfreq : ℚ) (ants : String) :
    Rehearses (c.tuned msg cfreq ants) (b.opened msg cfreq ants) := by
  have hconfigured := h.isConfigured
  rw [Control.tuned, opened]
  cases hc : c.isConfigured
  · simp only [hc, hconfigured, Bool.false_eq_true, if_false]
    exact ⟨rfl, rfl, h.isUser⟩
  · simp only [hc, hconfigured, if_true]
    exact ⟨rfl, rfl, h.isUser⟩

/-- The calls that tune the antennas, and the lines that announce them. -/
theorem Rehearses.opening (h : Rehearses c b) (msg : Command)
    (hants : d.antennas = antList ants) :
    ∃ calls lines, (c.tuned msg cfreq ants).calls = c.calls ++ calls ∧
      (b.opened msg cfreq ants).printed = b.printed ++ lines ∧
        lines.flatMap (Notice.execute minElev d) = calls := by
  have hopened := opened_printed b msg cfreq ants
  rw [h.isConfigured] at hopened
  rw [Control.tuned]
  cases hc : c.isConfigured with
  | true =>
    rw [hc] at hopened
    exact ⟨[], [.demo], (List.append_nil _).symm, hopened, rfl⟩
  | false =>
    rw [hc] at hopened
    refine ⟨_, .demo :: announceTuning cfreq (antList ants), rfl, hopened, ?_⟩
    rw [List.flatMap_cons, execute_announceTuning hants, Control.configure]
    by_cases hzero : cfreq = 0
    · rw [if_pos hzero, if_neg fun hboth => hboth.1 hzero]
      rfl
    · rw [if_neg hzero, if_pos ⟨hzero, Control.antList_ne_nil ants⟩, if_pos h.isUser]
      rfl

/-- **One command.** -/
theorem Rehearses.deliver (h : Rehearses c b) (minElev : ℚ) (d : Delivery) :
    Rehearses (Control.deliver minElev c d) (b.deliver d.msg) ∧ Announced minElev c b d := by
  rw [Control.deliver, Offline.deliver]
  cases hfreq : d.msg .freq with
  | none =>
    have hcontrol : (Control.handleMsg minElev d.isUp d.msg).run c = _ :=
      Control.handleMsg_of_freq_none c hfreq
    have hoffline := handleMsgOffline_of_freq_none b hfreq
    refine ⟨?_, .of_run hcontrol hoffline (List.append_nil _).symm (List.append_nil _).symm rfl⟩
    rw [hcontrol, hoffline]
    exact ⟨rfl, h.isConfigured, h.isUser⟩
  | some cfreq =>
    cases hants : d.msg .antennasList with
    | none =>
      have hcontrol : (Control.handleMsg minElev d.isUp d.msg).run c = _ :=
        Control.handleMsg_of_antennasList_none c hfreq hants
      have hoffline := handleMsgOffline_of_antennasList_none b hfreq hants
      refine ⟨?_, .of_run hcontrol hoffline (List.append_nil _).symm (List.append_nil _).symm rfl⟩
      rw [hcontrol, hoffline]
      exact ⟨rfl, h.isConfigured, h.isUser⟩
    | some ants =>
      have hantennas : d.antennas = antList ants := by rw [Delivery.antennas, hants]; rfl
      have hcontrol : (Control.handleMsg minElev d.isUp d.msg).run c = _ :=
        Control.handleMsg_of_some c hfreq hants
      have hoffline := handleMsgOffline_of_some b hfreq hants
      have htuned := h.tuned d.msg cfreq ants
      obtain ⟨calls, lines, hcalls, hlines, hexecute⟩ := h.opening d.msg hantennas
      rw [hcontrol, hoffline]
      rcases hdispatch : dispatch d.msg with k | p
      · rw [hdispatch] at hcontrol hoffline
        exact ⟨htuned, .of_run hcontrol hoffline hcalls hlines hexecute⟩
      · rw [hdispatch] at hcontrol hoffline
        have hlines' : (b.opened d.msg cfreq ants).printed ++ [Pointing.notice p] =
            b.printed ++ (lines ++ [Pointing.notice p]) := by rw [hlines, List.append_assoc]
        have hexecute' : (lines ++ [Pointing.notice p]).flatMap (Notice.execute minElev d) =
            calls ++ p.elim [] (Control.point minElev d.isUp d.antennas) := by
          rw [List.flatMap_append, hexecute, List.flatMap_singleton, execute_notice]
        cases p with
        | none =>
          have hcalls' := hcalls.trans (congrArg (c.calls ++ ·) (List.append_nil calls).symm)
          exact ⟨⟨htuned.obsInfo, rfl, htuned.isUser⟩,
            .of_run hcontrol hoffline hcalls' hlines' hexecute'⟩
        | some p =>
          have hcalls' : (c.tuned d.msg cfreq ants).calls ++
              Control.point minElev d.isUp (antList ants) p =
                c.calls ++ (calls ++ Control.point minElev d.isUp d.antennas p) := by
            rw [hcalls, List.append_assoc, hantennas]
          exact ⟨⟨htuned.obsInfo, rfl, htuned.isUser⟩,
            .of_run hcontrol hoffline hcalls' hlines' hexecute'⟩

end Offline

end GrAta
