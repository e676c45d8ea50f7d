import GrAta.Control.OnOff
import GrAta.Control.Dispatch

/-!
# Observations one after the other

The two observing blocks with the control block behind them. A track scan publishes one
command for each start and each message. An on-off observation publishes two, and here it
ends before the next one begins.

## Main definitions

- `Cue`: a start or a message
- `TrackScan`: the block for track scans
- `OnOff.runCycles`: the on-off block with one observation after the other
- `Dispatched`: a command that the control block understands

## Main results

- `published_dispatched_iff`: which sequences of cues publish such commands only
- `restart_not_dispatched`: a second start publishes a command that raises a key
-/

namespace GrAta

/-- What makes a block publish. -/
inductive Cue where
  | start
  | handleMsg (m : ObsMessage)
  deriving DecidableEq, Repr

/-- A message that makes a block publish names a target. -/
def Cue.Valid : Cue → Prop
  | .start => True
  | .handleMsg m => m.Valid

-- ════════════════════════════════════════════════════════════════════════
-- The blocks
-- ════════════════════════════════════════════════════════════════════════

structure TrackScanArgs where
  cfreq : ℚ
  antList : String
  coordType : String

structure TrackScan where
  command : Command
  published : List Command

namespace TrackScan

def construct (a : TrackScanArgs) : TrackScan where
  command := (((Command.make.dictAdd .antennasList a.antList).dictAdd .freq a.cfreq).dictAdd
    .obsType "track").dictAdd .coordType a.coordType
  published := []

def configure (a : TrackScanArgs) (setters : List Setter) : TrackScan :=
  { construct a with command := setters.foldl Setter.apply (construct a).command }

def publish (b : TrackScan) : TrackScan := { b with published := b.published ++ [b.command] }

/-- `handle_msg`, with its three branches for a target as one. -/
def handleMsg (b : TrackScan) (m : ObsMessage) : TrackScan :=
  match m with
  | .other _ => { b with command := clearTarget b.command }
  | m => publish { b with command := setTarget (clearTarget b.command) m }

def step (b : TrackScan) : Cue → TrackScan
  | .start => b.publish
  | .handleMsg m => b.handleMsg m

def run (a : TrackScanArgs) (setters : List Setter) (cues : List Cue) : TrackScan :=
  cues.foldl step (configure a setters)

end TrackScan

def OnOffEvent.ofCue : Cue → OnOffEvent
  | .start => .start
  | .handleMsg m => .handleMsg m

namespace OnOff

/-- An observation that ends before anything else happens. -/
def cycle (b : OnOff) (cue : Cue) : OnOff :=
  [.ofCue cue, .beforeSleep b.cycles.length, .afterSleep b.cycles.length].foldl step b

def runCycles (a : OnOffArgs) (setters : List Setter) (cues : List Cue) : OnOff :=
  cues.foldl cycle (configure a setters)

end OnOff

-- ════════════════════════════════════════════════════════════════════════
-- Commands that the control block understands
-- ════════════════════════════════════════════════════════════════════════

/-- A command that is handled, off source with both offsets, and with a pair of coordinates
when it takes the branch of that pair. -/
structure Dispatched (d : Command) : Prop where
  handled : ∀ minElev isUp c, ((Control.handleMsg minElev isUp d).run c).1 = .ok ()
  offSource : branch d ≠ .noTarget ∧ isOffSource d ↔ d.has .azOff ∧ d.has .elOff
  radec : branch d = .radec → d.has .ra ∧ d.has .dec
  azel : branch d = .azel → d.has .az ∧ d.has .el

/-- What the observing blocks always publish. -/
structure Complete (d : Command) : Prop where
  freq : d.has .freq
  antennasList : d.has .antennasList
  paired : d.Paired
  target : d.HasTarget

variable {d : Command}

theorem Command.exists_of_has {k : CommandKey} (h : d.has k) : ∃ v, d k = some v :=
  Option.isSome_iff_exists.mp h

/-- The handler returns when its dispatch does. -/
theorem handled_iff (hfreq : d.has .freq) (hants : d.has .antennasList) :
    (∀ minElev isUp c, ((Control.handleMsg minElev isUp d).run c).1 = .ok ()) ↔
      ∃ pointing, dispatch d = .ok pointing := by
  obtain ⟨cfreq, hfreq⟩ := Command.exists_of_has hfreq
  obtain ⟨ants, hants⟩ := Command.exists_of_has hants
  constructor
  · intro h
    have := h 0 (fun _ _ => true) Control.construct
    rw [Control.handleMsg_of_some _ hfreq hants] at this
    cases hdispatch : dispatch d with
    | error k =>
      rw [hdispatch] at this
      cases this
    | ok pointing => exact ⟨pointing, rfl⟩
  · rintro ⟨pointing, hpointing⟩ minElev isUp c
    rw [Control.handleMsg_of_some _ hfreq hants, hpointing]
    cases pointing <;> rfl

theorem branch_ne_noTarget (h : d.HasTarget) : branch d ≠ .noTarget := by
  rw [branch]
  split
  · intro hbranch
    cases hbranch
  next hid =>
    split
    · intro hbranch
      cases hbranch
    next hdec =>
      rw [if_pos ((h.resolve_left hid).resolve_left hdec)]
      intro hbranch
      cases hbranch

theorem has_dec_of_branch (h : branch d = .radec) : d.has .dec := by
  rw [branch] at h
  split at h
  · cases h
  · split at h
    · assumption
    · split at h <;> cases h

theorem has_el_of_branch (h : branch d = .azel) : d.has .el := by
  rw [branch] at h
  split at h
  · cases h
  · split at h
    · cases h
    · split at h
      · assumption
      · cases h

theorem Command.eq_none_of_not_has {k : CommandKey} (h : ¬d.has k) : d k = none :=
  Option.not_isSome_iff_eq_none.mp h

/-- A target with its pair of coordinates selects a branch. -/
theorem Complete.exists_selected (h : Complete d) : ∃ t : Target, t.SelectedBy d := by
  by_cases hid : d.has .sourceId
  · obtain ⟨id, hid⟩ := Command.exists_of_has hid
    exact ⟨.srcId id, hid⟩
  · have hid' := Command.eq_none_of_not_has hid
    by_cases hdec : d.has .dec
    · obtain ⟨ra, hra⟩ := Command.exists_of_has (h.paired.1.trans hdec)
      obtain ⟨dec, hdec⟩ := Command.exists_of_has hdec
      exact ⟨.radec ra dec, hid', hra, hdec⟩
    · have hel := (h.target.resolve_left hid).resolve_left hdec
      obtain ⟨az, haz⟩ := Command.exists_of_has (h.paired.2.trans hel)
      obtain ⟨el, hel⟩ := Command.exists_of_has hel
      exact ⟨.azel az el, hid', Command.eq_none_of_not_has hdec, haz, hel⟩

theorem Command.exists_offsets (h : d.has .elOff → d.has .azOff) :
    ∃ offsets, d.offsets = .ok offsets := by
  by_cases hel : d.has .elOff
  · obtain ⟨azOff, haz⟩ := exists_of_has (h hel)
    obtain ⟨elOff, hel⟩ := exists_of_has hel
    exact ⟨_, (offsets_eq_ok_iff _).mpr (.inr ⟨azOff, elOff, haz, hel, rfl⟩)⟩
  · exact ⟨_, (offsets_eq_ok_iff _).mpr (.inl ⟨eq_none_of_not_has hel, rfl⟩)⟩

/-- A complete command is dispatched correctly unless it has the elevation offset only. -/
theorem Complete.dispatched_iff (h : Complete d) :
    Dispatched d ↔ (d.has .elOff → d.has .azOff) := by
  have hbranch := branch_ne_noTarget h.target
  constructor
  · exact fun hdispatched hel => (hdispatched.offSource.mp ⟨hbranch, hel⟩).1
  · intro hoff
    obtain ⟨t, ht⟩ := h.exists_selected
    obtain ⟨offsets, hoffsets⟩ := Command.exists_offsets hoff
    exact
      { handled := (handled_iff h.freq h.antennasList).mpr
          ⟨_, (dispatch_eq_some_iff ⟨t, offsets⟩).mpr ⟨ht, hoffsets⟩⟩
        offSource := ⟨fun hel => ⟨hoff hel.2, hel.2⟩, fun hboth => ⟨hbranch, hboth.2⟩⟩
        radec := fun hradec =>
          have hdec := has_dec_of_branch hradec
          ⟨h.paired.1.trans hdec, hdec⟩
        azel := fun hazel =>
          have hel := has_el_of_branch hazel
          ⟨h.paired.2.trans hel, hel⟩ }

-- ════════════════════════════════════════════════════════════════════════
-- What the blocks publish
-- ════════════════════════════════════════════════════════════════════════

/-- A command with other offsets, or with another target, is complete as well. -/
theorem Complete.congr {d' : Command} (h : Complete d)
    (hkeys : ∀ k : CommandKey, ¬k.IsOffset → d' k = d k) : Complete d' := by
  have htarget : ∀ k : CommandKey, k.IsTarget → d' k = d k :=
    fun k hk => hkeys k (OnOff.not_isOffset_of_isTarget hk)
  exact
    { freq := (Command.has_congr (hkeys .freq id)).trans h.freq
      antennasList := (Command.has_congr (hkeys .antennasList id)).trans h.antennasList
      paired := h.paired.congr htarget
      target := h.target.congr htarget }

theorem Complete.setTarget (h : Complete d) {m : ObsMessage} (hm : m.Valid) :
    Complete (setTarget (clearTarget d) m) := by
  have hkey : ∀ k : CommandKey, ¬k.IsTarget → GrAta.setTarget (clearTarget d) m k = d k :=
    fun k hk => (setTarget_of_not_isTarget m hk).trans (clearTarget_of_not_isTarget hk)
  exact
    { freq := (Command.has_congr (hkey .freq id)).trans h.freq
      antennasList := (Command.has_congr (hkey .antennasList id)).trans h.antennasList
      paired := setTarget_paired (clearTarget_paired d) m
      target := setTarget_hasTarget _ hm }

/-- The command of a block that has been given a target. -/
theorem Complete.setters (hfreq : d.has .freq) (hants : d.has .antennasList) (hd : d.Paired)
    {setters : List Setter} (h : setters ≠ []) : Complete (setters.foldl Setter.apply d) where
  freq := (Command.has_congr (foldl_apply_of_not_isTarget setters _ id)).trans hfreq
  antennasList := (Command.has_congr (foldl_apply_of_not_isTarget setters _ id)).trans hants
  paired := foldl_apply_paired setters hd
  target := foldl_apply_hasTarget h

/-- A track scan publishes complete commands without offsets. -/
theorem TrackScan.step_published {b : TrackScan} (h : Complete b.command)
    (hel : b.command .elOff = none) {cue : Cue} (hcue : cue.Valid) :
    Complete (b.step cue).command ∧ (b.step cue).command .elOff = none ∧
      (b.step cue).published = b.published ++ [(b.step cue).command] := by
  cases cue with
  | start => exact ⟨h, hel, rfl⟩
  | handleMsg m =>
    have hm : m.Valid := hcue
    have hoff : setTarget (clearTarget b.command) m .elOff = none :=
      (setTarget_of_not_isTarget m id).trans hel
    cases m with
    | other key => exact hm.elim
    | _ => exact ⟨h.setTarget hm, hoff, rfl⟩

theorem TrackScan.run_dispatched {b : TrackScan} (h : Complete b.command)
    (hel : b.command .elOff = none) (hpublished : ∀ d ∈ b.published, Dispatched d)
    {cues : List Cue} (hcues : ∀ cue ∈ cues, cue.Valid) :
    ∀ d ∈ (cues.foldl step b).published, Dispatched d := by
  induction cues generalizing b with
  | nil => exact hpublished
  | cons cue cues ih =>
    obtain ⟨hcommand, hnone, hnew⟩ := step_published h hel (hcues cue List.mem_cons_self)
    refine ih hcommand hnone (fun d hd => ?_) fun cue' h' => hcues cue' (List.mem_cons_of_mem _ h')
    rw [hnew] at hd
    rcases List.mem_append.mp hd with hold | hlast
    · exact hpublished d hold
    · rw [List.mem_singleton.mp hlast, hcommand.dispatched_iff]
      intro helOff
      rw [Command.has_of_none hnone] at helOff
      cases helOff

namespace OnOff

variable {a : OnOffArgs} {b : OnOff}

/-- The thread that was started last runs to its end. -/
theorem halves_eq {cycles : List Cycle} (h : b.cycles = cycles ++ [.started]) :
    (b.beforeSleep cycles.length).afterSleep cycles.length =
      { b with
        command := ((b.args.addOffsets b.command).dictDelete .azOff).dictDelete .azOff
        published := b.published ++ [b.command, b.args.addOffsets b.command]
        cycles := cycles ++ [.finished b.command (b.args.addOffsets b.command)]
        ended := true } := by
  have hstarted : b.cycles[cycles.length]? = some .started := by
    rw [h, List.getElem?_concat_length]
  have hset : ∀ old new : Cycle, (cycles ++ [old]).set cycles.length new = cycles ++ [new] := by
    intro old new
    rw [List.set_append_right cycles.length new le_rfl, Nat.sub_self, List.set_cons_zero]
  rw [beforeSleep]
  simp only [hstarted]
  rw [h, hset, afterSleep]
  simp only [List.getElem?_concat_length]
  rw [hset, List.append_assoc, List.singleton_append]

/-- The settings of the block, and a target. -/
structure Ready (a : OnOffArgs) (b : OnOff) : Prop where
  kept : Kept a b
  complete : Complete b.command

/-- A cue starts a thread. A message deletes the offsets, and a start leaves them. -/
theorem step_ofCue (h : Complete b.command) {cue : Cue} (hcue : cue.Valid) :
    (b.step (.ofCue cue)).cycles = b.cycles ++ [.started] ∧
      (b.step (.ofCue cue)).published = b.published ∧
        Complete (b.step (.ofCue cue)).command ∧
          ((b.step (.ofCue cue)).ended = false ↔ (cue = .start → b.ended = false)) := by
  cases cue with
  | start => exact ⟨rfl, rfl, h, fun hb _ => hb, fun hb => hb rfl⟩
  | handleMsg m =>
    have hm : m.Valid := hcue
    have hcommand :
        Complete (((setTarget (clearTarget b.command) m).dictDelete .azOff).dictDelete .elOff) := by
      refine (h.setTarget hm).congr fun k hk => ?_
      have haz : k ≠ .azOff := by rintro rfl; exact hk trivial
      have hel : k ≠ .elOff := by rintro rfl; exact hk trivial
      rw [Command.dictDelete_of_ne _ hel, Command.dictDelete_of_ne _ haz]
    cases m with
    | other key => exact hm.elim
    | _ => exact ⟨rfl, rfl, hcommand, iff_of_true rfl (fun hstart => nomatch hstart)⟩

/-- One observation publishes commands that are dispatched correctly unless it is started
after another one has finished. -/
theorem Ready.cycle (h : Ready a b) {cue : Cue} (hcue : cue.Valid) :
    Ready a (b.cycle cue) ∧ (b.cycle cue).ended = true ∧
      ((∀ d ∈ (b.cycle cue).published, Dispatched d) ↔
        (∀ d ∈ b.published, Dispatched d) ∧ (cue = .start → b.ended = false)) := by
  obtain ⟨hcycles, hpublished, hcomplete, hended⟩ := step_ofCue h.complete hcue
  have hkept : Kept a (b.step (.ofCue cue)) := h.kept.step _
  generalize hb' : b.step (.ofCue cue) = b' at hcycles hpublished hcomplete hended hkept
  have hcycle : b.cycle cue = (b'.beforeSleep b.cycles.length).afterSleep b.cycles.length := by
    rw [← hb']
    rfl
  have hsecond : Complete (b'.args.addOffsets b'.command) :=
    hcomplete.congr fun k hk => addOffsets_of_not_isOffset _ hk
  have hkept' : Kept a (b.cycle cue) := hcycle ▸ (hkept.beforeSleep _).afterSleep _
  rw [halves_eq hcycles] at hcycle
  rw [hcycle] at hkept' ⊢
  refine ⟨⟨hkept', hsecond.congr fun k hk => ?_⟩, rfl, ?_⟩
  · have haz : k ≠ .azOff := by rintro rfl; exact hk trivial
    simp only [Command.dictDelete_of_ne _ haz]
  · have hfirst : Dispatched b'.command ↔ (cue = .start → b.ended = false) := by
      rw [hcomplete.dispatched_iff, ← hended, ← hkept.elOff, ← Option.not_isSome_iff_eq_none]
      refine imp_iff_not fun haz => ?_
      rw [Command.has_of_none hkept.azOff] at haz
      cases haz
    have hlast : Dispatched (b'.args.addOffsets b'.command) :=
      hsecond.dispatched_iff.mpr fun _ => rfl
    simp only [hpublished, List.forall_mem_append, List.forall_mem_cons, hfirst, hlast,
      List.not_mem_nil, false_implies, implies_true, and_true]

/-- A start publishes such commands only when no observation has finished before it. -/
theorem Ready.foldl_cycle_iff (h : Ready a b) (hended : b.ended = true) {cues : List Cue}
    (hcues : ∀ cue ∈ cues, cue.Valid) :
    (∀ d ∈ (cues.foldl OnOff.cycle b).published, Dispatched d) ↔
      (∀ d ∈ b.published, Dispatched d) ∧ .start ∉ cues := by
  induction cues generalizing b with
  | nil => exact (and_iff_left List.not_mem_nil).symm
  | cons cue cues ih =>
    obtain ⟨hready, hended', hiff⟩ := h.cycle (hcues cue List.mem_cons_self)
    rw [List.foldl_cons, ih hready hended' fun cue' h' => hcues cue' (List.mem_cons_of_mem _ h'),
      hiff, List.mem_cons, not_or, and_assoc, hended]
    simp [eq_comm]

end OnOff

/-- **Commands.** A track scan publishes commands that are dispatched correctly. An on-off
block does exactly when it is started as the first thing, if at all. -/
theorem published_dispatched_iff (trackArgs : TrackScanArgs) (onOffArgs : OnOffArgs)
    {setters : List Setter} (hsetters : setters ≠ []) {cues : List Cue}
    (hcues : ∀ cue ∈ cues, cue.Valid) :
    (∀ d ∈ (TrackScan.run trackArgs setters cues).published, Dispatched d) ∧
      ((∀ d ∈ (OnOff.runCycles onOffArgs setters cues).published, Dispatched d) ↔
        .start ∉ cues.tail) := by
  constructor
  · have hel := foldl_apply_of_not_isTarget setters (TrackScan.construct trackArgs).command
      (k := .elOff) id
    exact TrackScan.run_dispatched (b := TrackScan.configure trackArgs setters)
      (.setters rfl rfl ⟨rfl, rfl⟩ hsetters) hel (fun d hd => absurd hd List.not_mem_nil) hcues
  · have hready : OnOff.Ready onOffArgs (OnOff.configure onOffArgs setters) :=
      ⟨OnOff.configure_kept onOffArgs setters, .setters rfl rfl ⟨rfl, rfl⟩ hsetters⟩
    cases cues with
    | nil => exact iff_of_true (fun d hd => absurd hd List.not_mem_nil) List.not_mem_nil
    | cons cue cues =>
      -- the first observation finds no offset
      obtain ⟨hready', hended, hiff⟩ := hready.cycle (hcues cue List.mem_cons_self)
      have hfirst : ∀ d ∈ ((OnOff.configure onOffArgs setters).cycle cue).published,
          Dispatched d :=
        hiff.mpr ⟨fun d hd => absurd hd List.not_mem_nil, fun _ => rfl⟩
      rw [OnOff.runCycles, List.foldl_cons, hready'.foldl_cycle_iff hended
        fun cue' h' => hcues cue' (List.mem_cons_of_mem _ h')]
      exact and_iff_right hfirst

theorem published_dispatched_iff_message :
    (∀ d ∈ (TrackScan.run ⟨1420, "1a", "azel"⟩ [.setSource "casa"]
        [.start, .handleMsg (.azel 90 30)]).published, Dispatched d) ∧
      ((∀ d ∈ (OnOff.runCycles ⟨1420, "1a", 60, 5, 10⟩ [.setSource "casa"]
          [.start, .handleMsg (.azel 90 30)]).published, Dispatched d) ↔
        .start ∉ [Cue.start, .handleMsg (.azel 90 30)].tail) :=
  published_dispatched_iff ⟨1420, "1a", "azel"⟩ ⟨1420, "1a", 60, 5, 10⟩ (by decide)
    (by simp [Cue.Valid, ObsMessage.Valid])

/-- The first command of the second start has the elevation offset only, which raises the
key of the other one. -/
theorem restart_not_dispatched :
    ¬∀ d ∈ (OnOff.runCycles ⟨1420, "1a", 60, 5, 10⟩ [.setSource "casa"]
      [.start, .start]).published, Dispatched d := by
  intro h
  have hthird := h (OnOff.runCycles ⟨1420, "1a", 60, 5, 10⟩ [.setSource "casa"] [.start]).command
    (.tail _ (.tail _ (.head _)))
  have hhandled := hthird.handled 18 (fun _ _ => true) Control.construct
  exact nomatch hhandled

end GrAta
