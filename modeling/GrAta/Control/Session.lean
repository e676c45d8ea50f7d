import GrAta.Control.Targets
import GrAta.Control.Tuning
import Mathlib.Data.List.Forall2

/-!
# Observing sessions

From the user's cues to the calls of the control library. An observing block turns the cues
into commands, the control block handles them one by one, and at the end of the session it
stows the antennas. What reaches the library is the frequency once, the targets of the cues
in their order, on source and, for an on-off observation, beside the source, and the
position of a stowed antenna. The control block may be any number of commands behind.

## Main definitions

- `targets`: the targets that cues name
- `Control.session`: the calls that observe some targets
- `Control.stop`: the end of a session

## Main results

- `Control.stop_run`: the control block, for any commands of one observing block
- `session_calls`: both observing blocks with the control block behind them
-/

namespace GrAta

/-- The target after a cue, when `t` is the target before. -/
def Cue.target (t : Target) : Cue → Target
  | .start => t
  | .handleMsg (.sourceId id) => .srcId id
  | .handleMsg (.radec ra dec) => .radec ra dec
  | .handleMsg (.azel az el) => .azel az el
  | .handleMsg (.other _) => t

/-- The target of each cue. -/
def targets (t : Target) : List Cue → List Target
  | [] => []
  | cue :: cues => cue.target t :: targets (cue.target t) cues

-- ════════════════════════════════════════════════════════════════════════
-- The control block
-- ════════════════════════════════════════════════════════════════════════

namespace Control

/-- `stop`, in the mode in which the block commands the array. -/
def stop (c : Control) : Control := { c with calls := c.calls ++ [.setAzEl c.myAnts 0 18] }

/-- The commands as they are delivered, with the sources that are up at that time. -/
def deliveries (sky : ℕ → ℚ → ℚ → Bool) (commands : List Command) : List Delivery :=
  commands.zipIdx.map fun d => ⟨d.1, sky d.2⟩

/-- The calls of the first command. -/
def tune (cfreq : ℚ) (ants : String) : List AcCall :=
  if cfreq = 0 then []
  else [.tryOnLnas (antList ants), .setFreq (cfreq - freqOff) (antList ants) usrpLo]

/-- The calls of a session that points the array several times. -/
def session (minElev cfreq : ℚ) (ants : String) (sky : ℕ → ℚ → ℚ → Bool)
    (pointings : List Pointing) : List AcCall :=
  if pointings = [] then [.setAzEl [] 0 18]
  else
    tune cfreq ants ++
      (pointings.zipIdx.flatMap fun p => point minElev (sky p.2) (antList ants) p.1) ++
        [.setAzEl (antList ants) 0 18]

/-- A command of an observing block, and the pointing that it asks for. -/
structure Carries (cfreq : ℚ) (ants : String) (p : Pointing) (d : Command) : Prop where
  freq : d .freq = some cfreq
  antennasList : d .antennasList = some ants
  dispatch : dispatch d = .ok (some p)

variable {minElev cfreq : ℚ} {ants : String} {sky : ℕ → ℚ → ℚ → Bool}

/-- One command. -/
theorem deliver_carries {c : Control} (huser : c.isUser = true) {p : Pointing} {d : Command}
    (h : Carries cfreq ants p d) (isUp : ℚ → ℚ → Bool) :
    deliver minElev c ⟨d, isUp⟩ =
      { obsInfo := d
        myAnts := antList ants
        isConfigured := true
        isUser := true
        calls := c.calls ++ (if c.isConfigured then [] else tune cfreq ants) ++
          point minElev isUp (antList ants) p } := by
  have htune : configure { c with obsInfo := d, myAnts := antList ants } cfreq =
      tune cfreq ants := by
    rw [configure, tune]
    by_cases hzero : cfreq = 0
    · rw [if_neg fun hboth => hboth.1 hzero, if_pos hzero]
    · rw [if_pos ⟨hzero, antList_ne_nil ants⟩, if_pos huser, if_neg hzero]
  rw [deliver, handleMsg_of_some c h.freq h.antennasList, h.dispatch]
  simp only [tuned, htune]
  split <;> simp [huser]

/-- The commands after the first one. -/
theorem foldl_deliver_carries {pointings : List Pointing} {commands : List Command}
    (h : List.Forall₂ (Carries cfreq ants) pointings commands) (k : ℕ) {c : Control}
    (huser : c.isUser = true) (hconfigured : c.isConfigured = true)
    (hants : c.myAnts = antList ants) :
    let c' := ((commands.zipIdx k).map fun d => (⟨d.1, sky d.2⟩ : Delivery)).foldl
      (deliver minElev) c
    c'.myAnts = antList ants ∧ c'.calls = c.calls ++
      (pointings.zipIdx k).flatMap fun p => point minElev (sky p.2) (antList ants) p.1 := by
  induction h generalizing k c with
  | nil => exact ⟨hants, (List.append_nil _).symm⟩
  | @cons p d _ _ hd _ ih =>
    have hnext : deliver minElev c ⟨d, sky k⟩ = _ := deliver_carries huser hd (sky k)
    obtain ⟨hants', hcalls⟩ := ih (k + 1) (c := deliver minElev c ⟨d, sky k⟩)
      (by rw [hnext]) (by rw [hnext]) (by rw [hnext])
    refine ⟨hants', hcalls.trans ?_⟩
    rw [hnext, hconfigured, if_pos rfl, List.append_nil, List.zipIdx_cons, List.flatMap_cons,
      List.append_assoc]

/-- **A session of the control block.** -/
theorem stop_run {pointings : List Pointing} {commands : List Command}
    (h : List.Forall₂ (Carries cfreq ants) pointings commands) :
    (stop (run minElev (deliveries sky commands))).calls =
      session minElev cfreq ants sky pointings := by
  cases h with
  | nil => rfl
  | @cons p d pointings commands hd hrest =>
    -- the first command tunes the antennas
    have hfirst : deliver minElev construct ⟨d, sky 0⟩ = _ := deliver_carries rfl hd (sky 0)
    obtain ⟨hants, hcalls⟩ := foldl_deliver_carries hrest 1
      (c := deliver minElev construct ⟨d, sky 0⟩) (by rw [hfirst]) (by rw [hfirst]) (by rw [hfirst])
    have hrun : run minElev (deliveries sky (d :: commands)) =
        ((commands.zipIdx 1).map fun d => (⟨d.1, sky d.2⟩ : Delivery)).foldl (deliver minElev)
          (deliver minElev construct ⟨d, sky 0⟩) := rfl
    rw [stop, hrun, hants, hcalls, hfirst, session, if_neg (List.cons_ne_nil _ _),
      List.zipIdx_cons, List.flatMap_cons]
    simp [construct]

end Control

-- ════════════════════════════════════════════════════════════════════════
-- The observing blocks
-- ════════════════════════════════════════════════════════════════════════

variable {cfreq : ℚ} {ants : String} {t : Target} {d d' : Command} {cue : Cue}

theorem Target.SelectedBy.congr (ht : t.SelectedBy d)
    (h : ∀ k : CommandKey, k.IsTarget → d' k = d k) : t.SelectedBy d' := by
  cases t with
  | srcId id => exact (h .sourceId trivial).trans ht
  | radec ra dec =>
    obtain ⟨hid, hra, hdec⟩ := ht
    exact ⟨(h .sourceId trivial).trans hid, (h .ra trivial).trans hra,
      (h .dec trivial).trans hdec⟩
  | azel az el =>
    obtain ⟨hid, hdec, haz, hel⟩ := ht
    exact ⟨(h .sourceId trivial).trans hid, (h .dec trivial).trans hdec,
      (h .az trivial).trans haz, (h .el trivial).trans hel⟩

/-- A message leaves its own target only. -/
theorem setTarget_selectedBy (t : Target) (d : Command) {m : ObsMessage} (hm : m.Valid) :
    ((Cue.handleMsg m).target t).SelectedBy (setTarget (clearTarget d) m) := by
  cases m with
  | sourceId id => rfl
  | radec ra dec => exact ⟨rfl, rfl, rfl⟩
  | azel az el => exact ⟨rfl, rfl, rfl, rfl⟩
  | other key => exact hm.elim

/-- The setters name the same target in every command that has none. -/
theorem foldl_apply_selectedBy {setters : List Setter}
    (ht : t.SelectedBy (setters.foldl Setter.apply .make))
    (hd : ∀ k : CommandKey, k.IsTarget → d k = none) :
    t.SelectedBy (setters.foldl Setter.apply d) := by
  refine ht.congr fun k hk => ?_
  suffices h : ∀ d' : Command, d k = d' k →
      setters.foldl Setter.apply d k = setters.foldl Setter.apply d' k by
    rw [h .make (hd k hk)]
  clear hd ht
  induction setters generalizing d with
  | nil => exact fun d' h => h
  | cons setter setters ih =>
    intro d' h
    exact ih _ (TargetStep.effect_congr (.setter setter) h)

/-- What the command of a block always has. -/
structure Settled (cfreq : ℚ) (ants : String) (t : Target) (d : Command) : Prop where
  freq : d .freq = some cfreq
  antennasList : d .antennasList = some ants
  selected : t.SelectedBy d

theorem Settled.carries (h : Settled cfreq ants t d) {offsets : Option (ℚ × ℚ)}
    (hoffsets : d.offsets = .ok offsets) : Control.Carries cfreq ants ⟨t, offsets⟩ d :=
  ⟨h.freq, h.antennasList, (dispatch_eq_some_iff _).mpr ⟨h.selected, hoffsets⟩⟩

theorem Command.offsets_of_none (h : d .elOff = none) : d.offsets = .ok none :=
  (offsets_eq_ok_iff none).mpr (.inl ⟨h, rfl⟩)

theorem OnOffArgs.offsets_addOffsets (a : OnOffArgs) (d : Command) :
    (a.addOffsets d).offsets = .ok (some (a.azOff, a.elOff)) :=
  (Command.offsets_eq_ok_iff _).mpr (.inr ⟨a.azOff, a.elOff, rfl, rfl, rfl⟩)

namespace TrackScan

/-- One cue publishes one command, which is on source. -/
theorem step_carries {b : TrackScan} (h : Settled cfreq ants t b.command)
    (hel : b.command .elOff = none) (hcue : cue.Valid) :
    Settled cfreq ants (cue.target t) (b.step cue).command ∧
      (b.step cue).command .elOff = none ∧
        (b.step cue).published = b.published ++ [(b.step cue).command] := by
  cases cue with
  | start => exact ⟨h, hel, rfl⟩
  | handleMsg m =>
    have hm : m.Valid := hcue
    have hcommand : (b.handleMsg m).command = setTarget (clearTarget b.command) m ∧
        (b.handleMsg m).published = b.published ++ [(b.handleMsg m).command] := by
      cases m with
      | other key => exact hm.elim
      | _ => exact ⟨rfl, rfl⟩
    have hkey : ∀ k : CommandKey, ¬k.IsTarget → (b.handleMsg m).command k = b.command k := by
      intro k hk
      rw [hcommand.1, setTarget_of_not_isTarget m hk, clearTarget_of_not_isTarget hk]
    refine ⟨⟨(hkey .freq id).trans h.freq, (hkey .antennasList id).trans h.antennasList, ?_⟩,
      (hkey .elOff id).trans hel, hcommand.2⟩
    exact hcommand.1 ▸ setTarget_selectedBy t b.command hm

/-- The pointings of a track scan. -/
def pointings (t : Target) (cues : List Cue) : List Pointing :=
  (targets t cues).map fun t => ⟨t, none⟩

theorem foldl_step_carries {cues : List Cue} (hcues : ∀ cue ∈ cues, cue.Valid) {b : TrackScan}
    (h : Settled cfreq ants t b.command) (hel : b.command .elOff = none) :
    ∃ more, (cues.foldl step b).published = b.published ++ more ∧
      List.Forall₂ (Control.Carries cfreq ants) (pointings t cues) more := by
  induction cues generalizing b t with
  | nil => exact ⟨[], (List.append_nil _).symm, .nil⟩
  | cons cue cues ih =>
    obtain ⟨hcue, hcues⟩ := List.forall_mem_cons.mp hcues
    obtain ⟨hcommand, hnone, hpublished⟩ := step_carries h hel hcue
    obtain ⟨more, hmore, hcarries⟩ := ih hcues hcommand hnone
    refine ⟨(b.step cue).command :: more, ?_, .cons ?_ hcarries⟩
    · rw [List.foldl_cons, hmore, hpublished, List.append_assoc, List.singleton_append]
    · exact hcommand.carries (Command.offsets_of_none hnone)

end TrackScan

namespace OnOff

variable {a : OnOffArgs} {b : OnOff}

theorem Kept.settled (h : Kept a b) (ht : t.SelectedBy b.command) :
    Settled a.cfreq a.antList t b.command :=
  ⟨h.settings .freq id id, h.settings .antennasList id id, ht⟩

/-- A cue starts a thread with the target of the cue. -/
theorem step_ofCue_selectedBy (ht : t.SelectedBy b.command) (hcue : cue.Valid) :
    (b.step (.ofCue cue)).cycles = b.cycles ++ [.started] ∧
      (b.step (.ofCue cue)).published = b.published ∧
        (cue.target t).SelectedBy (b.step (.ofCue cue)).command ∧
          ((cue = .start → b.ended = false) → (b.step (.ofCue cue)).ended = false) := by
  cases cue with
  | start => exact ⟨rfl, rfl, ht, fun h => h rfl⟩
  | handleMsg m =>
    have hm : m.Valid := hcue
    have hselected : ((Cue.handleMsg m).target t).SelectedBy
        (((setTarget (clearTarget b.command) m).dictDelete .azOff).dictDelete .elOff) := by
      refine (setTarget_selectedBy t b.command hm).congr fun k hk => ?_
      have haz : k ≠ .azOff := by rintro rfl; exact hk
      have hel : k ≠ .elOff := by rintro rfl; exact hk
      rw [Command.dictDelete_of_ne _ hel, Command.dictDelete_of_ne _ haz]
    cases m with
    | other key => exact hm.elim
    | _ => exact ⟨rfl, rfl, hselected, fun _ => rfl⟩

/-- One observation publishes two commands, on source and beside the same source. -/
theorem Kept.cycle (h : Kept a b) (ht : t.SelectedBy b.command) (hcue : cue.Valid)
    (hstart : cue = .start → b.ended = false) :
    Kept a (b.cycle cue) ∧ (cue.target t).SelectedBy (b.cycle cue).command ∧
      ∃ d, (b.cycle cue).published = b.published ++ [d, a.addOffsets d] ∧
        Settled a.cfreq a.antList (cue.target t) d ∧ d .elOff = none := by
  obtain ⟨hcycles, hpublished, hselected, hended⟩ := step_ofCue_selectedBy ht hcue
  have hkept : Kept a (b.step (.ofCue cue)) := h.step _
  generalize hb' : b.step (.ofCue cue) = b' at hcycles hpublished hselected hended hkept
  have hcycle : b.cycle cue = (b'.beforeSleep b.cycles.length).afterSleep b.cycles.length := by
    rw [← hb']
    rfl
  have hkept' : Kept a (b.cycle cue) := hcycle ▸ (hkept.beforeSleep _).afterSleep _
  rw [halves_eq hcycles] at hcycle
  rw [hcycle] at hkept' ⊢
  refine ⟨hkept', hselected.congr fun k hk => ?_, b'.command, ?_, hkept.settled hselected,
    hkept.elOff.mpr (hended hstart)⟩
  · cases k <;> first | rfl | exact hk.elim
  · simp only [hpublished, hkept.args]

/-- The pointings of an on-off observation. -/
def pointings (a : OnOffArgs) (t : Target) (cues : List Cue) : List Pointing :=
  (targets t cues).flatMap fun t => [⟨t, none⟩, ⟨t, some (a.azOff, a.elOff)⟩]

theorem Kept.foldl_cycle (h : Kept a b) (ht : t.SelectedBy b.command) {cues : List Cue}
    (hcues : ∀ cue ∈ cues, cue.Valid) (hfirst : cues.head? = some .start → b.ended = false)
    (hstart : .start ∉ cues.tail) :
    ∃ more, (cues.foldl OnOff.cycle b).published = b.published ++ more ∧
      List.Forall₂ (Control.Carries a.cfreq a.antList) (pointings a t cues) more := by
  induction cues generalizing b t with
  | nil => exact ⟨[], (List.append_nil _).symm, .nil⟩
  | cons cue cues ih =>
    obtain ⟨hcue, hcues⟩ := List.forall_mem_cons.mp hcues
    obtain ⟨hkept, hselected, d, hpublished, hsettled, hnone⟩ :=
      h.cycle ht hcue fun hcue => hfirst (congrArg some hcue)
    have hother : cues.head? ≠ some .start := fun hhead => hstart (List.mem_of_head? hhead)
    obtain ⟨more, hmore, hcarries⟩ := ih hkept hselected hcues (fun hhead => absurd hhead hother)
      fun hmem => hstart (List.mem_of_mem_tail hmem)
    have hsecond : Settled a.cfreq a.antList (cue.target t) (a.addOffsets d) :=
      ⟨hsettled.freq, hsettled.antennasList, hsettled.selected.congr fun k hk =>
        addOffsets_of_not_isOffset d (not_isOffset_of_isTarget hk)⟩
    refine ⟨d :: a.addOffsets d :: more, ?_, .cons ?_ (.cons ?_ hcarries)⟩
    · rw [List.foldl_cons, hmore, hpublished, List.append_assoc]
      rfl
    · exact hsettled.carries (Command.offsets_of_none hnone)
    · exact hsecond.carries (a.offsets_addOffsets d)

end OnOff

/-- **Sessions.** For either observing block, with the control block any number of commands
behind when the session ends, the calls of the library are those of the session that points
the array at the targets of the cues. A second start would end the on-off thread. -/
theorem session_calls (trackArgs : TrackScanArgs) (onOffArgs : OnOffArgs)
    {setters : List Setter} (ht : t.SelectedBy (setters.foldl Setter.apply .make))
    {cues : List Cue} (hcues : ∀ cue ∈ cues, cue.Valid) (minElev : ℚ)
    (sky : ℕ → ℚ → ℚ → Bool) (n : ℕ) :
    (Control.stop (Control.run minElev (Control.deliveries sky
        ((TrackScan.run trackArgs setters cues).published.take n)))).calls =
      Control.session minElev trackArgs.cfreq trackArgs.antList sky
        ((TrackScan.pointings t cues).take n) ∧
    (.start ∉ cues.tail →
      (Control.stop (Control.run minElev (Control.deliveries sky
          ((OnOff.runCycles onOffArgs setters cues).published.take n)))).calls =
        Control.session minElev onOffArgs.cfreq onOffArgs.antList sky
          ((OnOff.pointings onOffArgs t cues).take n)) := by
  constructor
  · have hother : ∀ k : CommandKey, ¬k.IsTarget →
        (TrackScan.configure trackArgs setters).command k =
          (TrackScan.construct trackArgs).command k :=
      fun k hk => foldl_apply_of_not_isTarget setters _ hk
    have hsettled : Settled trackArgs.cfreq trackArgs.antList t
        (TrackScan.configure trackArgs setters).command :=
      ⟨hother .freq id, hother .antennasList id, foldl_apply_selectedBy ht fun k hk => by
        cases k <;> first | rfl | exact hk.elim⟩
    obtain ⟨more, hmore, hcarries⟩ :=
      TrackScan.foldl_step_carries hcues hsettled (hother .elOff id)
    rw [TrackScan.run, hmore]
    exact Control.stop_run (List.forall₂_take n hcarries)
  · intro hstart
    have hselected : t.SelectedBy (OnOff.configure onOffArgs setters).command :=
      foldl_apply_selectedBy ht fun k hk => by cases k <;> first | rfl | exact hk.elim
    obtain ⟨more, hmore, hcarries⟩ := (OnOff.configure_kept onOffArgs setters).foldl_cycle
      hselected hcues (fun _ => rfl) hstart
    rw [OnOff.runCycles, hmore]
    exact Control.stop_run (List.forall₂_take n hcarries)

/-- A message moves the array away from the configured source. The session ends before the
last command is handled. -/
theorem session_calls_behind :
    (Control.stop (Control.run 18 (Control.deliveries (fun _ _ _ => true)
        ((TrackScan.run ⟨1420, "1a", "azel"⟩ [.setSource "casa"]
          [.start, .handleMsg (.azel 90 30)]).published.take 3)))).calls =
      Control.session 18 1420 "1a" (fun _ _ _ => true)
        ([⟨.srcId "casa", none⟩, ⟨.azel 90 30, none⟩].take 3) ∧
    (Control.stop (Control.run 18 (Control.deliveries (fun _ _ _ => true)
        ((OnOff.runCycles ⟨1420, "1a", 60, 5, 10⟩ [.setSource "casa"]
          [.start, .handleMsg (.azel 90 30)]).published.take 3)))).calls =
      Control.session 18 1420 "1a" (fun _ _ _ => true)
        ([⟨.srcId "casa", none⟩, ⟨.srcId "casa", some (5, 10)⟩, ⟨.azel 90 30, none⟩,
          ⟨.azel 90 30, some (5, 10)⟩].take 3) := by
  have ht : (Target.srcId "casa").SelectedBy ([.setSource "casa"].foldl Setter.apply .make) :=
    rfl
  have hcues : ∀ cue ∈ [Cue.start, .handleMsg (.azel 90 30)], cue.Valid := by
    simp [Cue.Valid, ObsMessage.Valid]
  obtain ⟨htrack, honOff⟩ := session_calls ⟨1420, "1a", "azel"⟩ ⟨1420, "1a", 60, 5, 10⟩ ht
    hcues 18 (fun _ _ _ => true) 3
  exact ⟨htrack, honOff (by decide)⟩

end GrAta
