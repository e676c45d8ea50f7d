import GrAta.Control.Cycles

/-!
# Tuning before pointing

The control block tunes the antennas until a command has been carried out, and points them
with every command. The flag that ends the tuning is set even when a command asks for the
frequency zero, a later command may name other antennas, and the list of antennas of an
empty text has one blank name.

## Main definitions

- `AcCall.IsPointing`: a pointing action
- `TunedIn`: calls that turn on the amplifiers of a list and set its frequency
- `Control.PointsTuned`: what a command after others may do
- `Orderly`: the commands that come in the right order

## Main results

- `Control.deliver_calls`: a command tunes first and points then
- `Control.pointing_tuned_iff`: the runs that point tuned antennas only
- `Control.points_untuned`: a first command without a frequency
-/

namespace GrAta

/-- A pointing action. -/
def AcCall.IsPointing : AcCall → Prop
  | .tryOnLnas .. | .setFreq .. | .setFreqFocus .. => False
  | _ => True

/-- A call that sets the frequency of a list of antennas, to a number other than zero. -/
def AcCall.SetsFreq (ants : List String) : AcCall → Prop
  | .setFreq freq ants' _ | .setFreqFocus freq ants' _ => ants' = ants ∧ freq ≠ 0
  | _ => False

/-- Calls that tune a list of antennas. -/
structure TunedIn (calls : List AcCall) (ants : List String) : Prop where
  lnas : .tryOnLnas ants ∈ calls
  freq : ∃ call ∈ calls, call.SetsFreq ants

theorem TunedIn.append {calls : List AcCall} {ants : List String} (h : TunedIn calls ants)
    (more : List AcCall) : TunedIn (calls ++ more) ants := by
  obtain ⟨call, hcall, hfreq⟩ := h.freq
  exact ⟨List.mem_append_left _ h.lnas, call, List.mem_append_left _ hcall, hfreq⟩

/-- A target at which the array can be pointed. -/
def Target.Reachable (minElev : ℚ) (isUp : ℚ → ℚ → Bool) : Target → Prop
  | .srcId _ => True
  | .radec ra dec => isUp ra dec
  | .azel _ el => minElev < el

namespace Control

namespace Delivery

/-- The antennas that a command names. -/
def antennas (d : Delivery) : List String := ((d.msg .antennasList).map antList).getD []

/-- A command without a name that is not blank. -/
def Blank (d : Delivery) : Prop := ∀ ant ∈ d.antennas, ant = ""

/-- A command with the two keys that the handler reads first. -/
def Read (d : Delivery) : Prop := d.msg.has .freq ∧ d.msg.has .antennasList

/-- A command that the handler carries out to its end. -/
def Completes (d : Delivery) : Prop := d.Read ∧ ∃ pointing, dispatch d.msg = .ok pointing

/-- A command with a frequency other than zero. -/
def Tunes (d : Delivery) : Prop := d.Read ∧ d.msg .freq ≠ some (0 : ℚ)

/-- A command that points the array. -/
def Points (minElev : ℚ) (d : Delivery) : Prop :=
  d.Read ∧ ∃ p, dispatch d.msg = .ok (some p) ∧ p.target.Reachable minElev d.isUp

end Delivery

/-- The calls of a command in a given state. -/
def issued (minElev : ℚ) (c : Control) (d : Delivery) : List AcCall :=
  (deliver minElev c d).calls.drop c.calls.length

/-- **Tuning before pointing**, for a command after others: each pointing action follows the
tuning of its antennas, only a command that tunes them ends the tuning, and a command with
blank names makes no call. -/
structure PointsTuned (minElev : ℚ) (past : List Delivery) (d : Delivery) : Prop where
  tuned : ∀ before call after, issued minElev (run minElev past) d = before ++ call :: after →
    call.IsPointing → TunedIn ((run minElev past).calls ++ before) d.antennas
  configured : (run minElev past).isConfigured = false →
    (run minElev (past ++ [d])).isConfigured = true →
      TunedIn (issued minElev (run minElev past) d) d.antennas
  blank : d.Blank → issued minElev (run minElev past) d = []

/-- No command has been carried out to its end. -/
def Fresh (past : List Delivery) : Prop := ∀ d ∈ past, ¬d.Completes

/-- Some command that names the antennas and a frequency comes no later than the first one
that is carried out. -/
def TunedBy (past : List Delivery) (ants : List String) : Prop :=
  ∃ before d after, past = before ++ d :: after ∧ Fresh before ∧ d.Tunes ∧ d.antennas = ants

/-- A command in the right order: the first one that is carried out has a frequency, the
antennas that are pointed have been tuned, and blank names come without a target and,
before the tuning ends, without a frequency. -/
structure Orderly (minElev : ℚ) (past : List Delivery) (d : Delivery) : Prop where
  first : Fresh past → d.Completes → d.Tunes
  tuned : d.Points minElev → TunedBy (past ++ [d]) d.antennas
  blank : d.Blank → ¬d.Points minElev ∧ (d.Tunes → ¬Fresh past)

-- ════════════════════════════════════════════════════════════════════════
-- The calls of a command
-- ════════════════════════════════════════════════════════════════════════

variable {minElev : ℚ} {past : List Delivery} {d : Delivery} {c : Control} {ants : List String}

/-- The calls by which a command tunes the antennas. -/
def tuningCalls (c : Control) (d : Delivery) : List AcCall :=
  match d.msg .freq, d.msg .antennasList with
  | some cfreq, some ants =>
    if c.isConfigured then [] else configure { c with obsInfo := d.msg, myAnts := antList ants } cfreq
  | _, _ => []

/-- The calls by which a command points them. -/
def pointingCalls (minElev : ℚ) (d : Delivery) : List AcCall :=
  match d.msg .freq, d.msg .antennasList, dispatch d.msg with
  | some _, some ants, .ok (some p) => point minElev d.isUp (antList ants) p
  | _, _, _ => []

/-- A command tunes first and points then. -/
theorem deliver_calls (minElev : ℚ) (c : Control) (d : Delivery) :
    (deliver minElev c d).calls = c.calls ++ (tuningCalls c d ++ pointingCalls minElev d) := by
  rw [deliver, tuningCalls, pointingCalls]
  cases hfreq : d.msg .freq with
  | none =>
    rw [handleMsg_of_freq_none c hfreq]
    exact (List.append_nil _).symm
  | some cfreq =>
    cases hants : d.msg .antennasList with
    | none =>
      rw [handleMsg_of_antennasList_none c hfreq hants]
      exact (List.append_nil _).symm
    | some ants =>
      rw [handleMsg_of_some c hfreq hants, tuned]
      cases hconfigured : c.isConfigured
      all_goals
        rcases dispatch d.msg with k | _ | p
        all_goals simp [List.append_assoc]

theorem issued_eq (minElev : ℚ) (c : Control) (d : Delivery) :
    issued minElev c d = tuningCalls c d ++ pointingCalls minElev d := by
  rw [issued, deliver_calls, List.drop_left]

/-- A pointing function points at the targets that it can reach. -/
theorem point_ne_nil_iff (isUp : ℚ → ℚ → Bool) (p : Pointing) :
    point minElev isUp ants p ≠ [] ↔ p.target.Reachable minElev isUp := by
  obtain ⟨target, offsets⟩ := p
  cases target with
  | srcId id => exact iff_of_true (List.cons_ne_nil _ _) trivial
  | radec ra dec =>
    simp only [point, pointSrcRadec, Target.Reachable]
    by_cases hup : isUp ra dec = true
    · simp [hup]
    · simp [hup]
  | azel az el =>
    simp only [point, pointSrcAzel, Target.Reachable]
    by_cases hel : minElev < el
    · simp [hel]
    · simp [hel]

theorem isPointing_of_mem_point {isUp : ℚ → ℚ → Bool} {p : Pointing} {call : AcCall}
    (h : call ∈ point minElev isUp ants p) : call.IsPointing := by
  obtain ⟨target, offsets⟩ := p
  cases target with
  | srcId id =>
    simp only [point, pointSrcId, List.mem_cons, List.not_mem_nil, or_false] at h
    rcases h with rfl | rfl <;> trivial
  | radec ra dec =>
    simp only [point, pointSrcRadec] at h
    split at h
    · simp only [List.mem_cons, List.not_mem_nil, or_false] at h
      rcases h with rfl | rfl <;> trivial
    · exact absurd h List.not_mem_nil
  | azel az el =>
    simp only [point, pointSrcAzel] at h
    split at h
    · obtain rfl := List.mem_singleton.mp h
      trivial
    · exact absurd h List.not_mem_nil

theorem isPointing_of_mem_pointingCalls {call : AcCall} (h : call ∈ pointingCalls minElev d) :
    call.IsPointing := by
  rw [pointingCalls] at h
  split at h
  · exact isPointing_of_mem_point h
  · exact absurd h List.not_mem_nil

theorem Delivery.read_iff (d : Delivery) :
    d.Read ↔ ∃ cfreq ants, d.msg .freq = some cfreq ∧ d.msg .antennasList = some ants := by
  rw [Read, Command.has, Command.has, Option.isSome_iff_exists, Option.isSome_iff_exists]
  constructor
  · rintro ⟨⟨cfreq, hfreq⟩, ants, hants⟩
    exact ⟨cfreq, ants, hfreq, hants⟩
  · rintro ⟨cfreq, ants, hfreq, hants⟩
    exact ⟨⟨cfreq, hfreq⟩, ants, hants⟩

/-- A command makes pointing calls exactly when it points the array. -/
theorem pointingCalls_ne_nil_iff (minElev : ℚ) (d : Delivery) :
    pointingCalls minElev d ≠ [] ↔ d.Points minElev := by
  rw [Delivery.Points, Delivery.read_iff, pointingCalls]
  cases hfreq : d.msg .freq with
  | none => simp
  | some cfreq =>
    cases hants : d.msg .antennasList with
    | none => simp
    | some ants =>
      rcases dispatch d.msg with k | _ | p
      · simp
      · simp
      · simp [point_ne_nil_iff]

theorem antList_ne_nil (s : String) : antList s ≠ [] :=
  fun h => List.splitOn_ne_nil _ _ (List.map_eq_nil_iff.mp h)

/-- The calls that tune the antennas of a command, as a whole or none of them. -/
theorem tuningCalls_eq (c : Control) (d : Delivery) :
    (tuningCalls c d = [] ∧ ¬(c.isConfigured = false ∧ d.Tunes)) ∨
      ∃ cfreq call, tuningCalls c d = [.tryOnLnas d.antennas, call] ∧
        (call = .setFreq cfreq d.antennas usrpLo ∨ call = .setFreqFocus cfreq d.antennas usrpLo) ∧
          cfreq ≠ 0 ∧ c.isConfigured = false ∧ d.Tunes := by
  rw [Delivery.Tunes, Delivery.read_iff, tuningCalls, Delivery.antennas]
  cases hfreq : d.msg .freq with
  | none => exact .inl ⟨rfl, by simp⟩
  | some cfreq =>
    cases hants : d.msg .antennasList with
    | none => exact .inl ⟨rfl, by simp⟩
    | some ants =>
      cases hconfigured : c.isConfigured with
      | true => exact .inl ⟨rfl, by simp⟩
      | false =>
        by_cases hzero : cfreq = 0
        · refine .inl ⟨?_, by simp [hzero]⟩
          simp [configure, hzero]
        · refine .inr ⟨cfreq, ?_⟩
          have hcond : cfreq ≠ 0 ∧ antList ants ≠ [] := ⟨hzero, antList_ne_nil ants⟩
          simp only [configure, if_pos hcond, freqOff, sub_zero]
          have htunes : some cfreq ≠ some (0 : ℚ) := fun h => hzero (Option.some.inj h)
          have hread : ∃ cfreq' ants', some cfreq = some cfreq' ∧ some ants = some ants' :=
            ⟨cfreq, ants, rfl, rfl⟩
          cases c.isUser
          · exact ⟨_, rfl, .inr rfl, hzero, trivial, hread, htunes⟩
          · exact ⟨_, rfl, .inl rfl, hzero, trivial, hread, htunes⟩

theorem tuningCalls_eq_nil_iff (c : Control) (d : Delivery) :
    tuningCalls c d = [] ↔ ¬(c.isConfigured = false ∧ d.Tunes) := by
  rcases tuningCalls_eq c d with ⟨hnil, hnot⟩ | ⟨cfreq, call, hcalls, -, -, hyes⟩
  · exact iff_of_true hnil hnot
  · rw [hcalls]
    exact iff_of_false (List.cons_ne_nil _ _) (not_not.mpr hyes)

/-- A kind of calls that a command makes exactly when it tunes the antennas. -/
def TuningKind (Q : List String → AcCall → Prop) : Prop :=
  (∀ ants call, Q ants call → ¬call.IsPointing) ∧
    ∀ c d ants, (∃ call ∈ tuningCalls c d, Q ants call) ↔
      c.isConfigured = false ∧ d.Tunes ∧ d.antennas = ants

theorem tryOnLnas_tuningKind : TuningKind fun ants call => call = .tryOnLnas ants := by
  refine ⟨fun ants call h => h ▸ id, fun c d ants => ?_⟩
  rcases tuningCalls_eq c d with ⟨hnil, hnot⟩ | ⟨cfreq, call, hcalls, hcall, -, hconf, htunes⟩
  · rw [hnil]
    exact iff_of_false (fun ⟨_, h, _⟩ => absurd h List.not_mem_nil) fun h => hnot ⟨h.1, h.2.1⟩
  · rw [hcalls]
    rcases hcall with rfl | rfl <;> simp [hconf, htunes, eq_comm]

theorem setsFreq_tuningKind : TuningKind fun ants call => call.SetsFreq ants := by
  refine ⟨fun ants call h => ?_, fun c d ants => ?_⟩
  · cases call <;> first | exact id | exact h.elim
  · rcases tuningCalls_eq c d with
      ⟨hnil, hnot⟩ | ⟨cfreq, call, hcalls, hcall, hzero, hconf, htunes⟩
    · rw [hnil]
      exact iff_of_false (fun ⟨_, h, _⟩ => absurd h List.not_mem_nil) fun h => hnot ⟨h.1, h.2.1⟩
    · rw [hcalls]
      rcases hcall with rfl | rfl <;> simp [AcCall.SetsFreq, hzero, hconf, htunes]

-- ════════════════════════════════════════════════════════════════════════
-- Runs
-- ════════════════════════════════════════════════════════════════════════

theorem run_concat (minElev : ℚ) (past : List Delivery) (d : Delivery) :
    run minElev (past ++ [d]) = deliver minElev (run minElev past) d := by
  rw [run, List.foldl_append]
  rfl

/-- A command that is carried out ends the tuning. -/
theorem deliver_isConfigured (minElev : ℚ) (c : Control) (d : Delivery) :
    (deliver minElev c d).isConfigured = true ↔ c.isConfigured = true ∨ d.Completes := by
  rw [deliver, Delivery.Completes, Delivery.read_iff]
  cases hfreq : d.msg .freq with
  | none => simp [handleMsg_of_freq_none c hfreq]
  | some cfreq =>
    cases hants : d.msg .antennasList with
    | none => simp [handleMsg_of_antennasList_none c hfreq hants]
    | some ants =>
      rw [handleMsg_of_some c hfreq hants, tuned]
      rcases dispatch d.msg with k | _ | p
      · cases c.isConfigured <;> simp
      · simp
      · simp

theorem run_isConfigured (minElev : ℚ) (past : List Delivery) :
    (run minElev past).isConfigured = false ↔ Fresh past := by
  induction past using List.reverseRecOn with
  | nil => exact iff_of_true rfl fun d hd => absurd hd List.not_mem_nil
  | append_singleton past d ih =>
    rw [← Bool.not_eq_true, run_concat, deliver_isConfigured, not_or, Bool.not_eq_true, ih, Fresh,
      Fresh, List.forall_mem_append, List.forall_mem_singleton]

theorem tunedBy_concat (past : List Delivery) (d : Delivery) (ants : List String) :
    TunedBy (past ++ [d]) ants ↔
      TunedBy past ants ∨ (Fresh past ∧ d.Tunes ∧ d.antennas = ants) := by
  constructor
  · rintro ⟨before, e, after, heq, hfresh, htunes, hants⟩
    rcases List.eq_nil_or_concat after with rfl | ⟨after, last, rfl⟩
    · obtain ⟨rfl, hlast⟩ := List.append_inj' heq rfl
      obtain rfl : d = e := List.singleton_inj.mp hlast
      exact .inr ⟨hfresh, htunes, hants⟩
    · rw [List.concat_eq_append, ← List.cons_append, ← List.append_assoc] at heq
      obtain ⟨rfl, -⟩ := List.append_inj' heq rfl
      exact .inl ⟨before, e, after, rfl, hfresh, htunes, hants⟩
  · rintro (⟨before, e, after, rfl, hfresh, htunes, hants⟩ | ⟨hfresh, htunes, hants⟩)
    · exact ⟨before, e, after ++ [d], by simp, hfresh, htunes, hants⟩
    · exact ⟨past, d, [], rfl, hfresh, htunes, hants⟩

/-- The tuning calls of a run come from the commands that tune while nothing has been
carried out. -/
theorem TuningKind.run_iff {Q : List String → AcCall → Prop} (hQ : TuningKind Q) (minElev : ℚ)
    (past : List Delivery) (ants : List String) :
    (∃ call ∈ (run minElev past).calls, Q ants call) ↔ TunedBy past ants := by
  induction past using List.reverseRecOn with
  | nil =>
    refine iff_of_false (fun ⟨_, h, _⟩ => absurd h List.not_mem_nil) ?_
    rintro ⟨before, d, after, heq, -⟩
    exact absurd heq (List.append_ne_nil_of_right_ne_nil _ (List.cons_ne_nil _ _)).symm
  | append_singleton past d ih =>
    have hpointing : ¬∃ call ∈ pointingCalls minElev d, Q ants call := fun ⟨call, hcall, h⟩ =>
      hQ.1 ants call h (isPointing_of_mem_pointingCalls hcall)
    have hstep := hQ.2 (run minElev past) d ants
    rw [run_isConfigured] at hstep
    rw [run_concat, deliver_calls, tunedBy_concat, ← ih, ← hstep]
    simp only [List.mem_append, or_and_right, exists_or, hpointing, or_false]

/-- The antennas that have been tuned after a command, before it points them. -/
theorem tunedIn_iff (minElev : ℚ) (past : List Delivery) (d : Delivery) (ants : List String) :
    TunedIn ((run minElev past).calls ++ tuningCalls (run minElev past) d) ants ↔
      TunedBy (past ++ [d]) ants := by
  have hkind : ∀ {Q : List String → AcCall → Prop}, TuningKind Q →
      ((∃ call ∈ (run minElev past).calls ++ tuningCalls (run minElev past) d, Q ants call) ↔
        TunedBy (past ++ [d]) ants) := by
    intro Q hQ
    have hstep := hQ.2 (run minElev past) d ants
    rw [run_isConfigured] at hstep
    rw [tunedBy_concat, ← hQ.run_iff minElev, ← hstep]
    simp only [List.mem_append, or_and_right, exists_or]
  constructor
  · intro h
    exact (hkind tryOnLnas_tuningKind).mp ⟨_, h.lnas, rfl⟩
  · intro h
    obtain ⟨_, hlnas, rfl⟩ := (hkind tryOnLnas_tuningKind).mpr h
    exact ⟨hlnas, (hkind setsFreq_tuningKind).mpr h⟩

theorem not_isPointing_of_mem_tuningCalls {call : AcCall} (h : call ∈ tuningCalls c d) :
    ¬call.IsPointing := by
  rcases tuningCalls_eq c d with ⟨hnil, -⟩ | ⟨cfreq, last, hcalls, hlast, -⟩
  · rw [hnil] at h
    exact absurd h List.not_mem_nil
  · rw [hcalls] at h
    simp only [List.mem_cons, List.not_mem_nil, or_false] at h
    rcases h with rfl | rfl
    · exact id
    · rcases hlast with rfl | rfl <;> exact id

/-- Before the first pointing call of a command stand all calls by which it tunes. -/
theorem tuningCalls_prefix {before after : List AcCall} {call : AcCall}
    (h : tuningCalls c d ++ pointingCalls minElev d = before ++ call :: after)
    (hcall : call.IsPointing) :
    ∃ more, before = tuningCalls c d ++ more ∧ pointingCalls minElev d ≠ [] := by
  rcases List.append_eq_append_iff.mp h with ⟨more, rfl, hpointing⟩ | ⟨more, htuning, hrest⟩
  · refine ⟨more, rfl, ?_⟩
    rw [hpointing]
    exact List.append_ne_nil_of_right_ne_nil _ (List.cons_ne_nil _ _)
  · cases more with
    | nil =>
      refine ⟨[], by rw [htuning, List.append_nil, List.append_nil], ?_⟩
      rw [← List.nil_append (pointingCalls minElev d), ← hrest]
      exact List.cons_ne_nil _ _
    | cons first more =>
      obtain ⟨rfl, -⟩ := List.cons.inj hrest
      have hmem : call ∈ tuningCalls c d := htuning ▸ List.mem_append_right _ List.mem_cons_self
      exact absurd hcall (not_isPointing_of_mem_tuningCalls hmem)

/-- **One command** after others. -/
theorem pointsTuned_iff (minElev : ℚ) (past : List Delivery) (d : Delivery) :
    PointsTuned minElev past d ↔ Orderly minElev past d := by
  have hissued := issued_eq minElev (run minElev past) d
  have hlnas := tryOnLnas_tuningKind.2 (run minElev past) d d.antennas
  have hfreq := setsFreq_tuningKind.2 (run minElev past) d d.antennas
  have hnil := tuningCalls_eq_nil_iff (run minElev past) d
  rw [run_isConfigured] at hlnas hfreq hnil
  constructor
  · intro h
    refine ⟨fun hfresh hcompletes => ?_, fun hpoints => ?_, fun hblank => ?_⟩
    · have htuned := h.configured ((run_isConfigured ..).mpr hfresh) (by
        rw [run_concat]
        exact (deliver_isConfigured ..).mpr (.inr hcompletes))
      rw [hissued] at htuned
      rcases List.mem_append.mp htuned.lnas with hmem | hmem
      · exact (hlnas.mp ⟨_, hmem, rfl⟩).2.1
      · exact absurd (isPointing_of_mem_pointingCalls hmem) id
    · obtain ⟨call, rest, hcalls⟩ :=
        List.exists_cons_of_ne_nil ((pointingCalls_ne_nil_iff minElev d).mpr hpoints)
      have hmem : call ∈ pointingCalls minElev d := hcalls ▸ List.mem_cons_self
      exact (tunedIn_iff ..).mp (h.tuned _ call rest (by rw [hissued, hcalls])
        (isPointing_of_mem_pointingCalls hmem))
    · have hnone := h.blank hblank
      rw [hissued, List.append_eq_nil_iff] at hnone
      refine ⟨fun hpoints => ?_, fun htunes hfresh => ?_⟩
      · exact (pointingCalls_ne_nil_iff minElev d).mpr hpoints hnone.2
      · exact hnil.mp hnone.1 ⟨hfresh, htunes⟩
  · intro h
    refine ⟨fun before call after hcalls hcall => ?_, fun hconf hconf' => ?_, fun hblank => ?_⟩
    · rw [hissued] at hcalls
      obtain ⟨more, rfl, hpointing⟩ := tuningCalls_prefix hcalls hcall
      have hby := h.tuned ((pointingCalls_ne_nil_iff minElev d).mp hpointing)
      rw [← List.append_assoc]
      exact ((tunedIn_iff minElev past d d.antennas).mpr hby).append more
    · rw [run_concat, deliver_isConfigured, hconf] at hconf'
      have hfresh := (run_isConfigured ..).mp hconf
      have htunes := h.first hfresh (hconf'.resolve_left Bool.false_ne_true)
      obtain ⟨_, hmem, rfl⟩ := hlnas.mpr ⟨hfresh, htunes, rfl⟩
      rw [hissued]
      exact TunedIn.append ⟨hmem, hfreq.mpr ⟨hfresh, htunes, rfl⟩⟩ _
    · obtain ⟨hpoints, htunes⟩ := h.blank hblank
      rw [hissued, List.append_eq_nil_iff]
      refine ⟨hnil.mpr fun hboth => htunes hboth.2 hboth.1, ?_⟩
      exact not_not.mp fun hne => hpoints ((pointingCalls_ne_nil_iff minElev d).mp hne)

/-- **Tuning before pointing.** In a run every command points tuned antennas only, ends the
tuning only when it tunes, and makes no call for blank names, exactly when the commands come
in the right order. -/
theorem pointing_tuned_iff (minElev : ℚ) (deliveries : List Delivery) :
    (∀ past d rest, deliveries = past ++ d :: rest → PointsTuned minElev past d) ↔
      ∀ past d rest, deliveries = past ++ d :: rest → Orderly minElev past d := by
  simp only [pointsTuned_iff]

/-- A command with a source and no frequency. -/
def withoutFreq : Command :=
  ((Command.make.dictAdd .antennasList "1a").dictAdd .freq 0).dictAdd .sourceId "casa"

/-- The first command points antennas that have not been tuned, and ends the tuning. -/
theorem points_untuned :
    ¬∀ past d rest, [⟨withoutFreq, fun _ _ => true⟩] = past ++ d :: rest →
      PointsTuned 18 past d := by
  intro h
  have horderly := (pointsTuned_iff ..).mp (h [] ⟨withoutFreq, fun _ _ => true⟩ [] rfl)
  have hcompletes : Delivery.Completes ⟨withoutFreq, fun _ _ => true⟩ := ⟨⟨rfl, rfl⟩, _, rfl⟩
  exact (horderly.first (fun d hd => absurd hd List.not_mem_nil) hcompletes).2 rfl

end Control

end GrAta
