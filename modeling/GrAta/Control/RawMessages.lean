import GrAta.Control.Cycles

/-!
# Messages as they arrive

A message is a pair whose parts may be of any kind. The handlers of both observing blocks
remove the old target first, look at the key and the value then, and report or raise what
they do not understand. The conversion of a text to a number is a parameter.

## Main definitions

- `RawMessage`: a pair
- `handlePair`: the handler of either block
- `RawMessage.decode`: the message that a pair stands for
- `RawMessage.Rejected`: a pair that no branch accepts

## Main results

- `TrackScan.handleRaw_eq`, `OnOff.handleRaw_eq`: the handlers by the decoded message
- `rejected_unchanged_iff`: the commands that a rejected pair leaves unchanged
- `rejected_removes_target`: an unknown key removes the source
-/

namespace GrAta

/-- An exception of the handlers. -/
inductive PyError where
  | wrongType
  | indexError
  | valueError
  deriving DecidableEq, Repr

/-- A pair of a key and a value, each with its text when it is a symbol. The name of a
source is one. -/
structure RawMessage where
  key : Option String
  val : Option String
  named : key = some "source_id" → val.isSome

/-- `pmt.symbol_to_string`. -/
def symbolToString : Option String → Except PyError String
  | some s => .ok s
  | none => .error .wrongType

/-- `float(parts[i].strip())`. -/
def numberAt (float : String → Option ℚ) (parts : List (List Char)) (i : ℕ) : Except PyError ℚ :=
  match parts[i]? with
  | none => .error .indexError
  | some part =>
    match float (strip part) with
    | none => .error .valueError
    | some x => .ok x

/-- The two numbers of a value. -/
def numberPair (float : String → Option ℚ) (val : Option String) : Except PyError (ℚ × ℚ) := do
  let text ← symbolToString val
  let parts := text.toList.splitOn ','
  let x ← numberAt float parts 0
  let y ← numberAt float parts 1
  return (x, y)

/-- A handler that raises keeps what it has done before. -/
abbrev PairHandler (σ : Type) := ExceptT PyError (StateM σ)

/-- `handle_msg` of a block with states `σ`: how it edits its command, and what it does with
a command that has been given a target. -/
def handlePair {σ : Type} (edit : (Command → Command) → σ → σ) (observe : σ → σ)
    (float : String → Option ℚ) (m : RawMessage) : PairHandler σ Unit := do
  modify (edit clearTarget)
  match h : m.key with
  | none => throw .wrongType
  | some strKey =>
    if hsource : strKey = "source_id" then
      modify (edit fun d => d.dictAdd .sourceId (m.val.get (m.named (hsource ▸ h))))
      modify observe
    else if strKey = "azel" then
      let (az, el) ← MonadExcept.ofExcept (numberPair float m.val)
      modify (edit fun d => d.dictAdd .az az)
      modify (edit fun d => d.dictAdd .el el)
      modify observe
    else if strKey = "radec" then
      let (ra, dec) ← MonadExcept.ofExcept (numberPair float m.val)
      modify (edit fun d => d.dictAdd .ra ra)
      modify (edit fun d => d.dictAdd .dec dec)
      modify observe
    else
      -- the handler prints that the key is wrong
      pure ()

def TrackScan.handleRaw (float : String → Option ℚ) (m : RawMessage) :
    PairHandler TrackScan Unit :=
  handlePair (fun f b => { b with command := f b.command }) TrackScan.publish float m

def OnOff.handleRaw (float : String → Option ℚ) (m : RawMessage) : PairHandler OnOff Unit :=
  handlePair (fun f b => { b with command := f b.command })
    (fun b => startThread
      { b with command := (b.command.dictDelete .azOff).dictDelete .elOff, ended := false }) float m

namespace RawMessage

/-- The message that a pair stands for. -/
def decode (float : String → Option ℚ) (m : RawMessage) : Except PyError ObsMessage := do
  match h : m.key with
  | none => throw .wrongType
  | some strKey =>
    if hsource : strKey = "source_id" then
      return .sourceId (m.val.get (m.named (hsource ▸ h)))
    else if strKey = "azel" then
      let (az, el) ← numberPair float m.val
      return .azel az el
    else if strKey = "radec" then
      let (ra, dec) ← numberPair float m.val
      return .radec ra dec
    else return .other strKey

/-- A value whose first two parts between commas are numbers. -/
def GivesPair (float : String → Option ℚ) (val : Option String) (x y : ℚ) : Prop :=
  ∃ text first second rest, val = some text ∧
    text.toList.splitOn ',' = first :: second :: rest ∧
      float (strip first) = some x ∧ float (strip second) = some y

/-- A pair with a key other than the three, or with a value that does not give the two
numbers that its key asks for. -/
def Rejected (float : String → Option ℚ) (m : RawMessage) : Prop :=
  m.key ≠ some "source_id" ∧
    (m.key = some "azel" ∨ m.key = some "radec" → ¬∃ x y, GivesPair float m.val x y)

end RawMessage

-- ════════════════════════════════════════════════════════════════════════
-- The decoded message
-- ════════════════════════════════════════════════════════════════════════

variable {float : String → Option ℚ} {m : RawMessage}

/-- What a handler does with a message that it can decode. -/
def received {σ : Type} (edit : (Command → Command) → σ → σ) (observe : σ → σ) (b : σ) :
    ObsMessage → σ
  | .sourceId id => observe (edit (fun d => d.dictAdd .sourceId id) (edit clearTarget b))
  | .azel az el =>
    observe (edit (fun d => d.dictAdd .el el) (edit (fun d => d.dictAdd .az az)
      (edit clearTarget b)))
  | .radec ra dec =>
    observe (edit (fun d => d.dictAdd .dec dec) (edit (fun d => d.dictAdd .ra ra)
      (edit clearTarget b)))
  | .other _ => edit clearTarget b

/-- The target is cleared also when the pair raises. -/
theorem handlePair_eq {σ : Type} (edit : (Command → Command) → σ → σ) (observe : σ → σ)
    (float : String → Option ℚ) (m : RawMessage) (b : σ) :
    (handlePair edit observe float m).run b =
      match m.decode float with
      | .ok msg => (.ok (), received edit observe b msg)
      | .error e => (.error e, edit clearTarget b) := by
  rw [handlePair, RawMessage.decode]
  obtain ⟨key, val, named⟩ := m
  cases key with
  | none => rfl
  | some strKey =>
    by_cases hsource : strKey = "source_id"
    · simp only [hsource]
      rfl
    · simp only [dif_neg hsource]
      by_cases hazel : strKey = "azel"
      · simp only [if_pos hazel]
        cases numberPair float val <;> rfl
      · simp only [if_neg hazel]
        by_cases hradec : strKey = "radec"
        · simp only [if_pos hradec]
          cases numberPair float val <;> rfl
        · simp only [if_neg hradec]
          rfl

theorem TrackScan.handleRaw_eq (float : String → Option ℚ) (m : RawMessage) (b : TrackScan) :
    (handleRaw float m).run b =
      match m.decode float with
      | .ok msg => (.ok (), b.handleMsg msg)
      | .error e => (.error e, { b with command := clearTarget b.command }) := by
  rw [handleRaw, handlePair_eq]
  cases m.decode float with
  | error e => rfl
  | ok msg => cases msg <;> rfl

theorem OnOff.handleRaw_eq (float : String → Option ℚ) (m : RawMessage) (b : OnOff) :
    (handleRaw float m).run b =
      match m.decode float with
      | .ok msg => (.ok (), b.handleMsg msg)
      | .error e => (.error e, { b with command := clearTarget b.command }) := by
  rw [handleRaw, handlePair_eq]
  cases m.decode float with
  | error e => rfl
  | ok msg => cases msg <;> rfl

-- ════════════════════════════════════════════════════════════════════════
-- Rejected pairs
-- ════════════════════════════════════════════════════════════════════════

theorem numberAt_eq_ok_iff (float : String → Option ℚ) (parts : List (List Char)) (i : ℕ)
    (x : ℚ) :
    numberAt float parts i = .ok x ↔
      ∃ part, parts[i]? = some part ∧ float (strip part) = some x := by
  rw [numberAt]
  cases parts[i]? with
  | none => simp
  | some part => cases hfloat : float (strip part) <;> simp [hfloat]

/-- A handler reads two numbers from a value exactly when the value gives them. -/
theorem numberPair_eq_ok_iff (float : String → Option ℚ) (val : Option String) (x y : ℚ) :
    numberPair float val = .ok (x, y) ↔ RawMessage.GivesPair float val x y := by
  cases val with
  | none => exact iff_of_false (fun h => nomatch h) fun ⟨_, _, _, _, h, _⟩ => nomatch h
  | some text =>
    have hparts : numberPair float (some text) = .ok (x, y) ↔
        numberAt float (text.toList.splitOn ',') 0 = .ok x ∧
          numberAt float (text.toList.splitOn ',') 1 = .ok y := by
      rw [numberPair, symbolToString]
      cases hx : numberAt float (text.toList.splitOn ',') 0 with
      | error e => simp [hx, bind, Except.bind]
      | ok x' =>
        cases hy : numberAt float (text.toList.splitOn ',') 1 with
        | error e => simp [hx, hy, bind, Except.bind]
        | ok y' => simp [hx, hy, bind, Except.bind, pure, Except.pure]
    rw [hparts, numberAt_eq_ok_iff, numberAt_eq_ok_iff]
    constructor
    · rintro ⟨⟨first, hfirst, hx⟩, second, hsecond, hy⟩
      refine ⟨text, first, second, (text.toList.splitOn ',').drop 2, rfl, ?_, hx, hy⟩
      cases hsplit : text.toList.splitOn ',' with
      | nil => rw [hsplit] at hfirst; cases hfirst
      | cons part parts =>
        cases parts with
        | nil => rw [hsplit] at hsecond; cases hsecond
        | cons part' rest =>
          rw [hsplit] at hfirst hsecond
          cases hfirst
          cases hsecond
          rfl
    · rintro ⟨_, first, second, rest, htext, hsplit, hx, hy⟩
      cases htext
      rw [hsplit]
      exact ⟨⟨first, rfl, hx⟩, second, rfl, hy⟩

namespace RawMessage

/-- A rejected pair stands for no message, or for one with a wrong key. -/
theorem Rejected.decode_eq (h : m.Rejected float) :
    (∃ key, m.decode float = .ok (.other key)) ∨ ∃ e, m.decode float = .error e := by
  obtain ⟨key, val, named⟩ := m
  obtain ⟨hsource, hpair⟩ := h
  have herror : (¬∃ x y, GivesPair float val x y) → ∃ e, numberPair float val = .error e := by
    intro hnot
    cases hval : numberPair float val with
    | error e => exact ⟨e, rfl⟩
    | ok xy => exact absurd ⟨xy.1, xy.2, (numberPair_eq_ok_iff ..).mp hval⟩ hnot
  rw [decode]
  cases key with
  | none => exact .inr ⟨_, rfl⟩
  | some strKey =>
    simp only [dif_neg fun heq => hsource (congrArg some heq)]
    by_cases hazel : strKey = "azel"
    · obtain ⟨e, he⟩ := herror (hpair (.inl (congrArg some hazel)))
      simp only [if_pos hazel, he]
      exact .inr ⟨e, rfl⟩
    · simp only [if_neg hazel]
      by_cases hradec : strKey = "radec"
      · obtain ⟨e, he⟩ := herror (hpair (.inr (congrArg some hradec)))
        simp only [if_pos hradec, he]
        exact .inr ⟨e, rfl⟩
      · simp only [if_neg hradec]
        exact .inl ⟨strKey, rfl⟩

end RawMessage

/-- A rejected pair clears the target and does nothing else. -/
theorem handlePair_of_rejected {σ : Type} (edit : (Command → Command) → σ → σ)
    (observe : σ → σ) (h : m.Rejected float) (b : σ) :
    ((handlePair edit observe float m).run b).2 = edit clearTarget b := by
  rw [handlePair_eq]
  obtain ⟨key, hdecode⟩ | ⟨e, hdecode⟩ := h.decode_eq
  · rw [hdecode]
    rfl
  · rw [hdecode]

theorem TrackScan.handleRaw_of_rejected (h : m.Rejected float) (b : TrackScan) :
    ((handleRaw float m).run b).2 = { b with command := clearTarget b.command } := by
  rw [handleRaw, handlePair_of_rejected _ _ h]

theorem OnOff.handleRaw_of_rejected (h : m.Rejected float) (b : OnOff) :
    ((handleRaw float m).run b).2 = { b with command := clearTarget b.command } := by
  rw [handleRaw, handlePair_of_rejected _ _ h]

theorem clearTarget_eq_self_iff (d : Command) :
    clearTarget d = d ↔ ∀ k : CommandKey, k.IsTarget → d k = none := by
  constructor
  · intro h k hk
    rw [← h]
    cases k <;> first | rfl | exact hk.elim
  · intro h
    funext k
    by_cases hk : k.IsTarget
    · rw [h k hk]
      cases k <;> first | rfl | exact hk.elim
    · exact clearTarget_of_not_isTarget hk

/-- The command is the same, and nothing has been published. -/
def TrackScan.Unchanged (b b' : TrackScan) : Prop :=
  b'.command = b.command ∧ b'.published = b.published

/-- The command is the same, nothing has been published and no thread is started. -/
def OnOff.Unchanged (b b' : OnOff) : Prop :=
  b'.command = b.command ∧ b'.published = b.published ∧ b'.cycles = b.cycles

/-- A rejected pair changes nothing exactly when the command has no key of a target. -/
theorem rejected_unchanged_iff (h : m.Rejected float) (b : TrackScan) (b' : OnOff) :
    (b.Unchanged ((TrackScan.handleRaw float m).run b).2 ↔
      ∀ k : CommandKey, k.IsTarget → b.command k = none) ∧
    (b'.Unchanged ((OnOff.handleRaw float m).run b').2 ↔
      ∀ k : CommandKey, k.IsTarget → b'.command k = none) := by
  rw [TrackScan.handleRaw_of_rejected h, OnOff.handleRaw_of_rejected h,
    ← clearTarget_eq_self_iff, ← clearTarget_eq_self_iff]
  exact ⟨and_iff_left rfl, and_iff_left ⟨rfl, rfl⟩⟩

/-- The texts of whole numbers. -/
def wholeNumber (s : String) : Option ℚ := s.toNat?.map fun n => n

/-- An azimuth without an elevation. -/
def halfPair : RawMessage where
  key := some "azel"
  val := some "12"
  named h := nomatch h

/-- A misspelt key. -/
def wrongKey : RawMessage where
  key := some "source"
  val := some "m31"
  named h := nomatch h

theorem halfPair_rejected (float : String → Option ℚ) : halfPair.Rejected float := by
  refine ⟨by decide, fun _ ⟨x, y, text, first, second, rest, htext, hsplit, _⟩ => ?_⟩
  have hparts : "12".toList.splitOn ',' = [['1', '2']] := by decide
  cases htext
  rw [hparts] at hsplit
  cases hsplit

theorem wrongKey_rejected (float : String → Option ℚ) : wrongKey.Rejected float :=
  ⟨by decide, fun h => absurd h (by decide)⟩

theorem rejected_unchanged_iff_halfPair :
    (TrackScan.construct ⟨1420, "1a", "id"⟩).Unchanged
      ((TrackScan.handleRaw wholeNumber halfPair).run (.construct ⟨1420, "1a", "id"⟩)).2 ∧
    (OnOff.construct ⟨1420, "1a", 10, 5, 5⟩).Unchanged
      ((OnOff.handleRaw wholeNumber halfPair).run (.construct ⟨1420, "1a", 10, 5, 5⟩)).2 := by
  have h := rejected_unchanged_iff (halfPair_rejected wholeNumber) (.construct ⟨1420, "1a", "id"⟩)
    (.construct ⟨1420, "1a", 10, 5, 5⟩)
  refine ⟨h.1.mpr fun k hk => ?_, h.2.mpr fun k hk => ?_⟩
  · cases k <;> first | rfl | exact hk.elim
  · cases k <;> first | rfl | exact hk.elim

/-- A source is set when the flowgraph is built, and a misspelt key removes it from the
command of either block. -/
theorem rejected_removes_target :
    wrongKey.Rejected wholeNumber ∧
    ¬(TrackScan.configure ⟨1420, "1a", "id"⟩ [.setSource "casa"]).Unchanged
      ((TrackScan.handleRaw wholeNumber wrongKey).run
        (.configure ⟨1420, "1a", "id"⟩ [.setSource "casa"])).2 ∧
    ¬(OnOff.configure ⟨1420, "1a", 10, 5, 5⟩ [.setSource "casa"]).Unchanged
      ((OnOff.handleRaw wholeNumber wrongKey).run
        (.configure ⟨1420, "1a", 10, 5, 5⟩ [.setSource "casa"])).2 := by
  refine ⟨wrongKey_rejected wholeNumber, fun h => ?_, fun h => ?_⟩
  · rw [TrackScan.handleRaw_of_rejected (wrongKey_rejected wholeNumber)] at h
    exact Option.some_ne_none "casa" (congrFun h.1 .sourceId).symm
  · rw [OnOff.handleRaw_of_rejected (wrongKey_rejected wholeNumber)] at h
    exact Option.some_ne_none "casa" (congrFun h.1 .sourceId).symm

end GrAta
