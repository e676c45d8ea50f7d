import Mathlib.Data.List.TakeWhile
import Mathlib.Data.Nat.Notation
import GrAta.Library.Json

/-!
# The reader of values

A recursive descent over the characters of a text, with the grammar of JSON and the three names
of numbers that are not finite. It reads a value, or what follows an item or an entry, up to
the rest of the text. The depth is bounded by a number that the length of the text exceeds.

The escape of a surrogate that is not part of a pair is refused: it stands for no character.

## Main definitions

- `Json.scanString`, `Json.scanNumber`: the tokens
- `Json.parse`: the descent
- `Json.load`: the value of a whole text

## Main results

- `Json.scanScalar_eq_some`: the token of a scalar
- `Json.scanNumber_append`: a number before other text
- `Json.readInteger_integerText`: integers are read back
-/

namespace Json

variable {F : Type}

/-! ### Tokens -/

def isBlank (c : Char) : Bool := c = ' ' || c = '\t' || c = '\n' || c = '\r'

def skip (text : List Char) : List Char := text.dropWhile isBlank

def simpleEscape (c : Char) : Option Char :=
  if c = '"' then some '"'
  else if c = '\\' then some '\\'
  else if c = '/' then some '/'
  else if c = 'b' then some '\x08'
  else if c = 'f' then some '\x0c'
  else if c = 'n' then some '\n'
  else if c = 'r' then some '\r'
  else if c = 't' then some '\t'
  else none

def hexValue (c : Char) : Option ℕ :=
  if c.isDigit then some (c.toNat - 48)
  else if 97 ≤ c.toNat ∧ c.toNat ≤ 102 then some (c.toNat - 87)
  else if 65 ≤ c.toNat ∧ c.toNat ≤ 70 then some (c.toNat - 55)
  else none

def codeUnit (d₁ d₂ d₃ d₄ : Char) : Option ℕ := do
  let v₁ ← hexValue d₁
  let v₂ ← hexValue d₂
  let v₃ ← hexValue d₃
  let v₄ ← hexValue d₄
  some (((v₁ * 16 + v₂) * 16 + v₃) * 16 + v₄)

/-- The character of an escape with four digits. -/
def codeEscape (d₁ d₂ d₃ d₄ : Char) : Option Char :=
  (codeUnit d₁ d₂ d₃ d₄).bind fun code =>
    if code.isValidChar then some (Char.ofNat code) else none

/-- The character of two escapes that are a pair of surrogates. -/
def pairEscape (d₁ d₂ d₃ d₄ e₁ e₂ e₃ e₄ : Char) : Option Char :=
  (codeUnit d₁ d₂ d₃ d₄).bind fun high => (codeUnit e₁ e₂ e₃ e₄).bind fun low =>
    if (0xd800 ≤ high ∧ high ≤ 0xdbff) ∧ 0xdc00 ≤ low ∧ low ≤ 0xdfff then
      some (Char.ofNat (0x10000 + ((high - 0xd800) * 1024 + (low - 0xdc00))))
    else none

/-- A character before the rest of its string. -/
def push (c : Option Char) (r : Option (List Char × List Char)) :
    Option (List Char × List Char) :=
  c.bind fun c => r.map fun r => (c :: r.1, r.2)

/-- The characters up to the closing mark. Control characters are refused. -/
def scanString : List Char → Option (List Char × List Char)
  | [] => none
  | c :: text =>
    if c = '"' then some ([], text)
    else if c = '\\' then
      match text with
      | 'u' :: d₁ :: d₂ :: d₃ :: d₄ :: text =>
        match codeEscape d₁ d₂ d₃ d₄ with
        | some e => push (some e) (scanString text)
        | none =>
          match text with
          | '\\' :: 'u' :: e₁ :: e₂ :: e₃ :: e₄ :: text =>
            push (pairEscape d₁ d₂ d₃ d₄ e₁ e₂ e₃ e₄) (scanString text)
          | _ => none
      | e :: text => push (simpleEscape e) (scanString text)
      | [] => none
    else if c.toNat < 32 then none
    else push (some c) (scanString text)

/-- A sign at the start, if there is one. -/
def scanSign (isSign : Char → Bool) : List Char → List Char × List Char
  | [] => ([], [])
  | c :: rest => if isSign c then ([c], rest) else ([], c :: rest)

def scanDigits (text : List Char) : List Char × List Char :=
  (text.takeWhile Char.isDigit, text.dropWhile Char.isDigit)

/-- `-?(0|[1-9][0-9]*)` -/
def scanInteger (text : List Char) : Option (List Char × List Char) :=
  let signed := scanSign (· = '-') text
  match signed.2 with
  | [] => none
  | c :: rest =>
    if c = '0' then some (signed.1 ++ ['0'], rest)
    else if c.isDigit then some (signed.1 ++ c :: (scanDigits rest).1, (scanDigits rest).2)
    else none

/-- `(\.[0-9]+)?` -/
def scanFraction : List Char → List Char × List Char
  | [] => ([], [])
  | c :: rest =>
    if c = '.' ∧ (scanDigits rest).1 ≠ [] then (c :: (scanDigits rest).1, (scanDigits rest).2)
    else ([], c :: rest)

/-- `([eE][-+]?[0-9]+)?` -/
def scanExponent : List Char → List Char × List Char
  | [] => ([], [])
  | c :: rest =>
    let signed := scanSign (fun c => c = '+' || c = '-') rest
    let digits := scanDigits signed.2
    if (c = 'e' ∨ c = 'E') ∧ digits.1 ≠ [] then (c :: signed.1 ++ digits.1, digits.2)
    else ([], c :: rest)

/-- The integer part of a number, what follows it of the number, and the rest. -/
def scanNumber (text : List Char) : Option (List Char × List Char × List Char) :=
  (scanInteger text).map fun r =>
    let fraction := scanFraction r.2
    let exponent := scanExponent fraction.2
    (r.1, fraction.1 ++ exponent.1, exponent.2)

/-- `int(integer)` -/
def readInteger : List Char → ℤ
  | '-' :: digits => -(Nat.ofDigitChars 10 digits 0 : ℤ)
  | digits => Nat.ofDigitChars 10 digits 0

/-- A word at the start of the text. -/
def word (w : List Char) (x : Json F) (text : List Char) : Option (Json F × List Char) :=
  if w.isPrefixOf text then some (x, text.drop w.length) else none

section Reading

variable (read : List Char → F)

def number (text : List Char) : Option (Json F × List Char) :=
  (scanNumber text).map fun r =>
    (if r.2.1 = [] then .int (readInteger r.1) else .float (read (r.1 ++ r.2.1)), r.2.2)

/-- The scalars in the order in which they are tried. -/
def scalars : List (List Char → Option (Json F × List Char)) :=
  [word ['n', 'u', 'l', 'l'] .null,
    word ['t', 'r', 'u', 'e'] (.bool true),
    word ['f', 'a', 'l', 's', 'e'] (.bool false),
    number read,
    word ['N', 'a', 'N'] (.float (read ['N', 'a', 'N'])),
    word ['I', 'n', 'f', 'i', 'n', 'i', 't', 'y']
      (.float (read ['I', 'n', 'f', 'i', 'n', 'i', 't', 'y'])),
    word ['-', 'I', 'n', 'f', 'i', 'n', 'i', 't', 'y']
      (.float (read ['-', 'I', 'n', 'f', 'i', 'n', 'i', 't', 'y']))]

def scanScalar (text : List Char) : Option (Json F × List Char) :=
  (scalars read).findSome? (· text)

/-- A key and its colon. -/
def scanKey : List Char → Option (String × List Char)
  | '"' :: text => (scanString text).bind fun r =>
    match skip r.2 with
    | ':' :: text => some (String.ofList r.1, skip text)
    | _ => none
  | _ => none

/-! ### The descent -/

/-- What is read: a value, or what follows an item or an entry up to the closing bracket. -/
inductive Part
  | value
  | items
  | entries

abbrev Part.Result (F : Type) : Part → Type
  | value => Json F
  | items => List (Json F)
  | entries => List (String × Json F)

abbrev Reader (F : Type) := (p : Part) → List Char → Option (p.Result F × List Char)

/-- An item and those behind it. -/
def readItems (self : Reader F) (text : List Char) : Option (List (Json F) × List Char) :=
  (self .value text).bind fun r =>
    (self .items r.2).map fun tail => (r.1 :: tail.1, tail.2)

/-- An entry and those behind it. -/
def readEntries (self : Reader F) (text : List Char) :
    Option (List (String × Json F) × List Char) :=
  (scanKey text).bind fun k => (self .value k.2).bind fun r =>
    (self .entries r.2).map fun tail => ((k.1, r.1) :: tail.1, tail.2)

def parseValue (self : Reader F) : List Char → Option (Json F × List Char)
  | '"' :: text => (scanString text).map fun r => (.str (String.ofList r.1), r.2)
  | '[' :: text =>
    match skip text with
    | ']' :: text => some (.arr [], text)
    | text => (readItems self text).map fun r => (.arr r.1, r.2)
  | '{' :: text =>
    match skip text with
    | '}' :: text => some (.obj [], text)
    | text => (readEntries self text).map fun r => (.obj (Dictionary.ofEntries r.1), r.2)
  | text => scanScalar read text

def parseItems (self : Reader F) (text : List Char) : Option (List (Json F) × List Char) :=
  match skip text with
  | ']' :: text => some ([], text)
  | ',' :: text => readItems self (skip text)
  | _ => none

def parseEntries (self : Reader F) (text : List Char) :
    Option (List (String × Json F) × List Char) :=
  match skip text with
  | '}' :: text => some ([], text)
  | ',' :: text => readEntries self (skip text)
  | _ => none

def parse : ℕ → Reader F
  | 0, _, _ => none
  | n + 1, .value, text => parseValue read (parse n) text
  | n + 1, .items, text => parseItems (parse n) text
  | n + 1, .entries, text => parseEntries (parse n) text

/-- The value of a text, with nothing behind it. -/
def load (text : List Char) : Option (Json F) :=
  (parse read (text.length + 1) .value (skip text)).bind fun r =>
    if skip r.2 = [] then some r.1 else none

end Reading

/-! ### The tokens of scalars -/

theorem scanSign_append (isSign : Char → Bool) (text : List Char) :
    (scanSign isSign text).1 ++ (scanSign isSign text).2 = text := by
  unfold scanSign
  split
  · rfl
  · split <;> rfl

theorem isSign_of_mem {isSign : Char → Bool} {text : List Char} {c : Char}
    (h : c ∈ (scanSign isSign text).1) : isSign c = true := by
  unfold scanSign at h
  split at h
  · exact absurd h List.not_mem_nil
  · split at h
    · next hsign => rwa [List.mem_singleton.mp h]
    · exact absurd h List.not_mem_nil

theorem scanDigits_append (text : List Char) :
    (scanDigits text).1 ++ (scanDigits text).2 = text :=
  List.takeWhile_append_dropWhile

theorem isDigit_of_mem {text : List Char} {c : Char} (h : c ∈ (scanDigits text).1) :
    c.isDigit = true :=
  List.mem_takeWhile_imp h

/-- The characters of numbers. -/
def IsNumeral (c : Char) : Prop :=
  c.isDigit = true ∨ c = '-' ∨ c = '+' ∨ c = '.' ∨ c = 'e' ∨ c = 'E'

theorem scanInteger_eq_some {text integer rest : List Char}
    (h : scanInteger text = some (integer, rest)) :
    text = integer ++ rest ∧ ∀ c ∈ integer, IsNumeral c := by
  have htext := scanSign_append (· = '-') text
  have hsign : ∀ c ∈ (scanSign (· = '-') text).1, IsNumeral c := fun c hc =>
    Or.inr (Or.inl (of_decide_eq_true (isSign_of_mem hc)))
  unfold scanInteger at h
  dsimp only at h
  split at h
  · exact absurd h (by simp)
  · next c digits hdigits =>
    rw [hdigits] at htext
    split_ifs at h with hzero hdigit
    · obtain ⟨rfl, rfl⟩ := Prod.mk.inj (Option.some.inj h)
      rw [← hzero, List.append_assoc, List.singleton_append]
      refine ⟨htext.symm, ?_⟩
      refine List.forall_mem_append.mpr ⟨hsign, ?_⟩
      exact List.forall_mem_singleton.mpr (hzero ▸ Or.inl rfl)
    · obtain ⟨rfl, rfl⟩ := Prod.mk.inj (Option.some.inj h)
      rw [List.append_assoc, List.cons_append, scanDigits_append]
      refine ⟨htext.symm, ?_⟩
      refine List.forall_mem_append.mpr ⟨hsign, List.forall_mem_cons.mpr ⟨Or.inl hdigit, ?_⟩⟩
      exact fun c' hc' => Or.inl (isDigit_of_mem hc')

theorem scanFraction_append (text : List Char) :
    (scanFraction text).1 ++ (scanFraction text).2 = text := by
  unfold scanFraction
  split
  · rfl
  · split
    · rw [List.cons_append, scanDigits_append]
    · rfl

theorem scanFraction_numeral {text : List Char} : ∀ c ∈ (scanFraction text).1, IsNumeral c := by
  unfold scanFraction
  split
  · exact List.forall_mem_nil _
  · split
    · next hdot =>
      refine List.forall_mem_cons.mpr ⟨?_, fun c hc => Or.inl (isDigit_of_mem hc)⟩
      exact Or.inr (Or.inr (Or.inr (Or.inl hdot.1)))
    · exact List.forall_mem_nil _

theorem scanExponent_append (text : List Char) :
    (scanExponent text).1 ++ (scanExponent text).2 = text := by
  unfold scanExponent
  split
  · rfl
  · dsimp only
    split
    · rw [List.append_assoc, scanDigits_append, List.cons_append, scanSign_append]
    · rfl

theorem scanExponent_numeral {text : List Char} : ∀ c ∈ (scanExponent text).1, IsNumeral c := by
  unfold scanExponent
  split
  · exact List.forall_mem_nil _
  · dsimp only
    split
    · next hletter =>
      refine List.forall_mem_append.mpr ⟨List.forall_mem_cons.mpr ⟨?_, fun c hc => ?_⟩, ?_⟩
      · exact Or.inr (Or.inr (Or.inr (Or.inr hletter.1)))
      · have hsign := isSign_of_mem hc
        simp only [Bool.or_eq_true, decide_eq_true_eq] at hsign
        exact hsign.elim (Or.inr ∘ Or.inr ∘ Or.inl) (Or.inr ∘ Or.inl)
      · exact fun c hc => Or.inl (isDigit_of_mem hc)
    · exact List.forall_mem_nil _

theorem scanNumber_eq_some {text integer part rest : List Char}
    (h : scanNumber text = some (integer, part, rest)) :
    text = integer ++ part ++ rest ∧ ∀ c ∈ integer ++ part, IsNumeral c := by
  obtain ⟨⟨integer', behind⟩, hinteger, h⟩ := Option.map_eq_some_iff.mp h
  obtain ⟨hfirst, h⟩ := Prod.mk.inj h
  obtain ⟨rfl, rfl⟩ := Prod.mk.inj h
  obtain rfl : integer' = integer := hfirst
  obtain ⟨rfl, hchars⟩ := scanInteger_eq_some hinteger
  refine ⟨?_, List.forall_mem_append.mpr ⟨hchars, List.forall_mem_append.mpr ⟨?_, ?_⟩⟩⟩
  · rw [List.append_assoc, List.append_assoc, scanExponent_append, scanFraction_append]
  · exact scanFraction_numeral
  · exact scanExponent_numeral

theorem IsNumeral.ne_backslash {c : Char} (h : IsNumeral c) : c ≠ '\\' := by
  rintro rfl
  exact absurd h (by unfold IsNumeral; decide)

theorem number_eq_some {read : List Char → F} {text rest : List Char} {x : Json F}
    (h : number read text = some (x, rest)) :
    ∃ token, text = token ++ rest ∧ (∀ c ∈ token, c ≠ '\\') ∧
      ((∃ z, x = .int z) ∨ ∃ y, x = .float y) := by
  obtain ⟨⟨integer, part, rest'⟩, hscan, h⟩ := Option.map_eq_some_iff.mp h
  obtain ⟨rfl, rfl⟩ := Prod.mk.inj h
  obtain ⟨htext, hchars⟩ := scanNumber_eq_some hscan
  refine ⟨integer ++ part, htext, fun c hc => (hchars c hc).ne_backslash, ?_⟩
  dsimp only
  split
  · exact Or.inl ⟨_, rfl⟩
  · exact Or.inr ⟨_, rfl⟩

theorem word_eq_some {w text rest : List Char} {x y : Json F}
    (h : word w x text = some (y, rest)) : text = w ++ rest ∧ y = x := by
  unfold word at h
  split_ifs at h with hstart
  obtain ⟨rfl, rfl⟩ := Prod.mk.inj (Option.some.inj h)
  exact ⟨(List.prefix_iff_eq_append.mp (List.isPrefixOf_iff_prefix.mp hstart)).symm, rfl⟩

/-- A scalar is a token without backslashes. -/
theorem scanScalar_eq_some {read : List Char → F} {text rest : List Char} {x : Json F}
    (h : scanScalar read text = some (x, rest)) :
    ∃ token, text = token ++ rest ∧ (∀ c ∈ token, c ≠ '\\') ∧
      (x = .null ∨ (∃ b, x = .bool b) ∨ (∃ z, x = .int z) ∨ ∃ y, x = .float y) := by
  obtain ⟨scan, hscan, h⟩ := List.exists_of_findSome?_eq_some h
  simp only [scalars, List.mem_cons, List.not_mem_nil, or_false] at hscan
  rcases hscan with rfl | rfl | rfl | rfl | rfl | rfl | rfl
  case inr.inr.inr.inl =>
    obtain ⟨token, htext, htoken, hx⟩ := number_eq_some h
    exact ⟨token, htext, htoken, Or.inr (Or.inr hx)⟩
  all_goals
    obtain ⟨htext, rfl⟩ := word_eq_some h
    exact ⟨_, htext, by simp, by simp⟩

/-! ### Numbers before other text -/

section Numbers

variable {text rest integer part : List Char}

/-- No number goes on in the text. -/
def Stops (text : List Char) : Prop := ∀ c ∈ text.head?, ¬IsNumeral c

theorem Stops.nil : Stops [] := fun _ h => absurd h (by simp)

theorem Stops.cons {c : Char} (h : ¬IsNumeral c) (text : List Char) : Stops (c :: text) := by
  intro c' hc'
  rwa [Option.mem_some_iff.mp hc'] at h

theorem Stops.isDigit (h : Stops text) : ∀ c ∈ text.head?, c.isDigit = false :=
  fun c hc => eq_false_of_ne_true fun hdigit => h c hc (Or.inl hdigit)

theorem scanDigits_eq_append (h : ∀ c ∈ rest.head?, c.isDigit = false) (text : List Char) :
    scanDigits (text ++ rest) = ((scanDigits text).1, (scanDigits text).2 ++ rest) := by
  induction text with
  | nil =>
    cases rest with
    | nil => rfl
    | cons c rest => simp [scanDigits, h c rfl]
  | cons c text ih =>
    obtain ⟨htake, hdrop⟩ := Prod.mk.inj ih
    cases hc : c.isDigit
    · simp [scanDigits, hc]
    · simp [scanDigits, hc, htake, hdrop]

theorem scanSign_eq_append {isSign : Char → Bool} (h : ∀ c ∈ rest.head?, isSign c = false)
    (text : List Char) :
    scanSign isSign (text ++ rest) =
      ((scanSign isSign text).1, (scanSign isSign text).2 ++ rest) := by
  cases text with
  | nil =>
    cases rest with
    | nil => rfl
    | cons c rest => simp [scanSign, h c rfl]
  | cons c text => 
    rw [List.cons_append, scanSign, scanSign]
    split <;> rfl

theorem scanInteger_append (hdigit : ∀ c ∈ rest.head?, c.isDigit = false)
    (hminus : ∀ c ∈ rest.head?, c ≠ '-') {behind : List Char}
    (hscan : scanInteger text = some (integer, behind)) :
    scanInteger (text ++ rest) = some (integer, behind ++ rest) := by
  have hsign : ∀ c ∈ rest.head?, decide (c = '-') = false := fun c hc =>
    decide_eq_false (hminus c hc)
  unfold scanInteger at hscan ⊢
  rw [scanSign_eq_append hsign]
  dsimp only at hscan ⊢
  split at hscan
  · exact absurd hscan (by simp)
  · next c digits hdigits =>
    rw [hdigits, List.cons_append]
    dsimp only
    rw [scanDigits_eq_append hdigit]
    split_ifs at hscan ⊢ with hzero hnonzero
    all_goals
      obtain ⟨rfl, rfl⟩ := Prod.mk.inj (Option.some.inj hscan)
      rfl

theorem scanFraction_eq_append (h : Stops rest) (text : List Char) :
    scanFraction (text ++ rest) = ((scanFraction text).1, (scanFraction text).2 ++ rest) := by
  cases text with
  | nil =>
    cases rest with
    | nil => rfl
    | cons c rest =>
      have hdot : c ≠ '.' := fun hc => h c rfl (Or.inr (Or.inr (Or.inr (Or.inl hc))))
      simp [scanFraction, hdot]
  | cons c text =>
    rw [List.cons_append, scanFraction, scanFraction, scanDigits_eq_append h.isDigit]
    split <;> rfl

theorem scanExponent_eq_append (h : Stops rest) (text : List Char) :
    scanExponent (text ++ rest) = ((scanExponent text).1, (scanExponent text).2 ++ rest) := by
  have hsign : ∀ c ∈ rest.head?, (decide (c = '+') || decide (c = '-')) = false := by
    intro c hc
    have := h c hc
    simp only [IsNumeral, not_or] at this
    simp [this]
  cases text with
  | nil =>
    cases rest with
    | nil => rfl
    | cons c rest =>
      have hc := h c rfl
      simp only [IsNumeral, not_or] at hc
      simp [scanExponent, hc]
  | cons c text =>
    rw [List.cons_append, scanExponent, scanExponent, scanSign_eq_append hsign]
    dsimp only
    rw [scanDigits_eq_append h.isDigit]
    split <;> rfl

/-- A token is read in the same way before other text. -/
theorem scanNumber_append (h : Stops rest) (hscan : scanNumber text = some (integer, part, [])) :
    scanNumber (text ++ rest) = some (integer, part, rest) := by
  obtain ⟨⟨integer', behind⟩, hinteger, hscan⟩ := Option.map_eq_some_iff.mp hscan
  obtain ⟨hfirst, hscan⟩ := Prod.mk.inj hscan
  obtain ⟨hpart, hnil⟩ := Prod.mk.inj hscan
  have hminus : ∀ c ∈ rest.head?, c ≠ '-' := fun c hc hminus => h c hc (Or.inr (Or.inl hminus))
  rw [scanNumber, scanInteger_append h.isDigit hminus hinteger, Option.map_some]
  dsimp only at hfirst hpart hnil ⊢
  rw [scanFraction_eq_append h, scanExponent_eq_append h, hfirst, hpart, hnil, List.nil_append]

/-- `repr(z)` -/
def integerText : ℤ → List Char
  | .ofNat n => Nat.toDigits 10 n
  | .negSucc n => '-' :: Nat.toDigits 10 (n + 1)

/-- Only zero starts with `0`. -/
theorem exists_toDigits (n : ℕ) : ∃ c digits, Nat.toDigits 10 n = c :: digits ∧
    c.isDigit = true ∧ (∀ d ∈ digits, d.isDigit = true) ∧ (c = '0' → digits = []) := by
  have hall : ∀ d ∈ Nat.toDigits 10 n, d.isDigit = true := fun d hd =>
    Nat.isDigit_of_mem_toDigits (by decide) le_rfl hd
  suffices ∃ c digits, Nat.toDigits 10 n = c :: digits ∧ (c = '0' → n = 0) by
    obtain ⟨c, digits, heq, hzero⟩ := this
    rw [heq] at hall
    refine ⟨c, digits, heq, hall c List.mem_cons_self,
      fun d hd => hall d (List.mem_cons_of_mem c hd), fun hc => ?_⟩
    rw [hzero hc, Nat.toDigits_zero] at heq
    exact (List.cons.inj heq).2.symm
  clear hall
  induction n using Nat.strongRecOn with
  | ind n ih =>
    by_cases hn : n < 10
    · exact ⟨n.digitChar, [], Nat.toDigits_of_lt_base hn, Nat.digitChar_eq_zero.mp⟩
    · obtain ⟨c, digits, heq, hzero⟩ := ih (n / 10) (by omega)
      refine ⟨c, digits ++ [(n % 10).digitChar], ?_, fun hc => ?_⟩
      · rw [Nat.toDigits_of_base_le (by decide) (not_lt.mp hn), heq, List.cons_append]
      · have := hzero hc
        omega

theorem scanDigits_all {digits : List Char} (h : ∀ d ∈ digits, d.isDigit = true) :
    scanDigits digits = (digits, []) := by
  rw [scanDigits, List.takeWhile_eq_self_iff.mpr h, List.dropWhile_eq_nil_iff.mpr h]

theorem isDigit_ne_minus {c : Char} (h : c.isDigit = true) : c ≠ '-' := by
  rintro rfl
  exact absurd h (by decide)

theorem scanInteger_digits {sign : List Char} (n : ℕ)
    (hsign : scanSign (· = '-') (sign ++ Nat.toDigits 10 n) = (sign, Nat.toDigits 10 n)) :
    scanInteger (sign ++ Nat.toDigits 10 n) = some (sign ++ Nat.toDigits 10 n, []) := by
  obtain ⟨c, digits, heq, hc, hdigits, hzero⟩ := exists_toDigits n
  rw [scanInteger, hsign, heq]
  dsimp only
  split_ifs with hc0
  · rw [hzero hc0, hc0]
  · rw [scanDigits_all hdigits]

theorem scanInteger_integerText (z : ℤ) :
    scanInteger (integerText z) = some (integerText z, []) := by
  cases z with
  | ofNat n =>
    refine @scanInteger_digits [] n ?_
    obtain ⟨c, digits, heq, hc, -, -⟩ := exists_toDigits n
    rw [List.nil_append, heq, scanSign, if_neg (by simpa using isDigit_ne_minus hc)]
  | negSucc n => exact @scanInteger_digits ['-'] (n + 1) rfl

theorem scanNumber_integerText (z : ℤ) :
    scanNumber (integerText z) = some (integerText z, [], []) := by
  rw [scanNumber, scanInteger_integerText]
  rfl

theorem readInteger_integerText (z : ℤ) : readInteger (integerText z) = z := by
  cases z with
  | ofNat n =>
    obtain ⟨c, digits, heq, hc, -, -⟩ := exists_toDigits n
    have hvalue : Nat.ofDigitChars 10 (Nat.toDigits 10 n) 0 = n := Nat.ofDigitChars_ten_toDigits
    rw [integerText, heq] at *
    rw [readInteger, hvalue]
    · rfl
    · exact fun _ h => isDigit_ne_minus hc (List.cons.inj h).1
  | negSucc n =>
    rw [integerText, readInteger, Nat.ofDigitChars_ten_toDigits]
    rfl

/-- The first character of a number. -/
theorem head_of_scanInteger {behind : List Char}
    (h : scanInteger text = some (integer, behind)) :
    ∃ c text', text = c :: text' ∧ (c = '-' ∨ c.isDigit = true) := by
  cases text with
  | nil => exact absurd h (by simp [scanInteger, scanSign])
  | cons c text =>
    refine ⟨c, text, rfl, or_iff_not_imp_left.mpr fun hc => ?_⟩
    rw [scanInteger, scanSign, if_neg (by simpa using hc)] at h
    dsimp only at h
    split_ifs at h with hzero hdigit
    · rw [hzero]
      rfl
    · exact hdigit

variable {read : List Char → F} {self : Reader F}

theorem word_cons_of_ne {c c' : Char} (h : c ≠ c') (w text : List Char) (x : Json F) :
    word (c :: w) x (c' :: text) = none := by
  rw [word, List.isPrefixOf_cons_cons, beq_eq_false_iff_ne.mpr h, Bool.false_and]
  rfl

theorem parseValue_scalar {c : Char} (hmark : c ≠ '"') (hlist : c ≠ '[') (hdict : c ≠ '{')
    (text : List Char) :
    parseValue read self (c :: text) = scanScalar read (c :: text) := by
  rw [parseValue]
  · exact fun _ h => hmark (List.cons.inj h).1
  · exact fun _ h => hlist (List.cons.inj h).1
  · exact fun _ h => hdict (List.cons.inj h).1

theorem parseValue_number (h : Stops rest) (hscan : scanNumber text = some (integer, part, [])) :
    parseValue read self (text ++ rest) =
      some (if part = [] then .int (readInteger integer) else .float (read (integer ++ part)),
        rest) := by
  obtain ⟨⟨_, _⟩, hinteger, -⟩ := Option.map_eq_some_iff.mp hscan
  obtain ⟨c, text, rfl, hc⟩ := head_of_scanInteger hinteger
  have hne : ∀ c', c' ≠ '-' → c'.isDigit = false → c ≠ c' := by
    rintro c' hminus hdigit rfl
    exact hc.elim hminus (Bool.eq_false_iff.mp hdigit)
  have hnumber : number read (c :: text ++ rest) =
      some (if part = [] then .int (readInteger integer) else .float (read (integer ++ part)),
        rest) := by
    rw [number, scanNumber_append h hscan]
    rfl
  rw [List.cons_append] at hnumber ⊢
  rw [parseValue_scalar (hne _ (by decide) (by decide)) (hne _ (by decide) (by decide))
    (hne _ (by decide) (by decide)), scanScalar, scalars]
  rw [List.findSome?_cons, word_cons_of_ne (hne _ (by decide) (by decide)).symm]
  dsimp only
  rw [List.findSome?_cons, word_cons_of_ne (hne _ (by decide) (by decide)).symm]
  dsimp only
  rw [List.findSome?_cons, word_cons_of_ne (hne _ (by decide) (by decide)).symm]
  dsimp only
  rw [List.findSome?_cons, hnumber]

end Numbers

end Json
