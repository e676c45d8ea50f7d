import GrAta.Library.LiteralStrings
import GrAta.Library.StringRepr
import GrAta.Library.Substitution
import GrAta.Observation.Descriptor

/-!
# The text of a descriptor

The script prints the descriptor as a literal of its own language and replaces single quotes,
`True` and `False` in the text, which makes another notation of most literals, but not of all.
The printer is a parameter. It prints a literal of the descriptor.

## Main definitions

- `jsonStr`: the replacements
- `pythonText`: the text of a literal
- `Portable`: what survives the replacements

## Main results

- `jsonStr_render`: the replacements act on the tokens
- `load_jsonStr_iff`: when a literal is read back from its text
-/

namespace GrAta.Observation

open Json Substitution StringRepr

variable {F : Type}

/-- The replacements in the printed text, one after another. -/
def jsonStr (text : List Char) : List Char :=
  let jsonStr := replaceAll ['\''] ['"'] text
  let jsonStr := replaceAll ['T', 'r', 'u', 'e'] ['t', 'r', 'u', 'e'] jsonStr
  replaceAll ['F', 'a', 'l', 's', 'e'] ['f', 'a', 'l', 's', 'e'] jsonStr

/-- The text of a literal in the language of the script. -/
def pythonText (host : Host F) (L : Layout F .value) : List Char :=
  L.render host (fun b => if b then ['T', 'r', 'u', 'e'] else ['F', 'a', 'l', 's', 'e'])
    (strRepr host.printable)

-- ════════════════════════════════════════════════════════════════════════
-- The replacements letter by letter
-- ════════════════════════════════════════════════════════════════════════

def swapQuote (c : Char) : Char := if c = '\'' then '"' else c

def lowerTrue (text : List Char) : List Char := mapHead 'T' 't' ['r', 'u', 'e'] text

def lowerFalse (text : List Char) : List Char := mapHead 'F' 'f' ['a', 'l', 's', 'e'] text

def lower (text : List Char) : List Char := lowerFalse (lowerTrue text)

theorem jsonStr_eq (text : List Char) : jsonStr text = lower (text.map swapQuote) := by
  rw [jsonStr, replaceAll_singleton, replaceAll_eq_mapHead (by decide),
    replaceAll_eq_mapHead (by decide)]
  rfl

/-- The text starts with no letter that can stand behind the first one of a word. -/
def Parted (text : List Char) : Prop := ∀ c ∈ text.head?, c ∉ ['r', 'u', 'e', 'a', 'l', 's']

theorem head_lowerTrue {text : List Char} {c : Char} (h : c ∈ (lowerTrue text).head?) :
    c ∈ text.head? ∨ c = 't' := by
  cases text with
  | nil => exact Or.inl h
  | cons c' text =>
    rw [lowerTrue, mapHead, List.head?_cons, Option.mem_some_iff] at h
    split_ifs at h
    · exact Or.inr h.symm
    · exact Or.inl (by rw [h]; rfl)

theorem lower_append {text : List Char} (h : Parted text) (front : List Char) :
    lower (front ++ text) = lower front ++ lower text := by
  have htrue : ∀ c ∈ text.head?, c ∉ ['r', 'u', 'e'] := fun c hc hmem =>
    h c hc ((by simp : ∀ c ∈ ['r', 'u', 'e'], c ∈ ['r', 'u', 'e', 'a', 'l', 's']) c hmem)
  have hfalse : ∀ c ∈ (lowerTrue text).head?, c ∉ ['a', 'l', 's', 'e'] := by
    intro c hc hmem
    rcases head_lowerTrue hc with hc | rfl
    · exact h c hc ((by simp : ∀ c ∈ ['a', 'l', 's', 'e'],
        c ∈ ['r', 'u', 'e', 'a', 'l', 's']) c hmem)
    · exact absurd hmem (by decide)
  rw [lower, lowerTrue, mapHead_append htrue]
  exact mapHead_append hfalse

theorem jsonStr_append {text : List Char} (h : Parted text) (front : List Char) :
    jsonStr (front ++ text) = jsonStr front ++ jsonStr text := by
  have hswap : Parted (text.map swapQuote) := by
    intro c hc
    rw [List.head?_map] at hc
    obtain ⟨c', hc', rfl⟩ := Option.map_eq_some_iff.mp hc
    unfold swapQuote
    split_ifs
    · decide
    · exact h c' hc'
  rw [jsonStr_eq, List.map_append, lower_append hswap, ← jsonStr_eq, ← jsonStr_eq]

/-- Characters that no replacement starts with stay. -/
theorem jsonStr_append_of_forall {front : List Char} (h : ∀ c ∈ front, c ∉ ['\'', 'T', 'F'])
    (text : List Char) : jsonStr (front ++ text) = front ++ jsonStr text := by
  have hswap : front.map swapQuote = front := by
    refine (List.map_congr_left fun c hc => ?_).trans (List.map_id front)
    rw [swapQuote, if_neg, id]
    rintro rfl
    exact h _ hc List.mem_cons_self
  have htrue : 'T' ∉ front := fun hT => h 'T' hT (by decide)
  have hfalse : 'F' ∉ front := fun hF => h 'F' hF (by decide)
  rw [jsonStr_eq, jsonStr_eq, List.map_append, hswap, lower, lowerTrue,
    mapHead_append_of_not_mem htrue, lowerFalse, mapHead_append_of_not_mem hfalse]
  rfl

theorem jsonStr_nil : jsonStr [] = [] := rfl

theorem jsonStr_eq_self {text : List Char} (h : ∀ c ∈ text, c ∉ ['\'', 'T', 'F']) :
    jsonStr text = text := by
  have := jsonStr_append_of_forall h []
  rwa [List.append_nil, jsonStr_nil, List.append_nil] at this

-- ════════════════════════════════════════════════════════════════════════
-- The tokens
-- ════════════════════════════════════════════════════════════════════════

theorem isNumeral_stays {c : Char} (h : IsNumeral c) : c ∉ ['\'', 'T', 'F'] := by
  intro hmem
  simp only [List.mem_cons, List.not_mem_nil, or_false] at hmem
  rcases hmem with rfl | rfl | rfl <;> exact absurd h (by unfold IsNumeral; decide)

theorem blank_stays (b : Blank) : ∀ c ∈ b.1, c ∉ ['\'', 'T', 'F'] := by
  intro c hc
  rcases b.2 c hc with rfl | rfl <;> decide

theorem parted_blank (b : Blank) {c : Char} (h : c ∉ ['r', 'u', 'e', 'a', 'l', 's'])
    (text : List Char) : Parted (b.1 ++ c :: text) := by
  intro c' hc'
  obtain ⟨b, hb⟩ := b
  cases b with
  | nil => rwa [Option.mem_some_iff.mp hc'] at h
  | cons d b =>
    obtain rfl := Option.mem_some_iff.mp hc'
    rcases hb d List.mem_cons_self with rfl | rfl <;> decide

section Tokens

variable {host : Host F} {bool : Bool → List Char} {str : List Char → List Char}

theorem parted_items (L : Layout F .items) : Parted (L.render host bool str) := by
  cases L with
  | endList b => exact parted_blank b (by decide) []
  | item b x tail => exact parted_blank ⟨[], List.forall_mem_nil _⟩ (by decide) _

theorem parted_entries (L : Layout F .entries) : Parted (L.render host bool str) := by
  cases L with
  | endDict b => exact parted_blank b (by decide) []
  | entry b k gap x tail => exact parted_blank ⟨[], List.forall_mem_nil _⟩ (by decide) _

theorem parted_colon (gap : Blank) (text : List Char) : Parted (':' :: gap.1 ++ text) :=
  parted_blank ⟨[], List.forall_mem_nil _⟩ (by decide) _

theorem quoteOf_not_mem (s : List Char) : quoteOf s ∉ ['r', 'u', 'e', 'a', 'l', 's'] := by
  unfold quoteOf
  split_ifs <;> decide

theorem bracket_stays (b : Blank) :
    ∀ c ∈ ['[', '{', ',', ':'], ∀ c' ∈ c :: b.1, c' ∉ ['\'', 'T', 'F'] := by
  intro c hc
  refine List.forall_mem_cons.mpr ⟨?_, blank_stays b⟩
  revert c
  simp

/-- The pieces of a string behind the first one. -/
theorem jsonStr_pieces (printable : Char → Bool) (more : List (Blank × List Char)) :
    Parted (more.flatMap fun p => p.1.1 ++ strRepr printable p.2) ∧
      jsonStr (more.flatMap fun p => p.1.1 ++ strRepr printable p.2) =
        more.flatMap fun p => p.1.1 ++ jsonStr (strRepr printable p.2) := by
  induction more with
  | nil => exact ⟨fun c hc => absurd hc (by simp), rfl⟩
  | cons piece more ih =>
    rw [List.flatMap_cons, List.flatMap_cons, List.append_assoc]
    refine ⟨parted_blank piece.1 (quoteOf_not_mem piece.2) _, ?_⟩
    rw [jsonStr_append_of_forall (blank_stays piece.1), jsonStr_append ih.1, ih.2,
      List.append_assoc]

/-- The replacements act on the tokens one by one. -/
theorem jsonStr_render {p : Part} (L : Layout F p) :
    jsonStr (L.render host
        (fun b => if b then ['T', 'r', 'u', 'e'] else ['F', 'a', 'l', 's', 'e'])
        (strRepr host.printable)) =
      L.render host boolText fun s => jsonStr (strRepr host.printable s) := by
  induction L with
  | none => rfl
  | bool b => cases b <;> rfl
  | int z => exact jsonStr_eq_self fun c hc => isNumeral_stays (Layout.integerText_numeral z c hc)
  | float x =>
    refine jsonStr_eq_self fun c hc => ?_
    rcases Layout.repr_chars host x c hc with h | h
    · exact isNumeral_stays h
    · exact (by simp : ∀ c ∈ ['n', 'a', 'i', 'f'], c ∉ ['\'', 'T', 'F']) c h
  | str first more =>
    obtain ⟨hparted, hpieces⟩ := jsonStr_pieces host.printable more
    rw [Layout.render, jsonStr_append hparted, hpieces]
    rfl
  | emptyList b => exact jsonStr_append_of_forall (bracket_stays b '[' (by decide)) [']']
  | list b x tail ihx ihtail =>
    rw [Layout.render, jsonStr_append_of_forall (bracket_stays b '[' (by decide)),
      jsonStr_append (parted_items tail), ihx, ihtail]
    rfl
  | emptyDict b => exact jsonStr_append_of_forall (bracket_stays b '{' (by decide)) ['}']
  | dict b k gap x tail ihx ihtail =>
    rw [Layout.render, jsonStr_append_of_forall (bracket_stays b '{' (by decide)),
      List.append_assoc, jsonStr_append (parted_colon gap _),
      jsonStr_append_of_forall (bracket_stays gap ':' (by decide)),
      jsonStr_append (parted_entries tail), ihx, ihtail]
    exact congrArg ('{' :: b.1 ++ ·) (List.append_assoc _ _ _).symm
  | endList b => exact jsonStr_append_of_forall (blank_stays b) [']']
  | item b x tail ihx ihtail =>
    rw [Layout.render, jsonStr_append_of_forall (bracket_stays b ',' (by decide)),
      jsonStr_append (parted_items tail), ihx, ihtail]
    rfl
  | endDict b => exact jsonStr_append_of_forall (blank_stays b) ['}']
  | entry b k gap x tail ihx ihtail =>
    rw [Layout.render, jsonStr_append_of_forall (bracket_stays b ',' (by decide)),
      List.append_assoc, jsonStr_append (parted_colon gap _),
      jsonStr_append_of_forall (bracket_stays gap ':' (by decide)),
      jsonStr_append (parted_entries tail), ihx, ihtail]
    exact congrArg (',' :: b.1 ++ ·) (List.append_assoc _ _ _).symm

end Tokens

-- ════════════════════════════════════════════════════════════════════════
-- The tokens of strings
-- ════════════════════════════════════════════════════════════════════════

section Strings

variable {printable : Char → Bool} {s : List Char}

/-- The letters of the words are written as they are. -/
theorem escape_letter (printable : Char → Bool) :
    ∀ c ∈ ['T', 'F', 't', 'f', 'r', 'u', 'e', 'a', 'l', 's'], escape printable '\'' c = [c] := by
  intro c hc
  simp only [List.mem_cons, List.not_mem_nil, or_false] at hc
  rcases hc with rfl | rfl | rfl | rfl | rfl | rfl | rfl | rfl | rfl | rfl <;> rfl

/-- A character is written as it is, or behind a backslash without capital letters of the words
that are replaced. -/
theorem escape_cases (printable : Char → Bool) (c : Char) : escape printable '\'' c = [c] ∨
    ∃ e, escape printable '\'' c = '\\' :: e ∧ ∀ c' ∈ e, c' ∉ ['T', 'F'] := by
  have h := escaped_escape printable '\'' c
  generalize escape printable '\'' c = t at h
  cases h with
  | mark hmark =>
    refine Or.inr ⟨_, rfl, List.forall_mem_singleton.mpr ?_⟩
    rcases hmark with rfl | rfl <;> decide
  | letter he _ _ =>
    refine Or.inr ⟨_, rfl, List.forall_mem_singleton.mpr ?_⟩
    exact (by simp : ∀ e ∈ ['t', 'n', 'r'], e ∉ ['T', 'F']) _ he
  | plain => exact Or.inl rfl
  | code hdigits _ _ _ =>
    refine Or.inr ⟨_, rfl, List.forall_mem_cons.mpr ⟨by decide, fun d hd => ?_⟩⟩
    exact (by simp [hexDigits] : ∀ d ∈ hexDigits, d ∉ ['T', 'F']) d (hdigits d hd)
  | refused he hdigits _ =>
    refine Or.inr ⟨_, rfl, List.forall_mem_cons.mpr ⟨?_, fun d hd => ?_⟩⟩
    · exact (by simp : ∀ e ∈ ['x', 'U'], e ∉ ['T', 'F']) _ he
    · exact (by simp [hexDigits] : ∀ d ∈ hexDigits, d ∉ ['T', 'F']) d (hdigits d hd)

/-- The words are replaced in the string itself. -/
theorem lower_flatMap_escape (printable : Char → Bool) (s : List Char) :
    lower (s.flatMap (escape printable '\'')) = (lower s).flatMap (escape printable '\'') := by
  have hother : ∀ a ∈ ['T', 'F'], ∀ w : List Char, '\\' ∉ w → ∀ c, escape printable '\'' c = [c] ∨
      ∃ d e, escape printable '\'' c = d :: e ∧ d ∉ w ∧ a ∉ d :: e := by
    intro a ha w hw c
    refine (escape_cases printable c).imp_right fun ⟨e, he, hcapital⟩ => ⟨'\\', e, he, hw, ?_⟩
    intro hmem
    rcases List.mem_cons.mp hmem with rfl | hmem
    · exact absurd ha (by decide)
    · exact hcapital a hmem ha
  have hword : ∀ u : List Char, (∀ c ∈ u, c ∈ ['T', 'F', 't', 'f', 'r', 'u', 'e', 'a', 'l', 's']) →
      ∀ c ∈ u, escape printable '\'' c = [c] :=
    fun u hu c hc => escape_letter printable c (hu c hc)
  rw [lower, lowerTrue,
    mapHead_flatMap (hword _ (by simp)) (hother 'T' (by decide) _ (by decide)), lowerFalse,
    mapHead_flatMap (hword _ (by simp)) (hother 'F' (by decide) _ (by decide))]
  rfl

/-- The other characters of a representation. -/
theorem mem_escape {c c' : Char} (h : c' ∈ escape printable '\'' c) :
    c' = c ∨ c' = '\\' ∨ c' ∈ ['t', 'n', 'r', 'u', 'x', 'U'] ∨ c' ∈ hexDigits := by
  have he := escaped_escape printable '\'' c
  generalize escape printable '\'' c = t at h he
  cases he with
  | mark =>
    simp only [List.mem_cons, List.not_mem_nil, or_false] at h
    exact h.elim (Or.inr ∘ Or.inl) Or.inl
  | letter he _ _ =>
    rcases List.mem_cons.mp h with h | h
    · exact Or.inr (Or.inl h)
    · have hletters : ∀ e ∈ ['t', 'n', 'r'], e ∈ ['t', 'n', 'r', 'u', 'x', 'U'] := by simp
      rw [List.mem_singleton.mp h]
      exact Or.inr (Or.inr (Or.inl (hletters _ he)))
  | plain => exact Or.inl (List.mem_singleton.mp h)
  | code hdigits _ _ _ =>
    rcases List.mem_cons.mp h with h | h
    · exact Or.inr (Or.inl h)
    rcases List.mem_cons.mp h with rfl | h
    · exact Or.inr (Or.inr (Or.inl (by decide)))
    · exact Or.inr (Or.inr (Or.inr (hdigits _ h)))
  | refused he hdigits _ =>
    rcases List.mem_cons.mp h with h | h
    · exact Or.inr (Or.inl h)
    have hletters : ∀ e ∈ ['x', 'U'], e ∈ ['t', 'n', 'r', 'u', 'x', 'U'] := by simp
    rcases List.mem_cons.mp h with rfl | h
    · exact Or.inr (Or.inr (Or.inl (hletters _ he)))
    · exact Or.inr (Or.inr (Or.inr (hdigits _ h)))

/-- The token of a string without single quotes. -/
theorem jsonStr_strRepr (h : '\'' ∉ s) :
    jsonStr (strRepr printable s) =
      '"' :: ((lower s).flatMap (escape printable '\'') ++ ['"']) := by
  have hquote : quoteOf s = '\'' := if_neg fun hboth => h hboth.1
  have hswap : (s.flatMap (escape printable '\'')).map swapQuote =
      s.flatMap (escape printable '\'') := by
    refine (List.map_congr_left fun c hc => ?_).trans (List.map_id _)
    obtain ⟨c', hc', hmem⟩ := List.mem_flatMap.mp hc
    rw [swapQuote, if_neg, id]
    rintro rfl
    rcases mem_escape hmem with rfl | hmem
    · exact h hc'
    · exact absurd hmem (by decide)
  have hparted : Parted ['"'] := by
    intro c hc
    rw [← Option.mem_some_iff.mp hc]
    decide
  rw [strRepr, hquote, jsonStr_eq, List.map_cons, List.map_append, hswap, ← List.cons_append]
  change lower (['"'] ++ s.flatMap (escape printable '\'') ++ ['"']) = _
  rw [lower_append hparted, lower, lowerTrue, mapHead_append_of_not_mem (by decide), lowerFalse,
    mapHead_append_of_not_mem (by decide), ← lowerTrue, ← lowerFalse, ← lower,
    lower_flatMap_escape]
  rfl

/-- The strings that the reader takes from the tokens. -/
def decoded (host : Host F) (s : List Char) : Option (List Char) :=
  if AllReadable host.printable (lower s) then some (lower s) else none

theorem not_mem_lower {q : Char} (hq : q ∉ ['t', 'f']) (h : q ∉ s) : q ∉ lower s := by
  intro hmem
  rcases mem_mapHead hmem with rfl | hmem
  · exact hq (by decide)
  rcases mem_mapHead hmem with rfl | hmem
  · exact hq (by decide)
  · exact h hmem

theorem token_jsonStr {host : Host F} (hsingle : '\'' ∉ s) (hdouble : '"' ∉ s) :
    Layout.Token (fun s => jsonStr (strRepr host.printable s)) (decoded host) s := by
  refine ⟨_, jsonStr_strRepr hsingle, fun rest => ?_⟩
  rw [List.append_assoc, List.singleton_append,
    scanString_flatMap_escape (not_mem_lower (by decide) hsingle)
      (not_mem_lower (by decide) hdouble), decoded]
  split_ifs <;> rfl

/-- The replacement of a letter that is no part of a code keeps the escapes whole. -/
theorem aligned_mapHead {q a b : Char} {w text : List Char} (ha : a ∉ '\\' :: 'u' :: hexDigits)
    (hslash : b ≠ '\\') (hu : b ≠ 'u') (hq : b ≠ q) (hsimple : simpleEscape b ≠ some q)
    (h : Aligned q text) : Aligned q (mapHead a b w text) := by
  induction h with
  | nil => exact Aligned.nil
  | @plain c text hc hmark _ ih =>
    obtain ⟨c', hc', hcases⟩ := exists_mapHead_cons (a := a) (b := b) (w := w) c text
    rw [hc']
    rcases hcases with rfl | ⟨-, rfl⟩
    · exact Aligned.plain hc hmark ih
    · exact Aligned.plain hslash (fun h => absurd h hq) ih
  | @simple e text he hvalue _ ih =>
    have hfirst : a ∉ ['\\'] := fun hmem =>
      ha (List.mem_cons.mpr (Or.inl (List.mem_singleton.mp hmem)))
    obtain ⟨e', he', hcases⟩ := exists_mapHead_cons (a := a) (b := b) (w := w) e text
    have heq : mapHead a b w ('\\' :: e :: text) = '\\' :: e' :: mapHead a b w text := by
      rw [← he']
      exact mapHead_append_of_not_mem hfirst _
    rw [heq]
    rcases hcases with rfl | ⟨-, rfl⟩
    · exact Aligned.simple he hvalue ih
    · exact Aligned.simple hu hsimple ih
  | @code d₁ d₂ d₃ d₄ e text hdigits hvalue hne _ ih =>
    have hnot : a ∉ ['\\', 'u', d₁, d₂, d₃, d₄] := by
      intro hmem
      rcases List.mem_cons.mp hmem with rfl | hmem
      · exact ha (by decide)
      rcases List.mem_cons.mp hmem with rfl | hmem
      · exact ha (by decide)
      · exact ha (List.mem_cons_of_mem _ (List.mem_cons_of_mem _ (hdigits a hmem)))
    have heq : mapHead a b w ('\\' :: 'u' :: d₁ :: d₂ :: d₃ :: d₄ :: text) =
        '\\' :: 'u' :: d₁ :: d₂ :: d₃ :: d₄ :: mapHead a b w text :=
      mapHead_append_of_not_mem hnot text
    rw [heq]
    exact Aligned.code hdigits hvalue hne ih

theorem aligned_lower {q : Char} (hq : q = '\'' ∨ q = '"') {text : List Char}
    (h : Aligned q text) : Aligned q (lower text) := by
  refine aligned_mapHead (by decide) (by decide) (by decide) ?_ ?_
    (aligned_mapHead (by decide) (by decide) (by decide) ?_ ?_ h)
  all_goals rcases hq with rfl | rfl <;> decide

theorem swapQuote_hexDigit {d : Char} (h : d ∈ hexDigits) :
    swapQuote d = d ∧ d ≠ '\\' ∧ d ≠ '"' ∧ d ≠ '\'' := by
  have hall : ∀ d ∈ hexDigits, swapQuote d = d ∧ d ≠ '\\' ∧ d ≠ '"' ∧ d ≠ '\'' := by
    simp [hexDigits, swapQuote]
  exact hall d h

theorem map_swapQuote_digits {digits : List Char} (h : ∀ d ∈ digits, d ∈ hexDigits) :
    digits.map swapQuote = digits :=
  (List.map_congr_left fun d hd => (swapQuote_hexDigit (h d hd)).1).trans (List.map_id _)

theorem aligned_swap_plain {q c : Char} (hmem : q = '\'' ∨ q = '"') (hslash : c ≠ '\\') :
    Aligned q [swapQuote c] := by
  refine Aligned.plain ?_ ?_ Aligned.nil
  · rw [swapQuote]
    split_ifs
    · decide
    · exact hslash
  · rintro rfl
    rcases hmem with h | h
    · rw [swapQuote] at h
      split_ifs at h with hc
      · exact absurd h (by decide)
      · exact absurd h hc
    · exact h

theorem aligned_digits {q : Char} {digits : List Char} (hmem : q = '\'' ∨ q = '"')
    (h : ∀ d ∈ digits, d ∈ hexDigits) : Aligned q digits := by
  refine Aligned.of_plain fun d hd => ?_
  obtain ⟨-, hslash, hdouble, hsingle⟩ := swapQuote_hexDigit (h d hd)
  refine ⟨hslash, ?_⟩
  rintro rfl
  exact hmem.elim (fun h => absurd h hsingle) id

/-- The token of a string after the replacement of the quotes. -/
theorem aligned_swap_escape {q quote c : Char} (hquote : quote = '\'' ∨ quote = '"')
    (hq : q = '\'' ∨ q = '"' ∧ c ≠ quote) :
    Aligned q ((escape printable quote c).map swapQuote) := by
  have hmem : q = '\'' ∨ q = '"' := hq.imp_right And.left
  have h := escaped_escape printable quote c
  generalize escape printable quote c = t at h
  cases h with
  | mark hmark =>
    have hvalue : swapQuote c ≠ 'u' ∧ simpleEscape (swapQuote c) ≠ some q := by
      rcases hmark with rfl | rfl
      · obtain rfl := hq.resolve_right fun h => h.2 rfl
        rcases hquote with rfl | rfl <;> decide
      · rcases hmem with rfl | rfl <;> decide
    exact Aligned.simple hvalue.1 hvalue.2 Aligned.nil
  | letter he _ _ =>
    simp only [List.mem_cons, List.not_mem_nil, or_false] at he
    rcases he with rfl | rfl | rfl <;> rcases hmem with rfl | rfl <;>
      exact Aligned.simple (by decide) (by decide) Aligned.nil
  | plain _ hslash _ _ => exact aligned_swap_plain hmem hslash
  | code hdigits hvalue hcode _ =>
    rw [List.map_cons, List.map_cons, map_swapQuote_digits hdigits]
    refine Aligned.code hdigits hvalue ?_ Aligned.nil
    rintro rfl
    rcases hmem with rfl | rfl <;> exact absurd hcode (by decide)
  | @refused e digits he hdigits _ =>
    have hkind : ∀ e ∈ ['x', 'U'], swapQuote e = e ∧ e ≠ 'u' ∧ simpleEscape e = none := by
      simp [swapQuote, simpleEscape]
    obtain ⟨hswap, hu, hnone⟩ := hkind e he
    rw [List.map_cons, List.map_cons, hswap, map_swapQuote_digits hdigits]
    refine Aligned.simple hu (fun h => ?_) (aligned_digits hmem hdigits)
    rw [hnone] at h
    exact absurd h (by simp)

theorem aligned_jsonStr_strRepr {q : Char} (hq : q = '\'' ∨ q = '"' ∧ '\'' ∉ s) :
    Aligned q (jsonStr (strRepr printable s)) := by
  have hmem : q = '\'' ∨ q = '"' := hq.imp_right And.left
  have hquote : quoteOf s = '\'' ∨ quoteOf s = '"' := by
    unfold quoteOf
    split_ifs
    · exact Or.inr rfl
    · exact Or.inl rfl
  have hmark : Aligned q ['"'] := Aligned.plain (by decide) (fun _ => rfl) Aligned.nil
  have hswap : swapQuote (quoteOf s) = '"' := by
    rcases hquote with h | h <;> rw [h] <;> rfl
  have hbody : ∀ t : List Char, (∀ c ∈ t, c ∈ s) →
      Aligned q ((t.flatMap (escape printable (quoteOf s))).map swapQuote) := by
    intro t ht
    induction t with
    | nil => exact Aligned.nil
    | cons c t ih =>
      obtain ⟨hc, ht⟩ := List.forall_mem_cons.mp ht
      rw [List.flatMap_cons, List.map_append]
      refine (aligned_swap_escape hquote (hq.imp_right fun ⟨h, hs⟩ => ⟨h, ?_⟩)).append (ih ht)
      rw [quoteOf, if_neg fun hboth => hs hboth.1]
      rintro rfl
      exact hs hc
  rw [jsonStr_eq, strRepr, List.map_cons, List.map_append, List.map_singleton, hswap]
  exact aligned_lower hmem (hmark.append ((hbody s fun _ h => h).append hmark))

-- ════════════════════════════════════════════════════════════════════════
-- What is read back
-- ════════════════════════════════════════════════════════════════════════

/-- The replaced words do not stand in the string. -/
def WordFree : Json F → Prop
  | .str s => ¬['T', 'r', 'u', 'e'] <:+: s.toList ∧ ¬['F', 'a', 'l', 's', 'e'] <:+: s.toList
  | _ => True

/-- Nothing is lost of a value: no `None`, no float that is not finite, and no string with
quotes, with one of the words or with a character that the other notation has no escape for. -/
def Portable (host : Host F) : Json F → Prop
  | .null => False
  | .float x => host.finite x = true
  | .str s => (∀ c ∈ s.toList, c ≠ '\'' ∧ c ≠ '"' ∧ Readable host.printable c) ∧
      ¬['T', 'r', 'u', 'e'] <:+: s.toList ∧ ¬['F', 'a', 'l', 's', 'e'] <:+: s.toList
  | _ => True

instance (host : Host F) : DecidablePred (Portable host)
  | .null => isFalse id
  | .float x => inferInstanceAs (Decidable (host.finite x = true))
  | .str s => @instDecidableAnd _ _ (List.decidableBAll _ s.toList) inferInstance
  | .bool _ => isTrue trivial
  | .int _ => isTrue trivial
  | .arr _ => isTrue trivial
  | .obj _ => isTrue trivial

theorem wordFree_lower (s : List Char) : WordFree (F := F) (.str (String.ofList (lower s))) := by
  rw [WordFree, String.toList_ofList]
  refine ⟨fun h => ?_, not_infix_mapHead (by decide) (by decide) _⟩
  exact not_infix_mapHead (by decide) (by decide) s (infix_of_infix_mapHead (by decide) h)

theorem lower_eq_self (htrue : ¬['T', 'r', 'u', 'e'] <:+: s)
    (hfalse : ¬['F', 'a', 'l', 's', 'e'] <:+: s) : lower s = s := by
  rw [lower, lowerTrue, mapHead_eq_self htrue]
  exact mapHead_eq_self hfalse

/-- A text without the replacing words is what it was before. -/
theorem eq_of_lower_eq {t : List Char} (h : lower s = t) (htrue : ¬['t', 'r', 'u', 'e'] <:+: t)
    (hfalse : ¬['f', 'a', 'l', 's', 'e'] <:+: t) : s = t := by
  have hTrue : ¬['T', 'r', 'u', 'e'] <:+: s := fun hs => htrue (h ▸
    infix_mapHead (by decide) (occurs_mapHead (by decide) hs))
  have hFalse : ¬['F', 'a', 'l', 's', 'e'] <:+: s := fun hs => hfalse (by
    rw [← h, lower, lowerTrue, mapHead_eq_self hTrue]
    exact occurs_mapHead (by decide) hs)
  rw [← h, lower_eq_self hTrue hFalse]

theorem mem_lower_of_ne {c : Char} (h : c ∈ s) (htrue : c ≠ 'T') (hfalse : c ≠ 'F') :
    c ∈ lower s :=
  mem_mapHead_of_ne (mem_mapHead_of_ne h htrue) hfalse

/-- The letters of the words are readable. -/
theorem allReadable_lower : AllReadable printable (lower s) ↔ AllReadable printable s := by
  have hletters : ∀ c ∈ ['T', 'F', 't', 'f'], Readable printable c := by
    intro c hc
    simp only [List.mem_cons, List.not_mem_nil, or_false] at hc
    rcases hc with rfl | rfl | rfl | rfl <;> exact Or.inr (Or.inl (by decide))
  constructor
  · intro h c hc
    by_cases htrue : c = 'T'
    · exact hletters c (by simp [htrue])
    by_cases hfalse : c = 'F'
    · exact hletters c (by simp [hfalse])
    exact h c (mem_lower_of_ne hc htrue hfalse)
  · intro h c hc
    rcases mem_mapHead hc with rfl | hc
    · exact hletters 'f' (by simp)
    rcases mem_mapHead hc with rfl | hc
    · exact hletters 't' (by simp)
    exact h c hc

theorem everyPiece_not_mem {q : Char} (L : Layout F .value) (h : L.value.Every (Without q)) :
    L.EveryPiece fun s => q ∉ s := by
  refine Layout.everyPiece_of_every (P := Without q) (fun s t hts hs => ?_) L h
  rw [Without, String.toList_ofList] at hs
  exact fun ht => hs (hts.subset ht)

theorem decoded_of_portable {host : Host F}
    (h : Portable host (.str (String.ofList s))) : decoded host s = some s := by
  rw [Portable, String.toList_ofList] at h
  obtain ⟨hchars, htrue, hfalse⟩ := h
  rw [decoded, lower_eq_self htrue hfalse]
  exact if_pos fun c hc => (hchars c hc).2.2

variable (host : Host F) (L : Layout F .value)

theorem load_jsonStr_of_portable (hsorted : L.value.Sorted) (hwhole : L.Whole)
    (h : L.value.Every (Portable host)) :
    load host.read (jsonStr (pythonText host L)) = some L.value := by
  have htokens : L.EveryPiece
      (Layout.Token (fun s => jsonStr (strRepr host.printable s)) (decoded host)) := by
    refine Layout.everyPiece_of_every (P := Portable host) (fun s t hts hs => ?_) L h
    rw [Portable, String.toList_ofList] at hs
    exact token_jsonStr (fun ht => (hs.1 _ (hts.subset ht)).1 rfl)
      fun ht => (hs.1 _ (hts.subset ht)).2.1 rfl
  rw [pythonText, jsonStr_render, Layout.load_render host L htokens]
  exact Layout.decode_eq_value (P := Portable host) id (fun _ => id)
    (fun s => decoded_of_portable) L hwhole h hsorted

theorem portable_of_load (hload : load host.read (jsonStr (pythonText host L)) = some L.value) :
    L.Whole ∧ L.value.Every (Portable host) := by
  rw [pythonText, jsonStr_render] at hload
  -- no single quote is read from the text, since no one is left in it
  have hsingle : L.EveryPiece fun s => '\'' ∉ s := by
    refine everyPiece_not_mem L (load_every (Aligned.invariant '\'') ?_ hload)
    exact Layout.aligned_render (Or.inl rfl) L
      (Layout.everyPiece_of_forall (fun s => aligned_jsonStr_strRepr (Or.inl rfl)) L)
  -- without single quotes in the strings no double one is read either
  have hdouble : L.EveryPiece fun s => '"' ∉ s := by
    refine everyPiece_not_mem L (load_every (Aligned.invariant '"') ?_ hload)
    exact Layout.aligned_render (Or.inr rfl) L
      (hsingle.imp fun s hs => aligned_jsonStr_strRepr (Or.inr ⟨rfl, hs⟩))
  have htokens : L.EveryPiece
      (Layout.Token (fun s => jsonStr (strRepr host.printable s)) (decoded host)) :=
    (hsingle.and hdouble).imp fun s hs => token_jsonStr hs.1 hs.2
  rw [Layout.load_render host L htokens] at hload
  have hfree : L.value.Every WordFree := by
    refine Layout.every_of_decode (p := .value) (fun s t ht => ?_) (fun _ => trivial)
      (fun _ => trivial) (fun _ => trivial) (fun _ => trivial) (fun _ => trivial) L hload
    rw [decoded] at ht
    split_ifs at ht
    rw [← Option.some.inj ht]
    exact wordFree_lower s
  have hpieces : L.EveryPiece fun s => WordFree (F := F) (.str (String.ofList s)) := by
    refine Layout.everyPiece_of_every (P := WordFree) (fun s t hts hs => ?_) L hfree
    rw [WordFree, String.toList_ofList] at hs ⊢
    exact ⟨fun h => hs.1 (h.trans hts), fun h => hs.2 (h.trans hts)⟩
  refine Layout.every_value_of_decode (p := .value) (fun s hs hsome => ?_) (fun _ => trivial)
    (fun _ => trivial) (fun _ => id) (fun _ => trivial) (fun _ => trivial) L
    ((hsingle.and hdouble).and hpieces) hload
  obtain ⟨⟨hs', hd'⟩, hwords⟩ := hs
  rw [WordFree, String.toList_ofList] at hwords
  rw [decoded, lower_eq_self hwords.1 hwords.2] at hsome
  rw [Portable, String.toList_ofList]
  refine ⟨fun c hc => ⟨fun h => hs' (h ▸ hc), fun h => hd' (h ▸ hc), ?_⟩, hwords⟩
  by_contra hread
  rw [if_neg fun hall => hread (hall c hc)] at hsome
  exact absurd hsome (by simp)

/-- A literal is read back from its text if all of its strings stand in one piece and nothing of
its value is lost. -/
theorem load_jsonStr_iff (hsorted : L.value.Sorted) :
    load host.read (jsonStr (pythonText host L)) = some L.value ↔
      L.Whole ∧ L.value.Every (Portable host) :=
  ⟨portable_of_load host L, fun h => load_jsonStr_of_portable host L hsorted h.1 h.2⟩

end Strings

end GrAta.Observation
