import GrAta.Library.JsonInvariant

/-!
# The representation of strings

A string between quotes, with escapes for the quote, the backslash and everything that is not
printed as it is. The quotes are single ones, unless there are single ones and no double ones
inside.

## Main definitions

- `escape`, `strRepr`: the representation
- `Readable`: the characters whose representation the reader of `Json` accepts

## Main results

- `scanString_escape`: how the reader takes a character
- `scanString_flatMap_escape`: how it takes a string without quotes inside
-/

namespace StringRepr

open Json

/-- The last `k` hexadecimal digits of a number. -/
def hex : ℕ → ℕ → List Char
  | 0, _ => []
  | k + 1, n => hex k (n / 16) ++ [Nat.digitChar (n % 16)]

/-- A character between quotes, where `printable` decides beyond ASCII. -/
def escape (printable : Char → Bool) (quote c : Char) : List Char :=
  if c = quote ∨ c = '\\' then ['\\', c]
  else if c = '\t' then ['\\', 't']
  else if c = '\n' then ['\\', 'n']
  else if c = '\r' then ['\\', 'r']
  else if c.toNat < 32 ∨ c.toNat = 127 then '\\' :: 'x' :: hex 2 c.toNat
  else if c.toNat < 127 ∨ printable c then [c]
  else if c.toNat ≤ 255 then '\\' :: 'x' :: hex 2 c.toNat
  else if c.toNat ≤ 65535 then '\\' :: 'u' :: hex 4 c.toNat
  else '\\' :: 'U' :: hex 8 c.toNat

def quoteOf (s : List Char) : Char := if '\'' ∈ s ∧ '"' ∉ s then '"' else '\''

/-- `repr(s)` -/
def strRepr (printable : Char → Bool) (s : List Char) : List Char :=
  quoteOf s :: (s.flatMap (escape printable (quoteOf s)) ++ [quoteOf s])

/-- The representation of the character is one for the reader, too. -/
def Readable (printable : Char → Bool) (c : Char) : Prop :=
  c ∈ ['\\', '\t', '\n', '\r'] ∨ 32 ≤ c.toNat ∧ c.toNat < 127 ∨ 127 < c.toNat ∧ printable c = true ∨
    255 < c.toNat ∧ c.toNat ≤ 65535

instance (printable : Char → Bool) : DecidablePred (Readable printable) := fun _ =>
  inferInstanceAs (Decidable (_ ∨ _))

def AllReadable (printable : Char → Bool) (s : List Char) : Prop :=
  ∀ c ∈ s, Readable printable c

instance (printable : Char → Bool) : DecidablePred (AllReadable printable) := fun s =>
  List.decidableBAll (Readable printable) s

variable {printable : Char → Bool}

/-- What the representation of a character can be. -/
inductive Escaped (printable : Char → Bool) (quote c : Char) : List Char → Prop
  | mark : c = quote ∨ c = '\\' → Escaped printable quote c ['\\', c]
  | letter {e : Char} : e ∈ ['t', 'n', 'r'] → simpleEscape e = some c →
      Readable printable c → Escaped printable quote c ['\\', e]
  | plain : c ≠ quote → c ≠ '\\' → 32 ≤ c.toNat → Readable printable c →
      Escaped printable quote c [c]
  | code {d₁ d₂ d₃ d₄ : Char} : (∀ d ∈ [d₁, d₂, d₃, d₄], d ∈ hexDigits) →
      codeEscape d₁ d₂ d₃ d₄ = some c → 255 < c.toNat → Readable printable c →
      Escaped printable quote c ['\\', 'u', d₁, d₂, d₃, d₄]
  | refused {e : Char} {digits : List Char} : e ∈ ['x', 'U'] → (∀ d ∈ digits, d ∈ hexDigits) →
      ¬Readable printable c → Escaped printable quote c ('\\' :: e :: digits)

theorem digitChar_mem_hexDigits {d : ℕ} (h : d < 16) : d.digitChar ∈ hexDigits := by
  revert d
  decide

theorem hexValue_digitChar {d : ℕ} (h : d < 16) : hexValue d.digitChar = some d := by
  revert d
  decide

theorem mem_hexDigits_of_mem_hex {k n : ℕ} {d : Char} (h : d ∈ hex k n) : d ∈ hexDigits := by
  induction k generalizing n with
  | zero => exact absurd h List.not_mem_nil
  | succ k ih =>
    rcases List.mem_append.mp h with h | h
    · exact ih h
    · rw [List.mem_singleton.mp h]
      exact digitChar_mem_hexDigits (Nat.mod_lt n (by decide))

/-- The code of a character is read from its last four digits. -/
theorem codeEscape_hex {c : Char} (h : c.toNat ≤ 65535) :
    ∃ d₁ d₂ d₃ d₄, hex 4 c.toNat = [d₁, d₂, d₃, d₄] ∧ codeEscape d₁ d₂ d₃ d₄ = some c := by
  refine ⟨_, _, _, _, rfl, ?_⟩
  have hcode : ((c.toNat / 16 / 16 / 16 % 16 * 16 + c.toNat / 16 / 16 % 16) * 16 +
      c.toNat / 16 % 16) * 16 + c.toNat % 16 = c.toNat := by omega
  have hvalid : c.toNat.isValidChar := c.valid
  simp only [codeEscape, codeUnit, hexValue_digitChar (Nat.mod_lt _ (by decide : 0 < 16)),
    Option.bind_eq_bind, Option.bind_some]
  rw [hcode, if_pos hvalid, Char.ofNat_toNat]

theorem escaped_escape (printable : Char → Bool) (quote c : Char) :
    Escaped printable quote c (escape printable quote c) := by
  unfold escape
  split_ifs with hmark htab hline hreturn hcontrol hplain hshort hcode
  · exact Escaped.mark hmark
  · exact Escaped.letter (by decide) (htab ▸ rfl) (Or.inl (by simp [htab]))
  · exact Escaped.letter (by decide) (hline ▸ rfl) (Or.inl (by simp [hline]))
  · exact Escaped.letter (by decide) (hreturn ▸ rfl) (Or.inl (by simp [hreturn]))
  all_goals
    rw [not_or] at hmark
    have hspecial : c ∉ ['\\', '\t', '\n', '\r'] := by
      simp [hmark.2, htab, hline, hreturn]
  · refine Escaped.refused (by decide) (fun d => mem_hexDigits_of_mem_hex) fun h => ?_
    have := h.resolve_left hspecial
    omega
  · have hcontrol' : 32 ≤ c.toNat ∧ c.toNat ≠ 127 := by omega
    refine Escaped.plain hmark.1 hmark.2 hcontrol'.1 (Or.inr ?_)
    rcases lt_or_gt_of_ne hcontrol'.2 with hlt | hgt
    · exact Or.inl ⟨hcontrol'.1, hlt⟩
    · exact Or.inr (Or.inl ⟨hgt, hplain.resolve_left hgt.not_gt⟩)
  · rw [not_or] at hplain
    refine Escaped.refused (by decide) (fun d => mem_hexDigits_of_mem_hex) fun h => ?_
    rcases h.resolve_left hspecial with h | h | h
    · exact hplain.1 h.2
    · exact hplain.2 h.2
    · omega
  · obtain ⟨d₁, d₂, d₃, d₄, hhex, hvalue⟩ := codeEscape_hex hcode
    have hdigits : ∀ d ∈ [d₁, d₂, d₃, d₄], d ∈ hexDigits := fun d hd =>
      mem_hexDigits_of_mem_hex (hhex ▸ hd)
    rw [hhex]
    exact Escaped.code hdigits hvalue (not_le.mp hshort)
      (Or.inr (Or.inr (Or.inr ⟨not_le.mp hshort, hcode⟩)))
  · rw [not_or] at hplain
    refine Escaped.refused (by decide) (fun d => mem_hexDigits_of_mem_hex) fun h => ?_
    rcases h.resolve_left hspecial with h | h | h
    · exact hplain.1 h.2
    · exact hplain.2 h.2
    · exact hcode h.2

theorem scanString_escape {c : Char} (hsingle : c ≠ '\'') (hdouble : c ≠ '"') (text : List Char) :
    scanString (escape printable '\'' c ++ text) =
      if Readable printable c then push (some c) (scanString text) else none := by
  have h := escaped_escape printable '\'' c
  generalize escape printable '\'' c = e at h
  cases h with
  | mark hmark =>
    obtain rfl := hmark.resolve_left hsingle
    exact scanString_simple (by decide) text
  | letter he hvalue hread =>
    have hu : ∀ e ∈ ['t', 'n', 'r'], e ≠ 'u' := by simp
    rw [if_pos hread, ← hvalue]
    exact scanString_simple (hu _ he) text
  | plain _ hslash hcontrol hread =>
    rw [if_pos hread, List.singleton_append, scanString_plain hdouble hslash,
      if_neg (not_lt.mpr hcontrol)]
  | code _ hvalue _ hread =>
    rw [if_pos hread]
    exact scanString_code hvalue text
  | refused he _ hread =>
    have hu : ∀ e ∈ ['x', 'U'], e ≠ 'u' ∧ simpleEscape e = none := by simp [simpleEscape]
    obtain ⟨hu, hnone⟩ := hu _ he
    rw [if_neg hread, List.cons_append, List.cons_append, scanString_simple hu, hnone]
    rfl

theorem scanString_flatMap_escape {s : List Char} (hsingle : '\'' ∉ s) (hdouble : '"' ∉ s)
    (text : List Char) :
    scanString (s.flatMap (escape printable '\'') ++ '"' :: text) =
      if AllReadable printable s then some (s, text) else none := by
  induction s with
  | nil => exact (scanString_mark text).trans (if_pos (List.forall_mem_nil _)).symm
  | cons c s ih =>
    rw [List.mem_cons, not_or] at hsingle hdouble
    rw [List.flatMap_cons, List.append_assoc,
      scanString_escape (Ne.symm hsingle.1) (Ne.symm hdouble.1), ih hsingle.2 hdouble.2]
    have hcons : AllReadable printable (c :: s) ↔ Readable printable c ∧ AllReadable printable s :=
      List.forall_mem_cons
    by_cases hc : Readable printable c
    · by_cases hs : AllReadable printable s
      · rw [if_pos hc, if_pos hs, if_pos (hcons.mpr ⟨hc, hs⟩)]
        rfl
      · rw [if_pos hc, if_neg hs, if_neg fun h => hs (hcons.mp h).2]
        rfl
    · rw [if_neg hc, if_neg fun h => hc (hcons.mp h).1]

end StringRepr
