import GrAta.Library.JsonReader

/-!
# What is read from a text

Properties of the text that is still to be read, which the reader keeps, and what they say
about the values.

## Main definitions

- `Json.Invariant`: a property of the rest and what it says of strings
- `Json.Aligned`: a text of whole escapes

## Main results

- `Json.parse_every`: the invariant is kept to any depth
- `Json.load_sorted`: the dictionaries that are read are in order
- `Json.Aligned.invariant`: the strings read from a text of whole escapes
-/

namespace Json

variable {F : Type}

/-- `Inv` holds of the rest throughout, and `P` of everything that is read. -/
structure Invariant (Inv : List Char → Prop) (P : Json F → Prop) : Prop where
  tail : ∀ c text, c ≠ '\\' → Inv (c :: text) → Inv text
  string : ∀ text s rest, Inv text → scanString text = some (s, rest) →
    P (.str (String.ofList s)) ∧ Inv rest
  null : P .null
  bool : ∀ b, P (.bool b)
  int : ∀ z, P (.int z)
  float : ∀ x, P (.float x)
  arr : ∀ items, P (.arr items)
  obj : ∀ entries, P (.obj (Dictionary.ofEntries entries))

/-- The property of a result. -/
def Part.Every (P : Json F → Prop) : (p : Part) → p.Result F → Prop
  | .value, x => x.Every P
  | .items, xs => EveryItem P xs
  | .entries, es => EveryEntry P es

/-- A result with other strings. -/
def Part.mapStr (f : List Char → List Char) : (p : Part) → p.Result F → p.Result F
  | .value, x => x.mapStr f
  | .items, xs => mapItems f xs
  | .entries, es => mapEntries f es

theorem Part.mapStr_id : ∀ (p : Part) {x : p.Result F}, p.Every InOrder x → p.mapStr id x = x
  | .value, _, h => Sorted.mapStr_id _ h
  | .items, _, h => mapItems_id _ h
  | .entries, _, h => mapEntries_id _ h

theorem scanKey_eq_some {text rest : List Char} {k : String} (h : scanKey text = some (k, rest)) :
    ∃ body s mid, text = '"' :: body ∧ scanString body = some (s, mid) ∧ k = String.ofList s ∧
      ∃ after, skip mid = ':' :: after ∧ rest = skip after := by
  unfold scanKey at h
  split at h
  · next body =>
    obtain ⟨⟨s, mid⟩, hs, h⟩ := Option.bind_eq_some_iff.mp h
    dsimp only at h
    split at h
    · next after hafter =>
      obtain ⟨rfl, rfl⟩ := Prod.mk.inj (Option.some.inj h)
      exact ⟨body, s, mid, rfl, hs, rfl, after, hafter, rfl⟩
    · exact absurd h (by simp)
  · exact absurd h (by simp)

theorem readItems_eq_some {self : Reader F} {text rest : List Char} {items : List (Json F)}
    (h : readItems self text = some (items, rest)) :
    ∃ x mid tail, self .value text = some (x, mid) ∧ self .items mid = some (tail, rest) ∧
      items = x :: tail := by
  obtain ⟨⟨x, mid⟩, hx, h⟩ := Option.bind_eq_some_iff.mp h
  obtain ⟨⟨tail, rest'⟩, htail, h⟩ := Option.map_eq_some_iff.mp h
  obtain ⟨rfl, rfl⟩ := Prod.mk.inj h
  exact ⟨x, mid, tail, hx, htail, rfl⟩

theorem readEntries_eq_some {self : Reader F} {text rest : List Char}
    {entries : List (String × Json F)} (h : readEntries self text = some (entries, rest)) :
    ∃ k behind x mid tail, scanKey text = some (k, behind) ∧
      self .value behind = some (x, mid) ∧ self .entries mid = some (tail, rest) ∧
      entries = (k, x) :: tail := by
  obtain ⟨⟨k, behind⟩, hk, h⟩ := Option.bind_eq_some_iff.mp h
  obtain ⟨⟨x, mid⟩, hx, h⟩ := Option.bind_eq_some_iff.mp h
  obtain ⟨⟨tail, rest'⟩, htail, h⟩ := Option.map_eq_some_iff.mp h
  obtain ⟨rfl, rfl⟩ := Prod.mk.inj h
  exact ⟨k, behind, x, mid, tail, hk, hx, htail, rfl⟩

variable {Inv : List Char → Prop} {P : Json F → Prop} {read : List Char → F} {self : Reader F}

section Invariant

variable (h : Invariant Inv P)
include h

theorem Invariant.drop {token text : List Char} (htoken : ∀ c ∈ token, c ≠ '\\')
    (hinv : Inv (token ++ text)) : Inv text := by
  induction token with
  | nil => exact hinv
  | cons c token ih =>
    obtain ⟨hc, htoken⟩ := List.forall_mem_cons.mp htoken
    exact ih htoken (h.tail c _ hc hinv)

theorem Invariant.skip {text : List Char} (hinv : Inv text) : Inv (skip text) := by
  have hblanks : ∀ c ∈ text.takeWhile isBlank, c ≠ '\\' := by
    rintro c hc rfl
    exact absurd (List.mem_takeWhile_imp hc) (by decide)
  apply h.drop hblanks
  rwa [Json.skip, List.takeWhile_append_dropWhile]

/-- The rest behind the first character that is not blank. -/
theorem Invariant.behind {c : Char} {text rest : List Char} (hc : c ≠ '\\') (hinv : Inv text)
    (hskip : Json.skip text = c :: rest) : Inv rest :=
  h.tail c rest hc (hskip ▸ h.skip hinv)

theorem Invariant.scalar {text rest : List Char} {x : Json F} (hinv : Inv text)
    (hscan : scanScalar read text = some (x, rest)) : x.Every P ∧ Inv rest := by
  obtain ⟨token, rfl, htoken, hx⟩ := scanScalar_eq_some hscan
  refine ⟨?_, h.drop htoken hinv⟩
  rcases hx with rfl | ⟨b, rfl⟩ | ⟨z, rfl⟩ | ⟨y, rfl⟩
  · exact h.null
  · exact h.bool b
  · exact h.int z
  · exact h.float y

theorem Invariant.key {text rest : List Char} {k : String} (hinv : Inv text)
    (hscan : scanKey text = some (k, rest)) : P (.str k) ∧ Inv rest := by
  obtain ⟨body, s, mid, rfl, hs, rfl, after, hafter, rfl⟩ := scanKey_eq_some hscan
  obtain ⟨hk, hmid⟩ := h.string body s mid (h.tail '"' body (by decide) hinv) hs
  exact ⟨hk, h.skip (h.behind (by decide) hmid hafter)⟩

variable (hself : ∀ (p : Part) text (x : p.Result F) rest,
  Inv text → self p text = some (x, rest) → p.Every P x ∧ Inv rest)
include hself

omit h in
theorem readItems_every {text rest : List Char} {items : List (Json F)} (hinv : Inv text)
    (hread : Json.readItems self text = some (items, rest)) : EveryItem P items ∧ Inv rest := by
  obtain ⟨x, mid, tail, hx, htail, rfl⟩ := readItems_eq_some hread
  obtain ⟨hx, hmid⟩ := hself .value text x mid hinv hx
  obtain ⟨htail, hrest⟩ := hself .items mid tail rest hmid htail
  exact ⟨⟨hx, htail⟩, hrest⟩

theorem Invariant.readEntries {text rest : List Char} {entries : List (String × Json F)}
    (hinv : Inv text) (hread : Json.readEntries self text = some (entries, rest)) :
    EveryEntry P entries ∧ Inv rest := by
  obtain ⟨k, behind, x, mid, tail, hk, hx, htail, rfl⟩ := readEntries_eq_some hread
  obtain ⟨hk, hbehind⟩ := h.key hinv hk
  obtain ⟨hx, hmid⟩ := hself .value behind x mid hbehind hx
  obtain ⟨htail, hrest⟩ := hself .entries mid tail rest hmid htail
  exact ⟨⟨hk, hx, htail⟩, hrest⟩

theorem Invariant.parseValue {text rest : List Char} {x : Json F} (hinv : Inv text)
    (hparse : Json.parseValue read self text = some (x, rest)) : x.Every P ∧ Inv rest := by
  unfold Json.parseValue at hparse
  split at hparse
  · next text =>
    obtain ⟨⟨s, rest'⟩, hs, hparse⟩ := Option.map_eq_some_iff.mp hparse
    obtain ⟨rfl, rfl⟩ := Prod.mk.inj hparse
    exact h.string text s _ (h.tail '"' text (by decide) hinv) hs
  · next text =>
    have htext : Inv text := h.tail '[' text (by decide) hinv
    split at hparse
    · next hskip =>
      obtain ⟨rfl, rfl⟩ := Prod.mk.inj (Option.some.inj hparse)
      exact ⟨⟨h.arr [], trivial⟩, h.behind (by decide) htext hskip⟩
    · obtain ⟨⟨items, rest'⟩, hread, hparse⟩ := Option.map_eq_some_iff.mp hparse
      obtain ⟨rfl, rfl⟩ := Prod.mk.inj hparse
      obtain ⟨hitems, hrest⟩ := readItems_every hself (h.skip htext) hread
      exact ⟨⟨h.arr items, hitems⟩, hrest⟩
  · next text =>
    have htext : Inv text := h.tail '{' text (by decide) hinv
    split at hparse
    · next hskip =>
      obtain ⟨rfl, rfl⟩ := Prod.mk.inj (Option.some.inj hparse)
      exact ⟨⟨h.obj [], trivial⟩, h.behind (by decide) htext hskip⟩
    · obtain ⟨⟨entries, rest'⟩, hread, hparse⟩ := Option.map_eq_some_iff.mp hparse
      obtain ⟨rfl, rfl⟩ := Prod.mk.inj hparse
      obtain ⟨hentries, hrest⟩ := h.readEntries hself (h.skip htext) hread
      refine ⟨⟨h.obj entries, everyEntry_iff.mpr fun e he => ?_⟩, hrest⟩
      exact everyEntry_iff.mp hentries e (Dictionary.mem_ofEntries he)
  · exact h.scalar hinv hparse

theorem Invariant.parseItems {text rest : List Char} {items : List (Json F)} (hinv : Inv text)
    (hparse : Json.parseItems self text = some (items, rest)) :
    EveryItem P items ∧ Inv rest := by
  unfold Json.parseItems at hparse
  split at hparse
  · next hskip =>
    obtain ⟨rfl, rfl⟩ := Prod.mk.inj (Option.some.inj hparse)
    exact ⟨trivial, h.behind (by decide) hinv hskip⟩
  · next hskip =>
    exact readItems_every hself (h.skip (h.behind (by decide) hinv hskip)) hparse
  · exact absurd hparse (by simp)

theorem Invariant.parseEntries {text rest : List Char} {entries : List (String × Json F)}
    (hinv : Inv text) (hparse : Json.parseEntries self text = some (entries, rest)) :
    EveryEntry P entries ∧ Inv rest := by
  unfold Json.parseEntries at hparse
  split at hparse
  · next hskip =>
    obtain ⟨rfl, rfl⟩ := Prod.mk.inj (Option.some.inj hparse)
    exact ⟨trivial, h.behind (by decide) hinv hskip⟩
  · next hskip =>
    exact h.readEntries hself (h.skip (h.behind (by decide) hinv hskip)) hparse
  · exact absurd hparse (by simp)

end Invariant

/-- The invariant is kept to any depth, and what it says holds of every value read. -/
theorem parse_every (h : Invariant Inv P) (n : ℕ) (p : Part) (text : List Char)
    (x : p.Result F) (rest : List Char) (hinv : Inv text)
    (hparse : parse read n p text = some (x, rest)) : p.Every P x ∧ Inv rest := by
  induction n generalizing p text rest with
  | zero => exact absurd hparse (by simp [parse])
  | succ n ih =>
    cases p with
    | value => exact h.parseValue ih hinv hparse
    | items => exact h.parseItems ih hinv hparse
    | entries => exact h.parseEntries ih hinv hparse

theorem load_every (h : Invariant Inv P) {text : List Char} {x : Json F} (hinv : Inv text)
    (hload : load read text = some x) : x.Every P := by
  obtain ⟨⟨x', rest⟩, hparse, hload⟩ := Option.bind_eq_some_iff.mp hload
  dsimp only at hload
  split_ifs at hload
  obtain rfl := Option.some.inj hload
  exact (parse_every h _ .value _ _ _ (h.skip hinv) hparse).1

theorem inOrder_invariant : Invariant (F := F) (fun _ => True) InOrder where
  tail _ _ _ _ := trivial
  string _ _ _ _ _ := ⟨trivial, trivial⟩
  null := trivial
  bool _ := trivial
  int _ := trivial
  float _ := trivial
  arr _ := trivial
  obj entries := Dictionary.ofEntries_sorted entries

/-- The dictionaries that are read are in order. -/
theorem load_sorted {text : List Char} {x : Json F} (hload : load read text = some x) :
    x.Sorted :=
  load_every inOrder_invariant trivial hload

/-! ### Whole escapes -/

section Aligned

variable {q : Char} {text rest s : List Char}

theorem push_eq_some {c : Option Char} {r : Option (List Char × List Char)}
    (h : push c r = some (s, rest)) :
    ∃ e tail, c = some e ∧ r = some (tail, rest) ∧ s = e :: tail := by
  obtain ⟨e, hc, h⟩ := Option.bind_eq_some_iff.mp h
  obtain ⟨⟨tail, rest'⟩, hr, h⟩ := Option.map_eq_some_iff.mp h
  obtain ⟨rfl, rfl⟩ := Prod.mk.inj h
  exact ⟨e, tail, hc, hr, rfl⟩

theorem scanString_mark (text : List Char) : scanString ('"' :: text) = some ([], text) := by
  rw [scanString.eq_def]
  exact if_pos rfl

theorem scanString_plain {c : Char} (hmark : c ≠ '"') (hslash : c ≠ '\\') (text : List Char) :
    scanString (c :: text) = if c.toNat < 32 then none else push (some c) (scanString text) := by
  rw [scanString.eq_def]
  exact (if_neg hmark).trans (if_neg hslash)

theorem scanString_simple {e : Char} (he : e ≠ 'u') (text : List Char) :
    scanString ('\\' :: e :: text) = push (simpleEscape e) (scanString text) := by
  rw [scanString, if_neg (by decide), if_pos rfl]
  exact fun _ _ _ _ _ h => absurd h he

theorem scanString_code {d₁ d₂ d₃ d₄ e : Char} (h : codeEscape d₁ d₂ d₃ d₄ = some e)
    (text : List Char) :
    scanString ('\\' :: 'u' :: d₁ :: d₂ :: d₃ :: d₄ :: text) = push (some e) (scanString text) := by
  rw [scanString.eq_def]
  simp only [Char.reduceEq, if_false, if_true, h]

/-- The digits of a code in lower case. -/
def hexDigits : List Char :=
  ['0', '1', '2', '3', '4', '5', '6', '7', '8', '9', 'a', 'b', 'c', 'd', 'e', 'f']

/-- A text of whole escapes of characters, none of which stands for `q`. A character `q` outside
them can only be a mark. -/
inductive Aligned (q : Char) : List Char → Prop
  | nil : Aligned q []
  | plain {c : Char} {text : List Char} : c ≠ '\\' → (c = q → c = '"') → Aligned q text →
      Aligned q (c :: text)
  | simple {e : Char} {text : List Char} : e ≠ 'u' → simpleEscape e ≠ some q → Aligned q text →
      Aligned q ('\\' :: e :: text)
  | code {d₁ d₂ d₃ d₄ e : Char} {text : List Char} :
      (∀ d ∈ [d₁, d₂, d₃, d₄], d ∈ hexDigits) → codeEscape d₁ d₂ d₃ d₄ = some e → e ≠ q →
      Aligned q text → Aligned q ('\\' :: 'u' :: d₁ :: d₂ :: d₃ :: d₄ :: text)

theorem Aligned.append {text' : List Char} (h : Aligned q text) (h' : Aligned q text') :
    Aligned q (text ++ text') := by
  induction h with
  | nil => exact h'
  | plain hslash hmark _ ih => exact Aligned.plain hslash hmark ih
  | simple hu he _ ih => exact Aligned.simple hu he ih
  | code hdigits hcode hne _ ih => exact Aligned.code hdigits hcode hne ih

/-- Text without escapes and without `q`. -/
theorem Aligned.of_plain (h : ∀ c ∈ text, c ≠ '\\' ∧ (c = q → c = '"')) : Aligned q text := by
  induction text with
  | nil => exact Aligned.nil
  | cons c text ih =>
    obtain ⟨hc, htext⟩ := List.forall_mem_cons.mp h
    exact Aligned.plain hc.1 hc.2 (ih htext)

theorem Aligned.tail {c : Char} (hc : c ≠ '\\') (h : Aligned q (c :: text)) : Aligned q text := by
  cases h with
  | plain _ _ htext => exact htext
  | simple => exact absurd rfl hc
  | code => exact absurd rfl hc

theorem Aligned.push {c : Option Char} {r : Option (List Char × List Char)} (hc : c ≠ some q)
    (hr : ∀ s, r = some (s, rest) → q ∉ s ∧ Aligned q rest)
    (hpush : Json.push c r = some (s, rest)) : q ∉ s ∧ Aligned q rest := by
  obtain ⟨e, tail, rfl, htail, rfl⟩ := push_eq_some hpush
  obtain ⟨hq, hrest⟩ := hr tail htail
  refine ⟨fun hmem => ?_, hrest⟩
  rcases List.mem_cons.mp hmem with rfl | hmem
  · exact hc rfl
  · exact hq hmem

theorem Aligned.scanString (h : Aligned q text) (hscan : Json.scanString text = some (s, rest)) :
    q ∉ s ∧ Aligned q rest := by
  induction h generalizing s with
  | nil => exact absurd hscan (by simp [Json.scanString])
  | @plain c text hslash hmark htext ih =>
    by_cases hc : c = '"'
    · subst hc
      obtain ⟨rfl, rfl⟩ := Prod.mk.inj (Option.some.inj ((scanString_mark text).symm.trans hscan))
      exact ⟨List.not_mem_nil, htext⟩
    · rw [scanString_plain hc hslash] at hscan
      split_ifs at hscan
      exact Aligned.push (fun h => hc (hmark (Option.some.inj h))) (fun s => ih) hscan
  | simple hu he _ ih => exact Aligned.push he (fun s => ih) (scanString_simple hu _ ▸ hscan)
  | code _ hcode hne _ ih =>
    rw [scanString_code hcode] at hscan
    exact Aligned.push (fun h => hne (Option.some.inj h)) (fun s => ih) hscan

/-- A string that stands for itself, without `q`. -/
def Without (q : Char) : Json F → Prop
  | .str s => q ∉ s.toList
  | _ => True

theorem Aligned.invariant (q : Char) : Invariant (F := F) (Aligned q) (Without q) where
  tail _ _ hc h := h.tail hc
  string text s rest h hscan := by
    rw [Without, String.toList_ofList]
    exact h.scanString hscan
  null := trivial
  bool _ := trivial
  int _ := trivial
  float _ := trivial
  arr _ := trivial
  obj _ := trivial

end Aligned

end Json
