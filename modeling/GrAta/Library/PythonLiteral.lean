import GrAta.Library.JsonReader

/-!
# Literals and the values that are read from them

A literal as a printer lays it out: blanks between the tokens, and long strings in several
pieces that stand one after another. The tokens of strings and truth values are parameters, so
that the same layout can be rendered for its own language and for another one. A layout whose
tokens can be read is read as a value by the reader of `Json`.

## Main definitions

- `Host`: how floats are printed and read, and which characters are printed as they are
- `Layout`: the literals
- `Layout.value`, `Layout.render`: the value and the text of a literal
- `Layout.decode`: what is left of the value when the strings are read through a decoder

## Main results

- `Layout.reads_of_depth_le`: the text of a layout is read as the decoded value
- `Layout.load_render`: nothing else is loaded from the whole text
-/

/-- The printing of the host language. A finite float is printed as a token of a number that is
not an integer, from which it is read back. -/
structure Host (F : Type) where
  repr : F → List Char
  read : List Char → F
  finite : F → Bool
  /-- Characters beyond ASCII that are printed as they are. -/
  printable : Char → Bool
  repr_token : ∀ x, finite x = true → ∃ integer part, part ≠ [] ∧
    Json.scanNumber (repr x) = some (integer, part, [])
  read_repr : ∀ x, finite x = true → read (repr x) = x
  repr_not_finite : ∀ x, finite x = false →
    repr x = ['n', 'a', 'n'] ∨ repr x = ['i', 'n', 'f'] ∨ repr x = ['-', 'i', 'n', 'f']

/-- The token of a truth value for the reader. -/
def Json.boolText (b : Bool) : List Char :=
  if b then ['t', 'r', 'u', 'e'] else ['f', 'a', 'l', 's', 'e']

/-- Spaces and line ends. -/
abbrev Blank : Type := { ws : List Char // ∀ c ∈ ws, c = ' ' ∨ c = '\n' }

/-- A literal, or what follows an item or an entry of one up to the closing bracket. -/
inductive Layout (F : Type) : Json.Part → Type
  | none : Layout F .value
  | bool (b : Bool) : Layout F .value
  | int (z : ℤ) : Layout F .value
  | float (x : F) : Layout F .value
  | str (first : List Char) (more : List (Blank × List Char)) : Layout F .value
  | emptyList (b : Blank) : Layout F .value
  | list (b : Blank) (x : Layout F .value) (tail : Layout F .items) : Layout F .value
  | emptyDict (b : Blank) : Layout F .value
  | dict (b : Blank) (k : List Char) (gap : Blank) (x : Layout F .value)
      (tail : Layout F .entries) : Layout F .value
  | endList (b : Blank) : Layout F .items
  | item (b : Blank) (x : Layout F .value) (tail : Layout F .items) : Layout F .items
  | endDict (b : Blank) : Layout F .entries
  | entry (b : Blank) (k : List Char) (gap : Blank) (x : Layout F .value)
      (tail : Layout F .entries) : Layout F .entries

namespace Layout

open Json

variable {F α : Type}

/-- The value of a literal. The pieces of a string are joined. -/
def value : {p : Part} → Layout F p → p.Result F
  | _, .none => Json.null
  | _, .bool b => Json.bool b
  | _, .int z => Json.int z
  | _, .float x => Json.float x
  | _, .str first more => Json.str (String.ofList (first ++ (more.map Prod.snd).flatten))
  | _, .emptyList _ => Json.arr []
  | _, .list _ x tail => Json.arr (x.value :: tail.value)
  | _, .emptyDict _ => Json.obj []
  | _, .dict _ k _ x tail => Json.obj ((String.ofList k, x.value) :: tail.value)
  | _, .endList _ => []
  | _, .item _ x tail => x.value :: tail.value
  | _, .endDict _ => []
  | _, .entry _ k _ x tail => (String.ofList k, x.value) :: tail.value

/-- Every string stands in one piece. -/
def Whole : {p : Part} → Layout F p → Prop
  | _, .str _ more => more = []
  | _, .list _ x tail => x.Whole ∧ tail.Whole
  | _, .dict _ _ _ x tail => x.Whole ∧ tail.Whole
  | _, .item _ x tail => x.Whole ∧ tail.Whole
  | _, .entry _ _ _ x tail => x.Whole ∧ tail.Whole
  | _, _ => True

/-- The text with the given tokens of truth values and pieces of strings. -/
def render (host : Host F) (bool : Bool → List Char) (str : List Char → List Char) :
    {p : Part} → Layout F p → List Char
  | _, .none => ['N', 'o', 'n', 'e']
  | _, .bool b => bool b
  | _, .int z => integerText z
  | _, .float x => host.repr x
  | _, .str first more => str first ++ more.flatMap fun p => p.1.1 ++ str p.2
  | _, .emptyList b => '[' :: b.1 ++ [']']
  | _, .list b x tail => '[' :: b.1 ++ (x.render host bool str ++ tail.render host bool str)
  | _, .emptyDict b => '{' :: b.1 ++ ['}']
  | _, .dict b k gap x tail => '{' :: b.1 ++ (str k ++ ':' :: gap.1 ++
      (x.render host bool str ++ tail.render host bool str))
  | _, .endList b => b.1 ++ [']']
  | _, .item b x tail => ',' :: b.1 ++ (x.render host bool str ++ tail.render host bool str)
  | _, .endDict b => b.1 ++ ['}']
  | _, .entry b k gap x tail => ',' :: b.1 ++ (str k ++ ':' :: gap.1 ++
      (x.render host bool str ++ tail.render host bool str))

/-- The value with strings read by a decoder, where nothing else than a value of the format is
accepted and a string has to stand in one piece. -/
def decode (host : Host F) (str : List Char → Option (List Char)) :
    {p : Part} → Layout F p → Option (p.Result F)
  | _, .none => Option.none
  | _, .bool b => some (Json.bool b)
  | _, .int z => some (Json.int z)
  | _, .float x => if host.finite x then some (Json.float x) else Option.none
  | _, .str first [] => (str first).map fun s => Json.str (String.ofList s)
  | _, .str _ (_ :: _) => Option.none
  | _, .emptyList _ => some (Json.arr [])
  | _, .list _ x tail => (x.decode host str).bind fun y =>
      (tail.decode host str).map fun ys => Json.arr (y :: ys)
  | _, .emptyDict _ => some (Json.obj [])
  | _, .dict _ k _ x tail => (str k).bind fun s => (x.decode host str).bind fun y =>
      (tail.decode host str).map fun es =>
        Json.obj (Dictionary.ofEntries ((String.ofList s, y) :: es))
  | _, .endList _ => some []
  | _, .item _ x tail => (x.decode host str).bind fun y =>
      (tail.decode host str).map fun ys => y :: ys
  | _, .endDict _ => some []
  | _, .entry _ k _ x tail => (str k).bind fun s => (x.decode host str).bind fun y =>
      (tail.decode host str).map fun es => (String.ofList s, y) :: es

def depth : {p : Part} → Layout F p → ℕ
  | _, .list _ x tail => max x.depth tail.depth + 1
  | _, .dict _ _ _ x tail => max x.depth tail.depth + 1
  | _, .item _ x tail => max x.depth tail.depth + 1
  | _, .entry _ _ _ x tail => max x.depth tail.depth + 1
  | _, _ => 1

/-- Every piece of a string has the property, and every key. -/
def EveryPiece (P : List Char → Prop) : {p : Part} → Layout F p → Prop
  | _, .str first more => P first ∧ ∀ piece ∈ more, P piece.2
  | _, .list _ x tail => x.EveryPiece P ∧ tail.EveryPiece P
  | _, .dict _ k _ x tail => P k ∧ x.EveryPiece P ∧ tail.EveryPiece P
  | _, .item _ x tail => x.EveryPiece P ∧ tail.EveryPiece P
  | _, .entry _ k _ x tail => P k ∧ x.EveryPiece P ∧ tail.EveryPiece P
  | _, _ => True

attribute [simp] value render decode depth EveryPiece

/-- The token of a string is read through the decoder. -/
def Token (str : List Char → List Char) (dec : List Char → Option (List Char))
    (s : List Char) : Prop :=
  ∃ body, str s = '"' :: body ∧
    ∀ rest, scanString (body ++ rest) = (dec s).map fun t => (t, rest)

/-- The text is read as the value, up to the rest. Without a value nothing is read, except for
the first piece of a string before another one. -/
def ReadsAs (result : Option (α × List Char)) (p : Part) (rest : List Char) (o : Option α) :
    Prop :=
  result = o.map (fun x => (x, rest)) ∨
    p = .value ∧ o = Option.none ∧ ∃ x r, result = some (x, r) ∧ (skip r).head? = some '"'

theorem skip_blank (b : Blank) {c : Char} (h : isBlank c = false) (text : List Char) :
    skip (b.1 ++ c :: text) = c :: text := by
  have hb : ∀ c ∈ b.1, isBlank c = true := by
    intro c hc
    rcases b.2 c hc with rfl | rfl <;> rfl
  rw [skip, List.dropWhile_append_of_pos hb, List.dropWhile_cons_of_neg (by simp [h])]

theorem stops_blank (b : Blank) {c : Char} (h : ¬IsNumeral c) (text : List Char) :
    Stops (b.1 ++ c :: text) := by
  obtain ⟨b, hb⟩ := b
  cases b with
  | nil => exact Stops.cons h text
  | cons c' b =>
    refine Stops.cons ?_ _
    rcases hb c' List.mem_cons_self with rfl | rfl <;> unfold IsNumeral <;> decide

section Tokens

variable {host : Host F} {bool : Bool → List Char} {str : List Char → List Char}
  {dec : List Char → Option (List Char)}

theorem stops_items (host : Host F) (bool : Bool → List Char) (str : List Char → List Char)
    (L : Layout F .items) (rest : List Char) :
    Stops (L.render host bool str ++ rest) := by
  cases L with
  | endList b =>
    rw [render, List.append_assoc]
    exact stops_blank b (by unfold IsNumeral; decide) rest
  | item b x tail => exact Stops.cons (by unfold IsNumeral; decide) _

theorem stops_entries (host : Host F) (bool : Bool → List Char)
    (str : List Char → List Char) (L : Layout F .entries) (rest : List Char) :
    Stops (L.render host bool str ++ rest) := by
  cases L with
  | endDict b =>
    rw [render, List.append_assoc]
    exact stops_blank b (by unfold IsNumeral; decide) rest
  | entry b k gap x tail => exact Stops.cons (by unfold IsNumeral; decide) _

theorem numeral_head {c : Char} (h : c = '-' ∨ c.isDigit = true) :
    isBlank c = false ∧ c ≠ ']' := by
  refine ⟨Bool.eq_false_iff.mpr fun hblank => ?_, ?_⟩
  · simp only [isBlank, Bool.or_eq_true, decide_eq_true_eq] at hblank
    rcases hblank with ((rfl | rfl) | rfl) | rfl <;> exact absurd h (by decide)
  · rintro rfl
    exact absurd h (by decide)

/-- A value starts with a character that is neither blank nor a closing bracket. -/
theorem exists_head (host : Host F) (L : Layout F .value) (hL : L.EveryPiece (Token str dec)) :
    ∃ c text, L.render host boolText str = c :: text ∧ isBlank c = false ∧ c ≠ ']' := by
  cases L with
  | none => exact ⟨_, _, rfl, by decide⟩
  | bool b =>
    rw [render]
    cases b
    · exact ⟨_, _, rfl, by decide⟩
    · exact ⟨_, _, rfl, by decide⟩
  | int z =>
    obtain ⟨c, text, htext, hc⟩ := head_of_scanInteger (scanInteger_integerText z)
    exact ⟨c, text, htext, numeral_head hc⟩
  | float x =>
    rw [render]
    cases hx : host.finite x
    · rcases host.repr_not_finite x hx with h | h | h <;> rw [h] <;> exact ⟨_, _, rfl, by decide⟩
    · obtain ⟨integer, part, -, hscan⟩ := host.repr_token x hx
      obtain ⟨⟨_, _⟩, hinteger, -⟩ := Option.map_eq_some_iff.mp hscan
      obtain ⟨c, text, htext, hc⟩ := head_of_scanInteger hinteger
      exact ⟨c, text, htext, numeral_head hc⟩
  | str first more =>
    obtain ⟨⟨body, hbody, -⟩, -⟩ := hL
    rw [render, hbody]
    exact ⟨_, _, rfl, by decide⟩
  | emptyList b => exact ⟨_, _, rfl, by decide⟩
  | list b x tail => exact ⟨_, _, rfl, by decide⟩
  | emptyDict b => exact ⟨_, _, rfl, by decide⟩
  | dict b k gap x tail => exact ⟨_, _, rfl, by decide⟩

variable {read : List Char → F}

theorem parse_items_string {n : ℕ} {text : List Char} (h : (skip text).head? = some '"') :
    parse read n .items text = Option.none := by
  cases n with
  | zero => rfl
  | succ n =>
    rw [parse, parseItems]
    split
    · next hskip => exact absurd (hskip ▸ h) (by simp)
    · next hskip => exact absurd (hskip ▸ h) (by simp)
    · rfl

theorem parse_entries_string {n : ℕ} {text : List Char} (h : (skip text).head? = some '"') :
    parse read n .entries text = Option.none := by
  cases n with
  | zero => rfl
  | succ n =>
    rw [parse, parseEntries]
    split
    · next hskip => exact absurd (hskip ▸ h) (by simp)
    · next hskip => exact absurd (hskip ▸ h) (by simp)
    · rfl

theorem readItems_of {n : ℕ} {text behind rest : List Char} {o : Option (Json F)}
    {os : Option (List (Json F))} (hx : ReadsAs (parse read n .value text) .value behind o)
    (htail : ReadsAs (parse read n .items behind) .items rest os) :
    readItems (parse read n) text =
      (o.bind fun y => os.map fun ys => y :: ys).map fun ys => (ys, rest) := by
  rw [readItems]
  rcases hx with hx | ⟨-, rfl, y, r, hx, hr⟩
  · rw [hx]
    rcases htail with htail | ⟨h, -⟩
    · cases o with
      | none => rfl
      | some y =>
        change (parse read n .items behind).map _ = _
        rw [htail]
        cases os <;> rfl
    · exact absurd h (by simp)
  · rw [hx]
    change (parse read n .items r).map _ = _
    rw [parse_items_string hr]
    rfl

/-- A key with its colon. -/
theorem scanKey_of {k : List Char} (hk : Token str dec k) (gap : Blank) {text behind : List Char}
    {c : Char} (htext : text = c :: behind) (hc : isBlank c = false) :
    scanKey (str k ++ ':' :: (gap.1 ++ text)) =
      ((dec k).map String.ofList).map fun k => (k, text) := by
  subst htext
  obtain ⟨body, hbody, hscan⟩ := hk
  rw [hbody, List.cons_append, scanKey, hscan]
  cases dec k with
  | none => rfl
  | some s =>
    change some (String.ofList s, skip (gap.1 ++ c :: behind)) = _
    rw [skip_blank gap hc]
    rfl

theorem readEntries_of {n : ℕ} {text key behind rest : List Char} {ok : Option String}
    {o : Option (Json F)} {os : Option (List (String × Json F))}
    (hk : scanKey key = ok.map fun k => (k, text))
    (hx : ReadsAs (parse read n .value text) .value behind o)
    (htail : ReadsAs (parse read n .entries behind) .entries rest os) :
    readEntries (parse read n) key =
      (ok.bind fun k => o.bind fun y => os.map fun es => (k, y) :: es).map fun es =>
        (es, rest) := by
  rw [readEntries, hk]
  cases ok with
  | none => rfl
  | some k =>
    change (parse read n .value text).bind _ = _
    rcases hx with hx | ⟨-, rfl, y, r, hx, hr⟩
    · rw [hx]
      rcases htail with htail | ⟨h, -⟩
      · cases o with
        | none => rfl
        | some y =>
          change (parse read n .entries behind).map _ = _
          rw [htail]
          cases os <;> rfl
      · exact absurd h (by simp)
    · rw [hx]
      change (parse read n .entries r).map _ = _
      rw [parse_entries_string hr]
      rfl

section Brackets

variable {self : Reader F} (b : Blank) {text behind : List Char} {c : Char}

theorem parseValue_list (htext : text = c :: behind) (hc : isBlank c = false) (hclose : c ≠ ']') :
    parseValue read self ('[' :: (b.1 ++ text)) =
      (readItems self text).map fun r => (Json.arr r.1, r.2) := by
  subst htext
  rw [parseValue, skip_blank b hc]
  split
  · next heq => exact absurd (List.cons.inj heq).1 hclose
  · rfl

theorem parseValue_dict (htext : text = '"' :: behind) :
    parseValue read self ('{' :: (b.1 ++ text)) =
      (readEntries self text).map fun r => (Json.obj (Dictionary.ofEntries r.1), r.2) := by
  subst htext
  rw [parseValue, skip_blank b rfl]
  split
  · next heq => exact absurd (List.cons.inj heq).1 (by decide)
  · rfl

theorem parseItems_comma (htext : text = c :: behind) (hc : isBlank c = false) :
    parseItems self (',' :: (b.1 ++ text)) = readItems self text := by
  subst htext
  change readItems self (skip (b.1 ++ c :: behind)) = _
  rw [skip_blank b hc]

theorem parseEntries_comma (htext : text = c :: behind) (hc : isBlank c = false) :
    parseEntries self (',' :: (b.1 ++ text)) = readEntries self text := by
  subst htext
  change readEntries self (skip (b.1 ++ c :: behind)) = _
  rw [skip_blank b hc]

end Brackets

theorem depth_pos {p : Part} (L : Layout F p) : 0 < L.depth := by
  cases L <;> exact Nat.succ_pos _

theorem exists_depth {p : Part} {x : Layout F .value} {tail : Layout F p} {n : ℕ}
    (h : max x.depth tail.depth + 1 ≤ n.succ) :
    ∃ m : ℕ, n = m.succ ∧ x.depth ≤ m.succ ∧ tail.depth ≤ m.succ := by
  obtain ⟨hx, htail⟩ := max_le_iff.mp (Nat.le_of_succ_le_succ h)
  obtain ⟨m, rfl⟩ := Nat.exists_eq_succ_of_ne_zero (x.depth_pos.trans_le hx).ne'
  exact ⟨m, rfl, hx, htail⟩

section Reads

variable (host str dec)

/-- Before other text the rendered text is read as the decoded value. -/
def Reads (n : ℕ) {p : Part} (L : Layout F p) : Prop :=
  ∀ rest, (p = .value → Stops rest) →
    ReadsAs (parse host.read n p (L.render host boolText str ++ rest)) p rest (L.decode host dec)

variable {host str dec} {n : ℕ}

theorem reads_float (x : F) : Reads host str dec (n + 1) (.float x) := by
  intro rest hrest
  rw [render, parse, decode]
  cases hx : host.finite x
  · rcases host.repr_not_finite x hx with h | h | h <;> rw [h] <;> exact Or.inl rfl
  · obtain ⟨integer, part, hpart, hscan⟩ := host.repr_token x hx
    have htoken := (scanNumber_eq_some hscan).1
    rw [List.append_nil] at htoken
    rw [parseValue_number (hrest rfl) hscan, if_neg hpart, ← htoken, host.read_repr x hx]
    exact Or.inl rfl

/-- Of several pieces the first one is read, and then another string stands where none can. -/
theorem reads_str {first : List Char} {more : List (Blank × List Char)}
    (hfirst : Token str dec first) (hmore : ∀ piece ∈ more, Token str dec piece.2) :
    Reads host str dec (n + 1) (.str first more) := by
  intro rest _
  obtain ⟨body, hbody, hscan⟩ := hfirst
  rw [render, hbody, List.append_assoc, List.cons_append, parse, parseValue, hscan]
  cases more with
  | nil =>
    rw [decode]
    left
    cases dec first <;> rfl
  | cons piece more =>
    rw [decode]
    cases dec first with
    | none => exact Or.inl rfl
    | some s =>
      obtain ⟨body', hbody', -⟩ := hmore piece List.mem_cons_self
      refine Or.inr ⟨rfl, rfl, _, _, rfl, ?_⟩
      rw [List.flatMap_cons, hbody', List.append_assoc, List.append_assoc, List.cons_append,
        skip_blank piece.1 rfl]
      rfl

section Items

variable (b : Blank) {x : Layout F .value} {tail : Layout F .items}
  (hpieces : x.EveryPiece (Token str dec)) (hx : Reads host str dec n x)
  (htail : Reads host str dec n tail)
include hx htail

theorem readItems_render (rest : List Char) :
    readItems (parse host.read n)
        (x.render host boolText str ++ (tail.render host boolText str ++ rest)) =
      ((x.decode host dec).bind fun y => (tail.decode host dec).map fun ys => y :: ys).map
        fun ys => (ys, rest) :=
  readItems_of (hx _ fun _ => stops_items host boolText str tail rest) (htail rest (by simp))

include hpieces

theorem reads_list : Reads host str dec (n + 1) (.list b x tail) := by
  intro rest _
  obtain ⟨c, text, hhead, hc, hclose⟩ := exists_head host x hpieces
  simp only [render, List.append_assoc, List.cons_append]
  rw [parse, parseValue_list b (congrArg (· ++ _) hhead) hc hclose,
    readItems_render hx htail rest, decode]
  left
  cases x.decode host dec <;> cases tail.decode host dec <;> rfl

theorem reads_item : Reads host str dec (n + 1) (.item b x tail) := by
  intro rest _
  obtain ⟨c, text, hhead, hc, -⟩ := exists_head host x hpieces
  simp only [render, List.append_assoc, List.cons_append]
  rw [parse, parseItems_comma b (congrArg (· ++ _) hhead) hc, readItems_render hx htail rest,
    decode]
  left
  cases x.decode host dec <;> cases tail.decode host dec <;> rfl

end Items

section Entries

variable (b gap : Blank) {k : List Char} {x : Layout F .value} {tail : Layout F .entries}
  (hk : Token str dec k) (hpieces : x.EveryPiece (Token str dec))
  (hx : Reads host str dec n x) (htail : Reads host str dec n tail)
include hk hpieces hx htail

theorem readEntries_render (rest : List Char) :
    readEntries (parse host.read n)
        (str k ++ ':' :: (gap.1 ++
          (x.render host boolText str ++ (tail.render host boolText str ++ rest)))) =
      (((dec k).map String.ofList).bind fun k => (x.decode host dec).bind fun y =>
        (tail.decode host dec).map fun es => (k, y) :: es).map fun es => (es, rest) := by
  obtain ⟨c, text, hhead, hc, -⟩ := exists_head host x hpieces
  have hkey :=
    scanKey_of hk gap (congrArg (· ++ (tail.render host boolText str ++ rest)) hhead) hc
  exact readEntries_of hkey (hx _ fun _ => stops_entries host boolText str tail rest)
    (htail rest (by simp))

theorem reads_dict : Reads host str dec (n + 1) (.dict b k gap x tail) := by
  intro rest _
  have hentries := readEntries_render gap hk hpieces hx htail rest
  obtain ⟨body, hbody, -⟩ := hk
  simp only [render, List.append_assoc, List.cons_append]
  rw [parse, parseValue_dict b (congrArg (· ++ _) hbody), hentries, decode]
  left
  cases dec k <;> cases x.decode host dec <;> cases tail.decode host dec <;> rfl

theorem reads_entry : Reads host str dec (n + 1) (.entry b k gap x tail) := by
  intro rest _
  have hentries := readEntries_render gap hk hpieces hx htail rest
  obtain ⟨body, hbody, -⟩ := hk
  simp only [render, List.append_assoc, List.cons_append]
  rw [parse, parseEntries_comma b (congrArg (· ++ _) hbody) rfl, hentries, decode]
  left
  cases dec k <;> cases x.decode host dec <;> cases tail.decode host dec <;> rfl

end Entries

/-- The text of a layout is read as its decoded value. -/
theorem reads_of_depth_le {p : Part} (L : Layout F p) (hL : L.EveryPiece (Token str dec))
    {n : ℕ} (hn : L.depth ≤ n) : Reads host str dec n L := by
  obtain ⟨n, rfl⟩ := Nat.exists_eq_succ_of_ne_zero (L.depth_pos.trans_le hn).ne'
  induction L generalizing n with
  | none => exact fun rest _ => Or.inl rfl
  | bool b => cases b <;> exact fun rest _ => Or.inl rfl
  | int z =>
    intro rest hrest
    rw [render, parse, parseValue_number (hrest rfl) (scanNumber_integerText z), if_pos rfl,
      readInteger_integerText]
    exact Or.inl rfl
  | float x => exact reads_float x
  | str first more => exact reads_str hL.1 hL.2
  | emptyList b =>
    intro rest _
    simp only [render, List.append_assoc, List.cons_append, List.nil_append]
    rw [parse, parseValue, skip_blank b rfl]
    exact Or.inl rfl
  | emptyDict b =>
    intro rest _
    simp only [render, List.append_assoc, List.cons_append, List.nil_append]
    rw [parse, parseValue, skip_blank b rfl]
    exact Or.inl rfl
  | list b x tail ihx ihtail =>
    obtain ⟨n, rfl, hnx, hntail⟩ := exists_depth hn
    exact reads_list b hL.1 (ihx hL.1 n hnx) (ihtail hL.2 n hntail)
  | dict b k gap x tail ihx ihtail =>
    obtain ⟨n, rfl, hnx, hntail⟩ := exists_depth hn
    exact reads_dict b gap hL.1 hL.2.1 (ihx hL.2.1 n hnx) (ihtail hL.2.2 n hntail)
  | endList b =>
    intro rest _
    simp only [render, List.append_assoc, List.cons_append, List.nil_append]
    rw [parse, parseItems, skip_blank b rfl]
    exact Or.inl rfl
  | item b x tail ihx ihtail =>
    obtain ⟨n, rfl, hnx, hntail⟩ := exists_depth hn
    exact reads_item b hL.1 (ihx hL.1 n hnx) (ihtail hL.2 n hntail)
  | endDict b =>
    intro rest _
    simp only [render, List.append_assoc, List.cons_append, List.nil_append]
    rw [parse, parseEntries, skip_blank b rfl]
    exact Or.inl rfl
  | entry b k gap x tail ihx ihtail =>
    obtain ⟨n, rfl, hnx, hntail⟩ := exists_depth hn
    exact reads_entry b gap hL.1 hL.2.1 (ihx hL.2.1 n hnx) (ihtail hL.2.2 n hntail)

end Reads

theorem depth_le_length (host : Host F)
    {p : Part} (L : Layout F p) (hL : L.EveryPiece (Token str dec)) :
    L.depth ≤ (L.render host boolText str).length := by
  have hvalue : ∀ L : Layout F .value, L.EveryPiece (Token str dec) →
      1 ≤ (L.render host boolText str).length := by
    intro L hL
    obtain ⟨c, text, hhead, -⟩ := exists_head host L hL
    rw [hhead]
    exact Nat.succ_pos _
  induction L with
  | none => exact hvalue _ hL
  | bool b => exact hvalue _ hL
  | int z => exact hvalue _ hL
  | float x => exact hvalue _ hL
  | str first more => exact hvalue _ hL
  | emptyList b => exact hvalue _ hL
  | emptyDict b => exact hvalue _ hL
  | list b x tail ihx ihtail =>
    have := ihx hL.1
    have := ihtail hL.2
    simp only [depth, render, List.length_append, List.length_cons]
    omega
  | dict b k gap x tail ihx ihtail =>
    have := ihx hL.2.1
    have := ihtail hL.2.2
    simp only [depth, render, List.length_append, List.length_cons]
    omega
  | endList b =>
    simp only [depth, render, List.length_append, List.length_cons]
    omega
  | item b x tail ihx ihtail =>
    have := ihx hL.1
    have := ihtail hL.2
    simp only [depth, render, List.length_append, List.length_cons]
    omega
  | endDict b =>
    simp only [depth, render, List.length_append, List.length_cons]
    omega
  | entry b k gap x tail ihx ihtail =>
    have := ihx hL.2.1
    have := ihtail hL.2.2
    simp only [depth, render, List.length_append, List.length_cons]
    omega

/-- Nothing but the decoded value is loaded. -/
theorem load_render (host : Host F) (L : Layout F .value) (hL : L.EveryPiece (Token str dec)) :
    load host.read (L.render host boolText str) = L.decode host dec := by
  have hskip : skip (L.render host boolText str) = L.render host boolText str := by
    obtain ⟨c, text, hhead, hc, -⟩ := exists_head host L hL
    rw [hhead]
    exact skip_blank ⟨[], List.forall_mem_nil _⟩ hc text
  have hdepth := Nat.le_succ_of_le (depth_le_length host L hL)
  have hreads : Reads host str dec _ L := reads_of_depth_le L hL hdepth
  have hread := hreads [] fun _ => Stops.nil
  rw [List.append_nil] at hread
  rw [load, hskip]
  rcases hread with hread | ⟨-, hnone, x, r, hread, hr⟩
  · rw [hread]
    cases L.decode host dec <;> rfl
  · have hrest : skip r ≠ [] := by
      intro h
      rw [h] at hr
      exact absurd hr (by simp)
    rw [hread, hnone]
    exact if_neg hrest

end Tokens

end Layout
