import GrAta.Library.JsonInvariant
import GrAta.Library.PythonLiteral

/-!
# The strings of a literal

What the strings of a literal say about its value and about what is decoded, and what they say
about its text.

## Main results

- `Layout.everyPiece_of_every`: from the value to the pieces of its strings
- `Layout.every_of_decode`: what is decoded
- `Layout.every_value_of_decode`: the values from which something is decoded
- `Layout.decode_eq_map`: the value that is decoded
- `Layout.decode_eq_value`: when it is the value itself
- `Layout.aligned_render`: the text consists of whole escapes
-/

namespace Layout

open Json

variable {F : Type} {host : Host F} {str : List Char → List Char}
  {dec : List Char → Option (List Char)} {P : Json F → Prop} {Q : List Char → Prop}

/-- What holds of a string holds of its pieces, if it holds of every part of a string. -/
theorem everyPiece_of_every (h : ∀ s t, t <:+: s → P (.str (String.ofList s)) → Q t) {p : Part}
    (L : Layout F p) (hL : p.Every P L.value) : L.EveryPiece Q := by
  induction L with
  | str first more =>
    refine ⟨h _ _ (List.prefix_append first _).isInfix hL, fun piece hpiece => h _ _ ?_ hL⟩
    have hmem : piece.2 ∈ more.map Prod.snd := List.mem_map_of_mem hpiece
    exact (List.infix_of_mem_flatten hmem).trans (List.suffix_append first _).isInfix
  | list b x tail ihx ihtail => exact ⟨ihx hL.2.1, ihtail hL.2.2⟩
  | dict b k gap x tail ihx ihtail =>
    exact ⟨h k k (List.infix_refl k) hL.2.1, ihx hL.2.2.1, ihtail hL.2.2.2⟩
  | item b x tail ihx ihtail => exact ⟨ihx hL.1, ihtail hL.2⟩
  | entry b k gap x tail ihx ihtail =>
    exact ⟨h k k (List.infix_refl k) hL.1, ihx hL.2.1, ihtail hL.2.2⟩
  | _ => trivial

theorem EveryPiece.imp {R : List Char → Prop} (h : ∀ s, Q s → R s) {p : Part} {L : Layout F p}
    (hL : L.EveryPiece Q) : L.EveryPiece R := by
  induction L with
  | str first more => exact ⟨h first hL.1, fun piece hpiece => h piece.2 (hL.2 piece hpiece)⟩
  | list b x tail ihx ihtail => exact ⟨ihx hL.1, ihtail hL.2⟩
  | dict b k gap x tail ihx ihtail => exact ⟨h k hL.1, ihx hL.2.1, ihtail hL.2.2⟩
  | item b x tail ihx ihtail => exact ⟨ihx hL.1, ihtail hL.2⟩
  | entry b k gap x tail ihx ihtail => exact ⟨h k hL.1, ihx hL.2.1, ihtail hL.2.2⟩
  | _ => trivial

theorem EveryPiece.and {R : List Char → Prop} {p : Part} {L : Layout F p} (hL : L.EveryPiece Q)
    (hL' : L.EveryPiece R) : L.EveryPiece fun s => Q s ∧ R s := by
  induction L with
  | str first more =>
    exact ⟨⟨hL.1, hL'.1⟩, fun piece hpiece => ⟨hL.2 piece hpiece, hL'.2 piece hpiece⟩⟩
  | list b x tail ihx ihtail => exact ⟨ihx hL.1 hL'.1, ihtail hL.2 hL'.2⟩
  | dict b k gap x tail ihx ihtail =>
    exact ⟨⟨hL.1, hL'.1⟩, ihx hL.2.1 hL'.2.1, ihtail hL.2.2 hL'.2.2⟩
  | item b x tail ihx ihtail => exact ⟨ihx hL.1 hL'.1, ihtail hL.2 hL'.2⟩
  | entry b k gap x tail ihx ihtail =>
    exact ⟨⟨hL.1, hL'.1⟩, ihx hL.2.1 hL'.2.1, ihtail hL.2.2 hL'.2.2⟩
  | _ => trivial

theorem everyPiece_of_forall (h : ∀ s, Q s) {p : Part} (L : Layout F p) : L.EveryPiece Q := by
  induction L with
  | str first more => exact ⟨h first, fun piece _ => h piece.2⟩
  | list b x tail ihx ihtail => exact ⟨ihx, ihtail⟩
  | dict b k gap x tail ihx ihtail => exact ⟨h k, ihx, ihtail⟩
  | item b x tail ihx ihtail => exact ⟨ihx, ihtail⟩
  | entry b k gap x tail ihx ihtail => exact ⟨h k, ihx, ihtail⟩
  | _ => trivial

section Inversion

variable {α β γ δ : Type} {key : Option α} {head : Option β} {tail : Option γ}

theorem exists_of_item {f : β → γ → δ} {z : δ}
    (h : (head.bind fun y => tail.map (f y)) = some z) :
    ∃ y ys, head = some y ∧ tail = some ys ∧ f y ys = z := by
  obtain ⟨y, hy, h⟩ := Option.bind_eq_some_iff.mp h
  obtain ⟨ys, hys, h⟩ := Option.map_eq_some_iff.mp h
  exact ⟨y, ys, hy, hys, h⟩

theorem exists_of_entry {f : α → β → γ → δ} {z : δ}
    (h : (key.bind fun t => head.bind fun y => tail.map (f t y)) = some z) :
    ∃ t y es, key = some t ∧ head = some y ∧ tail = some es ∧ f t y es = z := by
  obtain ⟨t, ht, h⟩ := Option.bind_eq_some_iff.mp h
  obtain ⟨y, es, hy, hes, h⟩ := exists_of_item h
  exact ⟨t, y, es, ht, hy, hes, h⟩

end Inversion

/-- What the decoder accepts has the property, and so has what is decoded. -/
theorem every_of_decode (hstr : ∀ s t, dec s = some t → P (.str (String.ofList t)))
    (hbool : ∀ b, P (.bool b)) (hint : ∀ z, P (.int z)) (hfloat : ∀ x, P (.float x))
    (harr : ∀ items, P (.arr items)) (hobj : ∀ entries, P (.obj entries)) {p : Part}
    (L : Layout F p) {x : p.Result F} (hL : L.decode host dec = some x) : p.Every P x := by
  induction L with
  | none => exact absurd hL (by simp [decode])
  | bool b =>
    obtain rfl := Option.some.inj hL
    exact hbool b
  | int z =>
    obtain rfl := Option.some.inj hL
    exact hint z
  | float y =>
    rw [decode] at hL
    split_ifs at hL
    obtain rfl := Option.some.inj hL
    exact hfloat y
  | str first more =>
    cases more with
    | nil =>
      obtain ⟨t, ht, rfl⟩ := Option.map_eq_some_iff.mp hL
      exact hstr first t ht
    | cons piece more => exact absurd hL (by simp [decode])
  | emptyList b =>
    obtain rfl := Option.some.inj hL
    exact ⟨harr [], trivial⟩
  | list b y tail ihy ihtail =>
    obtain ⟨z, zs, hz, hzs, rfl⟩ := exists_of_item hL
    exact ⟨harr _, ihy hz, ihtail hzs⟩
  | emptyDict b =>
    obtain rfl := Option.some.inj hL
    exact ⟨hobj [], trivial⟩
  | dict b k gap y tail ihy ihtail =>
    obtain ⟨t, z, es, ht, hz, hes, rfl⟩ := exists_of_entry hL
    refine ⟨hobj _, everyEntry_iff.mpr fun e he => ?_⟩
    have hall : EveryEntry P ((String.ofList t, z) :: es) := ⟨hstr k t ht, ihy hz, ihtail hes⟩
    exact everyEntry_iff.mp hall e (Dictionary.mem_ofEntries he)
  | endList b =>
    obtain rfl := Option.some.inj hL
    trivial
  | item b y tail ihy ihtail =>
    obtain ⟨z, zs, hz, hzs, rfl⟩ := exists_of_item hL
    exact ⟨ihy hz, ihtail hzs⟩
  | endDict b =>
    obtain rfl := Option.some.inj hL
    trivial
  | entry b k gap y tail ihy ihtail =>
    obtain ⟨t, z, es, ht, hz, hes, rfl⟩ := exists_of_entry hL
    exact ⟨hstr k t ht, ihy hz, ihtail hes⟩

/-- Something is decoded from strings in one piece only, that the decoder accepts. -/
theorem every_value_of_decode
    (hstr : ∀ s, Q s → (dec s).isSome = true → P (.str (String.ofList s)))
    (hbool : ∀ b, P (.bool b)) (hint : ∀ z, P (.int z))
    (hfloat : ∀ x, host.finite x = true → P (.float x)) (harr : ∀ items, P (.arr items))
    (hobj : ∀ entries, P (.obj entries)) {p : Part} (L : Layout F p) (hpieces : L.EveryPiece Q)
    {x : p.Result F} (hL : L.decode host dec = some x) : L.Whole ∧ p.Every P L.value := by
  induction L with
  | none => exact absurd hL (by simp [decode])
  | bool b => exact ⟨trivial, hbool b⟩
  | int z => exact ⟨trivial, hint z⟩
  | float y =>
    rw [decode] at hL
    split_ifs at hL with hfinite
    exact ⟨trivial, hfloat y hfinite⟩
  | str first more =>
    cases more with
    | nil =>
      obtain ⟨t, ht, -⟩ := Option.map_eq_some_iff.mp hL
      refine ⟨rfl, ?_⟩
      change P (.str (String.ofList (first ++ [])))
      rw [List.append_nil]
      exact hstr first hpieces.1 (ht ▸ rfl)
    | cons piece more => exact absurd hL (by simp [decode])
  | emptyList b => exact ⟨trivial, harr [], trivial⟩
  | list b y tail ihy ihtail =>
    obtain ⟨z, zs, hz, hzs, -⟩ := exists_of_item hL
    obtain ⟨hwy, hy⟩ := ihy hpieces.1 hz
    obtain ⟨hwtail, htail⟩ := ihtail hpieces.2 hzs
    exact ⟨⟨hwy, hwtail⟩, harr _, hy, htail⟩
  | emptyDict b => exact ⟨trivial, hobj [], trivial⟩
  | dict b k gap y tail ihy ihtail =>
    obtain ⟨t, z, es, ht, hz, hes, -⟩ := exists_of_entry hL
    obtain ⟨hwy, hy⟩ := ihy hpieces.2.1 hz
    obtain ⟨hwtail, htail⟩ := ihtail hpieces.2.2 hes
    exact ⟨⟨hwy, hwtail⟩, hobj _, hstr k hpieces.1 (ht ▸ rfl), hy, htail⟩
  | endList b => exact ⟨trivial, trivial⟩
  | item b y tail ihy ihtail =>
    obtain ⟨z, zs, hz, hzs, -⟩ := exists_of_item hL
    obtain ⟨hwy, hy⟩ := ihy hpieces.1 hz
    obtain ⟨hwtail, htail⟩ := ihtail hpieces.2 hzs
    exact ⟨⟨hwy, hwtail⟩, hy, htail⟩
  | endDict b => exact ⟨trivial, trivial⟩
  | entry b k gap y tail ihy ihtail =>
    obtain ⟨t, z, es, ht, hz, hes, -⟩ := exists_of_entry hL
    obtain ⟨hwy, hy⟩ := ihy hpieces.2.1 hz
    obtain ⟨hwtail, htail⟩ := ihtail hpieces.2.2 hes
    exact ⟨⟨hwy, hwtail⟩, hstr k hpieces.1 (ht ▸ rfl), hy, htail⟩

/-- The value is decoded with the strings that the decoder makes of its own. -/
theorem decode_eq_map {f : List Char → List Char} (hnull : ¬P .null)
    (hfloat : ∀ x, P (.float x) → host.finite x = true)
    (hstr : ∀ s, P (.str (String.ofList s)) → dec s = some (f s)) {p : Part} (L : Layout F p)
    (hwhole : L.Whole) (hL : p.Every P L.value) :
    L.decode host dec = some (p.mapStr f L.value) := by
  have hkey : ∀ k, String.ofList (f (String.ofList k).toList) = String.ofList (f k) :=
    fun k => by rw [String.toList_ofList]
  induction L with
  | none => exact absurd hL hnull
  | bool b => rfl
  | int z => rfl
  | float y => exact if_pos (hfloat y hL)
  | str first more =>
    obtain rfl : more = [] := hwhole
    change P (.str (String.ofList (first ++ []))) at hL
    rw [List.append_nil] at hL
    rw [decode, hstr first hL, value, List.map_nil, List.flatten_nil, List.append_nil]
    exact congrArg (fun s => some (Json.str s)) (hkey first).symm
  | emptyList b => rfl
  | list b y tail ihy ihtail =>
    rw [decode, ihy hwhole.1 hL.2.1, ihtail hwhole.2 hL.2.2]
    rfl
  | emptyDict b => rfl
  | dict b k gap y tail ihy ihtail =>
    rw [decode, hstr k hL.2.1, ihy hwhole.1 hL.2.2.1, ihtail hwhole.2 hL.2.2.2,
      Option.bind_some, Option.bind_some, Option.map_some, ← hkey]
    rfl
  | endList b => rfl
  | item b y tail ihy ihtail =>
    rw [decode, ihy hwhole.1 hL.1, ihtail hwhole.2 hL.2]
    rfl
  | endDict b => rfl
  | entry b k gap y tail ihy ihtail =>
    rw [decode, hstr k hL.1, ihy hwhole.1 hL.2.1, ihtail hwhole.2 hL.2.2,
      Option.bind_some, Option.bind_some, Option.map_some, ← hkey]
    rfl

/-- The value itself is decoded if the decoder keeps the strings and the dictionaries are in
order. -/
theorem decode_eq_value (hnull : ¬P .null) (hfloat : ∀ x, P (.float x) → host.finite x = true)
    (hstr : ∀ s, P (.str (String.ofList s)) → dec s = some s) {p : Part} (L : Layout F p)
    (hwhole : L.Whole) (hL : p.Every P L.value) (hsorted : p.Every InOrder L.value) :
    L.decode host dec = some L.value := by
  rw [decode_eq_map (f := id) hnull hfloat hstr L hwhole hL, p.mapStr_id hsorted]

theorem integerText_numeral (z : ℤ) : ∀ c ∈ integerText z, IsNumeral c := by
  have h := (scanNumber_eq_some (scanNumber_integerText z)).2
  rwa [List.append_nil] at h

theorem repr_chars (host : Host F) (x : F) :
    ∀ c ∈ host.repr x, IsNumeral c ∨ c ∈ ['n', 'a', 'i', 'f'] := by
  intro c hc
  cases hx : host.finite x
  · rcases host.repr_not_finite x hx with h | h | h <;> rw [h] at hc
    · exact Or.inr ((by simp : ∀ c ∈ ['n', 'a', 'n'], c ∈ ['n', 'a', 'i', 'f']) c hc)
    · exact Or.inr ((by simp : ∀ c ∈ ['i', 'n', 'f'], c ∈ ['n', 'a', 'i', 'f']) c hc)
    · rcases List.mem_cons.mp hc with rfl | hc
      · exact Or.inl (Or.inr (Or.inl rfl))
      · exact Or.inr ((by simp : ∀ c ∈ ['i', 'n', 'f'], c ∈ ['n', 'a', 'i', 'f']) c hc)
  · obtain ⟨integer, part, -, hscan⟩ := host.repr_token x hx
    obtain ⟨htoken, hchars⟩ := scanNumber_eq_some hscan
    rw [List.append_nil] at htoken
    exact Or.inl (hchars c (htoken ▸ hc))

section Aligned

variable {q : Char} (hq : q = '\'' ∨ q = '"')
include hq

/-- Characters of the layout itself. -/
theorem aligned_of_forall {text : List Char}
    (h : ∀ c ∈ text, IsNumeral c ∨ c.isAlpha = true ∨
      c ∈ [' ', '\n', '[', ']', '{', '}', ',', ':']) :
    Aligned q text := by
  refine Aligned.of_plain fun c hc => ⟨?_, ?_⟩
  · rintro rfl
    exact absurd (h _ hc) (by unfold IsNumeral; decide)
  · rintro rfl
    rcases hq with rfl | rfl
    · exact absurd (h _ hc) (by unfold IsNumeral; decide)
    · rfl

theorem aligned_word {word : List Char} (h : word.all Char.isAlpha = true) : Aligned q word :=
  aligned_of_forall hq fun c hc => Or.inr (Or.inl (List.all_eq_true.mp h c hc))

theorem aligned_blank (b : Blank) : Aligned q b.1 :=
  aligned_of_forall hq fun c hc => Or.inr (Or.inr
    ((b.2 c hc).elim (fun h => by rw [h]; decide) fun h => by rw [h]; decide))

/-- A rendered text consists of whole escapes if the tokens of its strings do. -/
theorem aligned_render {p : Part} (L : Layout F p)
    (hL : L.EveryPiece fun s => Aligned q (str s)) :
    Aligned q (L.render host boolText str) := by
  have hblank := aligned_blank hq
  have hframe : ∀ c ∈ ['[', ']', '{', '}', ',', ':'], Aligned q [c] := by
    intro c hc
    refine aligned_of_forall hq (List.forall_mem_singleton.mpr (Or.inr (Or.inr ?_)))
    exact List.mem_cons_of_mem _ (List.mem_cons_of_mem _ hc)
  induction L with
  | none =>
    change Aligned q ['N', 'o', 'n', 'e']
    exact aligned_word hq (by decide)
  | bool b =>
    change Aligned q (boolText b)
    cases b
    · exact aligned_word hq (by decide)
    · exact aligned_word hq (by decide)
  | int z => exact aligned_of_forall hq fun c hc => Or.inl (integerText_numeral z c hc)
  | float x =>
    refine aligned_of_forall hq fun c hc => (repr_chars host x c hc).imp_right fun h => Or.inl ?_
    exact (by simp : ∀ c ∈ ['n', 'a', 'i', 'f'], c.isAlpha = true) c h
  | str first more =>
    refine hL.1.append ?_
    obtain ⟨-, hmore⟩ := hL
    induction more with
    | nil => exact Aligned.nil
    | cons piece more ih =>
      obtain ⟨hpiece, hmore⟩ := List.forall_mem_cons.mp hmore
      exact ((hblank piece.1).append hpiece).append (ih hmore)
  | emptyList b =>
    exact ((hframe '[' (by decide)).append (hblank b)).append (hframe ']' (by decide))
  | list b x tail ihx ihtail =>
    exact ((hframe '[' (by decide)).append (hblank b)).append ((ihx hL.1).append (ihtail hL.2))
  | emptyDict b =>
    exact ((hframe '{' (by decide)).append (hblank b)).append (hframe '}' (by decide))
  | dict b k gap x tail ihx ihtail =>
    exact ((hframe '{' (by decide)).append (hblank b)).append
      ((hL.1.append ((hframe ':' (by decide)).append (hblank gap))).append
        ((ihx hL.2.1).append (ihtail hL.2.2)))
  | endList b => exact (hblank b).append (hframe ']' (by decide))
  | item b x tail ihx ihtail =>
    exact ((hframe ',' (by decide)).append (hblank b)).append ((ihx hL.1).append (ihtail hL.2))
  | endDict b => exact (hblank b).append (hframe '}' (by decide))
  | entry b k gap x tail ihx ihtail =>
    exact ((hframe ',' (by decide)).append (hblank b)).append
      ((hL.1.append ((hframe ':' (by decide)).append (hblank gap))).append
        ((ihx hL.2.1).append (ihtail hL.2.2)))

end Aligned

end Layout
