import Mathlib.Data.List.Infix
import Mathlib.Tactic.Common

/-!
# Substitution in a text

Every occurrence of a word is replaced, from left to right. Where only the first letter of the
word changes and it does not stand in the word again, a letter is changed if the word starts
there.

## Main definitions

- `replaceAll`: the substitution
- `mapHead`: the same letter by letter, for words `a :: w` and `b :: w`

## Main results

- `replaceAll_eq_mapHead`: the two agree
- `mapHead_append`: texts that no occurrence joins
- `not_infix_mapHead`: no occurrence is left
- `mapHead_eq_self`: when nothing changes
- `mapHead_flatMap`: texts in which the other letters are written with several
-/

namespace Substitution

variable {α : Type*} [DecidableEq α]

/-- The substitution behind `k` letters that belong to the last occurrence. -/
def replaceFrom (old new : List α) : ℕ → List α → List α
  | _, [] => []
  | k + 1, _ :: s => replaceFrom old new k s
  | 0, c :: s =>
    if old.isPrefixOf (c :: s) then new ++ replaceFrom old new (old.length - 1) s
    else c :: replaceFrom old new 0 s

/-- `s.replace(old, new)` for a word that is not empty. -/
def replaceAll (old new s : List α) : List α := replaceFrom old new 0 s

/-- The letters `a` that `w` follows become `b`. -/
def mapHead (a b : α) (w : List α) : List α → List α
  | [] => []
  | c :: s => (if (a :: w).isPrefixOf (c :: s) then b else c) :: mapHead a b w s

theorem replaceFrom_append (old new u s : List α) :
    replaceFrom old new u.length (u ++ s) = replaceFrom old new 0 s := by
  induction u with
  | nil => rfl
  | cons c u ih => exact ih

/-- One letter is replaced everywhere. -/
theorem replaceAll_singleton (a b : α) (s : List α) :
    replaceAll [a] [b] s = s.map fun c => if c = a then b else c := by
  induction s with
  | nil => rfl
  | cons c s ih =>
    have hstart : [a].isPrefixOf (c :: s) = true ↔ c = a := by
      rw [List.isPrefixOf_iff_prefix, List.singleton_prefix_cons_iff, eq_comm]
    rw [replaceAll, replaceFrom, List.map_cons, ← ih]
    split_ifs with h h' h'
    · rfl
    · exact absurd (hstart.mp h) h'
    · exact absurd (hstart.mpr h') h
    · rfl

section Head

variable {a b : α} {w : List α}

theorem mapHead_cons_occurs {c : α} {s : List α} (h : a :: w <+: c :: s) :
    mapHead a b w (c :: s) = b :: mapHead a b w s := by
  rw [mapHead, if_pos (List.isPrefixOf_iff_prefix.mpr h)]

theorem mapHead_cons_skips {c : α} {s : List α} (h : ¬a :: w <+: c :: s) :
    mapHead a b w (c :: s) = c :: mapHead a b w s := by
  rw [mapHead, if_neg fun h' => h (List.isPrefixOf_iff_prefix.mp h')]

/-- Letters other than `a` stay. -/
theorem mapHead_append_of_not_mem {u : List α} (h : a ∉ u) (s : List α) :
    mapHead a b w (u ++ s) = u ++ mapHead a b w s := by
  induction u with
  | nil => rfl
  | cons c u ih =>
    have hstart : ¬a :: w <+: c :: (u ++ s) := fun hstart =>
      h (List.mem_cons.mpr (Or.inl (List.cons_prefix_cons.mp hstart).1))
    rw [List.cons_append, mapHead_cons_skips hstart,
      ih fun hmem => h (List.mem_cons_of_mem c hmem), List.cons_append]

theorem replaceAll_eq_mapHead (h : a ∉ w) (s : List α) :
    replaceAll (a :: w) (b :: w) s = mapHead a b w s := by
  induction hn : s.length using Nat.strongRecOn generalizing s with
  | ind n ih =>
    cases s with
    | nil => rfl
    | cons c s =>
      by_cases hstart : a :: w <+: c :: s
      · obtain ⟨t, ht⟩ := hstart
        rw [List.cons_append] at ht
        obtain ⟨rfl, rfl⟩ := List.cons.inj ht
        have hlt : t.length < n := by
          rw [← hn, List.length_cons, List.length_append]
          omega
        have hword : a :: w <+: a :: (w ++ t) :=
          List.cons_prefix_cons.mpr ⟨rfl, List.prefix_append w t⟩
        rw [mapHead_cons_occurs hword, mapHead_append_of_not_mem h, ← ih _ hlt t rfl,
          replaceAll, replaceFrom, if_pos (List.isPrefixOf_iff_prefix.mpr hword),
          List.length_cons, Nat.add_sub_cancel, replaceFrom_append]
        rfl
      · have hlt : s.length < n := by
          rw [← hn]
          exact Nat.lt_succ_self _
        rw [mapHead_cons_skips hstart, ← ih _ hlt s rfl, replaceAll, replaceFrom,
          if_neg fun h' => hstart (List.isPrefixOf_iff_prefix.mp h')]
        rfl

omit [DecidableEq α] in
/-- A word does not reach into a text that starts with another letter. -/
theorem prefix_append_iff {u s t : List α} (h : ∀ c ∈ t.head?, c ∉ u) :
    u <+: s ++ t ↔ u <+: s := by
  refine ⟨fun hstart => ?_, fun hstart => hstart.trans (List.prefix_append s t)⟩
  induction u generalizing s with
  | nil => exact List.nil_prefix
  | cons c u ih =>
    cases s with
    | nil =>
      obtain ⟨v, hv⟩ := hstart
      rw [List.nil_append] at hv
      exact absurd List.mem_cons_self (h c (hv ▸ rfl))
    | cons c' s =>
      obtain ⟨rfl, htail⟩ := List.cons_prefix_cons.mp hstart
      refine List.cons_prefix_cons.mpr ⟨rfl, ih (fun c' hc' hmem => ?_) htail⟩
      exact h c' hc' (List.mem_cons_of_mem c hmem)

theorem mapHead_append {s t : List α} (h : ∀ c ∈ t.head?, c ∉ w) :
    mapHead a b w (s ++ t) = mapHead a b w s ++ mapHead a b w t := by
  induction s with
  | nil => rfl
  | cons c s ih =>
    have hiff : a :: w <+: c :: (s ++ t) ↔ a :: w <+: c :: s := by
      rw [List.cons_prefix_cons, List.cons_prefix_cons, prefix_append_iff h]
    by_cases hstart : a :: w <+: c :: s
    · rw [List.cons_append, mapHead_cons_occurs (hiff.mpr hstart),
        mapHead_cons_occurs hstart, ih, List.cons_append]
    · rw [List.cons_append, mapHead_cons_skips (mt hiff.mp hstart),
        mapHead_cons_skips hstart, ih, List.cons_append]

theorem prefix_of_prefix_mapHead {u s : List α} (hb : b ∉ u) (h : u <+: mapHead a b w s) :
    u <+: s := by
  induction u generalizing s with
  | nil => exact List.nil_prefix
  | cons c u ih =>
    cases s with
    | nil => exact absurd (List.prefix_nil.mp h) (by simp)
    | cons c' s =>
      obtain ⟨hc, htail⟩ := List.cons_prefix_cons.mp h
      have hb' : b ∉ u := fun hmem => hb (List.mem_cons_of_mem c hmem)
      refine List.cons_prefix_cons.mpr ⟨?_, ih hb' htail⟩
      split_ifs at hc
      · exact absurd (List.mem_cons.mpr (Or.inl hc.symm)) hb
      · exact hc

/-- No occurrence of a word without `b` is made. -/
theorem infix_of_infix_mapHead {u s : List α} (hb : b ∉ u) (h : u <:+: mapHead a b w s) :
    u <:+: s := by
  induction s with
  | nil => exact h
  | cons c s ih =>
    rcases List.infix_cons_iff.mp h with hstart | hinside
    · exact (prefix_of_prefix_mapHead (s := c :: s) hb hstart).isInfix
    · exact List.infix_cons_iff.mpr (Or.inr (ih hinside))

/-- No occurrence is left. -/
theorem not_infix_mapHead (hab : a ≠ b) (hb : b ∉ w) (s : List α) :
    ¬a :: w <:+: mapHead a b w s := by
  induction s with
  | nil => exact fun h => absurd (List.infix_nil.mp h) (by simp)
  | cons c s ih =>
    intro h
    rcases List.infix_cons_iff.mp h with hstart | hinside
    · have hword : a :: w <+: c :: s := by
        refine prefix_of_prefix_mapHead (s := c :: s) (fun hmem => ?_) hstart
        exact (List.mem_cons.mp hmem).elim (fun h => hab h.symm) hb
      have hhead := (List.cons_prefix_cons.mp hstart).1
      rw [if_pos (List.isPrefixOf_iff_prefix.mpr hword)] at hhead
      exact hab hhead
    · exact ih hinside

theorem mapHead_suffix (p s : List α) : mapHead a b w s <:+ mapHead a b w (p ++ s) := by
  induction p with
  | nil => exact List.suffix_rfl
  | cons c p ih => exact ih.trans (List.suffix_cons _ _)

/-- Words without `a` stay. -/
theorem infix_mapHead {u s : List α} (ha : a ∉ u) (h : u <:+: s) : u <:+: mapHead a b w s := by
  obtain ⟨p, q, rfl⟩ := h
  have hword := mapHead_suffix (a := a) (b := b) (w := w) p (u ++ q)
  rw [mapHead_append_of_not_mem ha] at hword
  rw [List.append_assoc]
  exact (List.prefix_append u _).isInfix.trans hword.isInfix

theorem mem_mapHead_of_ne {c : α} {s : List α} (h : c ∈ s) (hc : c ≠ a) :
    c ∈ mapHead a b w s := by
  have ha : a ∉ [c] := fun hmem => hc (List.mem_singleton.mp hmem).symm
  exact (List.singleton_infix_iff c _).mp
    (infix_mapHead ha ((List.singleton_infix_iff c s).mpr h))

/-- Every occurrence is replaced. -/
theorem occurs_mapHead {s : List α} (ha : a ∉ w) (h : a :: w <:+: s) :
    b :: w <:+: mapHead a b w s := by
  obtain ⟨p, q, rfl⟩ := h
  have hword := mapHead_suffix (a := a) (b := b) (w := w) p (a :: (w ++ q))
  rw [mapHead_cons_occurs (List.cons_prefix_cons.mpr ⟨rfl, List.prefix_append w q⟩),
    mapHead_append_of_not_mem ha, ← List.cons_append] at hword
  rw [List.append_assoc, List.cons_append]
  exact (List.prefix_append (b :: w) _).isInfix.trans hword.isInfix

theorem mapHead_eq_self {s : List α} (h : ¬a :: w <:+: s) : mapHead a b w s = s := by
  induction s with
  | nil => rfl
  | cons c s ih =>
    have htail : ¬a :: w <:+: s := fun hs => h (List.infix_cons_iff.mpr (Or.inr hs))
    rw [mapHead_cons_skips fun hs => h hs.isInfix, ih htail]

/-- One letter of the result. -/
theorem exists_mapHead_cons (c : α) (s : List α) :
    ∃ c', mapHead a b w (c :: s) = c' :: mapHead a b w s ∧ (c' = c ∨ c = a ∧ c' = b) := by
  by_cases h : a :: w <+: c :: s
  · exact ⟨b, mapHead_cons_occurs h, Or.inr ⟨(List.cons_prefix_cons.mp h).1.symm, rfl⟩⟩
  · exact ⟨c, mapHead_cons_skips h, Or.inl rfl⟩

theorem mem_mapHead {c : α} {s : List α} (h : c ∈ mapHead a b w s) : c = b ∨ c ∈ s := by
  induction s with
  | nil => exact Or.inr h
  | cons c' s ih =>
    obtain ⟨d, hd, hcases⟩ := exists_mapHead_cons (a := a) (b := b) (w := w) c' s
    rw [hd] at h
    rcases List.mem_cons.mp h with rfl | h
    · rcases hcases with rfl | ⟨-, rfl⟩
      · exact Or.inr List.mem_cons_self
      · exact Or.inl rfl
    · exact (ih h).imp_right (List.mem_cons_of_mem c')

omit [DecidableEq α] in
/-- A word of letters that `f` keeps starts in the image where it starts in the text. -/
theorem prefix_flatMap_iff {f : α → List α} {u : List α} (hword : ∀ c ∈ u, f c = [c])
    (hother : ∀ c, f c = [c] ∨ ∃ d e, f c = d :: e ∧ d ∉ u) (s : List α) :
    u <+: s.flatMap f ↔ u <+: s := by
  induction u generalizing s with
  | nil => exact iff_of_true List.nil_prefix List.nil_prefix
  | cons c u ih =>
    have ih := ih (fun c' hc' => hword c' (List.mem_cons_of_mem c hc')) fun c' =>
      (hother c').imp_right fun ⟨d, e, he, hd⟩ => ⟨d, e, he, fun h => hd (List.mem_cons_of_mem c h)⟩
    cases s with
    | nil => rfl
    | cons x s =>
      rw [List.flatMap_cons]
      rcases hother x with hx | ⟨d, e, hx, hd⟩
      · rw [hx, List.singleton_append, List.cons_prefix_cons, List.cons_prefix_cons, ih]
      · have hdc : c ≠ d := fun h => hd (h ▸ List.mem_cons_self)
        have hxc : c ≠ x := by
          rintro rfl
          rw [hword c List.mem_cons_self] at hx
          exact hdc (List.cons.inj hx).1
        rw [hx, List.cons_append, List.cons_prefix_cons, List.cons_prefix_cons]
        exact iff_of_false (fun h => hdc h.1) fun h => hxc h.1

/-- The substitution and a letter by letter image that keeps the letters of the words. -/
theorem mapHead_flatMap {f : α → List α} (hword : ∀ c ∈ a :: b :: w, f c = [c])
    (hother : ∀ c, f c = [c] ∨ ∃ d e, f c = d :: e ∧ d ∉ w ∧ a ∉ d :: e) (s : List α) :
    mapHead a b w (s.flatMap f) = (mapHead a b w s).flatMap f := by
  have hiff := prefix_flatMap_iff
    (fun c hc => hword c (List.mem_cons_of_mem a (List.mem_cons_of_mem b hc)))
    fun c => (hother c).imp_right fun ⟨d, e, he, hd, _⟩ => ⟨d, e, he, hd⟩
  induction s with
  | nil => rfl
  | cons x s ih =>
    rw [List.flatMap_cons]
    rcases hother x with hx | ⟨d, e, hx, -, ha⟩
    · rw [hx, List.singleton_append]
      by_cases h : a :: w <+: x :: s
      · have h' : a :: w <+: x :: s.flatMap f := by
          rwa [List.cons_prefix_cons, hiff, ← List.cons_prefix_cons]
        rw [mapHead_cons_occurs h', mapHead_cons_occurs h, ih, List.flatMap_cons,
          hword b (by simp), List.singleton_append]
      · have h' : ¬a :: w <+: x :: s.flatMap f := by
          rwa [List.cons_prefix_cons, hiff, ← List.cons_prefix_cons]
        rw [mapHead_cons_skips h', mapHead_cons_skips h, ih, List.flatMap_cons,
          hx, List.singleton_append]
    · have hxa : ¬a :: w <+: x :: s := by
        intro h
        rw [← (List.cons_prefix_cons.mp h).1, hword a List.mem_cons_self] at hx
        exact ha (hx ▸ List.mem_cons_self)
      rw [hx, mapHead_append_of_not_mem ha, mapHead_cons_skips hxa, ih, List.flatMap_cons,
        hx]

end Head

end Substitution
