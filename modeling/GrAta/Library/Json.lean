import Mathlib.Data.List.Pairwise
import Mathlib.Data.String.Basic
import Mathlib.Tactic.Common

/-!
# Values with dictionaries

Values of nested lists and dictionaries over a type of floats. A dictionary is the list of its
entries in the order of their keys, so that two dictionaries with the same entries are equal.

## Main definitions

- `Dictionary.insert`, `Dictionary.assign`: assignments to keys
- `Json`: the values
- `Json.Every`: a property of every value inside, and of every key as a string
- `Json.Sorted`: every dictionary inside is in order
- `Json.mapStr`: the value with other strings

## Main results

- `Dictionary.lookup_insert`: what an assignment changes
- `Dictionary.Sorted.insert`: assignments keep the order
- `Dictionary.Sorted.ofEntries_eq`: entries in order are their own dictionary
- `Dictionary.lookup_ofEntries_map`: what is found when keys are renamed
- `Json.Sorted.mapStr_id`: a value in order is kept with its strings
-/

namespace Dictionary

variable {κ α : Type*} [LinearOrder κ]

/-- `d[k] = v`. -/
def insert (k : κ) (v : α) : List (κ × α) → List (κ × α)
  | [] => [(k, v)]
  | e :: d => if k < e.1 then (k, v) :: e :: d else if k = e.1 then (k, v) :: d
      else e :: insert k v d

/-- Assignments one after another. -/
def assign (d entries : List (κ × α)) : List (κ × α) :=
  entries.foldl (fun d e => insert e.1 e.2 d) d

/-- The dictionary of the entries that a text lists. -/
def ofEntries (entries : List (κ × α)) : List (κ × α) := assign [] entries

def Sorted (d : List (κ × α)) : Prop := d.Pairwise fun e e' => e.1 < e'.1

theorem lookup_cons_eq_ite (k : κ) (e : κ × α) (d : List (κ × α)) :
    (e :: d).lookup k = if k = e.1 then some e.2 else d.lookup k := by
  rw [List.lookup_cons, beq_eq_decide]
  by_cases h : k = e.1 <;> simp [h]

theorem lookup_insert (k k' : κ) (v : α) (d : List (κ × α)) :
    (insert k v d).lookup k' = if k' = k then some v else d.lookup k' := by
  induction d with
  | nil => rw [insert, lookup_cons_eq_ite]
  | cons e d ih =>
    rw [insert]
    rcases lt_trichotomy k e.1 with hlt | heq | hgt
    · rw [if_pos hlt, lookup_cons_eq_ite]
    · rw [if_neg heq.not_lt, if_pos heq, lookup_cons_eq_ite, lookup_cons_eq_ite, ← heq]
      split_ifs <;> rfl
    · rw [if_neg hgt.not_gt, if_neg hgt.ne', lookup_cons_eq_ite, lookup_cons_eq_ite, ih]
      by_cases hk : k' = k
      · rw [if_pos hk, if_neg (hk ▸ hgt.ne'), if_pos hk]
      · rw [if_neg hk, if_neg hk]

theorem mem_insert {k : κ} {v : α} {d : List (κ × α)} {e : κ × α} (h : e ∈ insert k v d) :
    e = (k, v) ∨ e ∈ d := by
  induction d with
  | nil => exact Or.inl (List.mem_singleton.mp h)
  | cons e' d ih =>
    rw [insert] at h
    split_ifs at h
    · exact List.mem_cons.mp h
    · exact (List.mem_cons.mp h).imp_right (List.mem_cons_of_mem e')
    · rcases List.mem_cons.mp h with rfl | h
      · exact Or.inr List.mem_cons_self
      · exact (ih h).imp_right (List.mem_cons_of_mem e')

theorem Sorted.insert {d : List (κ × α)} (h : Sorted d) (k : κ) (v : α) :
    Sorted (insert k v d) := by
  induction d with
  | nil => exact List.pairwise_singleton _ _
  | cons e d ih =>
    obtain ⟨hhead, htail⟩ := List.pairwise_cons.mp h
    rw [Dictionary.insert]
    split_ifs with hlt heq
    · refine List.pairwise_cons.mpr ⟨fun e' he' => ?_, h⟩
      rcases List.mem_cons.mp he' with rfl | he'
      · exact hlt
      · exact hlt.trans (hhead e' he')
    · exact List.pairwise_cons.mpr ⟨fun e' he' => heq ▸ hhead e' he', htail⟩
    · refine List.pairwise_cons.mpr ⟨fun e' he' => ?_, ih htail⟩
      rcases mem_insert he' with rfl | he'
      · exact lt_of_le_of_ne (not_lt.mp hlt) (Ne.symm heq)
      · exact hhead e' he'

theorem insert_eq_append {k : κ} {v : α} {d : List (κ × α)} (h : ∀ e ∈ d, e.1 < k) :
    insert k v d = d ++ [(k, v)] := by
  induction d with
  | nil => rfl
  | cons e d ih =>
    obtain ⟨hhead, htail⟩ := List.forall_mem_cons.mp h
    rw [insert, if_neg hhead.asymm, if_neg hhead.ne', ih htail, List.cons_append]

theorem lookup_assign_of_not_mem {k : κ} {entries : List (κ × α)}
    (h : k ∉ entries.map Prod.fst) (d : List (κ × α)) :
    (assign d entries).lookup k = d.lookup k := by
  induction entries generalizing d with
  | nil => rfl
  | cons e entries ih =>
    rw [List.map_cons, List.mem_cons, not_or] at h
    rw [assign, List.foldl_cons, ← assign, ih h.2, lookup_insert, if_neg h.1]

/-- Assignments remove no key. -/
theorem isSome_lookup_assign {k : κ} {d : List (κ × α)} (h : (d.lookup k).isSome = true)
    (entries : List (κ × α)) : ((assign d entries).lookup k).isSome = true := by
  induction entries generalizing d with
  | nil => exact h
  | cons e entries ih =>
    refine ih ?_
    rw [lookup_insert]
    split_ifs
    · rfl
    · exact h

theorem mem_assign {d entries : List (κ × α)} {e : κ × α} (h : e ∈ assign d entries) :
    e ∈ d ∨ e ∈ entries := by
  induction entries generalizing d with
  | nil => exact Or.inl h
  | cons e' entries ih =>
    rcases ih h with hin | hin
    · rcases mem_insert hin with rfl | hin
      · exact Or.inr List.mem_cons_self
      · exact Or.inl hin
    · exact Or.inr (List.mem_cons_of_mem _ hin)

theorem mem_ofEntries {entries : List (κ × α)} {e : κ × α} (h : e ∈ ofEntries entries) :
    e ∈ entries :=
  (mem_assign h).resolve_left List.not_mem_nil

theorem Sorted.assign {d : List (κ × α)} (h : Sorted d) (entries : List (κ × α)) :
    Sorted (assign d entries) := by
  induction entries generalizing d with
  | nil => exact h
  | cons e entries ih => exact ih (h.insert e.1 e.2)

theorem ofEntries_sorted (entries : List (κ × α)) : Sorted (ofEntries entries) :=
  Sorted.assign List.Pairwise.nil entries

theorem Sorted.assign_eq_append {d entries : List (κ × α)} (h : Sorted (d ++ entries)) :
    Dictionary.assign d entries = d ++ entries := by
  induction entries generalizing d with
  | nil => exact (List.append_nil d).symm
  | cons e entries ih =>
    have hlast : ∀ e' ∈ d, e'.1 < e.1 := fun e' he' =>
      (List.pairwise_append.mp h).2.2 e' he' e List.mem_cons_self
    rw [List.append_cons] at h
    rw [List.append_cons, Dictionary.assign, List.foldl_cons, insert_eq_append hlast]
    exact ih h

theorem Sorted.ofEntries_eq {entries : List (κ × α)} (h : Sorted entries) :
    ofEntries entries = entries :=
  Sorted.assign_eq_append h

section Rename

variable {β : Type*} {g : κ → κ} {f : α → β} {k : κ} {entries : List (κ × α)}

theorem lookup_assign_map (hk : g k = k) (hother : ∀ e ∈ entries, g e.1 = k → e.1 = k)
    (hsorted : Sorted entries) (d : List (κ × β)) :
    (assign d (entries.map fun e => (g e.1, f e.2))).lookup k =
      ((entries.lookup k).map f).or (d.lookup k) := by
  induction entries generalizing d with
  | nil => rfl
  | cons e entries ih =>
    obtain ⟨hhead, htail⟩ := List.pairwise_cons.mp hsorted
    obtain ⟨hfirst, hrest⟩ := List.forall_mem_cons.mp hother
    rw [List.map_cons, assign, List.foldl_cons, ← assign, ih hrest htail, lookup_insert,
      lookup_cons_eq_ite]
    by_cases he : k = e.1
    · subst he
      have hnone : entries.lookup e.1 = none := List.lookup_eq_none_iff.mpr fun e' he' =>
        bne_iff_ne.mpr (hhead e' he').ne
      rw [hnone, if_pos rfl, if_pos hk.symm]
      rfl
    · rw [if_neg he, if_neg fun h => he (hfirst h.symm).symm]

/-- A key that stays, and to which no other one is renamed. -/
theorem lookup_ofEntries_map (hk : g k = k) (hother : ∀ e ∈ entries, g e.1 = k → e.1 = k)
    (hsorted : Sorted entries) :
    (ofEntries (entries.map fun e => (g e.1, f e.2))).lookup k = (entries.lookup k).map f := by
  rw [ofEntries, lookup_assign_map hk hother hsorted, List.lookup_nil, Option.or_none]

end Rename

end Dictionary

/-- A value, with floats in `F`. -/
inductive Json (F : Type) where
  | null
  | bool (b : Bool)
  | int (z : ℤ)
  | float (x : F)
  | str (s : String)
  | arr (items : List (Json F))
  | obj (entries : List (String × Json F))

namespace Json

variable {F : Type}

mutual

/-- `P` holds of the value and of all values inside, where a key counts as a string. -/
def Every (P : Json F → Prop) : Json F → Prop
  | .arr items => P (.arr items) ∧ EveryItem P items
  | .obj entries => P (.obj entries) ∧ EveryEntry P entries
  | .null => P .null
  | .bool b => P (.bool b)
  | .int z => P (.int z)
  | .float x => P (.float x)
  | .str s => P (.str s)

def EveryItem (P : Json F → Prop) : List (Json F) → Prop
  | [] => True
  | x :: items => Every P x ∧ EveryItem P items

def EveryEntry (P : Json F → Prop) : List (String × Json F) → Prop
  | [] => True
  | (k, x) :: entries => P (.str k) ∧ Every P x ∧ EveryEntry P entries

end

mutual

instance decidableEvery (P : Json F → Prop) [DecidablePred P] : (x : Json F) → Decidable (Every P x)
  | .arr items =>
    have := decidableEveryItem P items
    inferInstanceAs (Decidable (_ ∧ _))
  | .obj entries =>
    have := decidableEveryEntry P entries
    inferInstanceAs (Decidable (_ ∧ _))
  | .null => inferInstanceAs (Decidable (P .null))
  | .bool b => inferInstanceAs (Decidable (P (.bool b)))
  | .int z => inferInstanceAs (Decidable (P (.int z)))
  | .float x => inferInstanceAs (Decidable (P (.float x)))
  | .str s => inferInstanceAs (Decidable (P (.str s)))

instance decidableEveryItem (P : Json F → Prop) [DecidablePred P] :
    (items : List (Json F)) → Decidable (EveryItem P items)
  | [] => isTrue trivial
  | x :: items =>
    have := decidableEvery P x
    have := decidableEveryItem P items
    inferInstanceAs (Decidable (_ ∧ _))

instance decidableEveryEntry (P : Json F → Prop) [DecidablePred P] :
    (entries : List (String × Json F)) → Decidable (EveryEntry P entries)
  | [] => isTrue trivial
  | (_, x) :: entries =>
    have := decidableEvery P x
    have := decidableEveryEntry P entries
    inferInstanceAs (Decidable (_ ∧ _ ∧ _))

end

theorem everyItem_iff {P : Json F → Prop} {items : List (Json F)} :
    EveryItem P items ↔ ∀ x ∈ items, Every P x := by
  induction items with
  | nil => simp [EveryItem]
  | cons x items ih => rw [EveryItem, ih, List.forall_mem_cons]

theorem everyEntry_iff {P : Json F → Prop} {entries : List (String × Json F)} :
    EveryEntry P entries ↔ ∀ e ∈ entries, P (.str e.1) ∧ Every P e.2 := by
  induction entries with
  | nil => simp [EveryEntry]
  | cons e entries ih => rw [EveryEntry, ih, List.forall_mem_cons, and_assoc]

mutual

theorem Every.imp {P Q : Json F → Prop} (h : ∀ x, P x → Q x) : ∀ x : Json F, x.Every P → x.Every Q
  | .arr items, hx => ⟨h _ hx.1, EveryItem.imp h items hx.2⟩
  | .obj entries, hx => ⟨h _ hx.1, EveryEntry.imp h entries hx.2⟩
  | .null, hx => h _ hx
  | .bool _, hx => h _ hx
  | .int _, hx => h _ hx
  | .float _, hx => h _ hx
  | .str _, hx => h _ hx

theorem EveryItem.imp {P Q : Json F → Prop} (h : ∀ x, P x → Q x) :
    ∀ items : List (Json F), EveryItem P items → EveryItem Q items
  | [], _ => trivial
  | x :: items, hx => ⟨Every.imp h x hx.1, EveryItem.imp h items hx.2⟩

theorem EveryEntry.imp {P Q : Json F → Prop} (h : ∀ x, P x → Q x) :
    ∀ entries : List (String × Json F), EveryEntry P entries → EveryEntry Q entries
  | [], _ => trivial
  | (_, x) :: entries, hx => ⟨h _ hx.1, Every.imp h x hx.2.1, EveryEntry.imp h entries hx.2.2⟩

end

/-- Assignments to a dictionary of values with a property. -/
theorem Every.assign {P : Json F → Prop} (hobj : ∀ entries, P (.obj entries))
    {d entries : List (String × Json F)} (h : (obj d).Every P) (hentries : EveryEntry P entries) :
    (obj (Dictionary.assign d entries)).Every P := by
  rw [Every] at h ⊢
  refine ⟨hobj _, everyEntry_iff.mpr fun e he => ?_⟩
  exact (Dictionary.mem_assign he).elim (everyEntry_iff.mp h.2 e) (everyEntry_iff.mp hentries e)

def InOrder : Json F → Prop
  | .obj entries => Dictionary.Sorted entries
  | _ => True

instance : DecidablePred (InOrder (F := F))
  | .obj entries => inferInstanceAs (Decidable (entries.Pairwise _))
  | .null => isTrue trivial
  | .bool _ => isTrue trivial
  | .int _ => isTrue trivial
  | .float _ => isTrue trivial
  | .str _ => isTrue trivial
  | .arr _ => isTrue trivial

/-- The dictionaries inside are in order. -/
def Sorted (x : Json F) : Prop := x.Every InOrder

theorem sorted_obj_iff {entries : List (String × Json F)} :
    (obj entries).Sorted ↔ Dictionary.Sorted entries ∧ ∀ e ∈ entries, e.2.Sorted := by
  rw [Sorted, Every, everyEntry_iff]
  simp only [InOrder, true_and, Sorted]

/-- Assignments of values in order. -/
theorem Sorted.assign {d entries : List (String × Json F)} (h : (obj d).Sorted)
    (hentries : ∀ e ∈ entries, e.2.Sorted) : (obj (Dictionary.assign d entries)).Sorted := by
  rw [sorted_obj_iff] at h ⊢
  refine ⟨h.1.assign entries, fun e he => ?_⟩
  exact (Dictionary.mem_assign he).elim (h.2 e) (hentries e)

/-! ### Other strings -/

mutual

/-- Every string through `f`, and every key. The last one of entries whose keys become equal
stays. -/
def mapStr (f : List Char → List Char) : Json F → Json F
  | .arr items => .arr (mapItems f items)
  | .obj entries => .obj (Dictionary.ofEntries (mapEntries f entries))
  | .null => .null
  | .bool b => .bool b
  | .int z => .int z
  | .float x => .float x
  | .str s => .str (String.ofList (f s.toList))

def mapItems (f : List Char → List Char) : List (Json F) → List (Json F)
  | [] => []
  | x :: items => mapStr f x :: mapItems f items

def mapEntries (f : List Char → List Char) : List (String × Json F) → List (String × Json F)
  | [] => []
  | (k, x) :: entries => (String.ofList (f k.toList), mapStr f x) :: mapEntries f entries

end

theorem mapItems_eq (f : List Char → List Char) (items : List (Json F)) :
    mapItems f items = items.map (mapStr f) := by
  induction items with
  | nil => rfl
  | cons x items ih => rw [mapItems, ih, List.map_cons]

theorem mapEntries_eq (f : List Char → List Char) (entries : List (String × Json F)) :
    mapEntries f entries =
      entries.map fun e => (String.ofList (f e.1.toList), mapStr f e.2) := by
  induction entries with
  | nil => rfl
  | cons e entries ih => rw [mapEntries, ih, List.map_cons]

section Inversion

variable {f : List Char → List Char} {x : Json F}

theorem mapStr_eq_int {z : ℤ} : mapStr f x = .int z ↔ x = .int z := by
  cases x <;> simp [mapStr]

theorem exists_of_mapStr_eq_str {s : String} (h : mapStr f x = .str s) :
    ∃ s', x = .str s' ∧ s = String.ofList (f s'.toList) := by
  cases x with
  | str s' => exact ⟨s', rfl, (Json.str.inj h).symm⟩
  | _ => simp [mapStr] at h

theorem exists_of_mapStr_eq_arr {items : List (Json F)} (h : mapStr f x = .arr items) :
    ∃ items', x = .arr items' ∧ items = items'.map (mapStr f) := by
  cases x with
  | arr items' => exact ⟨items', rfl, (mapItems_eq f items' ▸ Json.arr.inj h).symm⟩
  | _ => simp [mapStr] at h

/-- Only strings become strings. -/
theorem exists_of_map_mapStr_eq {items : List (Json F)} {names : List String}
    (h : items.map (mapStr f) = names.map .str) : ∃ names' : List String,
      items = names'.map .str ∧ names = names'.map fun s => String.ofList (f s.toList) := by
  induction items generalizing names with
  | nil =>
    obtain rfl := List.map_eq_nil_iff.mp h.symm
    exact ⟨[], rfl, rfl⟩
  | cons x items ih =>
    obtain ⟨name, names, rfl, hname, hnames⟩ := List.map_eq_cons_iff.mp h.symm
    obtain ⟨s, rfl, rfl⟩ := exists_of_mapStr_eq_str hname.symm
    obtain ⟨names', rfl, rfl⟩ := ih hnames.symm
    exact ⟨s :: names', rfl, rfl⟩

end Inversion

mutual

theorem Sorted.mapStr_id : ∀ x : Json F, x.Sorted → mapStr id x = x
  | .arr items, h => congrArg Json.arr (mapItems_id items h.2)
  | .obj entries, h => by
    rw [mapStr, mapEntries_id entries h.2, Dictionary.Sorted.ofEntries_eq h.1]
  | .null, _ => rfl
  | .bool _, _ => rfl
  | .int _, _ => rfl
  | .float _, _ => rfl
  | .str s, _ => congrArg Json.str (String.ofList_toList)

theorem mapItems_id : ∀ items : List (Json F), EveryItem InOrder items →
    mapItems id items = items
  | [], _ => rfl
  | x :: items, h => by rw [mapItems, Sorted.mapStr_id x h.1, mapItems_id items h.2]

theorem mapEntries_id : ∀ entries : List (String × Json F), EveryEntry InOrder entries →
    mapEntries id entries = entries
  | [], _ => rfl
  | (k, x) :: entries, h => by
    rw [mapEntries, Sorted.mapStr_id x h.2.1, mapEntries_id entries h.2.2, id,
      String.ofList_toList]

end

end Json
