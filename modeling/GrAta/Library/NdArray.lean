import Mathlib.Algebra.BigOperators.Group.List.Basic
import Mathlib.Data.List.Basic
import Mathlib.Data.List.Nodup
import Mathlib.Tactic.Common
import Mathlib.Tactic.Ring

/-!
# Arrays with several axes

An array is a list of cells with a shape. The last axis runs fastest. An index that is
not within the shape is refused. Loop nests that copy cells are lists of moves, each from
a place in a list to an index of the array.

## Main definitions

- `NdArray.Within`, `NdArray.offset`: the indices of a shape and their places in the list
- `NdArray`: a list of cells with a shape
- `NdArray.get?`, `NdArray.set`: one access
- `NdArray.copyAll`, `NdArray.Moves`: a sequence of moves
- `NdArray.reshape`, `NdArray.concatenate`: other shapes
- `NdArray.Extends`: an array with rows behind those of another one

## Main results

- `NdArray.offset_lt`, `NdArray.offset_injective`: different indices have different places
- `NdArray.exists_set`: what a write changes
- `NdArray.Moves.exists_copyAll`: what a sequence of moves stores
- `NdArray.Moves.copyAll_perm`: the order does not matter when every index is reached
- `NdArray.nodup_flatMap_range`: loop nests that name no index twice
- `NdArray.Extends.get?_left`, `NdArray.Extends.get?_right`: the old and the new rows
-/

/-- An array: its cells in the order in which the last axis runs fastest. -/
@[ext]
structure NdArray (α : Type*) where
  shape : List ℕ
  data : List α
  size_eq : data.length = shape.prod

namespace NdArray

variable {α β : Type*}

/-- The indices of a shape. -/
def Within : List ℕ → List ℕ → Prop
  | [], [] => True
  | d :: dims, i :: ix => i < d ∧ Within dims ix
  | _, _ => False

instance decidableWithin : (dims ix : List ℕ) → Decidable (Within dims ix)
  | [], [] => isTrue trivial
  | _ :: dims, _ :: ix =>
    have := decidableWithin dims ix
    inferInstanceAs (Decidable (_ ∧ _))
  | [], _ :: _ => isFalse id
  | _ :: _, [] => isFalse id

theorem eq_of_within_one {n : ℕ} {ix : List ℕ} (h : Within [n] ix) : ∃ i < n, ix = [i] := by
  match ix, h with
  | [i], ⟨hi, _⟩ => exact ⟨i, hi, rfl⟩

theorem within_two {m n i j : ℕ} (hi : i < m) (hj : j < n) : Within [m, n] [i, j] :=
  ⟨hi, hj, trivial⟩

/-- The place of an index in the list of cells. -/
def offset : List ℕ → List ℕ → ℕ
  | _ :: dims, i :: ix => i * dims.prod + offset dims ix
  | _, _ => 0

theorem offset_lt {dims ix : List ℕ} (h : Within dims ix) : offset dims ix < dims.prod := by
  induction dims generalizing ix with
  | nil => exact Nat.one_pos
  | cons d dims ih =>
    cases ix with
    | nil => exact h.elim
    | cons i ix =>
      obtain ⟨hi, hix⟩ := h
      have hrest := ih hix
      have hmul : (i + 1) * dims.prod ≤ d * dims.prod := Nat.mul_le_mul_right _ hi
      rw [Nat.add_mul, Nat.one_mul] at hmul
      rw [offset, List.prod_cons]
      omega

theorem offset_three (a b c i j k : ℕ) : offset [a, b, c] [i, j, k] = (i * b + j) * c + k := by
  simp only [offset, List.prod_cons, List.prod_nil]
  ring

theorem offset_four (a b c d i j k l : ℕ) :
    offset [a, b, c, d] [i, j, k, l] = ((i * b + j) * c + k) * d + l := by
  simp only [offset, List.prod_cons, List.prod_nil]
  ring

theorem offset_three_lt {a b c i j k : ℕ} (hi : i < a) (hj : j < b) (hk : k < c) :
    (i * b + j) * c + k < a * b * c := by
  have hwithin : Within [a, b, c] [i, j, k] := ⟨hi, hj, hk, trivial⟩
  have hlt := offset_lt hwithin
  rwa [offset_three, List.prod_cons, List.prod_cons, List.prod_singleton, ← Nat.mul_assoc] at hlt

/-- Different indices have different places. -/
theorem offset_injective {dims ix ix' : List ℕ} (h : Within dims ix) (h' : Within dims ix')
    (heq : offset dims ix = offset dims ix') : ix = ix' := by
  induction dims generalizing ix ix' with
  | nil =>
    cases ix with
    | nil => cases ix' with
      | nil => rfl
      | cons i' ix' => exact h'.elim
    | cons i ix => exact h.elim
  | cons d dims ih =>
    cases ix with
    | nil => exact h.elim
    | cons i ix =>
      cases ix' with
      | nil => exact h'.elim
      | cons i' ix' =>
        have hlt := offset_lt h.2
        have hlt' := offset_lt h'.2
        rw [offset, offset] at heq
        have hi : i = i' := by
          have hdiv : (i * dims.prod + offset dims ix) / dims.prod =
              (i' * dims.prod + offset dims ix') / dims.prod := by rw [heq]
          rw [Nat.mul_comm i, Nat.mul_comm i', Nat.mul_add_div (by omega),
            Nat.mul_add_div (by omega), Nat.div_eq_of_lt hlt, Nat.div_eq_of_lt hlt'] at hdiv
          exact hdiv
        subst hi
        rw [ih h.2 h'.2 (Nat.add_left_cancel heq)]

/-- The index with a given place. -/
theorem exists_offset {dims : List ℕ} {n : ℕ} (h : n < dims.prod) :
    ∃ ix, Within dims ix ∧ offset dims ix = n := by
  induction dims generalizing n with
  | nil =>
    rw [List.prod_nil] at h
    exact ⟨[], trivial, (Nat.lt_one_iff.mp h).symm⟩
  | cons d dims ih =>
    rw [List.prod_cons] at h
    have hpos : 0 < dims.prod := Nat.pos_of_ne_zero fun h0 => by rw [h0] at h; omega
    obtain ⟨ix, hix, hoff⟩ := ih (Nat.mod_lt n hpos)
    refine ⟨n / dims.prod :: ix, ⟨(Nat.div_lt_iff_lt_mul hpos).mpr h, hix⟩, ?_⟩
    rw [offset, hoff, Nat.mul_comm]
    exact Nat.div_add_mod ..

-- ════════════════════════════════════════════════════════════════════════
-- Accesses
-- ════════════════════════════════════════════════════════════════════════

/-- The cell with index `ix`, refused when there is none. -/
def get? (a : NdArray α) (ix : List ℕ) : Option α :=
  if Within a.shape ix then a.data[offset a.shape ix]? else none

/-- Write `v` at index `ix`, refused when the array has no such index. -/
def set (a : NdArray α) (ix : List ℕ) (v : α) : Option (NdArray α) :=
  if Within a.shape ix then
    some ⟨a.shape, a.data.set (offset a.shape ix) v, by rw [List.length_set, a.size_eq]⟩
  else none

/-- The array with one value in every cell. -/
def full (shape : List ℕ) (v : α) : NdArray α := ⟨shape, List.replicate shape.prod v, by simp⟩

/-- A list as an array with one axis. -/
def ofList (l : List α) : NdArray α := ⟨[l.length], l, by simp⟩

theorem get?_of_within {a : NdArray α} {ix : List ℕ} (h : Within a.shape ix) :
    a.get? ix = a.data[offset a.shape ix]? := if_pos h

theorem get?_of_not_within {a : NdArray α} {ix : List ℕ} (h : ¬ Within a.shape ix) :
    a.get? ix = none := if_neg h

theorem get?_isSome {a : NdArray α} {ix : List ℕ} (h : Within a.shape ix) :
    (a.get? ix).isSome := by
  rw [get?_of_within h, List.getElem?_eq_getElem (a.size_eq ▸ offset_lt h)]
  rfl

theorem get?_full {shape ix : List ℕ} (h : Within shape ix) (v : α) :
    (full shape v).get? ix = some v := by
  rw [get?_of_within h, full, List.getElem?_replicate, if_pos (offset_lt h)]

/-- The cells of an array with one axis. -/
theorem get?_singleton {a : NdArray α} {n : ℕ} (h : a.shape = [n]) (i : ℕ) :
    a.get? [i] = a.data[i]? := by
  have hlen : a.data.length = n := by rw [a.size_eq, h, List.prod_singleton]
  rw [get?, h]
  by_cases hi : i < n
  · rw [if_pos ⟨hi, trivial⟩, offset, offset, List.prod_nil, Nat.mul_one, Nat.add_zero]
    simp
  · rw [if_neg fun hwithin => hi hwithin.1, List.getElem?_eq_none (by omega)]

theorem exists_set {a : NdArray α} {ix : List ℕ} (h : Within a.shape ix) (v : α) :
    ∃ a', a.set ix v = some a' ∧ a'.shape = a.shape ∧
      ∀ ix', a'.get? ix' = if ix' = ix then some v else a.get? ix' := by
  let b : NdArray α :=
    ⟨a.shape, a.data.set (offset a.shape ix) v, by rw [List.length_set, a.size_eq]⟩
  refine ⟨b, if_pos h, rfl, fun ix' => ?_⟩
  by_cases hwithin : Within a.shape ix'
  · have hb : b.get? ix' = b.data[offset a.shape ix']? := get?_of_within (a := b) hwithin
    rw [hb, get?_of_within hwithin, List.getElem?_set]
    by_cases heq : ix' = ix
    · rw [heq, if_pos rfl, if_pos rfl, if_pos (a.size_eq ▸ offset_lt h)]
    · have hoff : offset a.shape ix ≠ offset a.shape ix' := fun hoff =>
        heq (offset_injective h hwithin hoff).symm
      rw [if_neg heq, if_neg hoff]
  · have hb : b.get? ix' = none := get?_of_not_within (a := b) hwithin
    have hne : ix' ≠ ix := fun heq => hwithin (heq ▸ h)
    rw [hb, get?_of_not_within hwithin, if_neg hne]

theorem shape_of_set {a b : NdArray α} {ix : List ℕ} {v : α} (h : a.set ix v = some b) :
    b.shape = a.shape := by
  rw [set] at h
  split at h
  · rw [← Option.some.inj h]
  · cases h

theorem within_of_set {a b : NdArray α} {ix : List ℕ} {v : α} (h : a.set ix v = some b) :
    Within a.shape ix := by
  rw [set] at h
  split at h
  · assumption
  · cases h

-- ════════════════════════════════════════════════════════════════════════
-- Moves
-- ════════════════════════════════════════════════════════════════════════

/-- Copy cells of a list, each to an index of the array. -/
def copyAll (src : List α) : NdArray α → List (List ℕ × ℕ) → Option (NdArray α)
  | a, [] => some a
  | a, m :: ms => (src[m.2]?).bind fun v => (a.set m.1 v).bind fun a' => copyAll src a' ms

/-- Moves from a list with `n` cells into a shape that give no index two values. -/
structure Moves (shape : List ℕ) (n : ℕ) (ms : List (List ℕ × ℕ)) : Prop where
  within : ∀ m ∈ ms, Within shape m.1
  source : ∀ m ∈ ms, m.2 < n
  unique : ∀ m ∈ ms, ∀ m' ∈ ms, m.1 = m'.1 → m.2 = m'.2

theorem Moves.tail {shape : List ℕ} {n : ℕ} {m : List ℕ × ℕ} {ms : List (List ℕ × ℕ)}
    (h : Moves shape n (m :: ms)) : Moves shape n ms where
  within := (List.forall_mem_cons.mp h.within).2
  source := (List.forall_mem_cons.mp h.source).2
  unique := fun m' hm' m'' hm'' =>
    h.unique m' (List.mem_cons_of_mem _ hm') m'' (List.mem_cons_of_mem _ hm'')

/-- **Moves.** Every named index holds the value that was moved to it, the others are
unchanged. -/
theorem Moves.exists_copyAll {src : List α} {a : NdArray α} {ms : List (List ℕ × ℕ)}
    (h : Moves a.shape src.length ms) :
    ∃ a', a.copyAll src ms = some a' ∧ a'.shape = a.shape ∧
      (∀ m ∈ ms, a'.get? m.1 = src[m.2]?) ∧
      ∀ ix, ix ∉ ms.map Prod.fst → a'.get? ix = a.get? ix := by
  induction ms generalizing a with
  | nil => exact ⟨a, rfl, rfl, fun m hm => absurd hm List.not_mem_nil, fun ix _ => rfl⟩
  | cons m ms ih =>
    have hlt : m.2 < src.length := h.source m List.mem_cons_self
    have hv : src[m.2]? = some src[m.2] := List.getElem?_eq_getElem hlt
    obtain ⟨b, hb, hshape, hget⟩ := exists_set (h.within m List.mem_cons_self) src[m.2]
    obtain ⟨c, hc, hshape', hnamed, hother⟩ := ih (hshape ▸ h.tail)
    refine ⟨c, ?_, hshape'.trans hshape, ?_, ?_⟩
    · rw [copyAll, hv, Option.bind_some, hb, Option.bind_some, hc]
    · refine List.forall_mem_cons.mpr ⟨?_, hnamed⟩
      by_cases hagain : m.1 ∈ ms.map Prod.fst
      · obtain ⟨m', hm', heq⟩ := List.mem_map.mp hagain
        rw [← heq, hnamed m' hm',
          h.unique m' (List.mem_cons_of_mem _ hm') m List.mem_cons_self heq]
      · rw [hother _ hagain, hget, if_pos rfl, hv]
    · intro ix hix
      rw [List.map_cons, List.mem_cons, not_or] at hix
      rw [hother ix hix.2, hget, if_neg hix.1]

theorem copyAll_append (src : List α) (a : NdArray α) (ms ms' : List (List ℕ × ℕ)) :
    copyAll src a (ms ++ ms') = (copyAll src a ms).bind fun b => copyAll src b ms' := by
  induction ms generalizing a with
  | nil => rfl
  | cons m ms ih =>
    rw [List.cons_append, copyAll, copyAll]
    cases src[m.2]? with
    | none => rfl
    | some v =>
      rw [Option.bind_some, Option.bind_some]
      cases a.set m.1 v with
      | none => rfl
      | some b => exact ih b

/-- The moves of a loop, pass by pass. -/
theorem foldlM_copyAll (src : List α) (pass : β → List (List ℕ × ℕ)) (order : List β)
    (a : NdArray α) :
    order.foldlM (fun b i => copyAll src b (pass i)) a = copyAll src a (order.flatMap pass) := by
  induction order generalizing a with
  | nil => rfl
  | cons i order ih =>
    rw [List.foldlM_cons, List.flatMap_cons, copyAll_append]
    exact congrArg (copyAll src a (pass i)).bind (funext ih)

/-- Arrays of one shape with the same cells are equal. -/
theorem ext_get? {a b : NdArray α} (hshape : a.shape = b.shape)
    (h : ∀ ix, Within a.shape ix → a.get? ix = b.get? ix) : a = b := by
  apply NdArray.ext hshape
  apply List.ext_getElem?
  intro n
  rcases Nat.lt_or_ge n a.shape.prod with hn | hn
  · obtain ⟨ix, hix, rfl⟩ := exists_offset hn
    have hcell := h ix hix
    rwa [get?_of_within hix, get?_of_within (hshape ▸ hix), ← hshape] at hcell
  · rw [List.getElem?_eq_none (a.size_eq ▸ hn), List.getElem?_eq_none (b.size_eq ▸ hshape ▸ hn)]

/-- Moves that reach every index store the same in any order, and whatever the array held
before. -/
theorem Moves.copyAll_perm {src : List α} {a b : NdArray α} {ms ms' : List (List ℕ × ℕ)}
    (h : Moves a.shape src.length ms) (hall : ∀ ix, Within a.shape ix → ix ∈ ms.map Prod.fst)
    (hshape : b.shape = a.shape) (hperm : ms'.Perm ms) :
    b.copyAll src ms' = a.copyAll src ms := by
  have h' : Moves b.shape src.length ms' := by
    rw [hshape]
    exact ⟨fun m hm => h.within m (hperm.mem_iff.mp hm),
      fun m hm => h.source m (hperm.mem_iff.mp hm),
      fun m hm m' hm' => h.unique m (hperm.mem_iff.mp hm) m' (hperm.mem_iff.mp hm')⟩
  obtain ⟨c, hc, hcshape, hmoved, -⟩ := h.exists_copyAll
  obtain ⟨c', hc', hcshape', hmoved', -⟩ := h'.exists_copyAll
  have hsame : c' = c := by
    refine ext_get? (hcshape'.trans (hshape.trans hcshape.symm)) fun ix hix => ?_
    rw [hcshape', hshape] at hix
    obtain ⟨m, hm, rfl⟩ := List.mem_map.mp (hall ix hix)
    rw [hmoved m hm, hmoved' m (hperm.mem_iff.mpr hm)]
  rw [hc, hc', hsame]

/-- A loop whose passes name different things names nothing twice. -/
theorem nodup_flatMap_range {n : ℕ} {f : ℕ → List β} (key : β → ℕ)
    (hpass : ∀ i < n, (f i).Nodup) (hkey : ∀ i < n, ∀ b ∈ f i, key b = i) :
    ((List.range n).flatMap f).Nodup := by
  rw [List.nodup_flatMap]
  refine ⟨fun i hi => hpass i (List.mem_range.mp hi), ?_⟩
  refine List.nodup_range.pairwise_of_forall_ne fun i hi j hj hij b hb hb' => hij ?_
  rw [← hkey i (List.mem_range.mp hi) b hb, hkey j (List.mem_range.mp hj) b hb']

-- ════════════════════════════════════════════════════════════════════════
-- Other shapes
-- ════════════════════════════════════════════════════════════════════════

/-- The same cells in another shape, refused when the sizes differ. -/
def reshape (a : NdArray α) (shape : List ℕ) : Option (NdArray α) :=
  if h : a.data.length = shape.prod then some ⟨shape, a.data, h⟩ else none

theorem reshape_of_eq {a : NdArray α} {shape : List ℕ} (h : a.data.length = shape.prod) :
    a.reshape shape = some ⟨shape, a.data, h⟩ := dif_pos h

theorem reshape_of_ne {a : NdArray α} {shape : List ℕ} (h : a.data.length ≠ shape.prod) :
    a.reshape shape = none := dif_neg h

/-- The rows of one array and then those of another one, refused when the rows have
different shapes. -/
def concatenate (a b : NdArray α) : Option (NdArray α) :=
  match ha : a.shape, hb : b.shape with
  | m :: dims, n :: dims' =>
    if h : dims' = dims then
      some ⟨(m + n) :: dims, a.data ++ b.data, by
        rw [List.length_append, a.size_eq, b.size_eq, ha, hb, h, List.prod_cons, List.prod_cons,
          List.prod_cons, Nat.add_mul]⟩
    else none
  | _, _ => none

theorem exists_concatenate {a b : NdArray α} {m n : ℕ} {dims : List ℕ} (ha : a.shape = m :: dims)
    (hb : b.shape = n :: dims) :
    ∃ c, a.concatenate b = some c ∧ c.shape = (m + n) :: dims ∧ c.data = a.data ++ b.data := by
  obtain ⟨shape, data, hsize⟩ := a
  obtain ⟨shape', data', hsize'⟩ := b
  obtain rfl : shape = m :: dims := ha
  obtain rfl : shape' = n :: dims := hb
  exact ⟨_, dif_pos rfl, rfl, rfl⟩

theorem concatenate_of_ne {a b : NdArray α} {m n : ℕ} {dims dims' : List ℕ}
    (ha : a.shape = m :: dims) (hb : b.shape = n :: dims') (hne : dims' ≠ dims) :
    a.concatenate b = none := by
  obtain ⟨shape, data, hsize⟩ := a
  obtain ⟨shape', data', hsize'⟩ := b
  obtain rfl : shape = m :: dims := ha
  obtain rfl : shape' = n :: dims' := hb
  exact dif_neg hne

/-- The rows of an array `n` times. -/
def IsRepeat (a : NdArray α) (n : ℕ) (c : NdArray α) : Prop :=
  ∃ m dims, a.shape = m :: dims ∧ c.shape = (n * m) :: dims ∧
    c.data = (List.replicate n a.data).flatten

theorem IsRepeat.one {a : NdArray α} {m : ℕ} {dims : List ℕ} (h : a.shape = m :: dims) :
    a.IsRepeat 1 a :=
  ⟨m, dims, h, by rw [h, Nat.one_mul], by simp⟩

theorem IsRepeat.concatenate {a c : NdArray α} {n : ℕ} (h : a.IsRepeat n c) :
    ∃ c', c.concatenate a = some c' ∧ a.IsRepeat (n + 1) c' := by
  obtain ⟨m, dims, ha, hc, hdata⟩ := h
  obtain ⟨c', hcat, hshape, hdata'⟩ := exists_concatenate hc ha
  refine ⟨c', hcat, m, dims, ha, ?_, ?_⟩
  · rw [hshape, Nat.add_mul, Nat.one_mul]
  · rw [hdata', hdata, List.replicate_succ', List.flatten_append, List.flatten_singleton]

theorem flatten_replicate_getElem? {l : List α} {n t k : ℕ} (ht : t < n) (hk : k < l.length) :
    (List.replicate n l).flatten[t * l.length + k]? = l[k]? := by
  induction n generalizing t with
  | zero => exact absurd ht (Nat.not_lt_zero t)
  | succ n ih =>
    rw [List.replicate_succ, List.flatten_cons]
    cases t with
    | zero => rw [Nat.zero_mul, Nat.zero_add, List.getElem?_append_left hk]
    | succ t =>
      rw [List.getElem?_append_right (by rw [Nat.add_mul, Nat.one_mul]; omega), ← ih
        (Nat.lt_of_succ_lt_succ ht)]
      congr 1
      rw [Nat.add_mul, Nat.one_mul]
      omega

/-- The rows of a repeated array. -/
theorem IsRepeat.get? {a c : NdArray α} {n m : ℕ} {dims : List ℕ} (h : a.IsRepeat n c)
    (ha : a.shape = m :: dims) {t r : ℕ} (ht : t < n) (hr : r < m) (ix : List ℕ) :
    c.get? ((t * m + r) :: ix) = a.get? (r :: ix) := by
  obtain ⟨m', dims', ha', hc, hdata⟩ := h
  rw [ha] at ha'
  obtain ⟨rfl, rfl⟩ := List.cons.inj ha'
  have hrow : t * m + r < n * m := by
    have hle : (t + 1) * m ≤ n * m := Nat.mul_le_mul_right m ht
    rw [Nat.add_mul, Nat.one_mul] at hle
    omega
  by_cases hix : Within dims ix
  · have hwithin : Within a.shape (r :: ix) := ha ▸ ⟨hr, hix⟩
    have hwithin' : Within c.shape ((t * m + r) :: ix) := hc ▸ ⟨hrow, hix⟩
    have hlt : offset a.shape (r :: ix) < a.data.length := a.size_eq ▸ offset_lt hwithin
    rw [get?_of_within hwithin, get?_of_within hwithin', hdata,
      ← flatten_replicate_getElem? ht hlt]
    congr 1
    rw [hc, ha, a.size_eq, ha, offset, offset, List.prod_cons]
    ring
  · have hwithin : ¬ Within a.shape (r :: ix) := by
      rw [ha]
      exact fun h => hix h.2
    have hwithin' : ¬ Within c.shape ((t * m + r) :: ix) := by
      rw [hc]
      exact fun h => hix h.2
    rw [get?_of_not_within hwithin, get?_of_not_within hwithin']

-- ════════════════════════════════════════════════════════════════════════
-- Rows
-- ════════════════════════════════════════════════════════════════════════

/-- Every cell with another value. -/
def map (g : α → β) (a : NdArray α) : NdArray β :=
  ⟨a.shape, a.data.map g, by rw [List.length_map, a.size_eq]⟩

theorem get?_map (g : α → β) {a : NdArray α} {ix : List ℕ} {v : α} (h : a.get? ix = some v) :
    (a.map g).get? ix = some (g v) := by
  rw [get?] at h
  split at h
  next hwithin =>
    have hwithin' : Within (a.map g).shape ix := hwithin
    rw [get?_of_within hwithin', map, List.getElem?_map]
    exact congrArg (Option.map g) h
  next => cases h

/-- The number of rows of an array that may not have been made yet. -/
def rows (a : Option (NdArray α)) : ℕ := a.elim 0 fun a => a.shape.headD 0

/-- An access to an array that may not have been made yet. -/
def at? (a : Option (NdArray α)) (ix : List ℕ) : Option α := a.bind fun a => a.get? ix

/-- Array `c` has the rows of `a`, if there is one, and then those of `b`. -/
structure Extends (dims : List ℕ) (a : Option (NdArray α)) (b c : NdArray α) : Prop where
  old : ∀ old, a = some old → old.shape = rows a :: dims
  new : b.shape = rows (some b) :: dims
  shape : c.shape = (rows a + rows (some b)) :: dims
  data : c.data = a.elim [] NdArray.data ++ b.data

variable {dims : List ℕ} {a : Option (NdArray α)} {b c : NdArray α}

theorem rows_of_shape {n : ℕ} (h : b.shape = n :: dims) : rows (some b) = n := by
  rw [rows, Option.elim_some, h, List.headD_cons]

theorem Extends.of_none (h : b.shape = rows (some b) :: dims) : Extends dims none b b where
  old _ hold := nomatch hold
  new := h
  shape := h.trans (congrArg (· :: dims) (Nat.zero_add _).symm)
  data := rfl

theorem exists_extends {old : NdArray α} (hold : old.shape = rows (some old) :: dims)
    (hb : b.shape = rows (some b) :: dims) :
    ∃ c, old.concatenate b = some c ∧ Extends dims (some old) b c := by
  obtain ⟨c, hcat, hshape, hdata⟩ := exists_concatenate hold hb
  exact ⟨c, hcat, fun _ h => Option.some.inj h ▸ hold, hb, hshape, hdata⟩

theorem Extends.rows_eq (h : Extends dims a b c) : rows (some c) = rows a + rows (some b) :=
  rows_of_shape h.shape

/-- The rows that were there stay. -/
theorem Extends.get?_left (h : Extends dims a b c) {ix : List ℕ} {v : α}
    (hv : at? a ix = some v) : c.get? ix = some v := by
  obtain ⟨old, rfl, hold⟩ := Option.bind_eq_some_iff.mp hv
  have hv : old.get? ix = some v := hold
  have hshape := h.old old rfl
  rw [get?] at hv
  split at hv
  next hwithin =>
    obtain ⟨r, ix, rfl⟩ : ∃ r ix', ix = r :: ix' := by
      cases ix with
      | nil => rw [hshape] at hwithin; exact hwithin.elim
      | cons r ix => exact ⟨r, ix, rfl⟩
    have hlt : offset old.shape (r :: ix) < old.data.length := by
      rw [old.size_eq]
      exact offset_lt hwithin
    rw [hshape] at hwithin
    have hwithin' : Within c.shape (r :: ix) := by
      rw [h.shape]
      exact ⟨Nat.lt_add_right _ hwithin.1, hwithin.2⟩
    have hoffset : offset c.shape (r :: ix) = offset old.shape (r :: ix) := by
      rw [h.shape, hshape, offset, offset]
    rw [get?_of_within hwithin', hoffset, h.data, Option.elim_some,
      List.getElem?_append_left hlt, hv]
  next => cases hv

/-- The new rows are behind them. -/
theorem Extends.get?_right (h : Extends dims a b c) {r : ℕ} {ix : List ℕ} {v : α}
    (hv : b.get? (r :: ix) = some v) : c.get? ((rows a + r) :: ix) = some v := by
  have hnew := h.new
  rw [get?] at hv
  split at hv
  next hwithin =>
    rw [hnew] at hwithin
    have hwithin' : Within c.shape ((rows a + r) :: ix) := by
      rw [h.shape]
      exact ⟨Nat.add_lt_add_left hwithin.1 _, hwithin.2⟩
    have hlen : (a.elim [] NdArray.data).length = rows a * dims.prod := by
      cases a with
      | none => exact (Nat.zero_mul _).symm
      | some old => rw [Option.elim_some, old.size_eq, h.old old rfl, List.prod_cons]
    have hoffset : offset c.shape ((rows a + r) :: ix) =
        (a.elim [] NdArray.data).length + offset b.shape (r :: ix) := by
      rw [h.shape, hnew, offset, offset, hlen, Nat.add_mul, Nat.add_assoc]
    rw [get?_of_within hwithin', hoffset, h.data, List.getElem?_append_right (Nat.le_add_right ..),
      Nat.add_sub_cancel_left, hv]
  next => cases hv

end NdArray
