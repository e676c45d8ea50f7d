import GrAta.Snap.DataVector

/-!
# Ownership of blocks

Programs of `data_vector` objects run on the heap as they do on the contents alone. The
invariant is that every live block belongs to exactly one object, and that an object
without a block has the size zero.

## Main definitions

- `Holds`: an object and its contents
- `Owns`: every live block belongs to exactly one object

## Main results

- `Owns.step`: one operation
- `Memory.run_owns`: programs on the heap and on the contents
-/

namespace GrAta

open Execution

/-- An object holds its contents: it is not alive, or has no block, or has a block of its
size. -/
inductive Holds {α : Type} (h : Heap α) : Option DataVector → Option (Option (List α)) → Prop
  | dead : Holds h none none
  | null : Holds h (some ⟨none, 0⟩) (some none)
  | block {a : ℕ} {l : List α} (hb : h.block a = some l) :
      Holds h (some ⟨some a, l.length⟩) (some (some l))

/-- An address leads to cells. -/
inductive Points {α : Type} (h : Heap α) : Memory.Address α → Option (List α) → Prop
  | null : Points h .null none
  | memory (cells : List α) : Points h (.memory cells) (some cells)
  | block {a : ℕ} {l : List α} (hb : h.block a = some l) : Points h (.block a) (some l)

/-- What a pointer of a program evaluates to, on the heap and in the contents. -/
inductive Evaluates {α : Type} (m : Memory α) (v : Values α) :
    SrcData α → Memory.Address α → Option (List α) → Prop
  | null : Evaluates m v .null .null none
  | memory (cells : List α) : Evaluates m v (.memory cells) (.memory cells) (some cells)
  | empty {y : ℕ} (hy : m.object y = some ⟨none, 0⟩) (hv : v.value y = some none) :
      Evaluates m v (.dataPointer y) .null none
  | block {y a : ℕ} {l : List α} (hy : m.object y = some ⟨some a, l.length⟩)
      (hv : v.value y = some (some l)) (hb : m.heap.block a = some l) :
      Evaluates m v (.dataPointer y) (.block a) (some l)

theorem Evaluates.points {α : Type} {m : Memory α} {v : Values α} {srcData : SrcData α}
    {p : Memory.Address α} {cells : Option (List α)} (h : Evaluates m v srcData p cells) :
    Points m.heap p cells := by
  cases h with
  | null => exact .null
  | memory cells => exact .memory cells
  | empty _ _ => exact .null
  | block _ _ hb => exact .block hb

/-- The address of the block of an object. -/
def Memory.pointer {α : Type} (m : Memory α) (x : ℕ) : Option ℕ :=
  (m.object x).bind DataVector.data

/-- The objects hold the contents `v`, and every live block belongs to one of them. -/
structure Owns {α : Type} (m : Memory α) (v : Values α) : Prop where
  holds : ∀ x, Holds m.heap (m.object x) (v.value x)
  separate : ∀ x y a, m.pointer x = some a → m.pointer y = some a → x = y
  owned : ∀ a l, m.heap.block a = some l → ∃ x, m.pointer x = some a
  output : m.output = v.output

section Ownership

variable {α : Type} {m : Memory α} {v : Values α} {x n : ℕ}

theorem Owns.empty (α : Type) : Owns (Memory.empty α) (Values.empty α) where
  holds := fun _ => .dead
  separate := fun _ _ _ hx _ => by cases hx
  owned := fun _ _ hb => by cases hb
  output := rfl

/-- The block of a live object. -/
theorem Owns.block_of_pointer (h : Owns m v) {a : ℕ} (ha : m.pointer x = some a) :
    ∃ l, m.heap.block a = some l ∧ m.object x = some ⟨some a, l.length⟩ ∧
      v.value x = some (some l) := by
  have hx := h.holds x
  rw [Memory.pointer] at ha
  generalize m.object x = o at hx ha ⊢
  generalize v.value x = c at hx ⊢
  cases hx with
  | dead => cases ha
  | null => cases ha
  | @block a' l hb =>
    obtain rfl : a' = a := Option.some.inj ha
    exact ⟨l, hb, rfl, rfl⟩

/-- **Replacement** of one object. Its new block is new, or was its block before, and the
blocks of the others are left alone. -/
theorem Owns.replace (h : Owns m v) {o : Option DataVector} {l : Option (Option (List α))}
    {heap : Heap α} (hholds : Holds heap o l)
    (hframe : ∀ y a, y ≠ x → m.pointer y = some a → heap.block a = m.heap.block a)
    (hseparate : ∀ y a, y ≠ x → m.pointer y = some a → o.bind DataVector.data ≠ some a)
    (howned : ∀ a c, heap.block a = some c → o.bind DataVector.data = some a ∨
      ∃ y, y ≠ x ∧ m.pointer y = some a) :
    Owns ⟨heap, Function.update m.object x o, m.output⟩ (v.set x l) := by
  have hself : (Memory.mk heap (Function.update m.object x o) m.output).pointer x =
      o.bind DataVector.data := by
    simp only [Memory.pointer, Function.update_self]
  have hother : ∀ y, y ≠ x →
      (Memory.mk heap (Function.update m.object x o) m.output).pointer y = m.pointer y :=
    fun y hy => by simp only [Memory.pointer, Function.update_of_ne hy]
  refine ⟨fun y => ?_, fun y z a hy hz => ?_, fun a c ha => ?_, h.output⟩
  · by_cases hy : y = x
    · subst hy
      simp only [Values.set, Function.update_self]
      exact hholds
    · simp only [Values.set, Function.update_of_ne hy]
      have hold := h.holds y
      have hblock := hframe y
      rw [Memory.pointer] at hblock
      generalize m.object y = o' at hold hblock ⊢
      generalize v.value y = l' at hold ⊢
      cases hold with
      | dead => exact .dead
      | null => exact .null
      | @block a l hb => exact .block ((hblock a hy rfl).trans hb)
  · by_cases hyx : y = x <;> by_cases hzx : z = x
    · rw [hyx, hzx]
    · rw [hyx, hself] at hy
      rw [hother z hzx] at hz
      exact absurd hy (hseparate z a hzx hz)
    · rw [hother y hyx] at hy
      rw [hzx, hself] at hz
      exact absurd hz (hseparate y a hyx hy)
    · rw [hother y hyx] at hy
      rw [hother z hzx] at hz
      exact h.separate y z a hy hz
  · rcases howned a c ha with hnew | ⟨y, hy, hold⟩
    · exact ⟨x, hself.trans hnew⟩
    · exact ⟨y, (hother y hy).trans hold⟩

/-- Two live objects do not share a block. -/
theorem Owns.pointer_ne (h : Owns m v) {y a : ℕ} (hx : m.pointer x = some a) (hy : y ≠ x) :
    m.pointer y ≠ some a := fun hya => hy (h.separate y x a hya hx)

theorem Owns.get (h : Owns m v) (x : ℕ) :
    Related (fun d l => m.object x = some d ∧ v.value x = some l ∧ Holds m.heap (some d) (some l))
      (m.get x) (v.get x) := by
  have hx := h.holds x
  rw [Memory.get, Values.get]
  generalize m.object x = o at hx ⊢
  generalize v.value x = c at hx ⊢
  cases hx with
  | dead => exact .fault _
  | null => exact .ok ⟨rfl, rfl, .null⟩
  | block hb => exact .ok ⟨rfl, rfl, .block hb⟩

/-- A name that is not in use. -/
theorem Owns.declare (h : Owns m v) (x : ℕ) :
    Related (fun _ _ => m.pointer x = none) (m.declare x) (v.declare x) := by
  have hx := h.holds x
  rw [Memory.declare, Values.declare, Memory.pointer]
  generalize m.object x = o at hx ⊢
  generalize v.value x = c at hx ⊢
  cases hx with
  | dead => exact .ok rfl
  | null => exact .fault _
  | block _ => exact .fault _

theorem Owns.eval (h : Owns m v) (srcData : SrcData α) :
    Related (Evaluates m v srcData) (m.eval srcData) (v.eval srcData) := by
  cases srcData with
  | null => exact .ok .null
  | memory cells => exact .ok (.memory cells)
  | dataPointer y =>
    rw [Memory.eval, Values.eval, ← bind_pure (v.get y)]
    refine (h.get y).bind fun d l hl => .ok ?_
    obtain ⟨hd, hvalue, hholds⟩ := hl
    cases hholds with
    | null => exact .empty hd hvalue
    | block hb => exact .block hd hvalue hb

theorem Points.load {p : Memory.Address α} {cells : Option (List α)}
    (h : Points m.heap p cells) (n : ℕ) : m.load p n = Values.load cells n := by
  cases h with
  | null =>
    rw [Memory.load, Values.load]
    simp
  | memory cells => rfl
  | block hb =>
    rw [Memory.load, Values.load, Heap.read_of_live hb]
    simp only [Option.getD_some]
    split_ifs <;> rfl

-- ════════════════════════════════════════════════════════════════════════
-- Operations
-- ════════════════════════════════════════════════════════════════════════

/-- An object without a block, whatever it had before. -/
theorem Owns.emptied (h : Owns m v) {d : DataVector} (hd : m.object x = some d)
    {o : Option DataVector} {l : Option (Option (List α))} (ho : o.bind DataVector.data = none)
    (hholds : ∀ heap : Heap α, Holds heap o l) :
    ∃ m', m.delete d = .ok m' ∧ m'.heap.next = m.heap.next ∧
      (∀ a, m.pointer x = some a → m'.heap.block a = none) ∧
      (∀ a, m.pointer x ≠ some a → m'.heap.block a = m.heap.block a) ∧
      Owns (m'.set x o) (v.set x l) := by
  have hpointer : m.pointer x = d.data := by rw [Memory.pointer, hd, Option.bind_some]
  have hseparate : ∀ y a, y ≠ x → m.pointer y = some a → o.bind DataVector.data ≠ some a :=
    fun _ _ _ _ hsome => by
      rw [ho] at hsome
      cases hsome
  cases hdata : d.data with
  | none =>
    rw [hdata] at hpointer
    refine ⟨m, by rw [Memory.delete, hdata], rfl, fun a ha => ?_, fun _ _ => rfl,
      h.replace (hholds m.heap) (fun _ _ _ _ => rfl) hseparate fun a c ha => ?_⟩
    · rw [hpointer] at ha
      cases ha
    · obtain ⟨y, hy⟩ := h.owned a c ha
      refine .inr ⟨y, fun hyx => ?_, hy⟩
      rw [hyx, hpointer] at hy
      cases hy
  | some a =>
    rw [hdata] at hpointer
    obtain ⟨cells, hb, -, -⟩ := h.block_of_pointer hpointer
    refine ⟨{ m with heap := m.heap.put a none (Heap.lt_next hb) }, ?_, rfl,
      fun a' ha' => ?_, fun a' ha' => ?_, h.replace (hholds _) (fun y a' hy ha' => ?_) hseparate
      fun a' c ha' => ?_⟩
    · rw [Memory.delete, hdata]
      simp only [Heap.free_of_live hb]
      rfl
    · obtain rfl : a = a' := Option.some.inj (hpointer.symm.trans ha')
      exact Heap.put_self (Heap.lt_next hb)
    · exact Heap.put_of_ne (Heap.lt_next hb) fun heq => ha' (heq ▸ hpointer)
    · exact Heap.put_of_ne (Heap.lt_next hb) fun heq => h.pointer_ne hpointer hy (heq ▸ ha')
    · by_cases heq : a' = a
      · rw [heq, Heap.put_self] at ha'
        cases ha'
      · rw [Heap.put_of_ne _ heq] at ha'
        obtain ⟨y, hy⟩ := h.owned a' c ha'
        refine .inr ⟨y, fun hyx => heq ?_, hy⟩
        rw [hyx, hpointer] at hy
        exact (Option.some.inj hy).symm

theorem Values.set_set (v : Values α) (x : ℕ) (l l' : Option (Option (List α))) :
    (v.set x l).set x l' = v.set x l' := by
  simp only [Values.set, Function.update_idem]

theorem Owns.clear (h : Owns m v) (x : ℕ) :
    Related (fun m' v' => Owns m' v' ∧ m'.pointer x = none ∧ v' = v.set x (some none))
      (m.clear x) (v.get x >>= fun _ => .ok (v.set x (some none))) := by
  rw [Memory.clear]
  refine (h.get x).bind fun d l hl => ?_
  obtain ⟨m', hm', -, -, -, howns⟩ :=
    h.emptied hl.1 (o := some ⟨none, 0⟩) (l := some none) rfl fun _ => .null
  rw [hm']
  refine .ok ⟨howns, ?_, rfl⟩
  simp only [Memory.pointer, Memory.set, Function.update_self]
  rfl

theorem Owns.destruct (h : Owns m v) (x : ℕ) :
    Related Owns (m.get x >>= fun d => m.delete d >>= fun m => .ok (m.set x none))
      (v.get x >>= fun _ => .ok (v.set x none)) := by
  refine (h.get x).bind fun d l hl => ?_
  obtain ⟨m', hm', -, -, -, howns⟩ :=
    h.emptied hl.1 (o := none) (l := none) rfl fun _ => .dead
  rw [hm']
  exact .ok howns

/-- An object without a block, alive or not, becomes an empty one. -/
theorem Owns.vacant (h : Owns m v) (hx : m.pointer x = none) :
    Owns (m.set x (some ⟨none, 0⟩)) (v.set x (some none)) :=
  h.replace .null (fun _ _ _ _ => rfl)
    (fun _ _ _ _ hsome => by cases hsome) fun a c ha => by
      obtain ⟨y, hy⟩ := h.owned a c ha
      refine .inr ⟨y, fun hyx => ?_, hy⟩
      rw [hyx, hx] at hy
      cases hy

variable (junk : ℕ → ℕ → α)

/-- What an object was before does not matter for its new block. -/
theorem Memory.newFrom_set (m : Memory α) (x : ℕ) (o : Option DataVector)
    (p : Memory.Address α) (n : ℕ) :
    (m.set x o).newFrom junk x p n = m.newFrom junk x p n := by
  simp only [Memory.newFrom, Memory.new, Memory.set, Function.update_idem]

/-- **A new block** for an object without one. -/
theorem Owns.newFrom (h : Owns m v) (hx : m.pointer x = none) {p : Memory.Address α}
    {cells : Option (List α)} (hp : Points m.heap p cells) (n : ℕ) :
    Related Owns (m.newFrom junk x p n)
      (Values.load cells n >>= fun l => .ok (v.set x (some (some l)))) := by
  have hp' : Points (m.heap.alloc ((List.range n).map (junk m.heap.next))) p cells := by
    cases hp with
    | null => exact .null
    | memory cells => exact .memory cells
    | block hb =>
      exact .block ((Heap.alloc_of_ne (Nat.ne_of_lt (Heap.lt_next hb))).trans hb)
  rw [Memory.newFrom]
  simp only [Memory.new, Memory.memcpy]
  rw [Points.load (m := Memory.set { m with heap := m.heap.alloc _ } x _) hp', Values.load]
  split_ifs with hn
  · have hlen : ((cells.getD []).take n).length = n := by
      rw [List.length_take, Nat.min_eq_left hn]
    have hsize : ((cells.getD []).take n).length =
        ((List.range n).map (junk m.heap.next)).length := by
      rw [hlen, List.length_map, List.length_range]
    generalize (List.range n).map (junk m.heap.next) = left at hsize ⊢
    have hblock : (m.heap.alloc left).block m.heap.next = some left := Heap.alloc_next _
    change Related Owns (Except.mapError MemoryFault.heap
      ((m.heap.alloc left).write m.heap.next ((cells.getD []).take n)) >>= _) _
    rw [Heap.write_whole hblock hsize]
    refine .ok (h.replace ?_ (fun y a hy ha => ?_) (fun y a hy ha hsome => ?_) fun a c ha => ?_)
    · have hholds := Holds.block (Heap.put_self (b := some ((cells.getD []).take n))
        (Heap.lt_next hblock))
      rwa [hlen] at hholds
    · obtain ⟨c, hb, -, -⟩ := h.block_of_pointer ha
      have hne : a ≠ m.heap.next := Nat.ne_of_lt (Heap.lt_next hb)
      rw [Heap.put_of_ne (Heap.lt_next hblock) hne, Heap.alloc_of_ne hne]
    · obtain ⟨c, hb, -, -⟩ := h.block_of_pointer ha
      exact Nat.ne_of_lt (Heap.lt_next hb) (Option.some.inj hsome).symm
    · by_cases hne : a = m.heap.next
      · exact .inl (congrArg some hne.symm)
      · rw [Heap.put_of_ne (Heap.lt_next hblock) hne, Heap.alloc_of_ne hne] at ha
        obtain ⟨y, hy⟩ := h.owned a c ha
        refine .inr ⟨y, fun hyx => ?_, hy⟩
        rw [hyx, hx] at hy
        cases hy
  · exact .fault _

/-- **A copy** of an object, into an object without a block. -/
theorem Owns.copyFrom (h : Owns m v) (hx : m.pointer x = none) {d : DataVector}
    {l : Option (List α)} (hl : Holds m.heap (some d) (some l)) :
    Related Owns (m.copyFrom junk x d) (.ok (v.set x (some (Values.copied l)))) := by
  cases hl with
  | null => exact .ok (h.vacant hx)
  | @block a l hb =>
    rw [Memory.copyFrom]
    cases l with
    | nil => exact .ok (h.vacant hx)
    | cons c l =>
      have hload : Values.load (some (c :: l)) (c :: l).length = .ok (c :: l) := by
        rw [Values.load, Option.getD_some, if_pos (Nat.le_refl _), List.take_length]
      have hnew := h.newFrom junk hx (.block hb) (c :: l).length
      rw [hload] at hnew
      simp only [List.length_cons, gt_iff_lt, Nat.succ_pos, if_true]
      exact hnew

theorem Owns.assign (h : Owns m v) (x y : ℕ) :
    Related Owns (m.clear x >>= fun m => m.get y >>= fun d => m.copyFrom junk x d)
      (v.get x >>= fun _ => (v.set x (some none)).get y >>= fun l =>
        .ok (v.set x (some (Values.copied l)))) := by
  have hassoc : (v.get x >>= fun _ => (v.set x (some none)).get y >>= fun l =>
        (.ok (v.set x (some (Values.copied l))) : Except MemoryFault (Values α))) =
      (v.get x >>= fun _ => .ok (v.set x (some none))) >>= fun v' => v'.get y >>= fun l =>
        .ok (v'.set x (some (Values.copied l))) := by
    simp only [bind_assoc]
    cases v.get x with
    | error f => rfl
    | ok old =>
      change _ = ((v.set x (some none)).get y >>= fun l =>
        .ok ((v.set x (some none)).set x (some (Values.copied l))))
      simp only [Values.set_set]
      rfl
  rw [hassoc]
  refine (h.clear x).bind fun m' v' hcleared => ?_
  obtain ⟨howns, hx, -⟩ := hcleared
  exact (howns.get y).bind fun d l hl => howns.copyFrom junk hx hl.2.2

-- ════════════════════════════════════════════════════════════════════════
-- Storing
-- ════════════════════════════════════════════════════════════════════════

/-- What `store` does with cells to store. -/
theorem Memory.store_eq {d : DataVector} (hd : m.object x = some d) {p : Memory.Address α}
    {cells : List α} (hp : Points m.heap p (some cells)) (hn : n ≠ 0) :
    m.store junk x p n = (match d.data with
      | none => m.newFrom junk x p n
      | some a =>
        if n ≠ d.dataSize then do
          let m ← m.delete d
          m.newFrom junk x p n
        else m.memcpy a p d.dataSize) := by
  obtain ⟨k, rfl⟩ : ∃ k, n = k + 1 := Nat.exists_eq_succ_of_ne_zero hn
  have hget : m.get x = .ok d := by rw [Memory.get, hd]
  rw [Memory.store, hget]
  cases hp <;> rfl

/-- Storing as many cells as there are keeps the block. -/
theorem Owns.store_kept (h : Owns m v) {a : ℕ} {l : List α}
    (hd : m.object x = some ⟨some a, l.length⟩) (hb : m.heap.block a = some l)
    {p : Memory.Address α} {cells : List α} (hp : Points m.heap p (some cells))
    (hn : l.length ≠ 0) :
    Related Owns (m.store junk x p l.length)
      (Values.load (some cells) l.length >>= fun l' => .ok (v.set x (some (some l')))) := by
  have hpointer : m.pointer x = some a := by
    rw [Memory.pointer, hd]
    rfl
  rw [Memory.store_eq junk hd hp hn]
  simp only [ne_eq, not_true_eq_false, if_false]
  rw [Memory.memcpy, hp.load, Values.load]
  split_ifs with hle
  · have hlen : (((some cells).getD []).take l.length).length = l.length := by
      rw [List.length_take, Nat.min_eq_left hle]
    have hself : Function.update m.object x (some ⟨some a, l.length⟩) = m.object := by
      rw [← hd, Function.update_eq_self]
    change Related Owns (Except.mapError MemoryFault.heap (m.heap.write a _) >>= _) _
    rw [Heap.write_whole hb hlen]
    have hreplaced : Owns
        ⟨m.heap.put a (some (((some cells).getD []).take l.length)) (Heap.lt_next hb),
          Function.update m.object x (some ⟨some a, l.length⟩), m.output⟩
        (v.set x (some (some (((some cells).getD []).take l.length)))) :=
      h.replace ?_ (fun y a' hy ha' => ?_) (fun y a' hy ha' hsome => ?_) fun a' c ha' => ?_
    · rw [hself] at hreplaced
      exact .ok hreplaced
    · have hholds := Holds.block (Heap.put_self
        (b := some (((some cells).getD []).take l.length)) (Heap.lt_next hb))
      rwa [hlen] at hholds
    · exact Heap.put_of_ne (Heap.lt_next hb) fun heq => h.pointer_ne hpointer hy (heq ▸ ha')
    · exact h.pointer_ne hpointer hy (Option.some.inj hsome ▸ ha')
    · by_cases heq : a' = a
      · exact .inl (congrArg some heq.symm)
      · rw [Heap.put_of_ne (Heap.lt_next hb) heq] at ha'
        obtain ⟨y, hy⟩ := h.owned a' c ha'
        refine .inr ⟨y, fun hyx => heq ?_, hy⟩
        rw [hyx, hpointer] at hy
        exact (Option.some.inj hy).symm
  · exact .fault _

/-- Storing from elsewhere. -/
theorem Owns.store_foreign (h : Owns m v) {d : DataVector} {old : Option (List α)}
    (hd : m.object x = some d) (hholds : Holds m.heap (some d) (some old))
    {p : Memory.Address α} {cells : List α} (hp : Points m.heap p (some cells))
    (hforeign : ∀ a, p = .block a → m.pointer x ≠ some a) (hn : n ≠ 0) :
    Related Owns (m.store junk x p n)
      (Values.load (some cells) n >>= fun l => .ok (v.set x (some (some l)))) := by
  cases hholds with
  | null =>
    rw [Memory.store_eq junk hd hp hn]
    refine h.newFrom junk ?_ hp n
    rw [Memory.pointer, hd]
    rfl
  | @block a l hb =>
    by_cases hsize : n = l.length
    · subst hsize
      exact h.store_kept junk hd hb hp hn
    · rw [Memory.store_eq junk hd hp hn]
      simp only [ne_eq, hsize, not_false_eq_true, if_true]
      obtain ⟨m', hm', -, -, hframe, howns⟩ :=
        h.emptied hd (o := some ⟨none, 0⟩) (l := some none) rfl fun _ => .null
      have hp' : Points m'.heap p (some cells) := by
        cases hp with
        | memory cells => exact .memory cells
        | block hc => exact .block ((hframe _ (hforeign _ rfl)).trans hc)
      have hnone : (m'.set x (some ⟨none, 0⟩)).pointer x = none := by
        simp only [Memory.pointer, Memory.set, Function.update_self]
        rfl
      have hnew := howns.newFrom junk hnone hp' n
      rw [Memory.newFrom_set] at hnew
      simp only [Values.set_set] at hnew
      rw [hm']
      exact hnew

/-- Storing another number of cells from the block of the object itself reads the block
after it has been given back. -/
theorem Owns.store_dangling (h : Owns m v) {a : ℕ} {l : List α}
    (hd : m.object x = some ⟨some a, l.length⟩) (hb : m.heap.block a = some l) (hn : n ≠ 0)
    (hsize : n ≠ l.length) :
    m.store junk x (.block a) n = .error (.heap .useAfterFree) := by
  have hpointer : m.pointer x = some a := by
    rw [Memory.pointer, hd]
    rfl
  rw [Memory.store_eq junk hd (.block hb) hn]
  simp only [ne_eq, hsize, not_false_eq_true, if_true]
  obtain ⟨m', hm', hnext, hfreed, -, -⟩ :=
    h.emptied hd (o := some ⟨none, 0⟩) (l := some none) rfl fun _ => .null
  rw [hm']
  have hne : a ≠ m'.heap.next := Nat.ne_of_lt (hnext ▸ Heap.lt_next hb)
  have hdead : (m'.heap.alloc ((List.range n).map (junk m'.heap.next))).block a = none :=
    (Heap.alloc_of_ne hne).trans (hfreed a hpointer)
  have hread := Heap.read_of_dead (n := n) hdead
  change (Except.mapError MemoryFault.heap
    ((m'.heap.alloc ((List.range n).map (junk m'.heap.next))).read a n) >>= _) = _
  rw [hread]
  rfl

/-- Storing nothing clears the object. -/
theorem Memory.store_nothing (m : Memory α) (x : ℕ) {p : Memory.Address α}
    (hp : p = .null ∨ n = 0) : m.store junk x p n = m.clear x := by
  rw [Memory.store]
  cases hx : m.get x with
  | error f =>
    rw [Memory.clear, hx]
    rfl
  | ok d =>
    rcases hp with rfl | rfl
    · rfl
    · cases p <;> rfl

/-- **`store`** of the cells behind a pointer. -/
theorem Owns.store (h : Owns m v) (x : ℕ) (srcData : SrcData α) (n : ℕ) :
    Related Owns (m.eval srcData >>= fun p => m.store junk x p n) (v.store x srcData n) := by
  rw [Values.store]
  refine (h.eval srcData).bind fun p cells heval => ?_
  by_cases hnothing : cells = none ∨ n = 0
  · have hnull : p = .null ∨ n = 0 := by
      refine hnothing.imp_left fun hnone => ?_
      subst hnone
      cases heval.points
      rfl
    rw [Memory.store_nothing junk m x hnull]
    simp only [hnothing, if_true]
    exact (h.clear x).mono fun _ _ hcleared => hcleared.1
  · obtain ⟨-, hn⟩ := not_or.mp hnothing
    simp only [hnothing, if_false]
    have hget := h.get x
    cases hx : m.object x with
    | none =>
      have hstore : m.store junk x p n = .error .noObject := by
        rw [Memory.store, Memory.get, hx]
        rfl
      rw [Memory.get, hx] at hget
      rw [hstore]
      generalize v.get x = y at hget ⊢
      cases hget
      exact .fault _
    | some d =>
      rw [Memory.get, hx] at hget
      generalize v.get x = y at hget ⊢
      cases hget with
      | @ok _ old hl =>
        obtain ⟨-, hvalue, hholds⟩ := hl
        cases heval with
        | null => exact absurd (.inl rfl) hnothing
        | empty => exact absurd (.inl rfl) hnothing
        | memory cells =>
          exact h.store_foreign junk hx hholds (.memory cells) (fun _ ha => by cases ha) hn
        | @block y a l hy hv hb =>
          have hpointer : m.pointer y = some a := by
            rw [Memory.pointer, hy]
            rfl
          have hpure : ∀ (o : Option (List α)) (f : Option (List α) →
              Except MemoryFault (Values α)), (Except.ok o >>= f) = f o := fun _ _ => rfl
          by_cases hyx : y = x
          · subst hyx
            obtain rfl : some l = old := Option.some.inj (hv.symm.trans hvalue)
            by_cases hsize : n = l.length
            · subst hsize
              simp only [hpure, Option.getD_some, ne_eq, not_true_eq_false, and_false, if_false]
              exact h.store_kept junk hy hb (.block hb) hn
            · rw [h.store_dangling junk hy hb hn hsize]
              simp only [hpure, Option.getD_some, ne_eq, hsize, not_false_eq_true, and_self,
                if_true]
              exact .fault _
          · simp only [hyx, false_and, if_false]
            refine h.store_foreign junk hx hholds (.block hb) (fun a' ha' hxa => hyx ?_) hn
            cases ha'
            exact h.separate y x a hpointer hxa

/-- No block is given back twice. -/
def NoDoubleFree {β : Type} (x : Except MemoryFault β) : Prop :=
  x ≠ .error (.heap .doubleFree)

theorem NoDoubleFree.bind {β γ : Type} {x : Except MemoryFault β} {f : β → Except MemoryFault γ}
    (hx : NoDoubleFree x) (hf : ∀ b, NoDoubleFree (f b)) : NoDoubleFree (x >>= f) := by
  cases x with
  | error e => exact fun h => hx (congrArg Except.error (Except.error.inj h))
  | ok b => exact hf b

theorem NoDoubleFree.ok {β : Type} (b : β) : NoDoubleFree (.ok b) := fun h => by cases h

theorem Values.noDoubleFree_get (v : Values α) (x : ℕ) : NoDoubleFree (v.get x) := by
  rw [Values.get]
  split <;> exact fun h => by cases h

theorem Values.noDoubleFree_declare (v : Values α) (x : ℕ) : NoDoubleFree (v.declare x) := by
  rw [Values.declare]
  split <;> exact fun h => by cases h

theorem Values.noDoubleFree_eval (v : Values α) (srcData : SrcData α) :
    NoDoubleFree (v.eval srcData) := by
  cases srcData with
  | dataPointer y => exact v.noDoubleFree_get y
  | null => exact .ok _
  | memory cells => exact .ok _

theorem Values.noDoubleFree_load (cells : Option (List α)) (n : ℕ) :
    NoDoubleFree (Values.load cells n) := by
  rw [Values.load]
  split <;> exact fun h => by cases h

theorem Values.noDoubleFree_store (v : Values α) (x : ℕ) (srcData : SrcData α) (n : ℕ) :
    NoDoubleFree (v.store x srcData n) := by
  have hstored : ∀ cells : Option (List α), NoDoubleFree
      (Values.load cells n >>= fun l => .ok (v.set x (some (some l)))) := fun cells =>
    (Values.noDoubleFree_load cells n).bind fun _ => .ok _
  refine (v.noDoubleFree_eval srcData).bind fun cells => (v.noDoubleFree_get x).bind fun old => ?_
  split_ifs
  · exact .ok _
  · split
    · split_ifs
      · exact fun h => by cases h
      · exact hstored cells
    · exact hstored cells

variable [Zero α]

/-- **One operation** on the heap and on the contents. -/
theorem Owns.step (h : Owns m v) (op : VectorOp α) :
    Related Owns (Memory.step junk m op) (Values.step v op) := by
  cases op with
  | construct self =>
    exact (h.declare self).bind fun _ _ hself => .ok (h.vacant hself)
  | constructCopy self src =>
    exact (h.declare self).bind fun _ _ hself => (h.get src).bind fun _ _ hl =>
      h.copyFrom junk hself hl.2.2
  | constructFrom self srcData srcSize =>
    exact (h.declare self).bind fun _ _ hself => (h.eval srcData).bind fun _ _ heval =>
      h.newFrom junk hself heval.points srcSize
  | constructZero self srcSize =>
    refine (h.declare self).bind fun _ _ hself => ?_
    have hnew := h.newFrom junk hself (.memory (List.replicate srcSize 0)) srcSize
    have hload : Values.load (some (List.replicate srcSize (0 : α))) srcSize =
        .ok (List.replicate srcSize 0) := by
      rw [Values.load, Option.getD_some, List.length_replicate, if_pos (Nat.le_refl _),
        List.take_of_length_le (Nat.le_of_eq List.length_replicate)]
    rw [hload] at hnew
    exact hnew
  | assign self src => exact h.assign junk self src
  | store self srcData srcSize => exact h.store junk self srcData srcSize
  | clear self => exact (h.clear self).mono fun _ _ hcleared => hcleared.1
  | destruct self => exact h.destruct self
  | copyOut self n =>
    refine (h.eval (.dataPointer self)).bind fun p cells heval => ?_
    rw [heval.points.load]
    cases Values.load cells n with
    | error f => exact .fault f
    | ok l =>
      refine .ok ⟨h.holds, h.separate, h.owned, ?_⟩
      rw [h.output]

theorem Owns.run (h : Owns m v) (ops : List (VectorOp α)) :
    Related Owns (Execution.run (Memory.step junk) m ops) (Execution.run Values.step v ops) := by
  have hrun : Related Owns (Execution.run (Memory.step junk) m ops)
      (Execution.run Values.step v (ops.map id)) :=
    Execution.run_related (fun _ => Owns) (fun op _ _ _ h => h.step junk op) h
  rwa [List.map_id] at hrun

-- ════════════════════════════════════════════════════════════════════════
-- Programs
-- ════════════════════════════════════════════════════════════════════════

theorem Values.noDoubleFree_step (v : Values α) (op : VectorOp α) :
    NoDoubleFree (Values.step v op) := by
  cases op with
  | construct self => exact (v.noDoubleFree_declare self).bind fun _ => .ok _
  | constructCopy self src =>
    exact (v.noDoubleFree_declare self).bind fun _ => (v.noDoubleFree_get src).bind fun _ => .ok _
  | constructFrom self srcData srcSize =>
    exact (v.noDoubleFree_declare self).bind fun _ => (v.noDoubleFree_eval srcData).bind fun _ =>
      (Values.noDoubleFree_load _ srcSize).bind fun _ => .ok _
  | constructZero self srcSize => exact (v.noDoubleFree_declare self).bind fun _ => .ok _
  | assign self src =>
    exact (v.noDoubleFree_get self).bind fun _ =>
      ((v.set self (some none)).noDoubleFree_get src).bind fun _ => .ok _
  | store self srcData srcSize => exact v.noDoubleFree_store self srcData srcSize
  | clear self => exact (v.noDoubleFree_get self).bind fun _ => .ok _
  | destruct self => exact (v.noDoubleFree_get self).bind fun _ => .ok _
  | copyOut self n =>
    exact (v.noDoubleFree_get self).bind fun _ => (Values.noDoubleFree_load _ n).bind fun _ => .ok _

theorem Values.noDoubleFree_run (ops : List (VectorOp α)) (v : Values α) :
    NoDoubleFree (Execution.run Values.step v ops) := by
  induction ops generalizing v with
  | nil => exact .ok _
  | cons op ops ih =>
    have hstep := v.noDoubleFree_step op
    rw [Execution.run]
    cases hop : Values.step v op with
    | error f =>
      rw [hop] at hstep
      exact hstep
    | ok v' => exact ih v'

/-- **Memory safety.** A program does on the heap what it does on the contents, and faults
where that does. No block is given back twice, and when no object is left no block is. -/
theorem Memory.run_owns (ops : List (VectorOp α)) :
    Related Owns (Memory.run junk ops) (Values.run ops) ∧
      Memory.run junk ops ≠ .error (.heap .doubleFree) ∧
      ∀ m, Memory.run junk ops = .ok m → (∀ x, m.object x = none) →
        ∀ a, m.heap.block a = none := by
  have hrelated : Related Owns (Memory.run junk ops) (Values.run ops) :=
    (Owns.empty α).run junk ops
  have hsafe : NoDoubleFree (Values.run ops) := Values.noDoubleFree_run ops (.empty α)
  refine ⟨hrelated, fun hfault => ?_, fun m hm hnone a => ?_⟩
  · rw [hfault] at hrelated
    generalize Values.run ops = y at hrelated hsafe
    cases hrelated
    exact hsafe rfl
  · obtain ⟨v, -, howns⟩ := hrelated.of_ok hm
    cases hblock : m.heap.block a with
    | none => rfl
    | some l =>
      obtain ⟨x, hx⟩ := howns.owned a l hblock
      rw [Memory.pointer, hnone x] at hx
      cases hx

end Ownership

end GrAta
