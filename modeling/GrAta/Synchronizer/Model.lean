import GrAta.Library.Execution
import GrAta.Library.Ports
import GrAta.Runtime

/-!
# The synchronizer

`general_work` of the SNAP synchronizer with `n` inputs. A call finds the items
that wait on each input, in order, each with its tags. The state holds the flag
`d_synchronized` and what the runtime keeps for the block: how many items of
each input have been consumed, the items and tags written to each output, and
the messages published on port `sync`.

An item is one output vector, of any type. Tag positions are absolute offsets of
the output stream.
-/

namespace GrAta

open Ports

/-- A stream item with the tags that lie on it, in the order they were added. -/
structure Item (α : Type) where
  data : α
  tags : List Tag
  deriving DecidableEq, Repr

structure Synchronizer (n : ℕ) (α : Type) where
  dSynchronized : Bool
  nitemsRead : Fin n → ℕ
  outputItems : Fin n → List α
  outputTags : Fin n → List (ℕ × Tag)
  published : List Pmt

namespace Synchronizer

variable {n : ℕ} {α : Type}

def initial (n : ℕ) (α : Type) : Synchronizer n α where
  dSynchronized := false
  nitemsRead := fun _ => 0
  outputItems := fun _ => []
  outputTags := fun _ => []
  published := []

/-- `get_tags_in_window`: the tags of the waiting items from `start` up to
`stop`, in the order of their offsets. -/
def getTagsInWindow (items : List (Item α)) (start stop : ℕ) : List Tag :=
  ((items.take stop).drop start).flatMap Item.tags

/-- The number that the first tag of an item carries. -/
def firstTag (item : Item α) : Except Fault ℕ := do
  let tag ← inBounds item.tags.head?
  tag.value.toUint64

/-- `tags[0]` of the first item, as a number. -/
def tag0 (items : List (Item α)) : Except Fault ℕ := do
  let tag ← inBounds (getTagsInWindow items 0 1).head?
  tag.value.toUint64

/-- `memcpy` of the first waiting items. -/
def memcpy (noutputItems : ℕ) (items : List (Item α)) : Except Fault (List α) :=
  inBounds (if noutputItems ≤ items.length then some ((items.take noutputItems).map Item.data)
    else none)

/-- The calls of `add_item_tag` for the tags of a window. The offset of a tag is
its index in the list of tags. -/
def addItemTags (tags : List Tag) : List (ℕ × Tag) :=
  tags.zipIdx.map fun tag => (tag.2, tag.1)

/-- Copy `noutput_items` items and the tags of their window on every port, and
consume the items. -/
def forward (noutputItems : ℕ) (inputItems : Fin n → List (Item α)) (s : Synchronizer n α) :
    Except Fault (Synchronizer n α) := do
  let copied ← collect fun i => memcpy noutputItems (inputItems i)
  .ok { s with
    nitemsRead := fun i => s.nitemsRead i + noutputItems
    outputItems := fun i => s.outputItems i ++ copied i
    outputTags := fun i =>
      s.outputTags i ++ addItemTags (getTagsInWindow (inputItems i) 0 noutputItems) }

/-- What an input drops: the distance of its first tag to the highest one, an
unsigned difference of 64 bits, at most `noutput_items`. -/
def itemsToConsume (highestTag tag0 noutputItems : ℕ) : ℕ :=
  let items := (highestTag + 2 ^ 64 - tag0) % 2 ^ 64
  if items > noutputItems then noutputItems else items

def syncPdu (highestTag : ℕ) : Pmt := .cons (.symbol "synctimestamp") (.uint64 highestTag)

/-- One call. The items it returns are appended to the output streams; a call
that is not synchronized returns none. -/
def generalWork (noutputItems : ℕ) (inputItems : Fin n → List (Item α)) (s : Synchronizer n α) :
    Except Fault (Synchronizer n α) :=
  if s.dSynchronized then forward noutputItems inputItems s
  else do
    let tagList ← collect fun i => tag0 (inputItems i)
    let highestTag := largest (List.ofFn tagList)
    if allEqual (List.ofFn tagList) then
      let s ← forward noutputItems inputItems { s with dSynchronized := true }
      .ok { s with published := s.published ++ [syncPdu highestTag] }
    else
      .ok { s with nitemsRead := fun i =>
        s.nitemsRead i + itemsToConsume highestTag (tagList i) noutputItems }

theorem memcpy_ok {noutputItems : ℕ} {items : List (Item α)} (h : noutputItems ≤ items.length) :
    memcpy noutputItems items = .ok ((items.take noutputItems).map Item.data) := by
  rw [memcpy, if_pos h, inBounds_some]

/-- The state after forwarding. -/
def forwarded (noutputItems : ℕ) (inputItems : Fin n → List (Item α)) (s : Synchronizer n α) :
    Synchronizer n α where
  dSynchronized := s.dSynchronized
  nitemsRead := fun i => s.nitemsRead i + noutputItems
  outputItems := fun i => s.outputItems i ++ ((inputItems i).take noutputItems).map Item.data
  outputTags := fun i =>
    s.outputTags i ++ addItemTags (getTagsInWindow (inputItems i) 0 noutputItems)
  published := s.published

theorem forward_eq {noutputItems : ℕ} {inputItems : Fin n → List (Item α)}
    (h : ∀ i, noutputItems ≤ (inputItems i).length) (s : Synchronizer n α) :
    forward noutputItems inputItems s = .ok (forwarded noutputItems inputItems s) := by
  have hcopied : (collect fun i => memcpy noutputItems (inputItems i)) =
      .ok fun i => ((inputItems i).take noutputItems).map Item.data :=
    collect_ok fun i => memcpy_ok (h i)
  rw [forward, hcopied]
  rfl

/-- A synchronized call forwards. -/
theorem generalWork_synchronized {noutputItems : ℕ} {inputItems : Fin n → List (Item α)}
    {s : Synchronizer n α} (hs : s.dSynchronized = true)
    (h : ∀ i, noutputItems ≤ (inputItems i).length) :
    generalWork noutputItems inputItems s = .ok (forwarded noutputItems inputItems s) := by
  rw [generalWork, if_pos hs, forward_eq h]

/-- A call that finds the same first tag on every input synchronizes, forwards,
and publishes that tag. -/
theorem generalWork_synchronizing {noutputItems : ℕ} {inputItems : Fin n → List (Item α)}
    {s : Synchronizer n α} {tagList : Fin n → ℕ} (hs : s.dSynchronized = false)
    (h : ∀ i, noutputItems ≤ (inputItems i).length)
    (htags : ∀ i, tag0 (inputItems i) = .ok (tagList i))
    (hequal : ∀ i j, tagList i = tagList j) :
    generalWork noutputItems inputItems s =
      .ok { forwarded noutputItems inputItems { s with dSynchronized := true } with
        published := s.published ++ [syncPdu (Finset.univ.sup tagList)] } := by
  have htest : allEqual (List.ofFn tagList) = true := allEqual_ofFn.mpr hequal
  rw [generalWork, hs, if_neg Bool.false_ne_true, collect_ok htags, ok_bind, if_pos htest,
    forward_eq h, largest_ofFn]
  rfl

/-- State `t` is `s` after dropping items, where the first tags are `tagList`. -/
structure Dropped (noutputItems : ℕ) (tagList : Fin n → ℕ) (s t : Synchronizer n α) : Prop where
  synchronized : t.dSynchronized = s.dSynchronized
  read : ∀ i, t.nitemsRead i = s.nitemsRead i +
    itemsToConsume (Finset.univ.sup tagList) (tagList i) noutputItems
  items : t.outputItems = s.outputItems
  published : t.published = s.published

/-- A call that finds different first tags drops items and forwards none. -/
theorem generalWork_dropping {inputItems : Fin n → List (Item α)} {s : Synchronizer n α}
    {tagList : Fin n → ℕ} (noutputItems : ℕ) (hs : s.dSynchronized = false)
    (htags : ∀ i, tag0 (inputItems i) = .ok (tagList i))
    (hdiffer : ¬ ∀ i j, tagList i = tagList j) :
    ∃ t, generalWork noutputItems inputItems s = .ok t ∧ Dropped noutputItems tagList s t := by
  have htest : ¬ allEqual (List.ofFn tagList) = true := fun h => hdiffer (allEqual_ofFn.mp h)
  rw [generalWork, hs, if_neg Bool.false_ne_true, collect_ok htags, ok_bind, if_neg htest,
    largest_ofFn]
  exact ⟨_, rfl, hs.symm, fun _ => rfl, rfl, rfl⟩

/-- The first tag of a list of waiting items. -/
theorem tag0_of_head {items : List (Item α)} {item : Item α} (h : items.head? = some item) :
    tag0 items = firstTag item := by
  cases items with
  | nil => simp at h
  | cons first rest =>
    obtain rfl : first = item := Option.some.inj h
    simp [tag0, firstTag, getTagsInWindow]

theorem itemsToConsume_le (highestTag tag0 noutputItems : ℕ) :
    itemsToConsume highestTag tag0 noutputItems ≤ noutputItems := by
  simp only [itemsToConsume]
  split_ifs <;> omega

/-- Tags that are congruent modulo 16 leave the inputs at block boundaries. -/
theorem dvd_itemsToConsume {highestTag tag0 noutputItems : ℕ} (hle : tag0 ≤ highestTag)
    (hmod : highestTag % 16 = tag0 % 16) (hdvd : 16 ∣ noutputItems) :
    16 ∣ itemsToConsume highestTag tag0 noutputItems := by
  simp only [itemsToConsume]
  split_ifs
  · exact hdvd
  · omega

theorem itemsToConsume_eq {highestTag tag0 : ℕ} (noutputItems : ℕ) (hle : tag0 ≤ highestTag)
    (hlt : highestTag < 2 ^ 64) :
    itemsToConsume highestTag tag0 noutputItems = min (highestTag - tag0) noutputItems := by
  have hitems : (highestTag + 2 ^ 64 - tag0) % 2 ^ 64 = highestTag - tag0 := by
    rw [show highestTag + 2 ^ 64 - tag0 = highestTag - tag0 + 2 ^ 64 by omega,
      Nat.add_mod_right, Nat.mod_eq_of_lt (by omega)]
  simp only [itemsToConsume, hitems]
  split_ifs <;> omega

end Synchronizer

-- ════════════════════════════════════════════════════════════════════════
-- Calls on streams
-- ════════════════════════════════════════════════════════════════════════

/-- The input streams of a synchronizer: item `k` of every input. -/
abbrev Streams (n : ℕ) (α : Type) := Fin n → ℕ → Item α

/-- A call: the output size, and how many items wait on each input. -/
structure SyncCall (n : ℕ) where
  noutputItems : ℕ
  ninputItems : Fin n → ℕ

/-- `forecast`: the items that a call needs on every input. -/
def forecast {n : ℕ} (noutputItems : ℕ) : Fin n → ℕ := fun _ => noutputItems

/-- What the runtime guarantees of a call. -/
structure SyncCall.Valid {n : ℕ} (call : SyncCall n) : Prop where
  pos : 0 < call.noutputItems
  dvd : 16 ∣ call.noutputItems
  available : ∀ i, forecast call.noutputItems i ≤ call.ninputItems i

theorem SyncCall.Valid.le {n : ℕ} {call : SyncCall n} (h : call.Valid) (i : Fin n) :
    call.noutputItems ≤ call.ninputItems i := h.available i

/-- A call that finds exactly what it needs. -/
def SyncCall.exact (n noutputItems : ℕ) : SyncCall n where
  noutputItems := noutputItems
  ninputItems := forecast noutputItems

theorem SyncCall.exact_valid (n : ℕ) {noutputItems : ℕ} (h : 0 < noutputItems)
    (hd : 16 ∣ noutputItems) : (SyncCall.exact n noutputItems).Valid :=
  ⟨h, hd, fun _ => le_rfl⟩

/-- The output items that a sequence of calls asks for. -/
def totalItems {n : ℕ} (cs : List (SyncCall n)) : ℕ := (cs.map SyncCall.noutputItems).sum

theorem totalItems_concat {n : ℕ} (cs : List (SyncCall n)) (c : SyncCall n) :
    totalItems (cs ++ [c]) = totalItems cs + c.noutputItems := by
  simp [totalItems]

namespace Synchronizer

variable {n : ℕ} {α : Type}

/-- The items that wait on an input. -/
def waiting (streams : Streams n α) (s : Synchronizer n α) (call : SyncCall n) (i : Fin n) :
    List (Item α) :=
  (List.range (call.ninputItems i)).map fun k => streams i (s.nitemsRead i + k)

def call (streams : Streams n α) (s : Synchronizer n α) (c : SyncCall n) :
    Except Fault (Synchronizer n α) :=
  generalWork c.noutputItems (s.waiting streams c) s

/-- A sequence of calls on a block. -/
def calls (streams : Streams n α) (s : Synchronizer n α) (cs : List (SyncCall n)) :
    Except Fault (Synchronizer n α) :=
  Execution.run (call streams) s cs

theorem length_waiting (streams : Streams n α) (s : Synchronizer n α) (c : SyncCall n)
    (i : Fin n) : (s.waiting streams c i).length = c.ninputItems i := by
  simp [waiting]

theorem le_length_waiting {c : SyncCall n} (hc : c.Valid) (streams : Streams n α)
    (s : Synchronizer n α) (i : Fin n) : c.noutputItems ≤ (s.waiting streams c i).length := by
  rw [length_waiting]
  exact hc.le i

/-- The items that a call may forward. -/
theorem take_waiting {c : SyncCall n} (hc : c.Valid) (streams : Streams n α)
    (s : Synchronizer n α) (i : Fin n) :
    (s.waiting streams c i).take c.noutputItems =
      (List.range c.noutputItems).map fun k => streams i (s.nitemsRead i + k) := by
  rw [waiting, ← List.map_take, List.take_range, min_eq_left (hc.le i)]

theorem tag0_waiting {c : SyncCall n} (hc : c.Valid) (streams : Streams n α)
    (s : Synchronizer n α) (i : Fin n) :
    tag0 (s.waiting streams c i) = firstTag (streams i (s.nitemsRead i)) := by
  have hpos : 0 < c.ninputItems i := lt_of_lt_of_le hc.pos (hc.le i)
  refine tag0_of_head ?_
  rw [waiting, List.head?_map, List.head?_range, if_neg hpos.ne']
  rfl

theorem forward_synchronized {noutputItems : ℕ} {inputItems : Fin n → List (Item α)}
    {s s' : Synchronizer n α} (h : forward noutputItems inputItems s = .ok s') :
    s'.dSynchronized = s.dSynchronized := by
  rw [forward] at h
  cases hcopied : collect fun i => memcpy noutputItems (inputItems i) with
  | error e => simp [hcopied, error_bind] at h
  | ok copied =>
    rw [hcopied, ok_bind] at h
    rw [← Except.ok.inj h]

/-- A call that leaves the block unsynchronized has forwarded nothing. -/
theorem unsynchronized_of_generalWork {noutputItems : ℕ} {inputItems : Fin n → List (Item α)}
    {s s' : Synchronizer n α} (h : generalWork noutputItems inputItems s = .ok s')
    (hs' : s'.dSynchronized = false) :
    s.dSynchronized = false ∧ s'.outputItems = s.outputItems ∧ s'.outputTags = s.outputTags := by
  cases hs : s.dSynchronized with
  | true =>
    rw [generalWork, if_pos hs] at h
    rw [forward_synchronized h, hs] at hs'
    exact absurd hs' Bool.noConfusion
  | false =>
    rw [generalWork, hs, if_neg Bool.false_ne_true] at h
    cases htags : collect fun i => tag0 (inputItems i) with
    | error e => simp [htags, error_bind] at h
    | ok tagList =>
      rw [htags, ok_bind] at h
      split_ifs at h with hequal
      · cases hfwd : forward noutputItems inputItems { s with dSynchronized := true } with
        | error e => simp [hfwd, error_bind] at h
        | ok t =>
          rw [hfwd, ok_bind] at h
          rw [← Except.ok.inj h] at hs'
          exact absurd ((forward_synchronized hfwd).symm.trans hs') Bool.noConfusion
      · rw [← Except.ok.inj h]
        exact ⟨rfl, rfl, rfl⟩

/-- An unsynchronized block has no output. -/
theorem output_of_unsynchronized {streams : Streams n α} {cs : List (SyncCall n)}
    {s : Synchronizer n α} (h : (initial n α).calls streams cs = .ok s)
    (hs : s.dSynchronized = false) : (∀ i, s.outputItems i = []) ∧ ∀ i, s.outputTags i = [] := by
  refine Execution.run_history_partial
    (fun _ s => s.dSynchronized = false → (∀ i, s.outputItems i = []) ∧ ∀ i, s.outputTags i = [])
    (fun _ => True) ?_ [] (fun _ => ⟨fun _ => rfl, fun _ => rfl⟩) (fun _ _ => trivial)
    h hs
  intro _ t c t' hinv _ hstep ht'
  obtain ⟨ht, hitems, htags⟩ := unsynchronized_of_generalWork hstep ht'
  rw [hitems, htags]
  exact hinv ht

end Synchronizer

end GrAta
