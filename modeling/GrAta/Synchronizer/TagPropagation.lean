import GrAta.Synchronizer.Model

/-!
# Tags behind the synchronizer

Forwarding attaches the tags of a window again, one by one. The offset it names
is the index of the tag in the window, not the position of the item that carries
it. So the tags of every window land on the first items of the output stream.

## Main definitions

- `Synchronizer.reattached`: where forwarding puts the tags of a stream
- `Synchronizer.TagsCopied`: every output item carries the tags of its input item

## Main results

- `Synchronizer.reattached_iff`: when the tags of one port stay in place
- `Synchronizer.calls_tagsCopied_iff`: when the tags of all ports stay in place,
  in every state of a run
-/

namespace GrAta

open Ports

namespace Synchronizer

/-- The tags at an offset, in the order they were added. -/
def tagsAt (k : ℕ) (tags : List (ℕ × Tag)) : List Tag :=
  (tags.filter fun tag => tag.1 = k).map Prod.snd

theorem tagsAt_append (k : ℕ) (tags tags' : List (ℕ × Tag)) :
    tagsAt k (tags ++ tags') = tagsAt k tags ++ tagsAt k tags' := by
  rw [tagsAt, List.filter_append, List.map_append]
  rfl

theorem tagsAt_zipIdx (k m : ℕ) (tags : List Tag) :
    tagsAt k ((tags.zipIdx m).map fun tag => (tag.2, tag.1)) =
      if m ≤ k then tags[k - m]?.toList else [] := by
  induction tags generalizing m with
  | nil => simp [tagsAt]
  | cons tag tags ih =>
    rw [List.zipIdx_cons, List.map_cons, ← List.singleton_append, tagsAt_append, ih]
    obtain hlt | rfl | hgt := Nat.lt_trichotomy k m
    · rw [if_neg (by omega), if_neg (by omega), List.append_nil, tagsAt]
      simp [hlt.ne']
    · simp [tagsAt]
    · obtain ⟨d, rfl⟩ : ∃ d, k = m + 1 + d := Nat.exists_eq_add_of_lt hgt |>.imp fun d hd => by
        omega
      rw [if_pos (by omega), if_pos (by omega), show m + 1 + d - m = d + 1 by omega,
        show m + 1 + d - (m + 1) = d by omega, List.getElem?_cons_succ, tagsAt]
      simp [show m ≠ m + 1 + d by omega]

/-- At every offset lies the tag with that index, if there is one. -/
theorem tagsAt_addItemTags (k : ℕ) (tags : List Tag) :
    tagsAt k (addItemTags tags) = tags[k]?.toList := by
  rw [addItemTags, tagsAt_zipIdx, if_pos (Nat.zero_le k), Nat.sub_zero]

/-- The tags that forwarding in calls of the given sizes adds, where item `k` of
the forwarded stream carries the tags `f k`. -/
def reattached (f : ℕ → List Tag) : List ℕ → List (ℕ × Tag)
  | [] => []
  | size :: sizes =>
    addItemTags ((List.range size).flatMap f) ++ reattached (fun k => f (size + k)) sizes

theorem tagsAt_reattached_cons (f : ℕ → List Tag) (size : ℕ) (sizes : List ℕ) (k : ℕ) :
    tagsAt k (reattached f (size :: sizes)) =
      ((List.range size).flatMap f)[k]?.toList ++
        tagsAt k (reattached (fun j => f (size + j)) sizes) := by
  rw [reattached, tagsAt_append, tagsAt_addItemTags]

/-- Nothing is added at the first offset only when no forwarded item is tagged. -/
theorem untagged_of_tagsAt_zero (sizes : List ℕ) {f : ℕ → List Tag}
    (h : tagsAt 0 (reattached f sizes) = []) : ∀ k < sizes.sum, f k = [] := by
  induction sizes generalizing f with
  | nil => intro k hk; simp at hk
  | cons size sizes ih =>
    rw [tagsAt_reattached_cons, List.append_eq_nil_iff] at h
    obtain ⟨hfirst, hrest⟩ := h
    have hwindow : (List.range size).flatMap f = [] := by
      cases hw : (List.range size).flatMap f with
      | nil => rfl
      | cons tag tags => simp [hw] at hfirst
    intro k hk
    obtain hlt | hle := Nat.lt_or_ge k size
    · exact List.flatMap_eq_nil_iff.mp hwindow k (List.mem_range.mpr hlt)
    · rw [List.sum_cons] at hk
      have hrest' := ih hrest (k - size) (by omega)
      rwa [Nat.add_sub_cancel' hle] at hrest'

theorem reattached_untagged (sizes : List ℕ) {f : ℕ → List Tag}
    (h : ∀ k < sizes.sum, f k = []) : reattached f sizes = [] := by
  induction sizes generalizing f with
  | nil => rfl
  | cons size sizes ih =>
    have hwindow : (List.range size).flatMap f = [] :=
      List.flatMap_eq_nil_iff.mpr fun k hk => h k (by
        rw [List.mem_range] at hk
        rw [List.sum_cons]
        omega)
    rw [reattached, hwindow, ih fun k hk => h (size + k) (by rw [List.sum_cons]; omega)]
    rfl

/-- The first `q` of the forwarded items carry one tag each, the others none. -/
def LeadingTags (f : ℕ → List Tag) (q n : ℕ) : Prop :=
  ∀ k < n, (f k).length = if k < q then 1 else 0

/-- In a window whose leading items carry one tag each, a tag has the index of
its item. -/
theorem LeadingTags.window {f : ℕ → List Tag} {q n : ℕ} (h : LeadingTags f q n) :
    ((List.range n).flatMap f).length = min n q ∧
      ∀ k < n, ((List.range n).flatMap f)[k]?.toList = f k := by
  induction n with
  | zero => exact ⟨(Nat.zero_min q).symm, fun k hk => absurd hk (Nat.not_lt_zero k)⟩
  | succ n ih =>
    obtain ⟨hlen, hget⟩ := ih fun k hk => h k (Nat.lt_succ_of_lt hk)
    have hlast := h n (Nat.lt_succ_self n)
    rw [List.range_succ, List.flatMap_append, List.flatMap_singleton]
    split_ifs at hlast with hq
    · obtain ⟨tag, htag⟩ := List.length_eq_one_iff.mp hlast
      refine ⟨by rw [List.length_append, hlen, hlast]; omega, fun k hk => ?_⟩
      obtain hkn | rfl := Nat.lt_succ_iff_lt_or_eq.mp hk
      · rw [List.getElem?_append_left (by omega), hget k hkn]
      · rw [List.getElem?_append_right (by omega), show k - _ = 0 by omega, htag]
        rfl
    · have hnil := List.eq_nil_of_length_eq_zero hlast
      rw [hnil, List.append_nil]
      refine ⟨by omega, fun k hk => ?_⟩
      obtain hkn | rfl := Nat.lt_succ_iff_lt_or_eq.mp hk
      · exact hget k hkn
      · rw [List.getElem?_eq_none (by omega), hnil]
        rfl

theorem LeadingTags.window_length_le {f : ℕ → List Tag} {n : ℕ}
    (h : LeadingTags f ((List.range n).flatMap f).length n) :
    ((List.range n).flatMap f).length ≤ n := by
  have hlen := h.window.1
  omega

/-- The tags of one port stay in place, whatever part of the calls has been made,
exactly when the leading items of the first call carry one tag each and no other
item is tagged. -/
theorem reattached_iff {f : ℕ → List Tag} {size : ℕ} (hsize : 0 < size) (sizes : List ℕ) :
    (∀ made, made <+: size :: sizes → ∀ k < made.sum, (tagsAt k (reattached f made)).Perm (f k)) ↔
      ∃ q ≤ size, LeadingTags f q (size :: sizes).sum := by
  constructor
  · intro h
    let window := (List.range size).flatMap f
    have hfirst : LeadingTags f window.length size := by
      intro k hk
      have hperm := h [size] (List.prefix_append [size] sizes) k (by simpa using hk)
      rw [tagsAt_reattached_cons, reattached, tagsAt, List.filter_nil, List.map_nil,
        List.append_nil] at hperm
      rw [← hperm.length_eq]
      obtain hlt | hge := Nat.lt_or_ge k window.length
      · rw [List.getElem?_eq_getElem hlt, if_pos hlt]
        rfl
      · rw [List.getElem?_eq_none hge, if_neg (by omega)]
        rfl
    have hlater : ∀ k < sizes.sum, f (size + k) = [] := by
      have hperm := h (size :: sizes) List.prefix_rfl 0 (by rw [List.sum_cons]; omega)
      rw [tagsAt_reattached_cons, hfirst.window.2 0 hsize] at hperm
      have hlen := hperm.length_eq
      rw [List.length_append] at hlen
      exact untagged_of_tagsAt_zero sizes (List.eq_nil_of_length_eq_zero (by omega))
    refine ⟨window.length, hfirst.window_length_le, fun k hk => ?_⟩
    obtain hlt | hge := Nat.lt_or_ge k size
    · exact hfirst k hlt
    · rw [List.sum_cons] at hk
      have hnil := hlater (k - size) (by omega)
      have hle : window.length ≤ size := hfirst.window_length_le
      rw [Nat.add_sub_cancel' hge] at hnil
      rw [hnil, if_neg (by omega)]
      rfl
  · rintro ⟨q, hq, htags⟩ made hmade k hk
    cases made with
    | nil => simp at hk
    | cons first made =>
      obtain ⟨rfl, rest, rfl⟩ := List.cons_prefix_cons.mp hmade
      have hsum : made.sum ≤ (made ++ rest).sum := by
        rw [List.sum_append]
        exact Nat.le_add_right _ _
      have hlater : ∀ j < made.sum, f (first + j) = [] := fun j hj => by
        have hlen := htags (first + j) (by rw [List.sum_cons]; omega)
        rw [if_neg (by omega)] at hlen
        exact List.eq_nil_of_length_eq_zero hlen
      have hfirst : LeadingTags f q first := fun j hj => htags j (by rw [List.sum_cons]; omega)
      rw [tagsAt_reattached_cons, reattached_untagged made hlater, tagsAt, List.filter_nil,
        List.map_nil, List.append_nil]
      obtain hlt | hge := Nat.lt_or_ge k first
      · rw [hfirst.window.2 k hlt]
      · rw [List.sum_cons] at hk
        have hnil := hlater (k - first) (by omega)
        have hlen := hfirst.window.1
        rw [Nat.add_sub_cancel' hge] at hnil
        rw [hnil, List.getElem?_eq_none (by omega)]
        rfl

variable {n : ℕ} {α : Type}

theorem reattached_concat (f : ℕ → List Tag) (sizes : List ℕ) (size : ℕ) :
    reattached f (sizes ++ [size]) =
      reattached f sizes ++ addItemTags ((List.range size).flatMap fun k => f (sizes.sum + k)) := by
  induction sizes generalizing f with
  | nil => simp [reattached]
  | cons first sizes ih =>
    rw [List.cons_append, reattached, ih, reattached, List.append_assoc]
    simp only [List.sum_cons, Nat.add_assoc]

/-- The tags of the items of an input from the first one on that `s` has not
consumed. -/
def tagsFrom (streams : Streams n α) (s : Synchronizer n α) (i : Fin n) (k : ℕ) : List Tag :=
  (streams i (s.nitemsRead i + k)).tags

/-- State `t` has forwarded the items of the calls `cs`, from where `s` stood. -/
structure Forwarded (streams : Streams n α) (s : Synchronizer n α) (cs : List (SyncCall n))
    (t : Synchronizer n α) : Prop where
  synchronized : t.dSynchronized = true
  read : ∀ i, t.nitemsRead i = s.nitemsRead i + totalItems cs
  items : ∀ i, t.outputItems i =
    (List.range (totalItems cs)).map fun k => (streams i (s.nitemsRead i + k)).data
  tags : ∀ i, t.outputTags i = reattached (tagsFrom streams s i) (cs.map SyncCall.noutputItems)

/-- Every output item carries exactly the tags of the input item it is a copy of:
item `k` of a port is a copy of item `s.nitemsRead i + k` of its input. -/
def TagsCopied (streams : Streams n α) (s t : Synchronizer n α) : Prop :=
  ∀ i, ∀ k < (t.outputItems i).length,
    (tagsAt k (t.outputTags i)).Perm (tagsFrom streams s i k)

theorem getTagsInWindow_waiting {c : SyncCall n} (hc : c.Valid) (streams : Streams n α)
    (s : Synchronizer n α) (i : Fin n) :
    getTagsInWindow (s.waiting streams c i) 0 c.noutputItems =
      (List.range c.noutputItems).flatMap (tagsFrom streams s i) := by
  rw [getTagsInWindow, List.drop_zero, take_waiting hc, List.flatMap_map]
  rfl

variable {streams : Streams n α} {s t : Synchronizer n α} {c : SyncCall n}
  {cs : List (SyncCall n)}

/-- The synchronizing call. -/
theorem forwarded_first (hs : s.dSynchronized = false) (hitems : ∀ i, s.outputItems i = [])
    (htags : ∀ i, s.outputTags i = []) (hc : c.Valid) {tag : ℕ}
    (hheads : ∀ i, firstTag (streams i (s.nitemsRead i)) = .ok tag) :
    ∃ t, s.call streams c = .ok t ∧ Forwarded streams s [c] t := by
  have hcall := generalWork_synchronizing hs (le_length_waiting hc streams s)
    (fun i => (tag0_waiting hc streams s i).trans (hheads i)) (fun _ _ => rfl)
  have htotal : totalItems [c] = c.noutputItems := List.sum_singleton
  refine ⟨_, hcall, rfl, fun i => ?_, fun i => ?_, fun i => ?_⟩
  · rw [htotal]
    rfl
  · show s.outputItems i ++ ((s.waiting streams c i).take c.noutputItems).map Item.data = _
    rw [hitems i, take_waiting hc, List.nil_append, List.map_map, htotal]
    rfl
  · show s.outputTags i ++ addItemTags (getTagsInWindow (s.waiting streams c i) 0 _) = _
    rw [htags i, getTagsInWindow_waiting hc, List.nil_append, List.map_singleton, reattached,
      reattached, List.append_nil]

theorem Forwarded.step (h : Forwarded streams s cs t) (hc : c.Valid) :
    ∃ t', t.call streams c = .ok t' ∧ Forwarded streams s (cs ++ [c]) t' := by
  have hcall := generalWork_synchronized h.synchronized (le_length_waiting hc streams t)
  refine ⟨_, hcall, h.synchronized, fun i => ?_, fun i => ?_, fun i => ?_⟩
  · show t.nitemsRead i + c.noutputItems = _
    rw [h.read i, totalItems_concat, Nat.add_assoc]
  · show t.outputItems i ++ ((t.waiting streams c i).take c.noutputItems).map Item.data = _
    rw [h.items i, take_waiting hc, h.read i, totalItems_concat, List.range_add,
      List.map_append, List.map_map, List.map_map]
    simp only [Function.comp_def, Nat.add_assoc]
  · show t.outputTags i ++ addItemTags (getTagsInWindow (t.waiting streams c i) 0 _) = _
    have hwindow : tagsFrom streams t i = fun k => tagsFrom streams s i (totalItems cs + k) := by
      funext k
      rw [tagsFrom, tagsFrom, h.read i, Nat.add_assoc]
    rw [h.tags i, getTagsInWindow_waiting hc, hwindow, List.map_append, List.map_singleton,
      reattached_concat]
    rfl

theorem Forwarded.tagsCopied_iff (h : Forwarded streams s cs t) :
    TagsCopied streams s t ↔ ∀ i, ∀ k < (cs.map SyncCall.noutputItems).sum,
      (tagsAt k (reattached (tagsFrom streams s i) (cs.map SyncCall.noutputItems))).Perm
        (tagsFrom streams s i k) := by
  refine forall_congr' fun i => ?_
  rw [h.tags i, h.items i, List.length_map, List.length_range]
  rfl

theorem calls_forwarded (hs : s.dSynchronized = false) (hitems : ∀ i, s.outputItems i = [])
    (htags : ∀ i, s.outputTags i = []) (hvalid : ∀ c' ∈ c :: cs, c'.Valid) (tag : ℕ)
    (hheads : ∀ i, firstTag (streams i (s.nitemsRead i)) = .ok tag) :
    ∃ t, s.calls streams (c :: cs) = .ok t ∧ Forwarded streams s (c :: cs) t := by
  have hc := hvalid c (List.mem_cons_self ..)
  obtain ⟨t, ht, hfirst⟩ := forwarded_first hs hitems htags hc hheads
  obtain ⟨t', ht', hforwarded⟩ := Execution.run_history (Forwarded streams s) SyncCall.Valid
    (fun _ _ _ h hc => h.step hc) [c] hfirst cs
    (fun c' hc' => hvalid c' (List.mem_cons_of_mem c hc'))
  exact ⟨t', by rw [calls, Execution.run_cons_ok ht]; exact ht', hforwarded⟩

/-- **Tags behind the synchronizer.** Take any tagged input streams, a reachable
state whose inputs wait with equal first tags, and the calls from there on. The
calls return and forward the items of every input in order. In every state they
pass through, every output item carries the tags of its input item exactly when,
on every input, the leading items of the synchronizing call carry one tag each
and no other forwarded item carries a tag. -/
theorem calls_tagsCopied_iff (streams : Streams n α) (before : List (SyncCall n))
    {s : Synchronizer n α} (hbefore : (initial n α).calls streams before = .ok s)
    (hs : s.dSynchronized = false) (tag : ℕ)
    (hheads : ∀ i, firstTag (streams i (s.nitemsRead i)) = .ok tag)
    {c : SyncCall n} {cs : List (SyncCall n)} (hvalid : ∀ c' ∈ c :: cs, c'.Valid) :
    (∃ t, s.calls streams (c :: cs) = .ok t ∧ t.dSynchronized = true ∧
      ∀ i, t.outputItems i = (List.range (totalItems (c :: cs))).map
        fun k => (streams i (s.nitemsRead i + k)).data) ∧
    ((∀ made, made <+: c :: cs → ∀ t, s.calls streams made = .ok t → TagsCopied streams s t) ↔
      ∀ i, ∃ q ≤ c.noutputItems, LeadingTags (tagsFrom streams s i) q (totalItems (c :: cs))) := by
  obtain ⟨hitems, htags⟩ := output_of_unsynchronized hbefore hs
  have hrun : ∀ made, c :: made <+: c :: cs →
      ∃ t, s.calls streams (c :: made) = .ok t ∧ Forwarded streams s (c :: made) t :=
    fun made hmade => calls_forwarded hs hitems htags
      (fun c' hc' => hvalid c' (hmade.subset hc')) tag hheads
  have hsize : 0 < c.noutputItems := (hvalid c (List.mem_cons_self ..)).pos
  constructor
  · obtain ⟨t, ht, hforwarded⟩ := hrun cs List.prefix_rfl
    exact ⟨t, ht, hforwarded.synchronized, hforwarded.items⟩
  · constructor
    · intro h i
      refine (reattached_iff hsize _).mp fun sizes hsizes => ?_
      obtain ⟨made, hmade, rfl⟩ := List.prefix_map_iff.mp
        (show sizes <+: (c :: cs).map SyncCall.noutputItems from hsizes)
      cases made with
      | nil => intro k hk; simp at hk
      | cons first made =>
        obtain rfl : first = c := (List.cons_prefix_cons.mp hmade).1
        obtain ⟨t, ht, hforwarded⟩ := hrun made hmade
        exact hforwarded.tagsCopied_iff.mp (h _ hmade t ht) i
    · intro h made hmade t ht
      cases made with
      | nil =>
        obtain rfl : s = t := Except.ok.inj ht
        intro i k hk
        rw [hitems i] at hk
        exact absurd hk (Nat.not_lt_zero k)
      | cons first made =>
        obtain rfl : first = c := (List.cons_prefix_cons.mp hmade).1
        obtain ⟨t', ht', hforwarded⟩ := hrun made hmade
        obtain rfl : t' = t := Except.ok.inj (ht'.symm.trans ht)
        refine hforwarded.tagsCopied_iff.mpr fun i => ?_
        exact (reattached_iff hsize _).mpr (h i) _ (hmade.map SyncCall.noutputItems)

/-- A stream whose first 16 items carry one tag each. -/
def taggedBlock : Streams 1 ℕ := fun _ k =>
  ⟨k, if k < 16 then [⟨.symbol "sample_num", .uint64 16⟩] else []⟩

/-- A tagged block and an untagged one, in two calls for 16 items. -/
theorem calls_tagsCopied_iff_tagged_block :
    let c := SyncCall.exact 1 16
    let s := initial 1 ℕ
    (∃ t, s.calls taggedBlock [c, c] = .ok t ∧ t.dSynchronized = true ∧
      ∀ i, t.outputItems i = (List.range (totalItems [c, c])).map
        fun k => (taggedBlock i (s.nitemsRead i + k)).data) ∧
    ((∀ made, made <+: [c, c] → ∀ t, s.calls taggedBlock made = .ok t →
        TagsCopied taggedBlock s t) ↔
      ∀ i, ∃ q ≤ c.noutputItems, LeadingTags (tagsFrom taggedBlock s i) q (totalItems [c, c])) :=
  calls_tagsCopied_iff taggedBlock [] rfl rfl 16 (fun _ => rfl)
    fun c' hc' => by
      have hexact : c' = SyncCall.exact 1 16 := by simpa using hc'
      rw [hexact]
      exact SyncCall.exact_valid 1 (by decide) (by decide)

/-- A stream with one tag on every item. -/
def taggedStream : Streams 1 ℕ := fun _ k =>
  ⟨k, [⟨.symbol "sample_num", .uint64 (16 + 16 * (k / 16))⟩]⟩

/-- Output item 16 is the first item of the second call, and stays untagged: its
tag goes to item 0. -/
theorem calls_tags_second_call :
    ∃ t, (initial 1 ℕ).calls taggedStream [SyncCall.exact 1 16, SyncCall.exact 1 16] = .ok t ∧
      t.dSynchronized = true ∧ (t.outputItems 0)[16]? = some (taggedStream 0 16).data ∧
      tagsAt 16 (t.outputTags 0) = [] ∧
      tagsAt 0 (t.outputTags 0) = (taggedStream 0 0).tags ++ (taggedStream 0 16).tags ∧
      ¬ TagsCopied taggedStream (initial 1 ℕ) t := by
  have hvalid := SyncCall.exact_valid 1 (show 0 < 16 by decide) (by decide)
  have hheads : ∀ i, firstTag (taggedStream i ((initial 1 ℕ).nitemsRead i)) = .ok 16 := by decide
  obtain ⟨t, ht, h⟩ := calls_forwarded (c := SyncCall.exact 1 16) rfl (fun _ => rfl)
    (fun _ => rfl) (show ∀ c' ∈ [SyncCall.exact 1 16, SyncCall.exact 1 16], c'.Valid by
      simpa using hvalid) 16 hheads
  have hitems := h.items 0
  have htags := h.tags 0
  have hat : tagsAt 16 (t.outputTags 0) = [] := by
    rw [htags]
    decide
  refine ⟨t, ht, h.synchronized, ?_, hat, ?_, fun hcopied => ?_⟩
  · rw [hitems]
    rfl
  · rw [htags]
    decide
  · have hperm := hcopied 0 16 (by rw [hitems]; decide)
    rw [hat] at hperm
    exact absurd hperm.length_eq (by decide)

end Synchronizer

end GrAta
