import GrAta.Voltage.StreamFrames

/-!
# The tags of the voltage mode

Before a handshake every output item carries the sequence number of its frame as
a tag. In a block of one packet a frame that number is the timestamp of the
frame. A block of several packets queues a received frame when the first packet
of the next one arrives, under the header of that packet, while a missed frame
is queued under its own timestamp.

## Main definitions

- `TagsCorrect`: each item is tagged with the timestamp of its own frame

## Main results

- `LossyStream.announcedAt_eq_iff`: when a frame carries its own timestamp
- `VoltageBlock.run_tagsCorrect_iff`: when a run tags all its items correctly
-/

namespace GrAta

/-- The vectors of an item, on all ports. -/
def OutItem.vectors (item : OutItem) : List TimeVector := item.x :: item.y.toList

/-- Every item is tagged with the timestamp of the frame that its vectors were
built from, and the tags of successive blocks of sixteen items rise by 16. -/
structure TagsCorrect (items : List OutItem) : Prop where
  own : ∀ item ∈ items, ∀ v ∈ item.vectors, item.tag = some v.origin.timestamp
  rise : ∀ k a b, items[k]? = some a → items[k + 16]? = some b →
    ∃ t, a.tag = some t ∧ b.tag = some (t + 16)

theorem lt_nextTimestamp {ps : List Packet} {t : ℕ} (h : ∃ p ∈ ps, t < timestamp p) :
    t < nextTimestamp ps t := by
  obtain ⟨p, hp, hlt⟩ := h
  have hne : ps.filter (fun p => t < timestamp p) ≠ [] := by
    intro hnil
    have := List.filter_eq_nil_iff.mp hnil p hp
    simp only [decide_eq_true_eq] at this
    exact this hlt
  obtain ⟨q, qs, hq⟩ := List.exists_cons_of_ne_nil hne
  have hmem : q ∈ ps.filter fun p => t < timestamp p := by simp [hq]
  rw [nextTimestamp, hq]
  exact of_decide_eq_true (List.mem_filter.mp hmem).2

namespace LossyStream

variable {B : VoltageBlock} {first : ℕ} {ps : List Packet}

/-- A frame that is followed by another one carries its own timestamp exactly in a
block of one packet a frame, or if it was missed. -/
theorem announcedAt_eq_iff {onePacket : Bool} {t : ℕ} (h : ∃ p ∈ ps, t < timestamp p) :
    announcedAt onePacket ps t = t ↔ onePacket = true ∨ packetsAt ps t = [] := by
  rw [announcedAt]
  split
  · rename_i hc
    exact ⟨fun _ => hc, fun _ => rfl⟩
  · rename_i hc
    have := lt_nextTimestamp h
    exact ⟨fun he => by omega, fun hc' => absurd hc' hc⟩

/-- The first frame of a stream has been received. -/
theorem packetsAt_first (hne : ps ≠ []) : packetsAt ps (firstTimestamp ps) ≠ [] := by
  obtain ⟨p, qs, rfl⟩ := List.exists_cons_of_ne_nil hne
  have hmem : p ∈ packetsAt (p :: qs) (firstTimestamp (p :: qs)) :=
    mem_packetsAt.mpr ⟨by simp, rfl⟩
  exact List.ne_nil_of_mem hmem

/-- In a block of several packets a frame, no frame is handed on as long as all
packets carry the first timestamp. -/
theorem frameCount_eq_zero_iff (h : LossyStream B first ps) :
    frameCount false ps = 0 ↔ ∀ p ∈ ps, timestamp p = firstTimestamp ps := by
  rcases List.eq_nil_or_concat ps with rfl | ⟨ps, z, rfl⟩
  · simp [frameCount]
  · rw [List.concat_eq_append] at *
    obtain ⟨a, ha⟩ := h.exists_frame (p := z) (by simp)
    rw [frameCount_concat ha]
    simp only [Bool.false_eq_true, if_false, Nat.add_zero]
    constructor
    · intro h0 p hp
      obtain ⟨b, hb⟩ := h.exists_frame hp
      have := h.timestamp_le hp
      omega
    · intro hall
      have := hall z (by simp)
      omega

end LossyStream

namespace VoltageBlock

variable (B : VoltageBlock)

/-- The items of a run without handshake, by position. -/
theorem items_getElem? {first : ℕ} {ps taken : List Packet} {delivered queue : List Queued}
    {w : WorkRun} (h : LossyStream B first ps) (ht : B.Tracks ps taken delivered queue w)
    (hsync : w.source.volt.syncTimestamp = 0) {k : ℕ} {item : OutItem}
    (hitem : w.items[k]? = some item) : item = (B.streamRow ps k).emitted true := by
  have hitems := ht.tags hsync
  rw [(h.delivered_eq ht).1, List.map_map] at hitems
  have hk : k < w.items.length := (List.getElem?_eq_some_iff.mp hitem).1
  rw [hitems, List.length_map, List.length_range] at hk
  rw [Blocks.getElem?_eq hitems hk] at hitem
  exact (Option.some.inj hitem).symm

/-- In a block of one packet a frame all tags are right. -/
theorem tagsCorrect_of_onePacket {first : ℕ} {ps taken : List Packet}
    {delivered queue : List Queued} {w : WorkRun} (h : LossyStream B first ps)
    (ht : B.Tracks ps taken delivered queue w) (hsync : w.source.volt.syncTimestamp = 0)
    (hone : B.cfg.bOnePacket = true) : TagsCorrect w.items := by
  have htag : ∀ k, (B.streamRow ps k).seqNum = itemTime ps k := by
    intro k
    exact if_pos (Or.inl hone)
  constructor
  · intro item hitem v hv
    obtain ⟨k, hk⟩ := List.mem_iff_getElem?.mp hitem
    have hrow := B.items_getElem? h ht hsync hk
    have horigin : v.origin = frameAt ps (itemTime ps k) := by
      rw [hrow] at hv
      cases hp : B.cfg.dPackedOutput <;>
        simp [OutItem.vectors, Queued.emitted, streamRow, queuedRow, hp, pushAt] at hv
      · rcases hv with rfl | rfl <;> rfl
      · rw [hv]
    rw [hrow, horigin, frameAt_timestamp, ← htag k]
    rfl
  · intro k a b ha hb
    have hrow := B.items_getElem? h ht hsync ha
    have hrow' := B.items_getElem? h ht hsync hb
    refine ⟨itemTime ps k, ?_, ?_⟩
    · rw [hrow, ← htag k]
      rfl
    · have hnext : itemTime ps k + 16 = itemTime ps (k + 16) := by
        unfold itemTime
        omega
      rw [hrow', hnext, ← htag (k + 16)]
      rfl

/-- In a block of several packets a frame the first output item is tagged with the
timestamp of the next delivered frame. -/
theorem first_tag {first : ℕ} {ps taken : List Packet} {delivered queue : List Queued}
    {w : WorkRun} (h : LossyStream B first ps) (ht : B.Tracks ps taken delivered queue w)
    (hsync : w.source.volt.syncTimestamp = 0) (hone : B.cfg.bOnePacket = false)
    (hnew : ¬∀ p ∈ ps, timestamp p = firstTimestamp ps) :
    ∃ item ∈ w.items, item.x.origin = .received (packetsAt ps (firstTimestamp ps)) ∧
      item.tag = some (nextTimestamp ps (firstTimestamp ps)) := by
  have hcount : frameCount B.cfg.bOnePacket ps ≠ 0 := by
    rw [hone]
    exact fun h0 => hnew (h.frameCount_eq_zero_iff.mp h0)
  have hfirst : packetsAt ps (firstTimestamp ps) ≠ [] := by
    refine LossyStream.packetsAt_first ?_
    rintro rfl
    exact hnew (by simp)
  have hne : w.items ≠ [] := by
    -- without output every packet has been taken, and a complete frame was queued
    intro hnil
    obtain ⟨hlocal, hqueue⟩ := ht.idle hnil
    have htaken : ps = taken := by rw [ht.consumed, hlocal, List.append_nil]
    have hdel : delivered = [] := by
      have := ht.vectors
      rw [hnil] at this
      exact List.map_eq_nil_iff.mp this.symm
    have hrows := ht.frames
    rw [← htaken, h.rows_eq, hdel, hqueue] at hrows
    have := congrArg List.length hrows
    simp only [List.append_nil, List.length_nil, List.length_map, List.length_range] at this
    omega
  obtain ⟨item, items, hitems⟩ := List.exists_cons_of_ne_nil hne
  have hrow := B.items_getElem? h ht hsync (show w.items[0]? = some item by simp [hitems])
  refine ⟨item, by simp [hitems], ?_, ?_⟩
  · rw [hrow]
    exact if_neg hfirst
  · rw [hrow]
    refine congrArg some (if_neg ?_)
    rw [hone]
    exact not_or.mpr ⟨by simp, hfirst⟩

/-- When a run that tracks a lossy stream has tagged all its items correctly. -/
theorem Tracks.tagsCorrect_iff {B : VoltageBlock} {first : ℕ} {ps taken : List Packet}
    {delivered queue : List Queued} {w : WorkRun} (ht : B.Tracks ps taken delivered queue w)
    (h : LossyStream B first ps) (hsync : w.source.volt.syncTimestamp = 0) :
    TagsCorrect w.items ↔ B.packets = 1 ∨ ∀ p ∈ ps, timestamp p = firstTimestamp ps := by
  have hmode := B.bOnePacket_eq
  by_cases hp : B.packets = 1
  · have hone : B.cfg.bOnePacket = true := by simp [hmode, hp]
    exact ⟨fun _ => Or.inl hp, fun _ => B.tagsCorrect_of_onePacket h ht hsync hone⟩
  · have hone : B.cfg.bOnePacket = false := by simp [hmode, hp]
    constructor
    · intro htags
      by_contra hc
      obtain ⟨hnp, hnew⟩ := not_or.mp hc
      obtain ⟨item, hitem, horigin, htag⟩ := B.first_tag h ht hsync hone hnew
      have hown := htags.own item hitem item.x (by simp [OutItem.vectors])
      have hlater : ∃ p ∈ ps, firstTimestamp ps < timestamp p := by
        simp only [not_forall] at hnew
        obtain ⟨p, hmem, hne⟩ := hnew
        obtain ⟨a, ha⟩ := h.exists_frame hmem
        exact ⟨p, hmem, by omega⟩
      have hgt := lt_nextTimestamp hlater
      have hfirst : packetsAt ps (firstTimestamp ps) ≠ [] := by
        obtain ⟨p, hmem, _⟩ := hlater
        exact LossyStream.packetsAt_first (List.ne_nil_of_mem hmem)
      rw [htag, horigin, FrameOrigin.timestamp, firstTimestamp_packetsAt hfirst] at hown
      have := Option.some.inj hown
      omega
    · intro hc
      have hall := hc.resolve_left hp
      have hlen := (h.delivered_eq ht).2
      rw [hone, h.frameCount_eq_zero_iff.mpr hall] at hlen
      have hnil : w.items = [] := by
        rw [ht.tags hsync, List.eq_nil_of_length_eq_zero (by omega : delivered.length = 0)]
        rfl
      rw [hnil]
      exact ⟨by simp, by simp⟩

/-- **Tags of the voltage mode.** On an in-order lossy stream and without a
handshake, a run tags every item with the timestamp of its own frame exactly when
a frame has one packet, or when no packet of a second frame has arrived. -/
theorem run_tagsCorrect_iff (env : Environment) {first : ℕ} {calls : List Call}
    (hcalls : ∀ call ∈ calls, call.Valid ∧ call.Quiet)
    (h : LossyStream B first (arrivals calls)) :
    ∃ w, B.run env calls = .ok w ∧ (TagsCorrect w.items ↔
      B.packets = 1 ∨ ∀ p ∈ arrivals calls, timestamp p = firstTimestamp (arrivals calls)) := by
  obtain ⟨w, taken, delivered, queue, hw, ht, hsync, -⟩ :=
    B.run_tracks env calls (fun c hc => (hcalls c hc).1) h.admissible
  exact ⟨w, hw, ht.tagsCorrect_iff h (hsync fun c hc => (hcalls c hc).2)⟩

theorem run_tagsCorrect_iff_lost_packets :
    let B := ofWidth 2 (by decide) (by decide) true
    let calls := [Call.taking [plainPacket 0 16, plainPacket 0 32] 16]
    ∃ w, B.run ⟨[], fun _ _ => 0⟩ calls = .ok w ∧ (TagsCorrect w.items ↔
      B.packets = 1 ∨ ∀ p ∈ arrivals calls, timestamp p = firstTimestamp (arrivals calls)) := by
  intro B calls
  refine run_tagsCorrect_iff B _ ?_ (LossyStream.lost_packets true)
  intro call hcall
  rw [List.mem_singleton.mp hcall]
  exact ⟨Call.taking_valid _ (by decide) (by decide), Call.taking_quiet _ _⟩

/-- Two packets of successive frames: the items of the frame at 16 are tagged 32. -/
theorem run_tags_next_frame :
    let B := ofWidth 2 (by decide) (by decide) true
    let calls := [Call.taking [plainPacket 0 16, plainPacket 0 32] 16]
    (∀ call ∈ calls, call.Valid ∧ call.Quiet) ∧ LossyStream B 16 (arrivals calls) ∧
      ∃ w, B.run ⟨[], fun _ _ => 0⟩ calls = .ok w ∧
        (∃ item ∈ w.items, item.x.origin = .received [plainPacket 0 16] ∧ item.tag = some 32) ∧
        ¬TagsCorrect w.items := by
  intro B calls
  have hcalls : ∀ call ∈ calls, call.Valid ∧ call.Quiet := by
    intro call hcall
    rw [List.mem_singleton.mp hcall]
    exact ⟨Call.taking_valid _ (by decide) (by decide), Call.taking_quiet _ _⟩
  have h : LossyStream B 16 (arrivals calls) := LossyStream.lost_packets true
  obtain ⟨w, taken, delivered, queue, hw, ht, hsync, -⟩ :=
    B.run_tracks ⟨[], fun _ _ => 0⟩ calls (fun c hc => (hcalls c hc).1) h.admissible
  have h0 := hsync fun c hc => (hcalls c hc).2
  have h16 : timestamp (plainPacket 0 16) = 16 := timestamp_plainPacket 0 (by decide)
  have h32 : timestamp (plainPacket 0 32) = 32 := timestamp_plainPacket 0 (by decide)
  have harr : arrivals calls = [plainPacket 0 16, plainPacket 0 32] := rfl
  have hfirst : firstTimestamp (arrivals calls) = 16 := h16
  have hnew : ¬∀ p ∈ arrivals calls, timestamp p = firstTimestamp (arrivals calls) := by
    rw [hfirst, harr]
    simp [h32]
  obtain ⟨item, hitem, horigin, htag⟩ := B.first_tag h ht h0 rfl hnew
  refine ⟨hcalls, h, w, hw, ⟨item, hitem, ?_, ?_⟩, fun hc => ?_⟩
  · rw [horigin, hfirst, harr]
    simp [packetsAt, h16, h32]
  · rw [htag, hfirst, harr]
    simp [nextTimestamp, firstTimestamp, h16, h32]
  · rcases (ht.tagsCorrect_iff h h0).mp hc with hp | hp
    · exact absurd hp (by decide)
    · exact hnew hp

end VoltageBlock

end GrAta
