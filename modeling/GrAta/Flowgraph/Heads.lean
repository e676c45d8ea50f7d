import GrAta.Flowgraph.Model
import GrAta.Voltage.Tags
import Mathlib.Data.Nat.ModEq

/-!
# The heads of the source streams

What the synchronizer finds at the head of a source stream that carries tags: the
sequence number of the frame there. A number alone does not tell the frame. In a
block of several packets a frame, number `tag` is that of a missed frame, or it
was taken from the first packet of timestamp `tag`, and then the frame is the
last one received before.

## Main definitions

- `frameAnnounced`: the timestamp of the frame that carries a sequence number

## Main results

- `LossyStream.frameAnnounced_announcedAt`: the number determines the frame
- `VoltageBlock.Tracks.head`: the head of a stream before the handshake
-/

namespace GrAta

/-- The timestamp of the frame that is queued under the number `tag`. -/
def frameAnnounced (onePacket : Bool) (ps : List Packet) (tag : ℕ) : ℕ :=
  if onePacket ∨ packetsAt ps tag = [] then tag
  else lastTimestamp (ps.filter fun p => timestamp p < tag)

/-- The last timestamp of packets in sending order is the highest one. -/
theorem lastTimestamp_eq_of_pairwise {ps : List Packet} (h : ps.Pairwise SentBefore) {t : ℕ}
    (hle : ∀ p ∈ ps, timestamp p ≤ t) (hmem : ∃ p ∈ ps, timestamp p = t) :
    lastTimestamp ps = t := by
  obtain ⟨p, hp, hpt⟩ := hmem
  rcases List.eq_nil_or_concat ps with rfl | ⟨ps, z, rfl⟩
  · simp at hp
  · rw [List.concat_eq_append] at *
    rw [lastTimestamp_concat]
    have hz := hle z (by simp)
    rcases List.mem_append.mp hp with hp | hp
    · have hbefore := (List.pairwise_append.mp h).2.2 p hp z (by simp)
      rw [SentBefore] at hbefore
      omega
    · rw [List.mem_singleton.mp hp] at hpt
      exact hpt

namespace LossyStream

variable {B : VoltageBlock} {first : ℕ} {ps : List Packet}

/-- The next timestamp is the lowest one above `t`. -/
theorem nextTimestamp_spec (h : LossyStream B first ps) {t : ℕ}
    (hlater : ∃ p ∈ ps, t < timestamp p) :
    (∃ q ∈ ps, timestamp q = nextTimestamp ps t) ∧ t < nextTimestamp ps t ∧
      ∀ p ∈ ps, t < timestamp p → nextTimestamp ps t ≤ timestamp p := by
  obtain ⟨q, qs, hf⟩ : ∃ q qs, ps.filter (fun p => t < timestamp p) = q :: qs := by
    refine List.exists_cons_of_ne_nil fun hnil => ?_
    obtain ⟨p, hp, hlt⟩ := hlater
    exact List.filter_eq_nil_iff.mp hnil p hp (decide_eq_true hlt)
  have hnext : nextTimestamp ps t = timestamp q := by
    rw [nextTimestamp, hf]
    rfl
  have hq : q ∈ ps.filter fun p => t < timestamp p := by simp [hf]
  refine ⟨⟨q, (List.mem_filter.mp hq).1, hnext.symm⟩, lt_nextTimestamp hlater,
    fun p hp hlt => ?_⟩
  have hp' : p ∈ ps.filter fun p => t < timestamp p :=
    List.mem_filter.mpr ⟨hp, decide_eq_true hlt⟩
  have hpairs := h.pairwise.sublist (List.filter_sublist (p := fun p => t < timestamp p))
  rw [hf] at hp' hpairs
  rw [hnext]
  rcases List.mem_cons.mp hp' with rfl | hp'
  · exact le_rfl
  · have hbefore := List.rel_of_pairwise_cons hpairs hp'
    rw [SentBefore] at hbefore
    omega

/-- A sequence number determines the timestamp of its frame. -/
theorem frameAnnounced_announcedAt (h : LossyStream B first ps) {onePacket : Bool} {t : ℕ}
    (hlater : onePacket = true ∨ ∃ p ∈ ps, t < timestamp p) :
    frameAnnounced onePacket ps (announcedAt onePacket ps t) = t := by
  by_cases hown : onePacket = true ∨ packetsAt ps t = []
  · rw [announcedAt, if_pos hown, frameAnnounced, if_pos hown]
  · obtain ⟨hmode, hreceived⟩ := not_or.mp hown
    obtain ⟨⟨q, hq, hqt⟩, hlt, hleast⟩ := h.nextTimestamp_spec (hlater.resolve_left hmode)
    have hnext : packetsAt ps (nextTimestamp ps t) ≠ [] :=
      List.ne_nil_of_mem (mem_packetsAt.mpr ⟨hq, hqt⟩)
    rw [announcedAt, if_neg hown, frameAnnounced, if_neg (not_or.mpr ⟨hmode, hnext⟩)]
    refine lastTimestamp_eq_of_pairwise (h.pairwise.sublist List.filter_sublist) ?_ ?_
    · intro p hp
      obtain ⟨hp, hplt⟩ := List.mem_filter.mp hp
      have hplt : timestamp p < nextTimestamp ps t := of_decide_eq_true hplt
      by_contra hgt
      have hle := hleast p hp (by omega)
      omega
    · obtain ⟨p, hp⟩ := List.exists_mem_of_ne_nil _ hreceived
      obtain ⟨hp, hpt⟩ := mem_packetsAt.mp hp
      exact ⟨p, List.mem_filter.mpr ⟨hp, decide_eq_true (by omega)⟩, hpt⟩

theorem timestamp_modEq (h : LossyStream B first ps) {p : Packet} (hp : p ∈ ps) :
    timestamp p ≡ first [MOD 16] := by
  obtain ⟨j, _, _, ht, _⟩ := h.mem_spec hp
  rw [ht, Nat.ModEq]
  omega

/-- Before an item leaves a block of several packets a frame, a packet of a later
timestamp has arrived. -/
theorem exists_later (h : LossyStream B first ps) {k : ℕ} (hk : k < frameCount false ps * 16) :
    ∃ p ∈ ps, itemTime ps k < timestamp p := by
  rcases List.eq_nil_or_concat ps with rfl | ⟨ps, z, rfl⟩
  · simp [frameCount] at hk
  · rw [List.concat_eq_append] at *
    obtain ⟨a, ha⟩ := h.exists_frame (p := z) (by simp)
    rw [frameCount_concat ha] at hk
    refine ⟨z, by simp, ?_⟩
    simp only [Bool.false_eq_true, if_false, Nat.add_zero] at hk
    rw [itemTime, ha]
    omega

theorem ne_nil_of_frameCount {onePacket : Bool} {k : ℕ}
    (hk : k < frameCount onePacket ps * 16) : ps ≠ [] := by
  rintro rfl
  simp [frameCount] at hk

theorem itemTime_modEq (h : LossyStream B first ps) (hne : ps ≠ []) (k : ℕ) :
    itemTime ps k ≡ first [MOD 16] := by
  obtain ⟨p, qs, rfl⟩ := List.exists_cons_of_ne_nil hne
  have hp : firstTimestamp (p :: qs) % 16 = first % 16 := h.timestamp_modEq (p := p) (by simp)
  rw [itemTime, Nat.ModEq]
  omega

/-- In a block of several packets a frame, an item that has left was followed by a
packet of a later timestamp. -/
theorem later_of_lt (h : LossyStream B first ps) {onePacket : Bool} {k : ℕ}
    (hk : k < frameCount onePacket ps * 16) :
    onePacket = true ∨ ∃ p ∈ ps, itemTime ps k < timestamp p := by
  cases onePacket with
  | true => exact Or.inl rfl
  | false => exact Or.inr (h.exists_later hk)

/-- All sequence numbers are congruent to the timestamps of the stream. -/
theorem announcedAt_modEq (h : LossyStream B first ps) {onePacket : Bool} {k : ℕ}
    (hk : k < frameCount onePacket ps * 16) :
    announcedAt onePacket ps (itemTime ps k) ≡ first [MOD 16] := by
  by_cases hown : onePacket = true ∨ packetsAt ps (itemTime ps k) = []
  · rw [announcedAt, if_pos hown]
    exact h.itemTime_modEq (ne_nil_of_frameCount hk) k
  · rw [announcedAt, if_neg hown]
    obtain ⟨⟨q, hq, hqt⟩, _⟩ := h.nextTimestamp_spec
      ((h.later_of_lt hk).resolve_left (not_or.mp hown).1)
    rw [← hqt]
    exact h.timestamp_modEq hq

end LossyStream

namespace VoltageBlock.Tracks

variable {B : VoltageBlock} {first : ℕ} {ps taken : List Packet} {delivered queue : List Queued}
  {w : WorkRun}

theorem items_length_lt (ht : B.Tracks ps taken delivered queue w)
    (h : LossyStream B first ps) {k : ℕ} (hk : k < w.items.length) :
    k < frameCount B.cfg.bOnePacket ps * 16 := by
  have hle := (h.delivered_eq ht).2
  rw [ht.items_length] at hk
  omega

/-- The frame and the row of an output item. -/
theorem item_x (ht : B.Tracks ps taken delivered queue w) (h : LossyStream B first ps) {k : ℕ}
    {item : OutItem} (hitem : w.items[k]? = some item) :
    item.x.origin = frameAt ps (itemTime ps k) ∧ item.x.row = k % 16 := by
  have hx := ht.items_x
  rw [(h.delivered_eq ht).1, List.map_map] at hx
  have hk : k < w.items.length := (List.getElem?_eq_some_iff.mp hitem).1
  rw [ht.items_length] at hk
  have hget := Blocks.getElem?_eq hx hk
  rw [List.getElem?_map, hitem, Option.map_some, Option.some.injEq] at hget
  rw [hget]
  exact ⟨rfl, rfl⟩

/-- The tag of an output item, when there was no handshake. -/
theorem item_tag (ht : B.Tracks ps taken delivered queue w) (h : LossyStream B first ps)
    (hsync : w.source.volt.syncTimestamp = 0) {k : ℕ} {item : OutItem}
    (hitem : w.items[k]? = some item) :
    Synchronizer.firstTag item.toItem =
      .ok (announcedAt B.cfg.bOnePacket ps (itemTime ps k)) := by
  rw [B.items_getElem? h ht hsync hitem]
  rfl

end VoltageBlock.Tracks

end GrAta
