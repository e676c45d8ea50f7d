import GrAta.Snap.Encoding
import GrAta.Voltage.Runs
import Mathlib.Data.List.Chain

/-!
# In-order lossy streams

The traffic that the source is built for: a SNAP sends frames at timestamps 16
apart, the packets of a frame in ascending channel order, and the network loses
some of the packets. Delivery starts with a packet of the first channel.

## Main definitions

- `FullStream`: what is sent
- `InOrderStream`: what is delivered, with gaps of any size
- `LossyStream`: what is delivered, with gaps that are filled

## Main results

- `LossyStream.next_spec`: how far the next packet is from the last one
- `InOrderStream.admissible`: the packets are in range and no gap counter wraps
-/

namespace GrAta

/-- What a SNAP sends to a block: frame `j` at timestamp `first + 16 * j`, made
of one packet for each 256 channels of the block. -/
structure FullStream (B : VoltageBlock) (first : ℕ) where
  frames : ℕ
  packet : ℕ → ℕ → Packet
  timestamp_packet : ∀ j < frames, ∀ s < B.packets, timestamp (packet j s) = first + 16 * j
  channel_packet : ∀ j < frames, ∀ s < B.packets,
    channel (packet j s) = B.firstChannel + 256 * s

/-- The packets of a full stream in sending order. -/
def FullStream.sent {B : VoltageBlock} {first : ℕ} (F : FullStream B first) : List Packet :=
  (List.range F.frames).flatMap fun j => (List.range B.packets).map (F.packet j)

/-- What is delivered of a full stream when any packets may be lost. -/
structure InOrderStream (B : VoltageBlock) (first : ℕ) (ps : List Packet) : Prop where
  delivered : ∃ F : FullStream B first, ps.Sublist F.sent
  first_pos : 0 < first

/-- What is delivered of a full stream when any packets may be lost, as long as the
first delivered packet has the first channel and no more than `MAX_MISSED_SETS`
frames in a row are lost completely. -/
structure LossyStream (B : VoltageBlock) (first : ℕ) (ps : List Packet) : Prop
    extends InOrderStream B first ps where
  synchronized : ∀ p ∈ ps.head?, channel p = B.firstChannel
  losses : ps.IsChain fun p q => timestamp q ≤ timestamp p + 16 * (MAX_MISSED_SETS + 1)

/-- Sending order. -/
def SentBefore (p q : Packet) : Prop :=
  timestamp p < timestamp q ∨ timestamp p = timestamp q ∧ channel p < channel q

theorem FullStream.mem_sent {B : VoltageBlock} {first : ℕ} (F : FullStream B first) {p : Packet}
    (hp : p ∈ F.sent) : ∃ j s, s < B.packets ∧ timestamp p = first + 16 * j ∧
      channel p = B.firstChannel + 256 * s := by
  simp only [sent, List.mem_flatMap, List.mem_map, List.mem_range] at hp
  obtain ⟨j, hj, s, hs, rfl⟩ := hp
  exact ⟨j, s, hs, F.timestamp_packet j hj s hs, F.channel_packet j hj s hs⟩

theorem FullStream.sent_pairwise {B : VoltageBlock} {first : ℕ} (F : FullStream B first) :
    F.sent.Pairwise SentBefore := by
  rw [sent, List.pairwise_flatMap]
  constructor
  · intro j hj
    rw [List.pairwise_map]
    refine List.pairwise_lt_range.imp_of_mem fun {s t} hs ht hlt => ?_
    rw [List.mem_range] at hj hs ht
    right
    rw [F.timestamp_packet j hj s hs, F.timestamp_packet j hj t ht, F.channel_packet j hj s hs,
      F.channel_packet j hj t ht]
    omega
  · refine List.pairwise_lt_range.imp_of_mem fun {i j} hi hj hlt p hp q hq => ?_
    obtain ⟨s, hs, rfl⟩ := List.mem_map.mp hp
    obtain ⟨t, ht, rfl⟩ := List.mem_map.mp hq
    rw [List.mem_range] at hi hj hs ht
    left
    rw [F.timestamp_packet i hi s hs, F.timestamp_packet j hj t ht]
    omega

namespace InOrderStream

variable {B : VoltageBlock} {first : ℕ} {ps : List Packet}

theorem mem_spec (h : InOrderStream B first ps) {p : Packet} (hp : p ∈ ps) :
    ∃ j s, s < B.packets ∧ timestamp p = first + 16 * j ∧
      channel p = B.firstChannel + 256 * s := by
  obtain ⟨F, hF⟩ := h.delivered
  exact F.mem_sent (hF.subset hp)

theorem pairwise (h : InOrderStream B first ps) : ps.Pairwise SentBefore := by
  obtain ⟨F, hF⟩ := h.delivered
  exact F.sent_pairwise.sublist hF

/-- What is delivered first is again a stream in order. -/
theorem of_append {qs : List Packet} (h : InOrderStream B first (ps ++ qs)) :
    InOrderStream B first ps where
  delivered := by
    obtain ⟨F, hF⟩ := h.delivered
    exact ⟨F, (List.sublist_append_left ps qs).trans hF⟩
  first_pos := h.first_pos

theorem timestamp_pos (h : InOrderStream B first ps) {p : Packet} (hp : p ∈ ps) :
    0 < timestamp p := by
  obtain ⟨j, s, _, ht, _⟩ := h.mem_spec hp
  have := h.first_pos
  omega

theorem inRange (h : InOrderStream B first ps) {p : Packet} (hp : p ∈ ps) : B.InRange p := by
  obtain ⟨j, s, hs, _, hc⟩ := h.mem_spec hp
  have hl := B.lastChannel_eq
  rw [channel] at hc
  rw [VoltageBlock.InRange, hc]
  unfold VoltageBlock.firstChannel at *
  omega

/-- The next packet, in terms of the last one: its timestamp is some frames later. -/
theorem next_spec {z p : Packet} (h : InOrderStream B first (ps ++ [z] ++ [p])) :
    ∃ d, timestamp p = timestamp z + 16 * d ∧ (d = 0 → channel z < channel p) := by
  obtain ⟨i, s, _, hzt, _⟩ := h.mem_spec (p := z) (by simp)
  obtain ⟨j, t, _, hpt, _⟩ := h.mem_spec (p := p) (by simp)
  have hbefore : SentBefore z p :=
    (List.pairwise_append.mp h.pairwise).2.2 z (by simp) p (by simp)
  refine ⟨j - i, ?_, ?_⟩
  all_goals
    rw [SentBefore] at hbefore
    omega

/-- The packets of a stream in order are in range, and the counter of the gap filling
loop never wraps. -/
theorem admissible (h : InOrderStream B first ps) : B.Admissible 0 ps := by
  induction ps using List.reverseRecOn with
  | nil => trivial
  | append_singleton ps p ih =>
    refine B.admissible_append.mpr ⟨ih h.of_append, h.inRange (by simp), ?_, trivial⟩
    rcases List.eq_nil_or_concat ps with rfl | ⟨ps, z, rfl⟩
    · exact gapEnds_zero _
    · rw [List.concat_eq_append] at *
      obtain ⟨d, hd, _⟩ := h.next_spec
      simp only [List.getLast?_append, List.getLast?_singleton]
      exact gapEnds_of_dvd (timestamp_lt p) ⟨d, by simp; omega⟩

end InOrderStream

namespace LossyStream

variable {B : VoltageBlock} {first : ℕ} {ps : List Packet}

/-- What is delivered first is again a lossy stream. -/
theorem of_append {qs : List Packet} (h : LossyStream B first (ps ++ qs)) :
    LossyStream B first ps where
  toInOrderStream := h.toInOrderStream.of_append
  synchronized p hp := h.synchronized p (by
    rw [List.head?_append_of_ne_nil]
    · exact hp
    · rintro rfl
      simp at hp)
  losses := (List.isChain_append.mp h.losses).1

/-- The next packet, in terms of the last one: its timestamp is some frames later. -/
theorem next_spec {z p : Packet} (h : LossyStream B first (ps ++ [z] ++ [p])) :
    ∃ d, timestamp p = timestamp z + 16 * d ∧ d ≤ MAX_MISSED_SETS + 1 ∧
      (d = 0 → channel z < channel p) := by
  obtain ⟨d, hd, hchan⟩ := h.toInOrderStream.next_spec
  have hloss := (List.isChain_append.mp h.losses).2.2 z (by simp) p (by simp)
  exact ⟨d, hd, by omega, hchan⟩

end LossyStream

/-- The full stream of plain packets. -/
def FullStream.plain (B : VoltageBlock) (first frames : ℕ) (h : first + 16 * frames ≤ 2 ^ 64) :
    FullStream B first where
  frames := frames
  packet j s := plainPacket (B.firstChannel + 256 * s) (first + 16 * j)
  timestamp_packet j hj s _ := timestamp_plainPacket _ (by omega)
  channel_packet j _ s hs := channel_plainPacket (by have := B.cfg_spec.2.1; omega) _

/-- Two frames of two packets each, where the second packet of each is lost. -/
theorem LossyStream.lost_packets (packed : Bool) :
    LossyStream (.ofWidth 2 (by decide) (by decide) packed) 16
      [plainPacket 0 16, plainPacket 0 32] where
  delivered := by
    have hsub : [plainPacket 0 16, plainPacket 0 32].Sublist
        [plainPacket 0 16, plainPacket 256 16, plainPacket 0 32, plainPacket 256 32] :=
      .cons_cons _ (.cons _ (.cons_cons _ (List.nil_sublist _)))
    exact ⟨FullStream.plain _ 16 2 (by decide), hsub⟩
  first_pos := by decide
  synchronized p hp := by
    rw [← Option.some.inj hp]
    exact channel_plainPacket (by decide) _
  losses := by simp [timestamp_plainPacket, MAX_MISSED_SETS]

end GrAta
