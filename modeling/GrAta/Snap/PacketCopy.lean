import GrAta.Snap.CornerTurn
import GrAta.Snap.Encoding

/-!
# The copy of one packet

A packet holds its bytes by sample, time and polarization, the frame buffers hold them by
time row. The copy moves each byte of the payload to its place, in every buffer that the
output mode uses, and leaves the rest of the state alone. Packets whose channels are
disjoint have disjoint places, so that they can be copied in either order.

## Main definitions

- `VoltageBlock.cellOf`: the place of a sample in a frame buffer
- `VoltageBlock.Turns`: one buffer before and after the loops
- `VoltageBlock.CornerTurned`: the state before and after the copy

## Main results

- `VoltageBlock.Turns.comm`: the loops of packets with disjoint channels commute
- `VoltageBlock.copy_turns`: the copy of a packet in range
-/

namespace GrAta

namespace VoltageBlock

variable (B : VoltageBlock)

/-- The buffers of the frame have been allocated. Packed output uses the first one only. -/
structure HasBuffers (v : VoltState) : Prop where
  x : (v.xVectorBuffer.size : ℤ) = B.cfg.vectorBufferSize
  y : B.cfg.dPackedOutput = false → (v.yVectorBuffer.size : ℤ) = B.cfg.vectorBufferSize

/-- A whole packet in the local buffer. -/
structure FullPacket where
  header : List UInt8
  payload : List UInt8
  header_length : header.length = B.cfg.dHeaderSize
  payload_length : payload.length = 8192

/-- The bytes of the packet. -/
def FullPacket.localBuffer {B : VoltageBlock} (p : B.FullPacket) : Packet := p.header ++ p.payload

/-- The byte of the payload for a polarization, a sample and a time. -/
def FullPacket.data {B : VoltageBlock} (p : B.FullPacket) (pol sample t : ℕ) : UInt8 :=
  p.payload.getD ((sample * 16 + t) * 2 + pol) 0

/-- The first (`k = 0`) or second (`k = 1`) cell of sample `s` in time row `t`, for a packet of
channel `chan`. -/
def cellOf (chan t s k : ℕ) : ℕ :=
  t * B.cfg.dVeclen + (2 * (chan - B.cfg.dStartingChannel + s) + k)

/-- A buffer before and after the loops for a packet of channel `chan`. The two cells of a
sample take the values `even` and `odd`, and the cells of no sample are kept. -/
structure Turns (chan : ℕ) (even odd : ℕ → ℕ → UInt8) (before after : Region UInt8) : Prop where
  size : after.size = before.size
  first : ∀ t < 16, ∀ s < 256, after.cell (B.cellOf chan t s 0) = even s t
  second : ∀ t < 16, ∀ s < 256, after.cell (B.cellOf chan t s 1) = odd s t
  kept : ∀ i, (∀ t < 16, ∀ s < 256, ∀ k < 2, i ≠ B.cellOf chan t s k) →
    after.cell i = before.cell i

/-- The state before and after the copy of a packet with the header `hdr`. -/
structure CornerTurned (p : B.FullPacket) (hdr : SnapHeader) (v v' : VoltState) : Prop where
  reads : ∀ t < 16, ∀ s < 256, ∀ pol < 2,
    p.payload[(s * 16 + t) * 2 + pol]? = some (p.data pol s t)
  inside : ∀ t < 16, ∀ s < 256, ∀ k < 2,
    (B.cellOf hdr.channelId t s k : ℤ) < B.cfg.vectorBufferSize
  stores : ∀ even odd i, i ∈ (cellStores B.cfg hdr even odd).map Prod.fst ↔
    ∃ t < 16, ∃ s < 256, ∃ k < 2, i = B.cellOf hdr.channelId t s k
  packed : B.cfg.dPackedOutput = true →
    B.Turns hdr.channelId (p.data 0) (p.data 1) v.xVectorBuffer v'.xVectorBuffer ∧
      v'.yVectorBuffer = v.yVectorBuffer
  unpacked : B.cfg.dPackedOutput = false →
    B.Turns hdr.channelId (fun s t => highSample (p.data 0 s t))
      (fun s t => lowSample (p.data 0 s t)) v.xVectorBuffer v'.xVectorBuffer ∧
    B.Turns hdr.channelId (fun s t => highSample (p.data 1 s t))
      (fun s t => lowSample (p.data 1 s t)) v.yVectorBuffer v'.yVectorBuffer
  rest : v' = { v with
    xVectorBuffer := v'.xVectorBuffer
    yVectorBuffer := v'.yVectorBuffer
    copied := v'.copied }

/-- The channels of two packets are disjoint. -/
def ChannelsDisjoint (hdr hdr' : SnapHeader) : Prop :=
  hdr.channelId + 256 ≤ hdr'.channelId ∨ hdr'.channelId + 256 ≤ hdr.channelId

variable {B}

theorem FullPacket.vpData_eq (p : B.FullPacket) (sample t pol : ℕ) :
    vpData B.cfg p.localBuffer sample t pol = p.data pol sample t := by
  rw [vpData, pointer, localBuffer, data, ← p.header_length,
    List.getD_append_right _ _ _ _ (by omega), Nat.add_sub_cancel_left]

/-- The loops read bytes of the payload only. -/
theorem FullPacket.payload_getElem? (p : B.FullPacket) {sample t pol : ℕ} (ht : t < 16)
    (hsample : sample < 256) (hpol : pol < 2) :
    p.payload[(sample * 16 + t) * 2 + pol]? = some (p.data pol sample t) := by
  have hlt : (sample * 16 + t) * 2 + pol < p.payload.length := by
    rw [p.payload_length]
    omega
  rw [data, List.getElem?_eq_getElem hlt, List.getD_eq_getElem _ _ hlt]

theorem HasBuffers.size_eq {r : Region UInt8} (h : (r.size : ℤ) = B.cfg.vectorBufferSize) :
    r.size = 16 * B.cfg.dVeclen := by
  rw [B.vectorBufferSize_eq] at h
  rw [B.dVeclen_eq]
  omega

section InRange

variable {hdr : SnapHeader} (hs : B.cfg.dStartingChannel ≤ hdr.channelId)
  (he : hdr.channelId ≤ B.cfg.dEndingChannelPacketChannelId)

include hs he

/-- The column of a cell is one of its row. -/
theorem column_lt {s k : ℕ} (hsample : s < 256) (hk : k < 2) :
    2 * (hdr.channelId - B.cfg.dStartingChannel + s) + k < B.cfg.dVeclen := by
  have hfits := B.column_add_le hs he
  rw [column, firstChannel] at hfits
  omega

/-- A packet in range has its cells inside the buffer. -/
theorem cellOf_lt {t s k : ℕ} (ht : t < 16) (hsample : s < 256) (hk : k < 2) :
    B.cellOf hdr.channelId t s k < 16 * B.cfg.dVeclen :=
  B.cell_lt ht (column_lt hs he hsample hk)

/-- The cells that a packet covers are those of its samples. -/
theorem covers_iff_cellOf {i : ℕ} : B.Covers hdr.channelId i ↔
    ∃ t < 16, ∃ s < 256, ∃ k < 2, i = B.cellOf hdr.channelId t s k := by
  constructor
  · rintro ⟨hi, hlo, hhi⟩
    have ht : i / B.cfg.dVeclen < 16 := Nat.div_lt_of_lt_mul (by rwa [Nat.mul_comm])
    have hdm := Nat.div_add_mod' i B.cfg.dVeclen
    rw [column, firstChannel] at hlo hhi
    refine ⟨i / B.cfg.dVeclen, ht, (i % B.cfg.dVeclen - B.column hdr.channelId) / 2, ?_,
      (i % B.cfg.dVeclen) % 2, Nat.mod_lt _ (by omega), ?_⟩
    · rw [column, firstChannel]
      omega
    · rw [cellOf, column, firstChannel]
      omega
  · rintro ⟨t, ht, s, hsample, k, hk, rfl⟩
    have hmod := (B.divMod_cell (t := t) (column_lt hs he hsample hk)).2
    refine ⟨cellOf_lt hs he ht hsample hk, ?_, ?_⟩ <;>
      rw [cellOf, hmod, column, firstChannel] <;> omega

/-- The stores of the loops name the cells of the samples. -/
theorem mem_stores {even odd : ℕ → ℕ → UInt8} {i : ℤ} :
    i ∈ (cellStores B.cfg hdr even odd).map Prod.fst ↔
      ∃ t < 16, ∃ s < 256, ∃ k < 2, i = B.cellOf hdr.channelId t s k := by
  constructor
  · intro hi
    obtain ⟨w, hw, rfl⟩ := List.mem_map.mp hi
    obtain ⟨t, ht, k, hk, rfl⟩ := (B.mem_cellStores hs he).mp hw
    refine ⟨t, ht, k / 2, by omega, k % 2, Nat.mod_lt _ (by omega), ?_⟩
    rw [cellOf, column, firstChannel]
    omega
  · rintro ⟨t, ht, s, hsample, k, hk, rfl⟩
    exact (B.mem_map_cellStores hs he).mpr
      ((covers_iff_cellOf hs he).mpr ⟨t, ht, s, hsample, k, hk, rfl⟩)

/-- The value that the loops put into a cell of a sample. -/
theorem overlay_cellOf (even odd : ℕ → ℕ → UInt8) (cell : ℕ → UInt8) {t s k : ℕ} (ht : t < 16)
    (hsample : s < 256) (hk : k < 2) :
    B.overlay even odd hdr.channelId cell (B.cellOf hdr.channelId t s k) =
      columnValue even odd t (2 * s + k) := by
  have hcovers : B.Covers hdr.channelId (B.cellOf hdr.channelId t s k) :=
    (covers_iff_cellOf hs he).mpr ⟨t, ht, s, hsample, k, hk, rfl⟩
  obtain ⟨hdiv, hmod⟩ := B.divMod_cell (t := t) (column_lt hs he hsample hk)
  rw [overlay, if_pos hcovers, turned, cellOf, hdiv, hmod, column, firstChannel]
  congr 1
  omega

/-- The loops on one buffer. -/
theorem storeAll_turns (even odd : ℕ → ℕ → UInt8) {r : Region UInt8}
    (hr : (r.size : ℤ) = B.cfg.vectorBufferSize) :
    ∃ r', r.storeAll (cellStores B.cfg hdr even odd) = some r' ∧
      B.Turns hdr.channelId even odd r r' := by
  refine ⟨_, B.storeAll_cellStores hdr hs he even odd (HasBuffers.size_eq hr), ?_⟩
  exact
    { size := rfl
      first := by
        intro t ht s hsample
        change B.overlay even odd hdr.channelId r.cell _ = _
        rw [overlay_cellOf hs he even odd r.cell ht hsample (by omega), columnValue,
          if_pos (by omega), Nat.add_zero, Nat.mul_div_cancel_left s (by omega)]
      second := by
        intro t ht s hsample
        change B.overlay even odd hdr.channelId r.cell _ = _
        rw [overlay_cellOf hs he even odd r.cell ht hsample (by omega), columnValue,
          if_neg (by omega), show (2 * s + 1) / 2 = s by omega]
      kept := by
        intro i hi
        refine if_neg fun hcovers => ?_
        obtain ⟨t, ht, s, hsample, k, hk, heq⟩ := (covers_iff_cellOf hs he).mp hcovers
        exact hi t ht s hsample k hk heq }

/-- The copy of a packet in range returns, and turns the buffers. -/
theorem exists_cornerTurned (p : B.FullPacket) {v : VoltState} (hv : B.HasBuffers v) :
    ∃ v', copyVoltDataToVectorBuffer B.cfg p.localBuffer hdr v = .ok v' ∧
      B.CornerTurned p hdr v v' := by
  have hreads : ∀ t < 16, ∀ s < 256, ∀ pol < 2,
      p.payload[(s * 16 + t) * 2 + pol]? = some (p.data pol s t) :=
    fun t ht s hsample pol hpol => p.payload_getElem? ht hsample hpol
  have hinside : ∀ t < 16, ∀ s < 256, ∀ k < 2,
      (B.cellOf hdr.channelId t s k : ℤ) < B.cfg.vectorBufferSize := by
    intro t ht s hsample k hk
    rw [← hv.x, HasBuffers.size_eq hv.x]
    exact Int.ofNat_lt.mpr (cellOf_lt hs he ht hsample hk)
  have hstores := fun even odd i => @mem_stores B hdr hs he even odd i
  rw [copyVoltDataToVectorBuffer]
  simp only [p.vpData_eq]
  cases hpack : B.cfg.dPackedOutput with
  | true =>
    obtain ⟨x, hx, hturns⟩ := storeAll_turns hs he (p.data 0) (p.data 1) hv.x
    simp only [if_true, hx, inBounds_some, ok_bind]
    exact ⟨_, rfl, hreads, hinside, hstores, fun _ => ⟨hturns, rfl⟩, by simp [hpack], rfl⟩
  | false =>
    obtain ⟨x, hx, hxturns⟩ := storeAll_turns hs he (fun s t => highSample (p.data 0 s t))
      (fun s t => lowSample (p.data 0 s t)) hv.x
    obtain ⟨y, hy, hyturns⟩ := storeAll_turns hs he (fun s t => highSample (p.data 1 s t))
      (fun s t => lowSample (p.data 1 s t)) (hv.y hpack)
    simp only [Bool.false_eq_true, if_false, hx, hy, inBounds_some, ok_bind]
    exact ⟨_, rfl, hreads, hinside, hstores, by simp [hpack], fun _ => ⟨hxturns, hyturns⟩, rfl⟩

/-- The cells of packets with disjoint channels are different. -/
theorem cellOf_ne {hdr' : SnapHeader} (hs' : B.cfg.dStartingChannel ≤ hdr'.channelId)
    (he' : hdr'.channelId ≤ B.cfg.dEndingChannelPacketChannelId)
    (hdisjoint : ChannelsDisjoint hdr hdr') {t s k t' s' k' : ℕ} (hsample : s < 256) (hk : k < 2)
    (hsample' : s' < 256) (hk' : k' < 2) :
    B.cellOf hdr.channelId t s k ≠ B.cellOf hdr'.channelId t' s' k' := by
  intro heq
  have hcolumn := congrArg (· % B.cfg.dVeclen) heq
  simp only [cellOf, (B.divMod_cell (column_lt hs he hsample hk)).2,
    (B.divMod_cell (column_lt hs' he' hsample' hk')).2] at hcolumn
  rcases hdisjoint with h | h <;> omega

end InRange

-- ════════════════════════════════════════════════════════════════════════
-- Two packets
-- ════════════════════════════════════════════════════════════════════════

/-- The cells of a sample after the loops. -/
theorem Turns.cell_eq {chan : ℕ} {even odd : ℕ → ℕ → UInt8} {r r' : Region UInt8}
    (h : B.Turns chan even odd r r') {t s k : ℕ} (ht : t < 16) (hsample : s < 256) (hk : k < 2) :
    r'.cell (B.cellOf chan t s k) = if k = 0 then even s t else odd s t := by
  rcases Nat.lt_or_ge k 1 with h0 | h1
  · obtain rfl : k = 0 := by omega
    exact h.first t ht s hsample
  · obtain rfl : k = 1 := by omega
    exact h.second t ht s hsample

/-- The loops of two packets whose cells are different commute. -/
theorem Turns.comm {chan chan' : ℕ} {even odd even' odd' : ℕ → ℕ → UInt8}
    {r a b c d : Region UInt8}
    (hne : ∀ {t s k t' s' k'}, s < 256 → k < 2 → s' < 256 → k' < 2 →
      B.cellOf chan t s k ≠ B.cellOf chan' t' s' k')
    (ha : B.Turns chan even odd r a) (hb : B.Turns chan' even' odd' a b)
    (hc : B.Turns chan' even' odd' r c) (hd : B.Turns chan even odd c d) : b = d := by
  have hsize : b.size = d.size :=
    (hb.size.trans ha.size).trans (hd.size.trans hc.size).symm
  have hcell : b.cell = d.cell := by
    funext i
    by_cases hp : ∃ t < 16, ∃ s < 256, ∃ k < 2, i = B.cellOf chan t s k
    · obtain ⟨t, ht, s, hsample, k, hk, rfl⟩ := hp
      rw [hd.cell_eq ht hsample hk, ← ha.cell_eq ht hsample hk]
      exact hb.kept _ fun t' _ s' hsample' k' hk' => hne hsample hk hsample' hk'
    · have hout : ∀ t < 16, ∀ s < 256, ∀ k < 2, i ≠ B.cellOf chan t s k :=
        fun t ht s hsample k hk heq => hp ⟨t, ht, s, hsample, k, hk, heq⟩
      by_cases hq : ∃ t < 16, ∃ s < 256, ∃ k < 2, i = B.cellOf chan' t s k
      · obtain ⟨t, ht, s, hsample, k, hk, rfl⟩ := hq
        rw [hb.cell_eq ht hsample hk, ← hc.cell_eq ht hsample hk]
        exact (hd.kept _ hout).symm
      · have hout' : ∀ t < 16, ∀ s < 256, ∀ k < 2, i ≠ B.cellOf chan' t s k :=
          fun t ht s hsample k hk heq => hq ⟨t, ht, s, hsample, k, hk, heq⟩
        rw [hb.kept i hout', ha.kept i hout, hd.kept i hout, hc.kept i hout']
  obtain ⟨size, cell⟩ := b
  obtain ⟨size', cell'⟩ := d
  simp only at hsize hcell
  rw [hsize, hcell]

namespace CornerTurned

variable {p q : B.FullPacket} {hdr hdr' : SnapHeader} {v v' : VoltState}

/-- The copy keeps the buffers at their size. -/
theorem hasBuffers (h : B.CornerTurned p hdr v v') (hv : B.HasBuffers v) : B.HasBuffers v' := by
  cases hpack : B.cfg.dPackedOutput with
  | true =>
    refine ⟨?_, by simp [hpack]⟩
    rw [(h.packed hpack).1.size]
    exact hv.x
  | false =>
    refine ⟨?_, fun _ => ?_⟩
    · rw [(h.unpacked hpack).1.size]
      exact hv.x
    · rw [(h.unpacked hpack).2.size]
      exact hv.y hpack

section Commute

variable {v₁ v₂ v₁' v₂' : VoltState}
  (hne : ∀ {t s k t' s' k'}, s < 256 → k < 2 → s' < 256 → k' < 2 →
    B.cellOf hdr.channelId t s k ≠ B.cellOf hdr'.channelId t' s' k')
  (h₁ : B.CornerTurned p hdr v v₁) (h₂ : B.CornerTurned q hdr' v₁ v₂)
  (h₁' : B.CornerTurned q hdr' v v₁') (h₂' : B.CornerTurned p hdr v₁' v₂')

include hne h₁ h₂ h₁' h₂'

/-- Two copies in either order give the same buffers. -/
theorem buffers_comm :
    v₂.xVectorBuffer = v₂'.xVectorBuffer ∧ v₂.yVectorBuffer = v₂'.yVectorBuffer := by
  cases hpack : B.cfg.dPackedOutput with
  | true =>
    obtain ⟨hx₁, hy₁⟩ := h₁.packed hpack
    obtain ⟨hx₂, hy₂⟩ := h₂.packed hpack
    obtain ⟨hx₁', hy₁'⟩ := h₁'.packed hpack
    obtain ⟨hx₂', hy₂'⟩ := h₂'.packed hpack
    refine ⟨hx₁.comm hne hx₂ hx₁' hx₂', ?_⟩
    rw [hy₂, hy₁, hy₂', hy₁']
  | false =>
    obtain ⟨hx₁, hy₁⟩ := h₁.unpacked hpack
    obtain ⟨hx₂, hy₂⟩ := h₂.unpacked hpack
    obtain ⟨hx₁', hy₁'⟩ := h₁'.unpacked hpack
    obtain ⟨hx₂', hy₂'⟩ := h₂'.unpacked hpack
    exact ⟨hx₁.comm hne hx₂ hx₁' hx₂', hy₁.comm hne hy₂ hy₁' hy₂'⟩

/-- Two copies in either order give the same state, up to the record of the copies. -/
theorem comm : v₂ = { v₂' with copied := v₂.copied } := by
  obtain ⟨hx, hy⟩ := buffers_comm hne h₁ h₂ h₁' h₂'
  rw [h₂.rest, h₁.rest, h₂'.rest, h₁'.rest]
  simp only [hx, hy]

end Commute

end CornerTurned

/-- **Corner turn of one packet.** The copy of a packet in range fills the cells of its samples
and leaves the others, and copies of packets with disjoint channels commute. -/
theorem copy_turns (p : B.FullPacket) {hdr : SnapHeader}
    (hs : B.cfg.dStartingChannel ≤ hdr.channelId)
    (he : hdr.channelId ≤ B.cfg.dEndingChannelPacketChannelId) {v : VoltState}
    (hv : B.HasBuffers v) :
    (∃ v', copyVoltDataToVectorBuffer B.cfg p.localBuffer hdr v = .ok v' ∧
      B.CornerTurned p hdr v v') ∧
    ∀ (q : B.FullPacket) (hdr' : SnapHeader), B.cfg.dStartingChannel ≤ hdr'.channelId →
      hdr'.channelId ≤ B.cfg.dEndingChannelPacketChannelId → ChannelsDisjoint hdr hdr' →
      ∃ v₁ v₂,
        copyVoltDataToVectorBuffer B.cfg p.localBuffer hdr v >>=
          copyVoltDataToVectorBuffer B.cfg q.localBuffer hdr' = .ok v₁ ∧
        copyVoltDataToVectorBuffer B.cfg q.localBuffer hdr' v >>=
          copyVoltDataToVectorBuffer B.cfg p.localBuffer hdr = .ok v₂ ∧
        v₁ = { v₂ with copied := v₁.copied } := by
  refine ⟨exists_cornerTurned hs he p hv, fun q hdr' hs' he' hdisjoint => ?_⟩
  obtain ⟨v₁, hv₁, h₁⟩ := exists_cornerTurned hs he p hv
  obtain ⟨v₂, hv₂, h₂⟩ := exists_cornerTurned hs' he' q (h₁.hasBuffers hv)
  obtain ⟨v₁', hv₁', h₁'⟩ := exists_cornerTurned hs' he' q hv
  obtain ⟨v₂', hv₂', h₂'⟩ := exists_cornerTurned hs he p (h₁'.hasBuffers hv)
  refine ⟨v₂, v₂', ?_, ?_, CornerTurned.comm (cellOf_ne hs he hs' he' hdisjoint) h₁ h₂ h₁' h₂'⟩
  · rw [hv₁, ok_bind, hv₂]
  · rw [hv₁', ok_bind, hv₂']

/-- The buffers that `start` allocates. -/
theorem startVolt_hasBuffers (B : VoltageBlock) : B.HasBuffers (startVolt B.cfg) := by
  have hsize := B.vectorBufferSize_eq
  refine ⟨?_, fun hpack => ?_⟩
  · change ((B.cfg.vectorBufferSize.toNat : ℕ) : ℤ) = _
    omega
  · change ((if B.cfg.dPackedOutput then 0 else B.cfg.vectorBufferSize.toNat : ℕ) : ℤ) = _
    rw [hpack, if_neg Bool.false_ne_true]
    omega

/-- A packet with the same byte in each sample. -/
def FullPacket.ofByte (B : VoltageBlock) (b : UInt8) : B.FullPacket where
  header := List.replicate B.cfg.dHeaderSize 0
  payload := List.replicate 8192 b
  header_length := List.length_replicate
  payload_length := List.length_replicate

/-- The packets of both halves of a frame, in unpacked mode. -/
theorem copy_turns_two_halves :
    let B := ofWidth 2 width_two_pos width_two_le false
    let p := FullPacket.ofByte B 0x2F
    let q := FullPacket.ofByte B 0x71
    let hdr : SnapHeader := ⟨0, 0, 16, 2, 0⟩
    let hdr' : SnapHeader := ⟨0, 256, 16, 2, 0⟩
    (∃ v', copyVoltDataToVectorBuffer B.cfg p.localBuffer hdr (startVolt B.cfg) = .ok v' ∧
      B.CornerTurned p hdr (startVolt B.cfg) v') ∧
    ∃ v₁ v₂,
      copyVoltDataToVectorBuffer B.cfg p.localBuffer hdr (startVolt B.cfg) >>=
        copyVoltDataToVectorBuffer B.cfg q.localBuffer hdr' = .ok v₁ ∧
      copyVoltDataToVectorBuffer B.cfg q.localBuffer hdr' (startVolt B.cfg) >>=
        copyVoltDataToVectorBuffer B.cfg p.localBuffer hdr = .ok v₂ ∧
      v₁ = { v₂ with copied := v₁.copied } := by
  intro B p q hdr hdr'
  have hs : B.cfg.dStartingChannel ≤ hdr.channelId := Nat.zero_le _
  have he : hdr.channelId ≤ B.cfg.dEndingChannelPacketChannelId := Nat.zero_le _
  obtain ⟨hcopy, hcomm⟩ := copy_turns p hs he (startVolt_hasBuffers B)
  exact ⟨hcopy, hcomm q hdr' (Nat.zero_le _) (Nat.le_refl 256) (Or.inl (Nat.le_refl 256))⟩

end VoltageBlock

end GrAta
