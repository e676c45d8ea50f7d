import GrAta.Snap.Dispatch
import GrAta.Snap.Encoding

/-!
# Accepted configurations

The constructor checks its arguments once, and the other functions divide by and index
with what it derived from them. A configuration is sound when the derived members agree
with one another and with the item size that was declared to the scheduler.

The check of the channels comes after their conversion to 16 bits, and the spectrometer
arm leaves a member out. So an accepted configuration is sound for a voltage block whose
channels agree in the bits that the conversion drops, and for no other.

## Main definitions

- `Config.Sound`: the derived members agree
- `Config.VoltageMembers`: the members of a voltage block of given width
- `Args.AcceptedSound`: whatever the constructor returns is sound

## Main results

- `acceptedSound_iff`: which accepted configurations are sound
-/

namespace GrAta

namespace Config

variable (c : Config)

/-- The bytes that the work function of the format copies for one item of a port. -/
def bytesPerItem : ℤ :=
  if c.dHeaderType = SNAP_PACKETTYPE_VOLTAGE then c.dVeclen else c.vectorBufferSize

/-- The offsets in bytes that the copy loops of the format derive from a header: a cell of
a voltage buffer is a byte, one of a spectrometer buffer the four bytes of a float. -/
def copyOffsets (hdr : SnapHeader) : List ℤ :=
  if c.dHeaderType = SNAP_PACKETTYPE_VOLTAGE then
    (cellStores c hdr (fun _ _ => 0) (fun _ _ => 0)).map Prod.fst
  else
    (spectStores hdr fun _ => 0).flatMap fun store =>
      (List.range 4).map fun byte => 4 * store.1 + (byte : ℕ)

/-- The derived members agree with one another and with the declared item size. -/
structure Sound : Prop where
  item_size : c.itemSize = c.bytesPerItem
  diff_pos : 0 < c.dChannelDiff
  diff_dvd : c.channelsPerPacket ∣ c.dChannelDiff
  one_le_packets : 1 ≤ c.packetsPerFrame
  packets : c.packetsPerFrame = c.dChannelDiff / c.channelsPerPacket
  ending_packet : (c.dEndingChannelPacketChannelId : ℤ) =
    c.dStartingChannel + (c.packetsPerFrame - 1) * c.channelsPerPacket
  buffer_pos : 0 < c.vectorBufferSize
  covers : ∀ hdr : SnapHeader, c.dStartingChannel ≤ hdr.channelId →
    hdr.channelId ≤ c.dEndingChannelPacketChannelId →
    ∀ offset ∈ c.copyOffsets hdr, 0 ≤ offset ∧ offset < c.vectorBufferSize

end Config

/-- Whatever the constructor returns is sound, and the packets of a frame are what it has
set and not what the memory held before. -/
def Args.AcceptedSound (a : Args) : Prop :=
  ∀ u c, construct a u = .ok c →
    c.Sound ∧ ∀ u' c', construct a u' = .ok c' → c'.packetsPerFrame = c.packetsPerFrame

/-- The members of a voltage block with `n` packets a frame. -/
structure Config.VoltageMembers (c : Config) (n : ℕ) : Prop where
  one_le : 1 ≤ n
  in_range : c.dStartingChannel + 256 * n ≤ 65536
  type : c.dHeaderType = SNAP_PACKETTYPE_VOLTAGE
  item : c.itemSize = 512 * n
  veclen : c.dVeclen = 512 * n
  diff : c.dChannelDiff = 256 * n
  channels : c.channelsPerPacket = 256
  packets : c.packetsPerFrame = n
  ending : c.dEndingChannelPacketChannelId + 256 = c.dStartingChannel + 256 * n
  buffer : c.vectorBufferSize = 8192 * n

/-- What the voltage arm returns, for channels that agree above the low 16 bits. -/
theorem voltageFormat_members {a : Args} {c : Config} (h : voltageFormat a = .ok c)
    (hsize : 1 ≤ declaredItemSize a) (hv : a.headerType = SNAP_PACKETTYPE_VOLTAGE)
    (hblock : a.startingChannel / 65536 = a.endingChannel / 65536) :
    ∃ n, c.VoltageMembers n := by
  have hitem : declaredItemSize a = (a.endingChannel - a.startingChannel + 1) * 2 := by
    rw [declaredItemSize, if_pos hv, dataSize, if_pos hv, one_mul]
  rw [hitem] at hsize
  have hdiff : (toUint16 a.endingChannel : ℤ) - toUint16 a.startingChannel + 1 =
      a.endingChannel - a.startingChannel + 1 := by
    unfold toUint16
    omega
  rw [voltageFormat] at h
  simp only at h
  split at h
  · cases h
  · rename_i hmod
    rw [hdiff, Int.tmod_eq_emod_of_nonneg (by omega)] at hmod
    obtain ⟨n, hn⟩ : ∃ n : ℕ, a.endingChannel - a.startingChannel + 1 = 256 * n :=
      ⟨((a.endingChannel - a.startingChannel + 1) / 256).toNat, by omega⟩
    have hlast : toUint16 (a.endingChannel - 255) + 256 =
        toUint16 a.startingChannel + 256 * n ∧
        toUint16 a.startingChannel + 256 * n ≤ 65536 := by
      unfold toUint16
      omega
    have hvec : toSizeT (512 * (n : ℤ)) = 512 * n := by
      unfold toSizeT
      omega
    obtain rfl := Except.ok.inj h
    have hwidth : (256 * n : ℤ) * 2 = 512 * n := by ring
    have hcount : (256 * (n : ℤ)).tdiv 256 = n := Int.mul_tdiv_cancel_left _ (by omega)
    have hbuffer : toInt32 (512 * n * 16 : ℕ) = 8192 * n := by
      unfold toInt32
      rw [Int.bmod_eq_of_le] <;> push_cast <;> omega
    simp only [hdiff, hn, hwidth, hvec, hitem, hcount, hbuffer]
    exact ⟨n, by omega, hlast.2, hv, rfl, rfl, rfl, rfl, rfl, hlast.1, rfl⟩

namespace Config.VoltageMembers

variable {c : Config} {n : ℕ}

/-- The stores of a packet in the channel range lie in the rows of the frame buffer. -/
theorem cellStores_covered (h : c.VoltageMembers n) {hdr : SnapHeader}
    (hlow : c.dStartingChannel ≤ hdr.channelId)
    (hhigh : hdr.channelId ≤ c.dEndingChannelPacketChannelId) {even odd : ℕ → ℕ → UInt8}
    {store : ℤ × UInt8} (hstore : store ∈ cellStores c hdr even odd) :
    0 ≤ store.1 ∧ store.1 < 8192 * n := by
  have hrange := h.in_range
  have hending := h.ending
  obtain ⟨t, ht, hstore⟩ := List.mem_flatMap.mp hstore
  obtain ⟨sample, hsample, hstore⟩ := List.mem_flatMap.mp hstore
  rw [List.mem_range] at ht hsample
  obtain ⟨k, hk⟩ : ∃ k, hdr.channelId = c.dStartingChannel + k :=
    Nat.exists_eq_add_of_le hlow
  have hrow : t * (512 * n) ≤ 15 * (512 * n) := Nat.mul_le_mul_right _ (by omega)
  generalize hfirst : t * (512 * n) = first at hrow
  have hstart : vectorStart c hdr t = (first + 2 * k : ℕ) := by
    have harg : ((t * c.dVeclen : ℕ) : ℤ) +
        ((hdr.channelId : ℤ) - c.dStartingChannel) * 2 = (first + 2 * k : ℕ) := by
      rw [h.veclen, hfirst, hk]
      push_cast
      ring
    rw [vectorStart, harg, toInt32, Int.bmod_eq_of_le] <;> push_cast <;> omega
  simp only [List.mem_cons, List.not_mem_nil, or_false, hstart] at hstore
  obtain rfl | rfl := hstore
  · exact ⟨by positivity, by push_cast; omega⟩
  · exact ⟨by positivity, by push_cast; omega⟩

theorem sound (h : c.VoltageMembers n) : c.Sound where
  item_size := by
    rw [Config.bytesPerItem, if_pos h.type, h.item, h.veclen]
    push_cast
    rfl
  diff_pos := by
    have hn := h.one_le
    rw [h.diff]
    omega
  diff_dvd := ⟨n, by rw [h.channels, h.diff]⟩
  one_le_packets := by
    have hn := h.one_le
    rw [h.packets]
    omega
  packets := by
    rw [h.packets, h.diff, h.channels]
    omega
  ending_packet := by
    have hending := h.ending
    rw [h.packets, h.channels]
    omega
  buffer_pos := by
    have hn := h.one_le
    rw [h.buffer]
    omega
  covers := by
    intro hdr hlow hhigh offset hoffset
    rw [Config.copyOffsets, if_pos h.type] at hoffset
    obtain ⟨store, hstore, rfl⟩ := List.mem_map.mp hoffset
    rw [h.buffer]
    exact h.cellStores_covered hlow hhigh hstore

end Config.VoltageMembers

/-- The spectrometer arm returns whatever the memory held for the packets of a frame. -/
theorem construct_spect {a : Args} {u : Unset} {c : Config} (h : construct a u = .ok c)
    (hs : a.headerType = SNAP_PACKETTYPE_SPECT) (u' : Unset) :
    construct a u' = .ok (spectFormat a u') := by
  unfold construct at h ⊢
  split at h
  · cases h
  · rename_i hsize
    rw [if_neg hsize]
    split at h
    · cases h
    · rename_i hfile
      rw [if_neg hfile]
      split at h
      · cases h
      · rename_i hopens
        rw [if_neg hopens, if_neg (by rw [hs]; decide), if_pos hs]

theorem not_acceptedSound_of_spect {a : Args} {u : Unset} {c : Config}
    (h : construct a u = .ok c) (hs : a.headerType = SNAP_PACKETTYPE_SPECT) :
    ¬a.AcceptedSound := by
  intro hsound
  have hzero := construct_spect h hs { u with packetsPerFrame := 0 }
  have hpackets := (hsound _ _ hzero).1.one_le_packets
  exact absurd hpackets (show ¬(1 : ℤ) ≤ 0 by decide)

/-- Channels that differ above the low 16 bits give a buffer of another width than was
declared. -/
theorem block_eq_of_sound {a : Args} {c : Config} (h : voltageFormat a = .ok c)
    (hv : a.headerType = SNAP_PACKETTYPE_VOLTAGE) (hsound : c.Sound) :
    a.startingChannel / 65536 = a.endingChannel / 65536 := by
  have hitem := hsound.item_size
  have hpos := hsound.diff_pos
  rw [voltageFormat] at h
  simp only at h
  split at h
  · cases h
  · obtain rfl := Except.ok.inj h
    simp only [Config.bytesPerItem, hv, if_true] at hitem hpos
    rw [declaredItemSize, if_pos hv, dataSize, if_pos hv] at hitem
    unfold toSizeT toUint16 at hitem
    unfold toUint16 at hpos
    omega

/-- **Which accepted configurations are sound.** Those of voltage blocks whose first and
last channel lie in the same block of 65536. -/
theorem acceptedSound_iff {a : Args}
    (hformat : a.headerType = SNAP_PACKETTYPE_VOLTAGE ∨ a.headerType = SNAP_PACKETTYPE_SPECT)
    (haccepted : ∃ u c, construct a u = .ok c) :
    a.AcceptedSound ↔
      a.headerType = SNAP_PACKETTYPE_VOLTAGE ∧
        a.startingChannel / 65536 = a.endingChannel / 65536 := by
  obtain ⟨u, c, hc⟩ := haccepted
  constructor
  · intro hsound
    have hv : a.headerType = SNAP_PACKETTYPE_VOLTAGE :=
      hformat.resolve_right fun hs => not_acceptedSound_of_spect hc hs hsound
    have hf := (construct_voltage hc hv).2
    exact ⟨hv, block_eq_of_sound hf hv (hsound u c hc).1⟩
  · rintro ⟨hv, hblock⟩ u c hc
    obtain ⟨hsize, hf⟩ := construct_voltage hc hv
    obtain ⟨n, hmembers⟩ := voltageFormat_members hf hsize hv hblock
    refine ⟨hmembers.sound, ?_⟩
    intro u' c' hc'
    obtain rfl := Except.ok.inj (hf.symm.trans (construct_voltage hc' hv).2)
    rfl

/-- A block of two packets a frame is accepted, and it is sound. -/
theorem acceptedSound_iff_width_two : (widthArgs 2 true).AcceptedSound :=
  (acceptedSound_iff (Or.inl rfl)
    ⟨noUnset, _, construct_widthArgs width_two_pos width_two_le true⟩).mpr ⟨rfl, by decide⟩

/-- A spectrometer block with its 4096 channels is accepted without a number of packets a
frame. -/
theorem spectArgs_accepted_unsound :
    construct spectArgs spectUnset = .ok (spectFormat spectArgs spectUnset) ∧
      ¬spectArgs.AcceptedSound :=
  ⟨construct_spectArgs, not_acceptedSound_of_spect construct_spectArgs rfl⟩

end GrAta
