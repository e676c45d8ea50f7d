import GrAta.Library.BitFields
import GrAta.Snap.Encoding

/-!
# Spectrometer headers

A spectrometer header is one word of four fields: the version, the number of the spectrum, the
eighth of the band and the antenna. The shifts and masks of the two decoders cut it into
fields that cover all of its bits, so that headers and their fields determine each other.

## Main definitions

- `SpectFields`: the fields that a header can have
- `SpectFields.word`: their header

## Main results

- `getSpectrometerHeader_eq`: the decoders agree
- `getSpectHeader_lossless`: nothing is lost, and every field is found in one header
-/

namespace GrAta

/-- The widths of the fields, from the version down to the antenna. -/
def spectWidths : List ℕ := [8, 45, 3, 8]

/-- The fields of a spectrometer header: what their bits can hold. -/
structure SpectFields where
  antennaId : ℕ
  channelId : ℕ
  sampleNumber : ℕ
  firmwareVersion : ℕ
  antennaId_lt : antennaId < 2 ^ 8
  channelId_dvd : 512 ∣ channelId
  channelId_le : channelId ≤ 3584
  sampleNumber_lt : sampleNumber < 2 ^ 45
  firmwareVersion_lt : firmwareVersion < 2 ^ 8

namespace SpectFields

variable (f : SpectFields)

/-- The fields in the order of their bits. -/
def values : List ℕ := [f.firmwareVersion, f.sampleNumber, f.channelId / 512, f.antennaId]

/-- The header word of the fields. -/
def word : ℕ := BitFields.pack spectWidths f.values

/-- The fields as they are decoded, with a `type` field that is left as it was. -/
def header (type : ℕ) : SnapHeader :=
  ⟨f.antennaId, f.channelId, f.sampleNumber, f.firmwareVersion, type⟩

theorem values_fit : BitFields.Fits spectWidths f.values := by
  have hslot : f.channelId / 512 < 2 ^ 3 := by
    have hle := f.channelId_le
    omega
  exact .cons f.firmwareVersion_lt (.cons f.sampleNumber_lt (.cons hslot
    (.cons f.antennaId_lt .nil)))

theorem word_lt : f.word < 2 ^ 64 := BitFields.pack_lt f.values_fit

end SpectFields

/-- The expression that puts the fields of a word together. -/
theorem pack_spectWidths (firmwareVersion sampleNumber slot antennaId : ℕ) :
    BitFields.pack spectWidths [firmwareVersion, sampleNumber, slot, antennaId] =
      (firmwareVersion <<< 56) ||| (sampleNumber <<< 11) ||| (slot <<< 8) ||| antennaId := by
  simp [BitFields.pack, spectWidths, Nat.or_assoc]

/-- The fields that the decoder cuts out. -/
theorem unpack_spectWidths (hdr : SnapHeader) (p : Pointer) :
    BitFields.unpack spectWidths (be64toh p 0) =
      [(getSpectHeader hdr p).firmwareVersion, (getSpectHeader hdr p).sampleNumber,
        (getSpectHeader hdr p).channelId / 512, (getSpectHeader hdr p).antennaId] := by
  have hslot : (getSpectHeader hdr p).channelId / 512 = (be64toh p 0 >>> 8) &&& 0x07 :=
    Nat.mul_div_cancel _ (by decide)
  rw [hslot]
  rfl

theorem getSpectHeader_fits (hdr : SnapHeader) (p : Pointer) :
    (getSpectHeader hdr p).firmwareVersion < 2 ^ 8 ∧
      (getSpectHeader hdr p).sampleNumber < 2 ^ 45 ∧
      (getSpectHeader hdr p).channelId / 512 < 2 ^ 3 ∧
      (getSpectHeader hdr p).antennaId < 2 ^ 8 := by
  have hfits := BitFields.unpack_fits spectWidths (be64toh p 0)
  rw [unpack_spectWidths hdr] at hfits
  simpa [BitFields.Fits, spectWidths] using hfits

/-- The decoders agree, since the fields hold what the masks leave. -/
theorem getSpectrometerHeader_eq (hdr : SnapHeader) (localBuffer : Packet) :
    getSpectrometerHeader hdr localBuffer = getSpectHeader hdr (pointer localBuffer) := by
  obtain ⟨hversion, hnumber, -, hantenna⟩ := getSpectHeader_fits hdr (pointer localBuffer)
  have hchannel : spectChan (be64toh (pointer localBuffer) 0) < 2 ^ 16 :=
    (spectChan_le _).trans_lt (by decide)
  have hnumber' := hnumber.trans (by decide : 2 ^ 45 < 2 ^ 64)
  simp only [getSpectHeader] at hversion hnumber' hantenna
  rw [spectChan] at hchannel
  rw [getSpectrometerHeader, getSpectHeader, spectChan]
  simp only [Nat.mod_eq_of_lt hversion, Nat.mod_eq_of_lt hnumber', Nat.mod_eq_of_lt hantenna,
    Nat.mod_eq_of_lt hchannel]

/-- The fields of a header put together. -/
theorem pack_getSpectHeader (hdr : SnapHeader) (p : Pointer) :
    BitFields.pack spectWidths
      [(getSpectHeader hdr p).firmwareVersion, (getSpectHeader hdr p).sampleNumber,
        (getSpectHeader hdr p).channelId / 512, (getSpectHeader hdr p).antennaId] =
      be64toh p 0 := by
  rw [← unpack_spectWidths hdr p, BitFields.pack_unpack]
  exact Nat.mod_eq_of_lt (be64toh_lt p 0)

theorem getSpectHeader_channelId_dvd (hdr : SnapHeader) (p : Pointer) :
    512 ∣ (getSpectHeader hdr p).channelId := Nat.dvd_mul_left ..

/-- Fields are decoded from their word, and from no other. -/
theorem getSpectHeader_eq_iff (f : SpectFields) (hdr : SnapHeader) (p : Pointer) :
    getSpectHeader hdr p = f.header hdr.type ↔ be64toh p 0 = f.word := by
  constructor
  · intro h
    have hpack := pack_getSpectHeader hdr p
    rw [h] at hpack
    exact hpack.symm
  · intro h
    have hunpack := unpack_spectWidths hdr p
    rw [h, SpectFields.word, BitFields.unpack_pack f.values_fit, SpectFields.values] at hunpack
    obtain ⟨hversion, hunpack⟩ := List.cons.inj hunpack
    obtain ⟨hnumber, hunpack⟩ := List.cons.inj hunpack
    obtain ⟨hslot, hunpack⟩ := List.cons.inj hunpack
    have hantenna := List.head_eq_of_cons_eq hunpack
    have hchannel : f.channelId = (getSpectHeader hdr p).channelId := by
      rw [← Nat.div_mul_cancel f.channelId_dvd, hslot,
        Nat.div_mul_cancel (getSpectHeader_channelId_dvd hdr p)]
    rw [SpectFields.header, hversion, hnumber, hchannel, hantenna]
    rfl

/-- **Spectrometer headers.** Both decoders cut all bits of a header into the same fields, and
all fields that the bits can hold are decoded from one header. -/
theorem getSpectHeader_lossless (a : Args) (u : Unset) :
    (∀ (h : BitVec 64) (payload : List UInt8) (hdr : SnapHeader),
      let fields := getSpectHeader hdr (pointer (wordPacket h.toNat payload))
      getSpectrometerHeader hdr (wordPacket h.toNat payload) = fields ∧
        (fields.firmwareVersion <<< 56) ||| (fields.sampleNumber <<< 11) |||
          ((fields.channelId / 512) <<< 8) ||| fields.antennaId = h.toNat ∧
        512 ∣ fields.channelId ∧
        fields.channelId ≤ (spectFormat a u).dEndingChannelPacketChannelId ∧
        fields.sampleNumber < 2 ^ 45) ∧
      (spectFormat a u).dEndingChannelPacketChannelId = 3584 ∧
      ∀ f : SpectFields, ∃! h : BitVec 64, ∀ (payload : List UInt8) (hdr : SnapHeader),
        getSpectHeader hdr (pointer (wordPacket h.toNat payload)) = f.header hdr.type := by
  refine ⟨fun h payload hdr => ?_, rfl, fun f => ?_⟩
  · have hpack := pack_getSpectHeader hdr (pointer (wordPacket h.toNat payload))
    rw [pack_spectWidths, be64toh_wordPacket h.isLt] at hpack
    exact ⟨getSpectrometerHeader_eq hdr _, hpack, getSpectHeader_channelId_dvd hdr _,
      spectChan_le _, (getSpectHeader_fits hdr _).2.1⟩
  · have hword : (BitVec.ofNat 64 f.word).toNat = f.word := by
      rw [BitVec.toNat_ofNat, Nat.mod_eq_of_lt f.word_lt]
    refine ⟨BitVec.ofNat 64 f.word, fun payload hdr => ?_, fun h hdecoded => ?_⟩
    · rw [getSpectHeader_eq_iff, hword, be64toh_wordPacket f.word_lt]
    · have hsame := (getSpectHeader_eq_iff f _ _).mp (hdecoded [] ⟨0, 0, 0, 0, 0⟩)
      rw [be64toh_wordPacket h.isLt] at hsame
      rw [← hsame, BitVec.ofNat_toNat, BitVec.setWidth_eq]

end GrAta
