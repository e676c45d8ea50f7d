import GrAta.Snap.Encoding
import Mathlib.Data.Set.Basic

/-!
# The two decoders of the voltage header

The capture tool `read_voltage_pcap_v2.py` decodes the same 16 header bytes as
`get_voltage_header` does. The tool reads every field as wide as it is on the wire. The
antenna field has two bytes there and one in `snap_header`.

## Main definitions

- `readPcapHeader`: the fields that the tool extracts
- `PcapHeader.snapFields`: these fields under the names of the source block
- `DecodersAgree`: both overloads of `get_voltage_header` extract the same fields

## Main results

- `decodersAgree_iff`: the headers on which the decoders agree and are injective
-/

namespace GrAta

/-- A slice `bytes[start:stop]`. -/
def slice (bytes : Packet) (start stop : ℕ) : Packet := (bytes.take stop).drop start

/-- The integer that `np.ndarray` reads from a buffer with a big-endian type of its size. -/
def readBigEndian (buffer : Packet) : ℕ := buffer.foldl (fun n b => 256 * n + b.toNat) 0

/-- The fields of the v2 header. -/
structure PcapHeader where
  fwVersion : ℕ
  type : ℕ
  nChans : ℕ
  channel : ℕ
  antenna : ℕ
  sampleNumber : ℕ
  deriving DecidableEq, Repr

def headerLen : ℕ := 16

/-- The header decoding of the tool. -/
def readPcapHeader (bytes : Packet) : PcapHeader :=
  let headerBytes := slice bytes 0 headerLen
  { fwVersion := (headerBytes.getD 0 0).toNat
    type := (headerBytes.getD 1 0).toNat
    nChans := readBigEndian (slice headerBytes 2 4)
    channel := readBigEndian (slice headerBytes 4 6)
    antenna := readBigEndian (slice headerBytes 6 8)
    sampleNumber := readBigEndian (slice headerBytes 8 16) }

/-- The fields under the names of the source block, which does not keep the number of
channels. -/
def PcapHeader.snapFields (h : PcapHeader) : SnapHeader where
  antennaId := h.antenna
  channelId := h.channel
  sampleNumber := h.sampleNumber
  firmwareVersion := h.fwVersion
  type := h.type

/-- The overload of `get_voltage_header` that reads the packet in the local buffer. -/
def getLocalVoltageHeader (localBuffer : Packet) : SnapHeader where
  antennaId := be16toh (pointer localBuffer) 6 % 2 ^ 8
  channelId := be16toh (pointer localBuffer) 4
  sampleNumber := be64toh (pointer localBuffer) 8
  firmwareVersion := (pointer localBuffer 0).toNat
  type := (pointer localBuffer 1).toNat

/-- The overloads differ only in where the header is. -/
theorem getLocalVoltageHeader_eq (localBuffer : Packet) :
    getLocalVoltageHeader localBuffer = getVoltageHeader (pointer localBuffer) := rfl

/-- Both overloads of `get_voltage_header` extract the fields of the tool. -/
structure DecodersAgree (bytes : Packet) : Prop where
  pointer_overload : getVoltageHeader (pointer bytes) = (readPcapHeader bytes).snapFields
  local_overload : getLocalVoltageHeader bytes = (readPcapHeader bytes).snapFields

/-- A big-endian slice is the number at its address. -/
theorem readBigEndian_slice {bytes : Packet} (start n : ℕ) (h : start + n ≤ bytes.length) :
    readBigEndian (slice bytes start (start + n)) = beToHost (pointer bytes) start n := by
  induction n with
  | zero => rw [slice, Nat.add_zero, List.drop_take_self, readBigEndian, beToHost, List.foldl_nil]
  | succ n ih =>
    have hlt : start + n < bytes.length := by omega
    have hslice : slice bytes start (start + (n + 1)) =
        slice bytes start (start + n) ++ [bytes[start + n]] := by
      rw [slice, ← Nat.add_assoc, List.take_add_one, List.getElem?_eq_getElem hlt,
        List.drop_append_of_le_length (by rw [List.length_take]; omega)]
      rfl
    have hbyte : pointer bytes (start + n) = bytes[start + n] := List.getD_eq_getElem _ _ hlt
    rw [hslice, readBigEndian, List.foldl_append, ← readBigEndian, ih (by omega), beToHost, hbyte]
    rfl

/-- What the tool reads from a whole header. -/
theorem readPcapHeader_eq {bytes : Packet} (h : 16 ≤ bytes.length) :
    readPcapHeader bytes =
      ⟨(pointer bytes 0).toNat, (pointer bytes 1).toNat, be16toh (pointer bytes) 2,
        be16toh (pointer bytes) 4, be16toh (pointer bytes) 6, be64toh (pointer bytes) 8⟩ := by
  have hlength : (slice bytes 0 headerLen).length = 16 := by
    rw [slice, List.drop_zero, List.length_take, headerLen]
    omega
  have hbyte {k : ℕ} (hk : k < 16) : pointer (slice bytes 0 headerLen) k = pointer bytes k := by
    rw [pointer, pointer, slice, List.drop_zero, List.getD_eq_getElem?_getD,
      List.getElem?_take_of_lt (show k < headerLen from hk), List.getD_eq_getElem?_getD]
  have hfield (start n : ℕ) (hn : start + n ≤ 16) :
      readBigEndian (slice (slice bytes 0 headerLen) start (start + n)) =
        beToHost (pointer bytes) start n := by
    rw [readBigEndian_slice start n (by omega)]
    exact beToHost_congr fun k hk => hbyte (by omega)
  have h0 := hbyte (show 0 < 16 by decide)
  have h1 := hbyte (show 1 < 16 by decide)
  rw [pointer] at h0 h1
  rw [readPcapHeader]
  simp only [h0, h1, hfield 2 2 (by decide), hfield 4 2 (by decide), hfield 6 2 (by decide),
    hfield 8 8 (by decide), be16toh, be64toh]

/-- `get_voltage_header` keeps one byte of the antenna and the other fields as they are. -/
theorem getVoltageHeader_eq {bytes : Packet} (h : 16 ≤ bytes.length) :
    getVoltageHeader (pointer bytes) =
      { (readPcapHeader bytes).snapFields with
        antennaId := (readPcapHeader bytes).antenna % 2 ^ 8 } := by
  rw [readPcapHeader_eq h]
  rfl

theorem decodersAgree_single_iff {bytes : Packet} (h : 16 ≤ bytes.length) :
    DecodersAgree bytes ↔ (readPcapHeader bytes).antenna < 256 := by
  have hvoltage := getVoltageHeader_eq h
  constructor
  · intro hagree
    have hantenna := congrArg SnapHeader.antennaId (hvoltage.symm.trans hagree.pointer_overload)
    change (readPcapHeader bytes).antenna % 2 ^ 8 = (readPcapHeader bytes).antenna at hantenna
    omega
  · intro hsmall
    have hfields : getVoltageHeader (pointer bytes) = (readPcapHeader bytes).snapFields := by
      rw [hvoltage, Nat.mod_eq_of_lt (by omega)]
      rfl
    exact ⟨hfields, hfields⟩

/-- **Where the decoders agree.** On a class of packets the two decoders extract the same
fields, and packets whose fields differ are told apart by `get_voltage_header`, if and only
if the antenna of every packet fits in a byte. -/
theorem decodersAgree_iff {packets : Set Packet} (h : ∀ bytes ∈ packets, 16 ≤ bytes.length) :
    ((∀ bytes ∈ packets, DecodersAgree bytes) ∧
        ∀ bytes ∈ packets, ∀ bytes' ∈ packets,
          (readPcapHeader bytes).snapFields ≠ (readPcapHeader bytes').snapFields →
          getVoltageHeader (pointer bytes) ≠ getVoltageHeader (pointer bytes')) ↔
      ∀ bytes ∈ packets, (readPcapHeader bytes).antenna < 256 := by
  constructor
  · rintro ⟨hagree, -⟩ bytes hbytes
    exact (decodersAgree_single_iff (h bytes hbytes)).mp (hagree bytes hbytes)
  · intro hsmall
    have hagree : ∀ bytes ∈ packets, DecodersAgree bytes := fun bytes hbytes =>
      (decodersAgree_single_iff (h bytes hbytes)).mpr (hsmall bytes hbytes)
    refine ⟨hagree, fun bytes hbytes bytes' hbytes' hne => ?_⟩
    rwa [(hagree bytes hbytes).pointer_overload, (hagree bytes' hbytes').pointer_overload]

/-- A packet of antenna 5. -/
theorem decodersAgree_iff_five : DecodersAgree (voltagePacket ⟨5, 256, 16, 2, 0⟩ 256 []) := by
  have hlength : ∀ bytes ∈ ({voltagePacket ⟨5, 256, 16, 2, 0⟩ 256 []} : Set Packet),
      16 ≤ bytes.length := by
    intro bytes hbytes
    rw [Set.mem_singleton_iff.mp hbytes, voltagePacket_length]
    exact Nat.le_add_right _ _
  have hantenna : ∀ bytes ∈ ({voltagePacket ⟨5, 256, 16, 2, 0⟩ 256 []} : Set Packet),
      (readPcapHeader bytes).antenna < 256 := by
    intro bytes hbytes
    rw [Set.mem_singleton_iff.mp hbytes]
    decide
  exact ((decodersAgree_iff hlength).mpr hantenna).1 _ (Set.mem_singleton _)

/-- Antennas 1 and 257 have one `snap_header`, and it is not what the tool reads for the
second. -/
theorem antennas_confused :
    let first := voltagePacket ⟨1, 256, 16, 2, 0⟩ 256 []
    let second := voltagePacket ⟨257, 256, 16, 2, 0⟩ 256 []
    first.length = 16 ∧ second.length = 16 ∧ ¬DecodersAgree second ∧
      (readPcapHeader first).snapFields ≠ (readPcapHeader second).snapFields ∧
      getVoltageHeader (pointer first) = getVoltageHeader (pointer second) := by
  refine ⟨by decide, by decide, fun h => ?_, by decide, by decide⟩
  exact absurd h.pointer_overload (by decide)

end GrAta
