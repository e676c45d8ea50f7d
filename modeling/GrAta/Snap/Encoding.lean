import GrAta.Snap.Configuration
import Mathlib.Data.List.GetD

/-!
# Building packets and blocks

The sender's side of the voltage format: a packet with a given header, decoded
again by `getVoltageHeader`. Together with a block of given width it provides the
inputs on which properties of the source are instantiated.

## Main definitions

- `voltagePacket`: a voltage packet with the given header fields and payload
- `wordPacket`: a packet whose header is one word
- `VoltageBlock.ofWidth`: a block with a given number of packets a frame
- `VoltageBlock.fromCapture`: the block that reads a capture instead

## Main results

- `getVoltageHeader_voltagePacket`: the header round trip
-/

namespace GrAta

/-- The `k` low bytes of `n` in network order. -/
def beBytes (n : ℕ) : ℕ → List UInt8
  | 0 => []
  | k + 1 => beBytes (n / 256) k ++ [UInt8.ofNat n]

@[simp] theorem beBytes_length (n k : ℕ) : (beBytes n k).length = k := by
  induction k generalizing n with
  | zero => rfl
  | succ k ih => rw [beBytes, List.length_append, ih, List.length_singleton]

/-- Reading the bytes back gives the number, reduced to their width. -/
theorem beToHost_beBytes (pre post : List UInt8) (n k : ℕ) :
    beToHost (pointer (pre ++ beBytes n k ++ post)) pre.length k = n % 256 ^ k := by
  induction k generalizing n post with
  | zero => rw [beToHost, pow_zero, Nat.mod_one]
  | succ k ih =>
    have hlist : pre ++ beBytes n (k + 1) ++ post =
        pre ++ beBytes (n / 256) k ++ (UInt8.ofNat n :: post) := by
      simp [beBytes]
    have hbyte : pointer (pre ++ beBytes (n / 256) k ++ (UInt8.ofNat n :: post))
        (pre.length + k) = UInt8.ofNat n := by
      rw [pointer, List.getD_append_right _ _ _ _ (by simp)]
      simp
    rw [beToHost, hlist, ih, hbyte, UInt8.toNat_ofNat', pow_succ' 256 k, Nat.mod_mul]
    omega

/-- A packet with a given header word. -/
def wordPacket (header : ℕ) (payload : List UInt8) : Packet := beBytes header 8 ++ payload

theorem be64toh_wordPacket {header : ℕ} (h : header < 2 ^ 64) (payload : List UInt8) :
    be64toh (pointer (wordPacket header payload)) 0 = header := by
  have hread := beToHost_beBytes [] payload header 8
  rw [List.nil_append, List.length_nil] at hread
  rw [be64toh, wordPacket, hread]
  exact Nat.mod_eq_of_lt h

/-- A voltage packet with the given header fields. -/
def voltagePacket (hdr : SnapHeader) (nChannels : ℕ) (payload : List UInt8) : Packet :=
  [UInt8.ofNat hdr.firmwareVersion, UInt8.ofNat hdr.type] ++ beBytes nChannels 2 ++
    beBytes hdr.channelId 2 ++ beBytes hdr.antennaId 2 ++ beBytes hdr.sampleNumber 8 ++ payload

variable (hdr : SnapHeader) (nChannels : ℕ) (payload : List UInt8)

theorem voltagePacket_length :
    (voltagePacket hdr nChannels payload).length = 16 + payload.length := by
  simp [voltagePacket]
  omega

theorem voltageChan_voltagePacket :
    voltageChan (pointer (voltagePacket hdr nChannels payload)) = hdr.channelId % 2 ^ 16 := by
  have := beToHost_beBytes ([UInt8.ofNat hdr.firmwareVersion, UInt8.ofNat hdr.type] ++
    beBytes nChannels 2) (beBytes hdr.antennaId 2 ++ beBytes hdr.sampleNumber 8 ++ payload)
    hdr.channelId 2
  simpa [voltageChan, be16toh, voltagePacket] using this

theorem sampleNumber_voltagePacket :
    (getVoltageHeader (pointer (voltagePacket hdr nChannels payload))).sampleNumber =
      hdr.sampleNumber % 2 ^ 64 := by
  have := beToHost_beBytes ([UInt8.ofNat hdr.firmwareVersion, UInt8.ofNat hdr.type] ++
    beBytes nChannels 2 ++ beBytes hdr.channelId 2 ++ beBytes hdr.antennaId 2) payload
    hdr.sampleNumber 8
  simpa [getVoltageHeader, be64toh, voltagePacket] using this

theorem antennaId_voltagePacket :
    (getVoltageHeader (pointer (voltagePacket hdr nChannels payload))).antennaId =
      hdr.antennaId % 2 ^ 8 := by
  have := beToHost_beBytes ([UInt8.ofNat hdr.firmwareVersion, UInt8.ofNat hdr.type] ++
    beBytes nChannels 2 ++ beBytes hdr.channelId 2) (beBytes hdr.sampleNumber 8 ++ payload)
    hdr.antennaId 2
  have hraw : be16toh (pointer (voltagePacket hdr nChannels payload)) 6 =
      hdr.antennaId % 2 ^ 16 := by
    simpa [be16toh, voltagePacket] using this
  simp only [getVoltageHeader, hraw]
  omega

/-- **Header round trip.** A header whose fields fit their widths is decoded as it
was sent; the antenna field is decoded to one byte. -/
theorem getVoltageHeader_voltagePacket (ha : hdr.antennaId < 2 ^ 8)
    (hc : hdr.channelId < 2 ^ 16) (hs : hdr.sampleNumber < 2 ^ 64)
    (hf : hdr.firmwareVersion < 2 ^ 8) (ht : hdr.type < 2 ^ 8) :
    getVoltageHeader (pointer (voltagePacket hdr nChannels payload)) = hdr := by
  have h1 := antennaId_voltagePacket hdr nChannels payload
  have h2 := voltageChan_voltagePacket hdr nChannels payload
  have h3 := sampleNumber_voltagePacket hdr nChannels payload
  have h4 : (getVoltageHeader (pointer (voltagePacket hdr nChannels payload))).firmwareVersion =
      hdr.firmwareVersion := by
    simpa [getVoltageHeader, pointer, voltagePacket] using hf
  have h5 : (getVoltageHeader (pointer (voltagePacket hdr nChannels payload))).type =
      hdr.type := by
    simpa [getVoltageHeader, pointer, voltagePacket] using ht
  rw [Nat.mod_eq_of_lt ha] at h1
  rw [Nat.mod_eq_of_lt hc] at h2
  rw [Nat.mod_eq_of_lt hs] at h3
  cases hdr
  simp only [getVoltageHeader] at *
  simp only [h1, h2, h3, h4, h5]

/-- A full-size packet with zero samples. -/
def plainPacket (chan ts : ℕ) : Packet :=
  voltagePacket ⟨0, chan, ts, 2, 0⟩ 256 (List.replicate 8192 0)

theorem plainPacket_length (chan ts : ℕ) : (plainPacket chan ts).length = 8208 := by
  rw [plainPacket, voltagePacket_length, List.length_replicate]

theorem channel_plainPacket {chan : ℕ} (h : chan < 2 ^ 16) (ts : ℕ) :
    channel (plainPacket chan ts) = chan :=
  (voltageChan_voltagePacket ..).trans (Nat.mod_eq_of_lt h)

theorem timestamp_plainPacket (chan : ℕ) {ts : ℕ} (h : ts < 2 ^ 64) :
    timestamp (plainPacket chan ts) = ts :=
  (sampleNumber_voltagePacket ..).trans (Nat.mod_eq_of_lt h)

-- ════════════════════════════════════════════════════════════════════════
-- Blocks of a given width
-- ════════════════════════════════════════════════════════════════════════

/-- The arguments of a network block with `n` packets a frame, from channel 0 on. -/
def widthArgs (n : ℕ) (packed : Bool) : Args where
  port := 10000
  headerType := SNAP_PACKETTYPE_VOLTAGE
  notifyMissed := false
  startingChannel := 0
  endingChannel := 256 * n - 1
  dataSource := DS_NETWORK
  file := ""
  fileOpens := false
  repeatFile := false
  packedOutput := packed
  sendStartMsg := false

def noUnset : Unset := ⟨false, 0, fun _ => 0⟩

def widthConfig (n : ℕ) (packed : Bool) : Config where
  dHeaderType := SNAP_PACKETTYPE_VOLTAGE
  dHeaderSize := 16
  dPayloadsize := 8192
  totalPacketSize := 8208
  dStartingChannel := 0
  dEndingChannel := 256 * n - 1
  dEndingChannelPacketChannelId := 256 * (n - 1)
  dChannelDiff := 256 * n
  bOnePacket := decide (n ≤ 1)
  channelsPerPacket := 256
  packetsPerFrame := n
  dVeclen := 512 * n
  vectorBufferSize := 8192 * n
  dPackedOutput := packed
  dUsePcap := false
  dRepeatFile := false
  dSendStartMsg := false
  dNotifyMissed := false
  dPort := 10000
  itemSize := 512 * n

theorem construct_widthArgs {n : ℕ} (h1 : 1 ≤ n) (h2 : n ≤ 256) (packed : Bool) :
    construct (widthArgs n packed) noUnset = .ok (widthConfig n packed) := by
  have hlast : toUint16 (256 * (n : ℤ) - 1) = 256 * n - 1 := by unfold toUint16; omega
  have hid : toUint16 (256 * (n : ℤ) - 1 - 255) = 256 * (n - 1) := by unfold toUint16; omega
  have hdiff : ((256 * n - 1 : ℕ) : ℤ) - (0 : ℕ) + 1 = 256 * n := by omega
  have hvec : toSizeT (256 * (n : ℤ) * 2) = 512 * n := by unfold toSizeT; omega
  have hsize : toInt32 (512 * n * 16 : ℕ) = 8192 * n := by
    unfold toInt32
    rw [Int.bmod_eq_of_le] <;> push_cast <;> omega
  have hitem : declaredItemSize (widthArgs n packed) = 512 * n := by
    simp only [declaredItemSize, dataSize, widthArgs, if_true]
    omega
  have hone : decide (256 * (n : ℤ) ≤ 256) = decide (n ≤ 1) := decide_eq_decide.mpr (by omega)
  have hcount : (256 * (n : ℤ)).tdiv 256 = n := Int.mul_tdiv_cancel_left _ (by omega)
  rw [construct, if_neg (by omega), if_neg (by simp [widthArgs, DS_NETWORK, DS_PCAP]),
    if_neg (by simp [widthArgs, DS_NETWORK, DS_PCAP]),
    if_pos (show (widthArgs n packed).headerType = SNAP_PACKETTYPE_VOLTAGE from rfl)]
  rw [voltageFormat, hitem]
  simp only [widthArgs, show toUint16 0 = 0 from rfl, hlast, hid, hdiff, hvec, hsize,
    Int.mul_tmod_right, hone, hcount]
  rw [if_neg (by omega)]
  rfl

/-- A network block with `n` packets a frame, from channel 0 on. -/
def VoltageBlock.ofWidth (n : ℕ) (h1 : 1 ≤ n) (h2 : n ≤ 256) (packed : Bool) : VoltageBlock where
  args := widthArgs n packed
  unset := noUnset
  cfg := widthConfig n packed
  constructed := construct_widthArgs h1 h2 packed
  isVoltage := rfl
  one_le_packetsPerFrame := by
    change (1 : ℤ) ≤ n
    omega

theorem width_two_pos : 1 ≤ 2 := by decide

theorem width_two_le : 2 ≤ 256 := by decide

theorem VoltageBlock.ofWidth_inRange {n s : ℕ} (h1 : 1 ≤ n) (h2 : n ≤ 256) (packed : Bool)
    (hs : s < n) (ts : ℕ) : (ofWidth n h1 h2 packed).InRange (plainPacket (256 * s) ts) := by
  have hc := channel_plainPacket (show 256 * s < 2 ^ 16 by omega) ts
  rw [channel] at hc
  rw [InRange, hc]
  change 0 ≤ 256 * s ∧ 256 * s ≤ 256 * (n - 1)
  omega

/-- The same arguments for a block that reads a capture. -/
def Args.fromCapture (a : Args) : Args :=
  { a with dataSource := DS_PCAP, file := "capture.pcap", fileOpens := true }

theorem voltageFormat_fromCapture (a : Args) :
    voltageFormat a.fromCapture = (voltageFormat a).map fun c => { c with dUsePcap := true } := by
  rw [voltageFormat, voltageFormat]
  simp only [Args.fromCapture, decide_true]
  split_ifs
  · rfl
  · rw [Except.map]
    congr 2

theorem construct_fromCapture {a : Args} {u : Unset} {c : Config} (h : construct a u = .ok c)
    (hv : a.headerType = SNAP_PACKETTYPE_VOLTAGE) :
    construct a.fromCapture u = .ok { c with dUsePcap := true } := by
  obtain ⟨hsize, hformat⟩ := construct_voltage h hv
  have hfile : a.fromCapture.file.length ≠ 0 := by
    change "capture.pcap".length ≠ 0
    decide
  rw [construct, if_neg (show ¬declaredItemSize a.fromCapture < 1 from hsize.not_gt),
    if_neg fun hnone => hfile hnone.2, if_neg fun hclosed => Bool.noConfusion hclosed.2,
    if_pos (show a.fromCapture.headerType = SNAP_PACKETTYPE_VOLTAGE from hv),
    voltageFormat_fromCapture, hformat, Except.map]

/-- The block with the same channels that reads a capture. -/
def VoltageBlock.fromCapture (B : VoltageBlock) : VoltageBlock where
  args := B.args.fromCapture
  unset := B.unset
  cfg := { B.cfg with dUsePcap := true }
  constructed := construct_fromCapture B.constructed B.isVoltage
  isVoltage := B.isVoltage
  one_le_packetsPerFrame := B.one_le_packetsPerFrame

end GrAta
