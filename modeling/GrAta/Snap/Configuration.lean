import GrAta.Snap.Headers
import Mathlib.Data.Int.Basic
import Mathlib.Tactic.Linarith

/-!
# Constructing a SNAP source

The constructor of the source block checks its arguments and derives the sizes
that the receive and work functions index with. Channel numbers are kept in 16
bits, sizes in `size_t` and `int`, and the conversions are those of the source.

## Main definitions

- `Args`: the constructor arguments, with the environment it consults
- `Config`: the members that the constructor fixes
- `construct`: the constructor, or the text of the error it raises
- `VoltageBlock`: a constructed voltage block with at least one packet a frame
-/

namespace GrAta

def DS_NETWORK : ℕ := 1
def DS_MCAST : ℕ := 2
def DS_PCAP : ℕ := 3

/-- The longest run of lost frames that is filled with zeros. -/
def MAX_MISSED_SETS : ℕ := 20000

/-- Conversion of an `int` to `uint16_t`. -/
def toUint16 (x : ℤ) : ℕ := (x % 2 ^ 16).toNat

/-- Conversion of an `int` to `size_t`. -/
def toSizeT (x : ℤ) : ℕ := (x % 2 ^ 64).toNat

/-- Conversion of a wider integer to `int`. -/
def toInt32 (x : ℤ) : ℤ := Int.bmod x (2 ^ 32)

structure Args where
  port : ℤ
  headerType : ℕ
  notifyMissed : Bool
  startingChannel : ℤ
  endingChannel : ℤ
  dataSource : ℕ
  file : String
  /-- Whether `fopen` can open `file`. -/
  fileOpens : Bool
  repeatFile : Bool
  packedOutput : Bool
  sendStartMsg : Bool
  deriving DecidableEq, Repr

/-- What the members that no arm of the constructor assigns hold afterwards, and
the bytes of a fresh `float` allocation. -/
structure Unset where
  bOnePacket : Bool
  packetsPerFrame : ℤ
  heap : ℕ → UInt32

structure Config where
  dHeaderType : ℕ
  dHeaderSize : ℕ
  dPayloadsize : ℕ
  totalPacketSize : ℕ
  dStartingChannel : ℕ
  dEndingChannel : ℕ
  dEndingChannelPacketChannelId : ℕ
  dChannelDiff : ℤ
  bOnePacket : Bool
  channelsPerPacket : ℤ
  packetsPerFrame : ℤ
  dVeclen : ℕ
  vectorBufferSize : ℤ
  dPackedOutput : Bool
  dUsePcap : Bool
  dRepeatFile : Bool
  dSendStartMsg : Bool
  dNotifyMissed : Bool
  dPort : ℤ
  /-- The item size declared in the output `io_signature`. -/
  itemSize : ℤ
  deriving DecidableEq, Repr

/-- The factory `make` picks the size of the stream type. -/
def dataSize (headerType : ℕ) : ℤ := if headerType = SNAP_PACKETTYPE_VOLTAGE then 1 else 4

/-- The item size handed to `gr::io_signature::make`. -/
def declaredItemSize (a : Args) : ℤ :=
  let channels := a.endingChannel - a.startingChannel + 1
  if a.headerType = SNAP_PACKETTYPE_VOLTAGE then dataSize a.headerType * channels * 2
  else dataSize a.headerType * channels

/-- The voltage arm of the format switch. The remainder is that of C++, negative
for a negative number of channels, and such a number passes the check. -/
def voltageFormat (a : Args) : Except String Config :=
  let startingChannel := toUint16 a.startingChannel
  let endingChannel := toUint16 a.endingChannel
  let channelDiff : ℤ := (endingChannel : ℤ) - startingChannel + 1
  if channelDiff.tmod 256 > 0 then
    .error "Channels must represent a 256 boundary (end_channel - start_channel + 1) % 256 must be zero."
  else
    let veclen := toSizeT (channelDiff * 2)
    .ok
      { dHeaderType := a.headerType
        dHeaderSize := 16
        dPayloadsize := 8192
        totalPacketSize := 8192 + 16
        dStartingChannel := startingChannel
        dEndingChannel := endingChannel
        dEndingChannelPacketChannelId := toUint16 (a.endingChannel - 255)
        dChannelDiff := channelDiff
        bOnePacket := decide (channelDiff ≤ 256)
        channelsPerPacket := 256
        packetsPerFrame := channelDiff.tdiv 256
        dVeclen := veclen
        vectorBufferSize := toInt32 (veclen * 16 : ℕ)
        dPackedOutput := a.packedOutput
        dUsePcap := a.dataSource = DS_PCAP
        dRepeatFile := a.repeatFile
        dSendStartMsg := a.sendStartMsg
        dNotifyMissed := a.notifyMissed
        dPort := a.port
        itemSize := declaredItemSize a }

/-- The spectrometer arm: neither `b_one_packet` nor `packets_per_frame` is
assigned. -/
def spectFormat (a : Args) (u : Unset) : Config where
  dHeaderType := a.headerType
  dHeaderSize := 8
  dPayloadsize := 512 * 4 * 4
  totalPacketSize := 8200
  dStartingChannel := 0
  dEndingChannel := 4096
  dEndingChannelPacketChannelId := 3584
  dChannelDiff := 4096
  bOnePacket := u.bOnePacket
  channelsPerPacket := 512
  packetsPerFrame := u.packetsPerFrame
  dVeclen := 4096
  vectorBufferSize := 4096 * 4
  dPackedOutput := a.packedOutput
  dUsePcap := a.dataSource = DS_PCAP
  dRepeatFile := a.repeatFile
  dSendStartMsg := a.sendStartMsg
  dNotifyMissed := a.notifyMissed
  dPort := a.port
  itemSize := declaredItemSize a

/-- The constructor, or the text of the error that keeps it from returning. -/
def construct (a : Args) (u : Unset) : Except String Config :=
  if declaredItemSize a < 1 then .error "io_signature: invalid item size"
  else if a.dataSource = DS_PCAP ∧ a.file.length = 0 then
    .error "[SNAP Source] No PCAP file name provided.  Please provide a filename."
  else if a.dataSource = DS_PCAP ∧ a.fileOpens = false then
    .error "[SNAP Source] can't open pcap file"
  else if a.headerType = SNAP_PACKETTYPE_VOLTAGE then voltageFormat a
  else if a.headerType = SNAP_PACKETTYPE_SPECT then .ok (spectFormat a u)
  else .error "Unknown source data format."

/-- A voltage block is constructed by the voltage arm. -/
theorem construct_voltage {a : Args} {u : Unset} {c : Config} (h : construct a u = .ok c)
    (hv : a.headerType = SNAP_PACKETTYPE_VOLTAGE) :
    1 ≤ declaredItemSize a ∧ voltageFormat a = .ok c := by
  unfold construct at h
  split at h
  · cases h
  · rename_i hsize
    refine ⟨by omega, ?_⟩
    split at h
    · cases h
    · split at h
      · cases h
      · exact h

/-- A constructed voltage block whose frames have at least one packet. -/
structure VoltageBlock where
  args : Args
  unset : Unset
  cfg : Config
  constructed : construct args unset = .ok cfg
  isVoltage : args.headerType = SNAP_PACKETTYPE_VOLTAGE
  one_le_packetsPerFrame : 1 ≤ cfg.packetsPerFrame

namespace VoltageBlock

variable (B : VoltageBlock)

/-- The number of packets that make up a frame. -/
def packets : ℕ := B.cfg.packetsPerFrame.toNat

/-- The first channel of the block. -/
def firstChannel : ℕ := B.cfg.dStartingChannel

theorem format_eq : voltageFormat B.args = .ok B.cfg :=
  (construct_voltage B.constructed B.isVoltage).2

/-- Everything the work function indexes with, in terms of the first channel and
the number of packets a frame. -/
theorem cfg_spec :
    1 ≤ B.packets ∧ B.firstChannel + 256 * B.packets ≤ 65536 ∧
    B.cfg.dHeaderSize = 16 ∧ B.cfg.totalPacketSize = 8208 ∧
    B.cfg.dEndingChannelPacketChannelId + 256 = B.firstChannel + 256 * B.packets ∧
    B.cfg.packetsPerFrame = B.packets ∧
    B.cfg.dVeclen = 512 * B.packets ∧ B.cfg.vectorBufferSize = 8192 * B.packets ∧
    B.cfg.bOnePacket = decide (B.packets = 1) ∧ B.cfg.dPackedOutput = B.args.packedOutput ∧
    B.cfg.dHeaderType = SNAP_PACKETTYPE_VOLTAGE := by
  have hf := B.format_eq
  have hp := B.one_le_packetsPerFrame
  rw [voltageFormat] at hf
  simp only at hf
  split at hf
  · cases hf
  · rename_i hmod
    have hc := (Except.ok.inj hf).symm
    have hs : toUint16 B.args.startingChannel < 65536 := by unfold toUint16; omega
    have he : toUint16 B.args.endingChannel < 65536 := by unfold toUint16; omega
    -- the end is at or above 255, so that the last packet starts 255 channels below it
    have hlast : 255 ≤ toUint16 B.args.endingChannel →
        toUint16 (B.args.endingChannel - 255) = toUint16 B.args.endingChannel - 255 := by
      unfold toUint16
      omega
    simp only [packets, firstChannel, hc] at hp hmod ⊢
    generalize toUint16 B.args.startingChannel = first at *
    generalize toUint16 B.args.endingChannel = last at *
    generalize hd : (last : ℤ) - (first : ℤ) + 1 = d at hp hmod ⊢
    have hd0 : 0 ≤ d := by
      by_contra hneg
      have := Int.tdiv_le_tdiv (show (0 : ℤ) < 256 by omega) (show d ≤ 0 by omega)
      rw [Int.zero_tdiv] at this
      omega
    rw [Int.tmod_eq_emod_of_nonneg hd0] at hmod
    rw [Int.tdiv_eq_ediv_of_nonneg hd0] at hp ⊢
    obtain ⟨n, hn⟩ : ∃ n : ℕ, d = 256 * n := ⟨(d / 256).toNat, by omega⟩
    have hdiv : d / 256 = n := by omega
    have hvec : toSizeT (d * 2) = 512 * n := by unfold toSizeT; omega
    rw [hdiv, hvec, hlast (by omega), Int.toNat_natCast]
    refine ⟨by omega, by omega, trivial, trivial, by omega, rfl, rfl, ?_, ?_, trivial,
      B.isVoltage⟩
    · unfold toInt32
      rw [Int.bmod_eq_of_le] <;> push_cast <;> omega
    · exact decide_eq_decide.mpr (by omega)

theorem one_le_packets : 1 ≤ B.packets := B.cfg_spec.1

theorem dHeaderSize_eq : B.cfg.dHeaderSize = 16 := B.cfg_spec.2.2.1

theorem packetsPerFrame_eq : B.cfg.packetsPerFrame = B.packets := B.cfg_spec.2.2.2.2.2.1

theorem dVeclen_eq : B.cfg.dVeclen = 512 * B.packets := B.cfg_spec.2.2.2.2.2.2.1

theorem vectorBufferSize_eq : B.cfg.vectorBufferSize = 8192 * B.packets :=
  B.cfg_spec.2.2.2.2.2.2.2.1

theorem bOnePacket_eq : B.cfg.bOnePacket = decide (B.packets = 1) :=
  B.cfg_spec.2.2.2.2.2.2.2.2.1

theorem dHeaderType_eq : B.cfg.dHeaderType = SNAP_PACKETTYPE_VOLTAGE :=
  B.cfg_spec.2.2.2.2.2.2.2.2.2.2

/-- The last packet of a frame starts 256 channels before the end. -/
theorem lastChannel_eq :
    B.cfg.dEndingChannelPacketChannelId + 256 = B.firstChannel + 256 * B.packets :=
  B.cfg_spec.2.2.2.2.1

/-- The packets that the receive side is supposed to let through. -/
def InRange (p : Packet) : Prop :=
  B.cfg.dStartingChannel ≤ voltageChan (pointer p) ∧
    voltageChan (pointer p) ≤ B.cfg.dEndingChannelPacketChannelId

instance (p : Packet) : Decidable (B.InRange p) := inferInstanceAs (Decidable (_ ∧ _))

end VoltageBlock

end GrAta
