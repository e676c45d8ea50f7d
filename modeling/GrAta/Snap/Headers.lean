import Mathlib.Data.List.Basic
import Mathlib.Data.Nat.Bitwise
import Mathlib.Tactic.Common
import Mathlib.Tactic.Ring

/-!
# SNAP packet headers

The two wire formats of a SNAP packet header and their decoders. Memory is read
through a pointer, a function from byte offsets to bytes. A datagram is a list
of bytes, and `pointer` is the address of its first byte.

The voltage header (format 2.0.0) is 16 bytes long: version, type, number of
channels, first channel, antenna and a 64-bit timestamp, the wide fields in
network order. The spectrometer header is one 64-bit word in network order.
-/

namespace GrAta

/-- A pointer into memory: the byte at each offset. -/
abbrev Pointer := ℕ → UInt8

/-- The bytes of one datagram payload, header included. -/
abbrev Packet := List UInt8

/-- The address of the first byte of a packet. -/
def pointer (p : Packet) : Pointer := fun i => p.getD i 0

def SNAP_PACKETTYPE_VOLTAGE : ℕ := 1
def SNAP_PACKETTYPE_SPECT : ℕ := 2

/-- Header fields in host order. The channel is the first one of the packet, the
sample number is the timestamp of the first of its time rows. -/
structure SnapHeader where
  antennaId : ℕ
  channelId : ℕ
  sampleNumber : ℕ
  firmwareVersion : ℕ
  type : ℕ
  deriving DecidableEq, Repr

/-- The big-endian integer in the `n` bytes from offset `start` on. -/
def beToHost (p : Pointer) (start : ℕ) : ℕ → ℕ
  | 0 => 0
  | n + 1 => 256 * beToHost p start n + (p (start + n)).toNat

def be16toh (p : Pointer) (start : ℕ) : ℕ := beToHost p start 2

def be64toh (p : Pointer) (start : ℕ) : ℕ := beToHost p start 8

theorem beToHost_lt (p : Pointer) (start n : ℕ) : beToHost p start n < 256 ^ n := by
  induction n with
  | zero => simp [beToHost]
  | succ n ih =>
    have hb : (p (start + n)).toNat < 256 := (p (start + n)).toNat_lt
    rw [beToHost, pow_succ]
    omega

theorem be16toh_lt (p : Pointer) (start : ℕ) : be16toh p start < 2 ^ 16 := by
  simpa [be16toh] using beToHost_lt p start 2

theorem be64toh_lt (p : Pointer) (start : ℕ) : be64toh p start < 2 ^ 64 := by
  simpa [be64toh] using beToHost_lt p start 8

/-- The integer depends only on the bytes it is made of. -/
theorem beToHost_congr {p q : Pointer} {start n : ℕ}
    (h : ∀ k < n, p (start + k) = q (start + k)) : beToHost p start n = beToHost q start n := by
  induction n with
  | zero => rfl
  | succ n ih =>
    rw [beToHost, beToHost, ih (fun k hk => h k (by omega)), h n (by omega)]

/-- The channel field of a `voltage_header`. -/
def voltageChan (p : Pointer) : ℕ := be16toh p 4

/-- `get_voltage_header`: the antenna field keeps the low byte only. -/
def getVoltageHeader (p : Pointer) : SnapHeader where
  antennaId := be16toh p 6 % 2 ^ 8
  channelId := voltageChan p
  sampleNumber := be64toh p 8
  firmwareVersion := (p 0).toNat
  type := (p 1).toNat

@[simp] theorem getVoltageHeader_channelId (p : Pointer) :
    (getVoltageHeader p).channelId = voltageChan p := rfl

theorem sampleNumber_lt (p : Pointer) : (getVoltageHeader p).sampleNumber < 2 ^ 64 :=
  be64toh_lt p 8

/-- The timestamp of a packet. -/
def timestamp (p : Packet) : ℕ := (getVoltageHeader (pointer p)).sampleNumber

/-- The first channel of a packet. -/
def channel (p : Packet) : ℕ := voltageChan (pointer p)

theorem timestamp_lt (p : Packet) : timestamp p < 2 ^ 64 := sampleNumber_lt _

/-- The channel of a spectrometer header word: the identifier cycles 0 to 7 and
each step is 512 channels. -/
def spectChan (header : ℕ) : ℕ := ((header >>> 8) &&& 0x07) * 512

/-- `get_spect_header`: the `type` field is left as it was. The masks are no wider than the
fields. -/
def getSpectHeader (hdr : SnapHeader) (p : Pointer) : SnapHeader :=
  let header := be64toh p 0
  { antennaId := header &&& 0xff
    channelId := spectChan header
    sampleNumber := (header >>> 11) &&& 0x1fffffffffff
    firmwareVersion := (header >>> 56) &&& 0xff
    type := hdr.type }

/-- `get_spectrometer_header`: the header of the packet in the local buffer, with the
conversions to the widths of the fields. -/
def getSpectrometerHeader (hdr : SnapHeader) (localBuffer : Packet) : SnapHeader :=
  let header := be64toh (pointer localBuffer) 0
  { antennaId := (header &&& 0xff) % 2 ^ 8
    channelId := ((header >>> 8) &&& 0x07) * 512 % 2 ^ 16
    sampleNumber := ((header >>> 11) &&& 0x1fffffffffff) % 2 ^ 64
    firmwareVersion := ((header >>> 56) &&& 0xff) % 2 ^ 8
    type := hdr.type }

/-- The decoded channel is one of the eight block starts `0, 512, ..., 3584`. -/
theorem spectChan_le (header : ℕ) : spectChan header ≤ 3584 := by
  have h : (header >>> 8) &&& 0x07 ≤ 7 := Nat.and_le_right
  rw [spectChan]
  omega

end GrAta
