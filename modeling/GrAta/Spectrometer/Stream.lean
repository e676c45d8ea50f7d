import GrAta.Snap.Dispatch
import GrAta.Snap.Encoding
import GrAta.Voltage.Schedule

/-!
# Spectrometer streams

The traffic of the spectrometer mode, and schedules of its work function. A frame is sent
as eight packets of 512 channels each, in ascending order, with one sequence number. The
network loses some of them.

## Main definitions

- `SpectBlock`: a constructed spectrometer block
- `SpectStream`: frames as they are sent, and the positions of the packets received
- `SpectBlock.run`: a schedule on a block, with the sequence number of each output item
- `spectPacket`: a packet with given header fields

## Main results

- `spectNumber_spectPacket`, `spectChannel_spectPacket`: the header round trip
- `spectLoop_takes`: the packet loop takes some packets and processes them one by one
-/

namespace GrAta

/-- What the constructor makes of arguments for spectrometer packets. -/
structure SpectBlock where
  args : Args
  unset : Unset
  constructed : construct args unset = .ok (spectFormat args unset)
  isSpect : args.headerType = SNAP_PACKETTYPE_SPECT

def SpectBlock.cfg (B : SpectBlock) : Config := spectFormat B.args B.unset

/-- The sequence number of a packet. -/
def spectNumber (p : Packet) : ℕ := (getSpectHeader noHeader (pointer p)).sampleNumber

/-- The first channel of a packet. -/
def spectChannel (p : Packet) : ℕ := (getSpectHeader noHeader (pointer p)).channelId

/-- What a SNAP sends, and what is received of it. Position `k` is packet `k % 8` of frame
`k / 8`. Any packets may be lost, but the first one received starts a frame. -/
structure SpectStream where
  frames : ℕ
  number : ℕ → ℕ
  packet : ℕ → Packet
  number_packet : ∀ k < 8 * frames, spectNumber (packet k) = number (k / 8)
  channel_packet : ∀ k < 8 * frames, spectChannel (packet k) = 512 * (k % 8)
  number_injective : ∀ i < frames, ∀ j < frames, number i = number j → i = j
  received : List ℕ
  received_lt : ∀ k ∈ received, k < 8 * frames
  inOrder : received.Pairwise (· < ·)
  synchronized : ∀ k ∈ received.head?, k % 8 = 0

/-- The packets received, in order. -/
def SpectStream.packets (S : SpectStream) : List Packet := S.received.map S.packet

-- ════════════════════════════════════════════════════════════════════════
-- Schedules
-- ════════════════════════════════════════════════════════════════════════

/-- A call, with the number of connected ports. -/
structure SpectCall extends Call where
  ports : ℕ
  liveWork : Bool

/-- An output item with the sequence number that leaves its queue beside it. -/
structure SpectOutput where
  item : SpectItem
  seqNum : ℕ
  deriving DecidableEq, Repr

/-- A run so far. The outputs are ghost state: a tag shows its number only after a
handshake. -/
structure SpectRun where
  source : SnapSource
  results : List SpectResult
  outputs : List SpectOutput

/-- The queue of the sequence numbers as the packet loop leaves it. -/
def queuedSeqNums (c : Config) (noutputItems : ℕ) (s : SnapSource) : List ℕ :=
  match spectLoop c noutputItems s.recv.dLocalqueue.length
      ({ s.recv with dSendSyncPmt := false }, ⟨s.spect, s.volt.seqNumQueue, 0⟩) with
  | .ok (_, w) => w.seqNumQueue
  | .error _ => []

/-- One call of the work function. -/
def spectCall (c : Config) (w : SpectRun) (call : SpectCall) : Except Fault SpectRun := do
  let volt ← handleMessages w.source.volt call.messages
  let s := { w.source with recv := call.receive w.source.recv, volt := volt }
  let (result, s') ← workSpecMode c call.noutputItems call.ports call.liveWork s
  .ok ⟨s', w.results ++ [result],
    w.outputs ++ result.items.zipWith SpectOutput.mk (queuedSeqNums c call.noutputItems s)⟩

/-- Start a block and run a schedule on it. -/
def SpectBlock.run (B : SpectBlock) (env : Environment) (calls : List SpectCall) :
    Except Fault SpectRun := do
  let s ← start B.cfg B.unset env
  Execution.run (spectCall B.cfg) ⟨s, [], []⟩ calls

/-- All packets of a schedule, in order of arrival. -/
def spectArrivals (calls : List SpectCall) : List Packet := calls.flatMap fun call => call.arrived

-- ════════════════════════════════════════════════════════════════════════
-- The packet loop
-- ════════════════════════════════════════════════════════════════════════

variable {c : Config} {w : SpectWork}

/-- The loop takes the packets at the front of the queue one by one, and stops when there
are no more of them, or when enough spectra are queued. -/
theorem spectLoop_takes (hveclen : c.dVeclen = 4096) (noutputItems : ℕ) {n : ℕ} {r : Receiver}
    (hn : n ≤ r.dLocalqueue.length) (h : w.Spectral) :
    ∃ k w', spectLoop c noutputItems n (r, w) =
        .ok ({ r with dLocalqueue := r.dLocalqueue.drop k }, w') ∧
      Execution.run (processSpectPacket c) w (r.dLocalqueue.take k) = .ok w' ∧
      (k = n ∨ noutputItems ≤ w'.spect.xxVectorQueue.length) := by
  induction n generalizing r w with
  | zero => exact ⟨0, w, rfl, rfl, .inl rfl⟩
  | succ n ih =>
    by_cases hmore : w.spect.xxVectorQueue.length < noutputItems
    · obtain ⟨p, rest, hqueue⟩ := List.exists_cons_of_length_pos (Nat.lt_of_lt_of_le n.succ_pos hn)
      obtain ⟨w', hprocess, hw'⟩ := processSpectPacket_ok hveclen h p
      have hfill : fillLocalBuffer r = .ok (p, { r with dLocalqueue := rest }) := by
        rw [fillLocalBuffer, hqueue]
      rw [hqueue, List.length_cons] at hn
      obtain ⟨k, w'', hloop, hrun, hstop⟩ := ih (r := { r with dLocalqueue := rest })
        (Nat.le_of_succ_le_succ hn) hw'
      refine ⟨k + 1, w'', ?_, ?_, hstop.imp_left (congrArg Nat.succ)⟩
      · rw [spectLoop, if_pos hmore, hfill, ok_bind, hqueue]
        simp only [hprocess, ok_bind, hloop]
        rfl
      · rw [hqueue, List.take_succ_cons, Execution.run_cons_ok hprocess]
        exact hrun
    · refine ⟨0, w, ?_, rfl, .inr (not_lt.mp hmore)⟩
      rw [spectLoop, if_neg hmore]
      rfl

-- ════════════════════════════════════════════════════════════════════════
-- Building packets
-- ════════════════════════════════════════════════════════════════════════

/-- A spectrometer packet, by its place in the frame and the number of the frame. -/
def spectPacket (slot number : ℕ) (payload : List UInt8) : Packet :=
  beBytes (2 ^ 11 * number + 2 ^ 8 * slot) 8 ++ payload

variable {slot number : ℕ} (payload : List UInt8)

theorem be64toh_spectPacket (hslot : slot < 8) (hnumber : number < 2 ^ 45) :
    be64toh (pointer (spectPacket slot number payload)) 0 = 2 ^ 11 * number + 2 ^ 8 * slot :=
  be64toh_wordPacket (by omega) payload

theorem spectChannel_spectPacket (hslot : slot < 8) (hnumber : number < 2 ^ 45) :
    spectChannel (spectPacket slot number payload) = 512 * slot := by
  have hmod : (2 ^ 11 * number + 2 ^ 8 * slot) / 2 ^ 8 &&& 0x07 =
      (2 ^ 11 * number + 2 ^ 8 * slot) / 2 ^ 8 % 8 :=
    Nat.and_two_pow_sub_one_eq_mod _ 3
  change spectChan (be64toh _ 0) = _
  rw [be64toh_spectPacket payload hslot hnumber, spectChan, Nat.shiftRight_eq_div_pow, hmod]
  omega

theorem spectNumber_spectPacket (hslot : slot < 8) (hnumber : number < 2 ^ 45) :
    spectNumber (spectPacket slot number payload) = number := by
  have hmod : (2 ^ 11 * number + 2 ^ 8 * slot) / 2 ^ 11 &&& 0x1fffffffffff =
      (2 ^ 11 * number + 2 ^ 8 * slot) / 2 ^ 11 % 2 ^ 45 :=
    Nat.and_two_pow_sub_one_eq_mod _ 45
  change be64toh _ 0 >>> 11 &&& 0x1fffffffffff = _
  rw [be64toh_spectPacket payload hslot hnumber, Nat.shiftRight_eq_div_pow, hmod]
  omega

/-- A stream with the same data in all packets, whose frames are numbered from zero on. -/
def SpectStream.ofReceived (frames : ℕ) (payload : List UInt8) (received : List ℕ)
    (hframes : frames ≤ 2 ^ 45) (hlt : ∀ k ∈ received, k < 8 * frames)
    (hsorted : received.Pairwise (· < ·)) (hstart : ∀ k ∈ received.head?, k % 8 = 0) :
    SpectStream where
  frames := frames
  number j := j
  packet k := spectPacket (k % 8) (k / 8) payload
  number_packet k hk := spectNumber_spectPacket payload (Nat.mod_lt k (by omega)) (by omega)
  channel_packet k hk := spectChannel_spectPacket payload (Nat.mod_lt k (by omega)) (by omega)
  number_injective _ _ _ _ heq := heq
  received := received
  received_lt := hlt
  inOrder := hsorted
  synchronized := hstart

theorem one_frame_le : 1 ≤ 2 ^ 45 := by decide

/-- A block on the network. -/
def SpectBlock.network : SpectBlock where
  args := spectArgs
  unset := spectUnset
  constructed := construct_spectArgs
  isSpect := rfl

end GrAta
