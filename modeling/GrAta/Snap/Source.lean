import GrAta.Library.Region
import GrAta.Runtime
import GrAta.Snap.Configuration

/-!
# The state of a SNAP source

The members that the receive thread and the work functions read and write. The
state comes in three groups: the receiving side, the voltage mode and the
spectrometer mode. A function of the source takes the group it works on and
returns it, or reports the fault that keeps it from returning.

Queued vectors carry a record of the frame they were built from. It is ghost
state: the source keeps no such record, and no computed value depends on it.
-/

namespace GrAta

def MMSG_LENGTH : ℕ := 32
def MAX_NET_CIRC_BUFFER : ℕ := 1000000

/-- One record of a capture: the two lengths of the pcap header, and the memory
`pcap_next` points to. Only the first `caplen` bytes belong to the record. -/
structure Record where
  caplen : ℕ
  len : ℕ
  byte : Pointer

/-- Where the vectors of a queued frame come from: the packets that were copied
into the frame buffer, or the timestamp of a frame that was filled with zeros. -/
inductive FrameOrigin where
  | received (packets : List Packet)
  | missed (timestamp : ℕ)
  deriving DecidableEq, Repr

/-- One time row of a frame: the vector that is queued for output, with the
frame and the row it was built from. -/
structure TimeVector where
  data : List UInt8
  origin : FrameOrigin
  row : ℕ
  deriving DecidableEq, Repr

structure Receiver where
  dFoundStartChannel : Bool
  dSendSyncPmt : Bool
  asyncVoltSyncHdr : SnapHeader
  asyncSpectSyncHdr : SnapHeader
  /-- The receive buffers, one for each message of a batch. -/
  bufs : ℕ → Pointer
  /-- The records of the capture that are still to be read. -/
  pcapFile : List Record
  pcapFileDone : Bool
  stopThread : Bool
  dLocalqueue : List Packet

/-- The members of the voltage mode. The sequence numbers and the handshake are
also used by the spectrometer mode. -/
structure VoltState where
  dLastTimestamp : ℕ
  multipacketFramePktCtr : ℤ
  xVectorBuffer : Region UInt8
  yVectorBuffer : Region UInt8
  /-- Ghost: the packets whose samples are in the frame buffers. -/
  copied : List Packet
  xVectorQueue : List TimeVector
  yVectorQueue : List TimeVector
  seqNumQueue : List ℕ
  syncTimestamp : ℕ

/-- The members of the spectrometer mode. A float is kept as its 32 bits. -/
structure SpectState where
  dLastChannelBlock : ℕ
  xxBuffer : Region UInt32
  yyBuffer : Region UInt32
  xyRealBuffer : Region UInt32
  xyImagBuffer : Region UInt32
  xxVectorQueue : List (List UInt32)
  yyVectorQueue : List (List UInt32)
  xyRealVectorQueue : List (List UInt32)
  xyImagVectorQueue : List (List UInt32)

structure SnapSource where
  recv : Receiver
  volt : VoltState
  spect : SpectState

/-- What the receive thread finds when it starts: the capture, and the bytes of
the receive buffers before any datagram. -/
structure Environment where
  capture : List Record
  bufs : ℕ → Pointer

def noHeader : SnapHeader := ⟨0, 0, 0, 0, 0⟩

def initialReceiver (env : Environment) : Receiver where
  dFoundStartChannel := false
  dSendSyncPmt := false
  asyncVoltSyncHdr := noHeader
  asyncSpectSyncHdr := noHeader
  bufs := env.bufs
  pcapFile := env.capture
  pcapFileDone := false
  stopThread := false
  dLocalqueue := []

/-- The voltage members after `start`, with frame buffers of the given sizes. A
pointer that is left null is a block of size zero. -/
def initialVolt (xSize ySize : ℕ) : VoltState where
  dLastTimestamp := 0
  multipacketFramePktCtr := 0
  xVectorBuffer := ⟨xSize, fun _ => 0⟩
  yVectorBuffer := ⟨ySize, fun _ => 0⟩
  copied := []
  xVectorQueue := []
  yVectorQueue := []
  seqNumQueue := []
  syncTimestamp := 0

/-- The spectrometer members after `start`. The constructor stores -1 in the
16-bit `d_last_channel_block`. -/
def initialSpect (size : ℕ) (heap : ℕ → UInt32) : SpectState where
  dLastChannelBlock := toUint16 (-1)
  xxBuffer := ⟨size, heap⟩
  yyBuffer := ⟨size, heap⟩
  xyRealBuffer := ⟨size, heap⟩
  xyImagBuffer := ⟨size, heap⟩
  xxVectorQueue := []
  yyVectorQueue := []
  xyRealVectorQueue := []
  xyImagVectorQueue := []

/-- The voltage members after `start` in voltage mode: the second buffer is
allocated only when the output is not packed. -/
def startVolt (c : Config) : VoltState :=
  initialVolt c.vectorBufferSize.toNat (if c.dPackedOutput then 0 else c.vectorBufferSize.toNat)

/-- `start`: the divisor of the sleep time and the buffer size are used as they
were left by the constructor. -/
def start (c : Config) (u : Unset) (env : Environment) : Except Fault SnapSource :=
  if c.dUsePcap = false ∧ c.packetsPerFrame = 0 then .error .divisionByZero
  else if c.dHeaderType = SNAP_PACKETTYPE_VOLTAGE then
    if c.vectorBufferSize < 0 then .error .badAlloc
    else .ok ⟨initialReceiver env, startVolt c, initialSpect 0 u.heap⟩
  else .ok ⟨initialReceiver env, initialVolt 0 0, initialSpect 4096 u.heap⟩

/-- `handleSyncMsg`: the timestamp of the handshake, when the message holds one.
A message that is no pair raises an exception. -/
def handleSyncMsg (v : VoltState) (msg : Pmt) : Except Fault VoltState :=
  msg.cdr.map fun data =>
    match data.toUint64 with
    | .ok t => { v with syncTimestamp := t }
    | .error _ => v

end GrAta
