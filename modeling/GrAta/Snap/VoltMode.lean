import GrAta.Snap.Source

/-!
# The voltage work function

`work_volt_mode` takes packets from the receive queue, assembles their samples
into frames of sixteen time rows, queues one output vector for each row, fills
missed frames with zeros and hands queued vectors to the scheduler.

## Main definitions

- `copyVoltDataToVectorBuffer`: the corner turn of one packet into the buffers
- `queueVoltageData`: queue the rows of the assembled frame
- `checkMissingFrames`: account for missed frames and fill them
- `processPacket`: the body of the packet loop
- `workVoltMode`: one call
-/

namespace GrAta

variable (c : Config)

/-- The table that `start` fills in. -/
def twosComplementLUT : List Int8 :=
  ((List.range 8).map fun i => Int8.ofNat i) ++ [0] ++
    ((List.range 7).map fun i => Int8.ofInt ((i + 9 : ℕ) - 16))

def twosComplementLookup4Bit (b : UInt8) : Int8 := twosComplementLUT.getD b.toNat 0

def twosComplement4Bit (b : Int8) : Int8 :=
  if b > 7 then (if b = 8 then 0 else b - 16) else b

/-- The byte that stores the sample in the high nibble. -/
def highSample (b : UInt8) : UInt8 := (twosComplementLookup4Bit (b >>> 4)).toUInt8

/-- The byte that stores the sample in the low nibble. -/
def lowSample (b : UInt8) : UInt8 := (twosComplementLookup4Bit (b &&& 0x0F)).toUInt8

/-- `vp->data[sample][t][pol]` of the packet in the local buffer. -/
def vpData (localBuffer : Packet) (sample t pol : ℕ) : UInt8 :=
  pointer localBuffer (c.dHeaderSize + ((sample * 16 + t) * 2 + pol))

/-- The index of the first cell that a packet fills in time row `t`. -/
def vectorStart (hdr : SnapHeader) (t : ℕ) : ℤ :=
  toInt32 ((t * c.dVeclen : ℕ) + ((hdr.channelId : ℤ) - c.dStartingChannel) * 2)

/-- The stores of the copy loops into one buffer, in program order: two adjacent
cells for each time row and sample. -/
def cellStores (hdr : SnapHeader) (even odd : ℕ → ℕ → UInt8) : List (ℤ × UInt8) :=
  (List.range 16).flatMap fun t => (List.range 256).flatMap fun sample =>
    [(vectorStart c hdr t + (2 * sample : ℕ), even sample t),
     (vectorStart c hdr t + (2 * sample + 1 : ℕ), odd sample t)]

/-- The ghost record after a copy: the samples of an earlier packet of the same
channel are overwritten. -/
def recordCopy (copied : List Packet) (p : Packet) : List Packet :=
  (copied.filter fun q => voltageChan (pointer q) ≠ voltageChan (pointer p)) ++ [p]

theorem recordCopy_ne_nil (copied : List Packet) (p : Packet) : recordCopy copied p ≠ [] := by
  simp [recordCopy]

/-- `copy_volt_data_to_vector_buffer`. Packed output keeps both polarizations
side by side in the first buffer. Otherwise the four-bit samples are expanded,
one polarization to a buffer. -/
def copyVoltDataToVectorBuffer (localBuffer : Packet) (hdr : SnapHeader) (v : VoltState) :
    Except Fault VoltState :=
  let data := vpData c localBuffer
  let copied := recordCopy v.copied localBuffer
  if c.dPackedOutput then do
    let x ← inBounds (v.xVectorBuffer.storeAll
      (cellStores c hdr (fun s t => data s t 0) (fun s t => data s t 1)))
    .ok { v with xVectorBuffer := x, copied := copied }
  else do
    let x ← inBounds (v.xVectorBuffer.storeAll
      (cellStores c hdr (fun s t => highSample (data s t 0)) (fun s t => lowSample (data s t 0))))
    let y ← inBounds (v.yVectorBuffer.storeAll
      (cellStores c hdr (fun s t => highSample (data s t 1)) (fun s t => lowSample (data s t 1))))
    .ok { v with xVectorBuffer := x, yVectorBuffer := y, copied := copied }

/-- The `memset` of the buffers at the start of a frame of several packets. -/
def clearVectorBuffers (v : VoltState) : VoltState :=
  { v with
    xVectorBuffer := v.xVectorBuffer.fill 0
    yVectorBuffer := if c.dPackedOutput then v.yVectorBuffer else v.yVectorBuffer.fill 0
    copied := [] }

-- ════════════════════════════════════════════════════════════════════════
-- Queueing frames
-- ════════════════════════════════════════════════════════════════════════

/-- The sixteen time rows of a buffer as queued vectors. -/
def timeVectors (buffer : Region UInt8) (origin : FrameOrigin) : Except Fault (List TimeVector) :=
  do
    let rows ← inBounds (buffer.rows 16 c.dVeclen)
    .ok (rows.zipIdx.map fun r => ⟨r.1, origin, r.2⟩)

/-- The sequence number of each of the sixteen rows, pushed only while no
handshake has been received. -/
def pushSeqNums (v : VoltState) (n : ℕ) : List ℕ :=
  if v.syncTimestamp = 0 then v.seqNumQueue ++ List.replicate 16 n else v.seqNumQueue

/-- `queue_voltage_data`. -/
def queueVoltageData (hdr : SnapHeader) (v : VoltState) : Except Fault VoltState := do
  let xs ← timeVectors c v.xVectorBuffer (.received v.copied)
  let ys ← if c.dPackedOutput then .ok [] else timeVectors c v.yVectorBuffer (.received v.copied)
  .ok { v with
    xVectorQueue := v.xVectorQueue ++ xs
    yVectorQueue := v.yVectorQueue ++ ys
    seqNumQueue := pushSeqNums v hdr.sampleNumber }

/-- The sixteen zeroed vectors of a missed frame. -/
def zeroVectors (missed : ℕ) : List TimeVector :=
  (List.range 16).map fun t => ⟨List.replicate c.dVeclen 0, .missed missed, t⟩

/-- The body of the gap filling loop. -/
def queueMissedFrame (v : VoltState) (missed : ℕ) : VoltState :=
  { v with
    xVectorQueue := v.xVectorQueue ++ zeroVectors c missed
    yVectorQueue := v.yVectorQueue ++ if c.dPackedOutput then [] else zeroVectors c missed
    seqNumQueue := pushSeqNums v missed }

/-- `(sample_number - d_last_timestamp) / 16 - 1` in 64-bit arithmetic, for a
sample number above the last timestamp. -/
def missedSets (last sample : ℕ) : ℕ := ((sample - last) / 16 + (2 ^ 64 - 1)) % 2 ^ 64

/-- The timestamps that the gap filling loop visits from `missed` on, if it ends
within `fuel` iterations. The counter wraps at 64 bits. -/
def gapTimestamps (sample : ℕ) : ℕ → ℕ → Option (List ℕ)
  | fuel, missed =>
    if missed < sample then
      match fuel with
      | 0 => none
      | fuel + 1 => (gapTimestamps sample fuel ((missed + 16) % 2 ^ 64)).map (missed :: ·)
    else some []

/-- The gap filling loop. It is entered for at most `MAX_MISSED_SETS` missed
frames, and then either ends within one more iteration or never does. -/
def fillGap (sample : ℕ) (v : VoltState) : Except Fault VoltState :=
  match gapTimestamps sample (MAX_MISSED_SETS + 1) ((v.dLastTimestamp + 16) % 2 ^ 64) with
  | some missed => .ok (missed.foldl (queueMissedFrame c) v)
  | none => .error .endlessLoop

/-- The check for missing frames. A sample number at or below the last timestamp
counts as a rollover without loss. -/
def checkMissingFrames (hdr : SnapHeader) (v : VoltState) (skippedPackets : ℤ) :
    Except Fault (VoltState × ℤ) :=
  if v.dLastTimestamp > 0 ∧ hdr.sampleNumber > v.dLastTimestamp then
    let missed := missedSets v.dLastTimestamp hdr.sampleNumber
    if missed > 0 then
      let skippedPackets := toInt32 (skippedPackets + missed * c.packetsPerFrame)
      if missed ≤ MAX_MISSED_SETS then do
        let v ← fillGap c hdr.sampleNumber v
        .ok (v, skippedPackets)
      else .ok (v, skippedPackets)
    else .ok (v, skippedPackets)
  else .ok (v, skippedPackets)

-- ════════════════════════════════════════════════════════════════════════
-- The packet loop
-- ════════════════════════════════════════════════════════════════════════

/-- The frame that was being assembled is complete when a packet of another
timestamp arrives. Its rows are queued under the header of that packet. -/
def finishFrame (hdr : SnapHeader) (v : VoltState) (skippedPackets : ℤ) :
    Except Fault (VoltState × ℤ) :=
  if c.bOnePacket then .ok (v, skippedPackets)
  else do
    let v ← queueVoltageData c hdr v
    .ok (v, toInt32 (skippedPackets + (c.packetsPerFrame - v.multipacketFramePktCtr)))

/-- The new packet starts a frame. In one-packet mode it is the whole frame. -/
def startFrame (localBuffer : Packet) (hdr : SnapHeader) (v : VoltState) :
    Except Fault VoltState :=
  if c.bOnePacket then do
    let v ← copyVoltDataToVectorBuffer c localBuffer hdr v
    queueVoltageData c hdr v
  else
    copyVoltDataToVectorBuffer c localBuffer hdr
      (clearVectorBuffers c { v with multipacketFramePktCtr := 1 })

/-- The body of the packet loop, for the packet in the local buffer. -/
def processPacket (acc : VoltState × ℤ) (localBuffer : Packet) : Except Fault (VoltState × ℤ) :=
  let hdr := getVoltageHeader (pointer localBuffer)
  let v := acc.1
  if c.bOnePacket ∨ (v.dLastTimestamp > 0 ∧ hdr.sampleNumber ≠ v.dLastTimestamp) then do
    let (v, skippedPackets) ← finishFrame c hdr v acc.2
    let (v, skippedPackets) ← checkMissingFrames c hdr v skippedPackets
    let v ← startFrame c localBuffer hdr v
    .ok ({ v with dLastTimestamp := hdr.sampleNumber }, skippedPackets)
  else do
    -- the very first packet of a block of several packets a frame, or the next
    -- packet of the frame
    let v := if v.dLastTimestamp = 0 then { v with dLastTimestamp := hdr.sampleNumber } else v
    let v ← copyVoltDataToVectorBuffer c localBuffer hdr v
    .ok ({ v with multipacketFramePktCtr := v.multipacketFramePktCtr + 1 }, acc.2)

/-- `fill_local_buffer`: take the oldest packet from the receive queue. -/
def fillLocalBuffer (r : Receiver) : Except Fault (Packet × Receiver) :=
  match r.dLocalqueue with
  | [] => .error .emptyFront
  | p :: rest => .ok (p, { r with dLocalqueue := rest })

/-- The packet loop, for at most the packets that were available when it
started, and only while fewer vectors are queued than were asked for. -/
def packetLoop (noutputItems : ℕ) : ℕ → Receiver × VoltState × ℤ →
    Except Fault (Receiver × VoltState × ℤ)
  | 0, s => .ok s
  | numPacketsAvailable + 1, s =>
    if s.2.1.xVectorQueue.length < noutputItems then do
      let (p, r) ← fillLocalBuffer s.1
      let acc ← processPacket c s.2 p
      packetLoop noutputItems numPacketsAvailable (r, acc)
    else .ok s

-- ════════════════════════════════════════════════════════════════════════
-- Output
-- ════════════════════════════════════════════════════════════════════════

/-- One output item: the vector of the first port, that of the second port in
unpacked mode, and the sequence number tag, if one is attached. -/
structure OutItem where
  x : TimeVector
  y : Option TimeVector
  tag : Option ℕ
  deriving DecidableEq, Repr

/-- The vector of the second port, which packed output does not use. -/
def popSecond (v : VoltState) : Except Fault (Option TimeVector × List TimeVector) :=
  if c.dPackedOutput then .ok (none, v.yVectorQueue)
  else (popFront v.yVectorQueue).map fun r => (some r.1, r.2)

/-- The sequence number of the item, which is a tag only in a live call. -/
def popTag (liveWork : Bool) (v : VoltState) : Except Fault (Option ℕ × List ℕ) :=
  if v.syncTimestamp = 0 then
    (popFront v.seqNumQueue).map fun r => (if liveWork then some r.1 else none, r.2)
  else .ok (none, v.seqNumQueue)

/-- Move one vector from the queues to the output. -/
def emitItem (liveWork : Bool) (v : VoltState) : Except Fault (OutItem × VoltState) := do
  let (x, xs) ← popFront v.xVectorQueue
  let (y, ys) ← popSecond c v
  let (tag, ns) ← popTag liveWork v
  .ok (⟨x, y, tag⟩, { v with xVectorQueue := xs, yVectorQueue := ys, seqNumQueue := ns })

def emitItems (liveWork : Bool) : ℕ → VoltState → Except Fault (List OutItem × VoltState)
  | 0, v => .ok ([], v)
  | n + 1, v => do
    let (item, v) ← emitItem c liveWork v
    let (items, v) ← emitItems liveWork n v
    .ok (item :: items, v)

/-- What a call leaves behind besides the state: the output items, the argument
of `NotifyMissed`, and the header published on `sync_header`. -/
structure WorkResult where
  items : List OutItem
  skippedPackets : ℤ
  syncHeader : Option SnapHeader
  deriving DecidableEq, Repr

/-- `work_volt_mode`. Packets that arrive while the call waits for data count as
already queued. When the wait ends without any, the call returns nothing. -/
def workVoltMode (noutputItems : ℕ) (liveWork : Bool) (s : SnapSource) :
    Except Fault (WorkResult × SnapSource) :=
  let numPacketsAvailable := s.recv.dLocalqueue.length
  if s.recv.stopThread = false ∧ s.recv.pcapFileDone = false ∧ numPacketsAvailable = 0 ∧
      s.volt.xVectorQueue = [] then
    .ok (⟨[], 0, none⟩, s)
  else do
    let syncHeader := if s.recv.dSendSyncPmt ∧ liveWork ∧ c.dSendStartMsg then
      some s.recv.asyncVoltSyncHdr else none
    let (recv, volt, skippedPackets) ← packetLoop c noutputItems numPacketsAvailable
      ({ s.recv with dSendSyncPmt := false }, s.volt, 0)
    let itemsReturned := min noutputItems volt.xVectorQueue.length
    let (items, volt) ← emitItems c liveWork itemsReturned volt
    .ok (⟨items, skippedPackets, syncHeader⟩, { s with recv := recv, volt := volt })

end GrAta
