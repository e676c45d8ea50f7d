import GrAta.Snap.VoltMode

/-!
# The spectrometer work function

`work_spec_mode` takes packets from the receive queue and assembles their floats
into spectra of 4096 channels, one for each of four products. A spectrum is queued
when the packet of the last channels arrives.

## Main definitions

- `copySpectData`: the floats of one packet into the buffers
- `processSpectPacket`: the body of the packet loop
- `workSpecMode`: one call
- `Spectral`: what holds of the members of a spectrometer block

## Main results

- `workSpecMode_ok`: a call that finds a packet returns
-/

namespace GrAta

variable (c : Config)

/-- The bits of the float at an address of a little-endian host. -/
def floatBits (p : Pointer) (start : ℕ) : UInt32 :=
  UInt32.ofNat ((p start).toNat + 2 ^ 8 * (p (start + 1)).toNat +
    2 ^ 16 * (p (start + 2)).toNat + 2 ^ 24 * (p (start + 3)).toNat)

/-- `sp->data[sample][product]` of the packet in the local buffer. -/
def spData (localBuffer : Packet) (product sample : ℕ) : UInt32 :=
  floatBits (pointer localBuffer) (c.dHeaderSize + (sample * 4 + product) * 4)

/-- The stores of the copy loop into one buffer. -/
def spectStores (hdr : SnapHeader) (value : ℕ → UInt32) : List (ℤ × UInt32) :=
  (List.range 512).map fun sample => (((hdr.channelId + sample : ℕ) : ℤ), value sample)

/-- The copy loop for the four products. -/
def copySpectData (localBuffer : Packet) (hdr : SnapHeader) (s : SpectState) :
    Except Fault SpectState := do
  let data := spData c localBuffer
  let xx ← inBounds (s.xxBuffer.storeAll (spectStores hdr (data 0)))
  let yy ← inBounds (s.yyBuffer.storeAll (spectStores hdr (data 1)))
  let xyReal ← inBounds (s.xyRealBuffer.storeAll (spectStores hdr (data 2)))
  let xyImag ← inBounds (s.xyImagBuffer.storeAll (spectStores hdr (data 3)))
  .ok { s with
    xxBuffer := xx
    yyBuffer := yy
    xyRealBuffer := xyReal
    xyImagBuffer := xyImag }

/-- The `memset` of the buffers at the start of a spectrum. -/
def clearSpectBuffers (s : SpectState) : SpectState :=
  { s with
    xxBuffer := s.xxBuffer.fill 0
    yyBuffer := s.yyBuffer.fill 0
    xyRealBuffer := s.xyRealBuffer.fill 0
    xyImagBuffer := s.xyImagBuffer.fill 0 }

/-- What a packet adds to the skipped packets. The check for a first packet is
always passed, as the last channel is kept in an unsigned member. -/
def skippedBlocks (last channelId : ℕ) : ℤ :=
  if channelId > last then ((channelId : ℤ) - last).tdiv c.channelsPerPacket - 1
  else
    ((c.dEndingChannelPacketChannelId : ℤ) - last).tdiv c.channelsPerPacket +
      ((channelId : ℤ) - c.dStartingChannel).tdiv c.channelsPerPacket

/-- The channels of a buffer as a queued vector. -/
def spectVector (buffer : Region UInt32) : Except Fault (List UInt32) := do
  let rows ← inBounds (buffer.rows 1 c.dVeclen)
  .ok rows.flatten

def queueSpectData (s : SpectState) : Except Fault SpectState := do
  let xx ← spectVector c s.xxBuffer
  let yy ← spectVector c s.yyBuffer
  let xyReal ← spectVector c s.xyRealBuffer
  let xyImag ← spectVector c s.xyImagBuffer
  .ok { s with
    xxVectorQueue := s.xxVectorQueue ++ [xx]
    yyVectorQueue := s.yyVectorQueue ++ [yy]
    xyRealVectorQueue := s.xyRealVectorQueue ++ [xyReal]
    xyImagVectorQueue := s.xyImagVectorQueue ++ [xyImag] }

/-- The spectrometer members and the shared sequence numbers. -/
structure SpectWork where
  spect : SpectState
  seqNumQueue : List ℕ
  skippedPackets : ℤ

/-- The body of the packet loop, for the packet in the local buffer. -/
def processSpectPacket (w : SpectWork) (localBuffer : Packet) : Except Fault SpectWork := do
  let hdr := getSpectHeader noHeader (pointer localBuffer)
  let s := if hdr.channelId = c.dStartingChannel then clearSpectBuffers w.spect else w.spect
  let skippedPackets :=
    toInt32 (w.skippedPackets + skippedBlocks c s.dLastChannelBlock hdr.channelId)
  let s ← copySpectData c localBuffer hdr { s with dLastChannelBlock := hdr.channelId }
  if hdr.channelId = c.dEndingChannelPacketChannelId then do
    let s ← queueSpectData c s
    .ok ⟨s, w.seqNumQueue ++ [hdr.sampleNumber], skippedPackets⟩
  else .ok ⟨s, w.seqNumQueue, skippedPackets⟩

/-- The packet loop, for at most the packets that were available when it started,
and only while fewer spectra are queued than were asked for. -/
def spectLoop (noutputItems : ℕ) : ℕ → Receiver × SpectWork → Except Fault (Receiver × SpectWork)
  | 0, s => .ok s
  | numPacketsAvailable + 1, s =>
    if s.2.spect.xxVectorQueue.length < noutputItems then do
      let (p, r) ← fillLocalBuffer s.1
      let w ← processSpectPacket c s.2 p
      spectLoop noutputItems numPacketsAvailable (r, w)
    else .ok s

-- ════════════════════════════════════════════════════════════════════════
-- Output
-- ════════════════════════════════════════════════════════════════════════

/-- One output item: the spectra of the connected ports, and the sequence number
tag, if one is attached. -/
structure SpectItem where
  xx : List UInt32
  yy : List UInt32
  xyReal : Option (List UInt32)
  xyImag : Option (List UInt32)
  tag : Option ℕ
  deriving DecidableEq, Repr

/-- Move one spectrum from the queues to the output. The cross products have
optional ports. Tags are attached only after a handshake. -/
def emitSpectItem (liveWork : Bool) (ports syncTimestamp : ℕ) (w : SpectWork) :
    Except Fault (SpectItem × SpectWork) := do
  let (xx, xxs) ← popFront w.spect.xxVectorQueue
  let (yy, yys) ← popFront w.spect.yyVectorQueue
  let (xyReal, xyReals) ← popFront w.spect.xyRealVectorQueue
  let (xyImag, xyImags) ← popFront w.spect.xyImagVectorQueue
  let (seqNum, seqNums) ← popFront w.seqNumQueue
  .ok (⟨xx, yy, if ports > 2 then some xyReal else none, if ports > 3 then some xyImag else none,
      if liveWork ∧ syncTimestamp > 0 then some seqNum else none⟩,
    { w with
      spect := { w.spect with
        xxVectorQueue := xxs
        yyVectorQueue := yys
        xyRealVectorQueue := xyReals
        xyImagVectorQueue := xyImags }
      seqNumQueue := seqNums })

def emitSpectItems (liveWork : Bool) (ports syncTimestamp : ℕ) :
    ℕ → SpectWork → Except Fault (List SpectItem × SpectWork)
  | 0, w => .ok ([], w)
  | n + 1, w => do
    let (item, w) ← emitSpectItem liveWork ports syncTimestamp w
    let (items, w) ← emitSpectItems liveWork ports syncTimestamp n w
    .ok (item :: items, w)

/-- What a call leaves behind besides the state. -/
structure SpectResult where
  items : List SpectItem
  skippedPackets : ℤ
  syncHeader : Option SnapHeader
  deriving DecidableEq, Repr

/-- `work_spec_mode`. Packets that arrive while the call waits for data count as
already queued. The wait has no limit, and it looks at the queue of the voltage
mode. The published header is that of the voltage mode, too. -/
def workSpecMode (noutputItems ports : ℕ) (liveWork : Bool) (s : SnapSource) :
    Except Fault (SpectResult × SnapSource) :=
  let snapshotPacketsAvailable := s.recv.dLocalqueue.length
  if s.recv.stopThread = false ∧ s.recv.pcapFileDone = false ∧ snapshotPacketsAvailable = 0 ∧
      s.volt.xVectorQueue = [] then
    .error .endlessLoop
  else do
    let syncHeader := if s.recv.dSendSyncPmt ∧ liveWork then some s.recv.asyncVoltSyncHdr else none
    let (recv, w) ← spectLoop c noutputItems snapshotPacketsAvailable
      ({ s.recv with dSendSyncPmt := false }, ⟨s.spect, s.volt.seqNumQueue, 0⟩)
    let itemsReturned := min noutputItems w.spect.xxVectorQueue.length
    let (items, w) ← emitSpectItems liveWork ports s.volt.syncTimestamp itemsReturned w
    .ok (⟨items, w.skippedPackets, syncHeader⟩,
      { recv := recv, volt := { s.volt with seqNumQueue := w.seqNumQueue }, spect := w.spect })

-- ════════════════════════════════════════════════════════════════════════
-- Calls return
-- ════════════════════════════════════════════════════════════════════════

/-- What holds of the members of a spectrometer block: buffers of 4096 channels,
and five queues of one length. -/
structure SpectWork.Spectral (w : SpectWork) : Prop where
  xxSize : w.spect.xxBuffer.size = 4096
  yySize : w.spect.yyBuffer.size = 4096
  xyRealSize : w.spect.xyRealBuffer.size = 4096
  xyImagSize : w.spect.xyImagBuffer.size = 4096
  yyLength : w.spect.yyVectorQueue.length = w.spect.xxVectorQueue.length
  xyRealLength : w.spect.xyRealVectorQueue.length = w.spect.xxVectorQueue.length
  xyImagLength : w.spect.xyImagVectorQueue.length = w.spect.xxVectorQueue.length
  seqNumLength : w.seqNumQueue.length = w.spect.xxVectorQueue.length

/-- A buffer after the copy loop. -/
def spectOverlay (chan : ℕ) (value cell : ℕ → UInt32) (i : ℕ) : UInt32 :=
  if chan ≤ i ∧ i < chan + 512 then value (i - chan) else cell i

/-- The copy loop fills the 512 cells from the channel on. -/
theorem storeAll_spectStores {hdr : SnapHeader} (hchan : hdr.channelId ≤ 3584)
    (value : ℕ → UInt32) {r : Region UInt32} (hsize : r.size = 4096) :
    r.storeAll (spectStores hdr value) =
      some { r with cell := spectOverlay hdr.channelId value r.cell } := by
  have hmem (i : ℕ) : (i : ℤ) ∈ (spectStores hdr value).map Prod.fst ↔
      hdr.channelId ≤ i ∧ i < hdr.channelId + 512 := by
    simp only [spectStores, List.map_map, List.mem_map, List.mem_range, Function.comp_apply]
    exact ⟨fun ⟨sample, hlt, hi⟩ => by omega,
      fun h => ⟨i - hdr.channelId, by omega, by omega⟩⟩
  rw [Region.storeAll_eq fun i => value (i - hdr.channelId)]
  · simp only [hmem]
    rfl
  · intro w hw
    obtain ⟨sample, hlt, rfl⟩ := List.mem_map.mp hw
    have := List.mem_range.mp hlt
    exact ⟨Int.natCast_nonneg _, by rw [hsize]; push_cast; omega⟩
  · intro w hw
    obtain ⟨sample, -, rfl⟩ := List.mem_map.mp hw
    rw [Int.toNat_natCast, Nat.add_sub_cancel_left]

variable {c} {w : SpectWork}

/-- The buffers after a packet. -/
def overlaySpect (c : Config) (localBuffer : Packet) (chan : ℕ) (s : SpectState) : SpectState :=
  let overlay := fun product (r : Region UInt32) =>
    { r with cell := spectOverlay chan (spData c localBuffer product) r.cell }
  { s with
    xxBuffer := overlay 0 s.xxBuffer
    yyBuffer := overlay 1 s.yyBuffer
    xyRealBuffer := overlay 2 s.xyRealBuffer
    xyImagBuffer := overlay 3 s.xyImagBuffer }

theorem copySpectData_eq (h : w.Spectral) (localBuffer : Packet) {hdr : SnapHeader}
    (hchan : hdr.channelId ≤ 3584) :
    copySpectData c localBuffer hdr w.spect =
      .ok (overlaySpect c localBuffer hdr.channelId w.spect) := by
  simp only [copySpectData, storeAll_spectStores hchan _ h.xxSize,
    storeAll_spectStores hchan _ h.yySize, storeAll_spectStores hchan _ h.xyRealSize,
    storeAll_spectStores hchan _ h.xyImagSize, inBounds_some, ok_bind]
  rfl

/-- The vector of a buffer of 4096 channels. -/
theorem spectVector_eq (hveclen : c.dVeclen = 4096) {buffer : Region UInt32}
    (hsize : buffer.size = 4096) :
    spectVector c buffer = .ok ((List.range 4096).map buffer.cell) := by
  rw [spectVector, Region.rows_of_le (by omega), inBounds_some, ok_bind, hveclen]
  simp

/-- The members after a spectrum has been queued. -/
def pushSpectra (s : SpectState) : SpectState :=
  let vector := fun buffer : Region UInt32 => (List.range 4096).map buffer.cell
  { s with
    xxVectorQueue := s.xxVectorQueue ++ [vector s.xxBuffer]
    yyVectorQueue := s.yyVectorQueue ++ [vector s.yyBuffer]
    xyRealVectorQueue := s.xyRealVectorQueue ++ [vector s.xyRealBuffer]
    xyImagVectorQueue := s.xyImagVectorQueue ++ [vector s.xyImagBuffer] }

theorem queueSpectData_eq (hveclen : c.dVeclen = 4096) (h : w.Spectral) :
    queueSpectData c w.spect = .ok (pushSpectra w.spect) := by
  simp only [queueSpectData, spectVector_eq hveclen h.xxSize, spectVector_eq hveclen h.yySize,
    spectVector_eq hveclen h.xyRealSize, spectVector_eq hveclen h.xyImagSize, ok_bind]
  rfl

/-- The buffers that a packet is copied into: those of the last spectrum, or
cleared ones. -/
def beforeCopy (c : Config) (s : SpectState) (chan : ℕ) : SpectState :=
  { if chan = c.dStartingChannel then clearSpectBuffers s else s with dLastChannelBlock := chan }

theorem SpectWork.Spectral.beforeCopy (h : w.Spectral) (c : Config) (chan : ℕ) :
    { w with spect := beforeCopy c w.spect chan }.Spectral := by
  rw [GrAta.beforeCopy]
  split
  · exact ⟨h.xxSize, h.yySize, h.xyRealSize, h.xyImagSize, h.yyLength, h.xyRealLength,
      h.xyImagLength, h.seqNumLength⟩
  · exact ⟨h.xxSize, h.yySize, h.xyRealSize, h.xyImagSize, h.yyLength, h.xyRealLength,
      h.xyImagLength, h.seqNumLength⟩

theorem SpectWork.Spectral.overlay (h : w.Spectral) (c : Config) (localBuffer : Packet)
    (chan : ℕ) (skippedPackets : ℤ) :
    SpectWork.Spectral ⟨overlaySpect c localBuffer chan w.spect, w.seqNumQueue, skippedPackets⟩ :=
  ⟨h.xxSize, h.yySize, h.xyRealSize, h.xyImagSize, h.yyLength, h.xyRealLength, h.xyImagLength,
    h.seqNumLength⟩

theorem SpectWork.Spectral.push (h : w.Spectral) (seqNum : ℕ) :
    SpectWork.Spectral ⟨pushSpectra w.spect, w.seqNumQueue ++ [seqNum], w.skippedPackets⟩ := by
  have concat_length {α β : Type} {as : List α} {bs : List β} (a : α) (b : β)
      (hlen : as.length = bs.length) : (as ++ [a]).length = (bs ++ [b]).length := by
    rw [List.length_append, List.length_append, hlen]
    rfl
  exact ⟨h.xxSize, h.yySize, h.xyRealSize, h.xyImagSize, concat_length _ _ h.yyLength,
    concat_length _ _ h.xyRealLength, concat_length _ _ h.xyImagLength,
    concat_length _ _ h.seqNumLength⟩

/-- **One packet.** Its floats are laid over the buffers, and the last packet of a
spectrum queues it. -/
theorem processSpectPacket_eq (hveclen : c.dVeclen = 4096) (h : w.Spectral)
    (localBuffer : Packet) :
    let hdr := getSpectHeader noHeader (pointer localBuffer)
    let s := overlaySpect c localBuffer hdr.channelId (beforeCopy c w.spect hdr.channelId)
    let skippedPackets :=
      toInt32 (w.skippedPackets + skippedBlocks c w.spect.dLastChannelBlock hdr.channelId)
    processSpectPacket c w localBuffer =
      .ok (if hdr.channelId = c.dEndingChannelPacketChannelId then
        ⟨pushSpectra s, w.seqNumQueue ++ [hdr.sampleNumber], skippedPackets⟩
      else ⟨s, w.seqNumQueue, skippedPackets⟩) := by
  intro hdr s skippedPackets
  have hbefore := h.beforeCopy c hdr.channelId
  have hcopy := copySpectData_eq (c := c) hbefore localBuffer
    (show hdr.channelId ≤ 3584 from spectChan_le _)
  have hafter := hbefore.overlay c localBuffer hdr.channelId skippedPackets
  have hlast : (if hdr.channelId = c.dStartingChannel then clearSpectBuffers w.spect
      else w.spect).dLastChannelBlock = w.spect.dLastChannelBlock := by
    split <;> rfl
  rw [processSpectPacket]
  change (copySpectData c localBuffer hdr (beforeCopy c w.spect hdr.channelId) >>= _) = _
  rw [hcopy, ok_bind, hlast]
  by_cases hend : hdr.channelId = c.dEndingChannelPacketChannelId
  · rw [if_pos hend, if_pos hend]
    change (queueSpectData c s >>= _) = _
    rw [queueSpectData_eq hveclen hafter]
    rfl
  · rw [if_neg hend, if_neg hend]

theorem processSpectPacket_ok (hveclen : c.dVeclen = 4096) (h : w.Spectral)
    (localBuffer : Packet) :
    ∃ w', processSpectPacket c w localBuffer = .ok w' ∧ w'.Spectral := by
  have hbefore := h.beforeCopy c (getSpectHeader noHeader (pointer localBuffer)).channelId
  refine ⟨_, processSpectPacket_eq hveclen h localBuffer, ?_⟩
  split
  · exact (hbefore.overlay c localBuffer _ _).push _
  · exact hbefore.overlay c localBuffer _ _

/-- The packet loop takes no more packets than are queued. -/
theorem spectLoop_ok (hveclen : c.dVeclen = 4096) (noutputItems : ℕ) {n : ℕ} {r : Receiver}
    (hn : n ≤ r.dLocalqueue.length) (h : w.Spectral) :
    ∃ r' w', spectLoop c noutputItems n (r, w) = .ok (r', w') ∧ w'.Spectral := by
  induction n generalizing r w with
  | zero => exact ⟨r, w, rfl, h⟩
  | succ n ih =>
    rw [spectLoop]
    by_cases hmore : w.spect.xxVectorQueue.length < noutputItems
    · rw [if_pos hmore]
      obtain ⟨p, rest, hqueue⟩ := List.exists_cons_of_length_pos (Nat.lt_of_lt_of_le n.succ_pos hn)
      obtain ⟨w', hprocess, hw'⟩ := processSpectPacket_ok hveclen h p
      have hfill : fillLocalBuffer r = .ok (p, { r with dLocalqueue := rest }) := by
        rw [fillLocalBuffer, hqueue]
      rw [hqueue, List.length_cons] at hn
      obtain ⟨r'', w'', hloop, hw''⟩ := ih (r := { r with dLocalqueue := rest })
        (Nat.le_of_succ_le_succ hn) hw'
      exact ⟨r'', w'', by simp only [hfill, ok_bind, hprocess, hloop], hw''⟩
    · rw [if_neg hmore]
      exact ⟨r, w, rfl, h⟩

/-- The members after one spectrum has left the queues. -/
def popSpectra (w : SpectWork) : SpectWork :=
  { w with
    spect := { w.spect with
      xxVectorQueue := w.spect.xxVectorQueue.tail
      yyVectorQueue := w.spect.yyVectorQueue.tail
      xyRealVectorQueue := w.spect.xyRealVectorQueue.tail
      xyImagVectorQueue := w.spect.xyImagVectorQueue.tail }
    seqNumQueue := w.seqNumQueue.tail }

theorem SpectWork.Spectral.pop (h : w.Spectral) : (popSpectra w).Spectral := by
  have tail_length {α β : Type} {as : List α} {bs : List β} (hlen : as.length = bs.length) :
      as.tail.length = bs.tail.length := by
    rw [List.length_tail, List.length_tail, hlen]
  exact ⟨h.xxSize, h.yySize, h.xyRealSize, h.xyImagSize, tail_length h.yyLength,
    tail_length h.xyRealLength, tail_length h.xyImagLength, tail_length h.seqNumLength⟩

theorem emitSpectItem_ok (liveWork : Bool) (ports syncTimestamp : ℕ) (h : w.Spectral)
    (hpos : 0 < w.spect.xxVectorQueue.length) :
    ∃ item, emitSpectItem liveWork ports syncTimestamp w = .ok (item, popSpectra w) := by
  obtain ⟨xx, xxs, hxx⟩ := List.exists_cons_of_length_pos hpos
  obtain ⟨yy, yys, hyy⟩ := List.exists_cons_of_length_pos (h.yyLength ▸ hpos)
  obtain ⟨xyReal, xyReals, hxyReal⟩ := List.exists_cons_of_length_pos (h.xyRealLength ▸ hpos)
  obtain ⟨xyImag, xyImags, hxyImag⟩ := List.exists_cons_of_length_pos (h.xyImagLength ▸ hpos)
  obtain ⟨seqNum, seqNums, hseqNum⟩ := List.exists_cons_of_length_pos (h.seqNumLength ▸ hpos)
  refine ⟨⟨xx, yy, if ports > 2 then some xyReal else none,
    if ports > 3 then some xyImag else none,
    if liveWork ∧ syncTimestamp > 0 then some seqNum else none⟩, ?_⟩
  rw [emitSpectItem, popSpectra, hxx, hyy, hxyReal, hxyImag, hseqNum]
  rfl

theorem emitSpectItems_ok (liveWork : Bool) (ports syncTimestamp : ℕ) {n : ℕ}
    (hn : n ≤ w.spect.xxVectorQueue.length) (h : w.Spectral) :
    ∃ items w', emitSpectItems liveWork ports syncTimestamp n w = .ok (items, w') ∧
      w'.Spectral := by
  induction n generalizing w with
  | zero => exact ⟨[], w, rfl, h⟩
  | succ n ih =>
    obtain ⟨item, hitem⟩ := emitSpectItem_ok liveWork ports syncTimestamp h (by omega)
    have hlen : n ≤ (popSpectra w).spect.xxVectorQueue.length := by
      rw [popSpectra, List.length_tail]
      omega
    obtain ⟨items, w', hitems, hw'⟩ := ih hlen h.pop
    refine ⟨item :: items, w', ?_, hw'⟩
    simp only [emitSpectItems, hitem, ok_bind, hitems]

/-- A block in spectrometer mode. -/
def SnapSource.Spectral (s : SnapSource) : Prop :=
  SpectWork.Spectral ⟨s.spect, s.volt.seqNumQueue, 0⟩

/-- **Calls return.** A call that finds a packet, or the end of the data, returns
and leaves a block in spectrometer mode. -/
theorem workSpecMode_ok (hveclen : c.dVeclen = 4096) {s : SnapSource} (h : s.Spectral)
    (hdata : s.recv.stopThread = true ∨ s.recv.pcapFileDone = true ∨ s.recv.dLocalqueue ≠ [])
    (noutputItems ports : ℕ) (liveWork : Bool) :
    ∃ result s', workSpecMode c noutputItems ports liveWork s = .ok (result, s') ∧
      s'.Spectral := by
  have hwait : ¬(s.recv.stopThread = false ∧ s.recv.pcapFileDone = false ∧
      s.recv.dLocalqueue.length = 0 ∧ s.volt.xVectorQueue = []) := by
    rintro ⟨hstop, hdone, hempty, -⟩
    rcases hdata with h | h | h
    · exact Bool.noConfusion (hstop.symm.trans h)
    · exact Bool.noConfusion (hdone.symm.trans h)
    · exact h (List.eq_nil_of_length_eq_zero hempty)
  obtain ⟨r, w, hloop, hw⟩ := spectLoop_ok hveclen noutputItems
    (r := { s.recv with dSendSyncPmt := false }) le_rfl h
  obtain ⟨items, w', hitems, hw'⟩ := emitSpectItems_ok liveWork ports s.volt.syncTimestamp
    (Nat.min_le_right noutputItems _) hw
  refine ⟨⟨items, w'.skippedPackets,
      if s.recv.dSendSyncPmt ∧ liveWork then some s.recv.asyncVoltSyncHdr else none⟩,
    ⟨r, { s.volt with seqNumQueue := w'.seqNumQueue }, w'.spect⟩, ?_, ?_⟩
  · rw [workSpecMode, if_neg hwait, hloop, ok_bind]
    simp only [hitems, ok_bind]
  exact ⟨hw'.xxSize, hw'.yySize, hw'.xyRealSize, hw'.xyImagSize, hw'.yyLength, hw'.xyRealLength,
    hw'.xyImagLength, hw'.seqNumLength⟩

end GrAta
