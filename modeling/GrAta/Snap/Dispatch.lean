import GrAta.Library.Execution
import GrAta.Snap.Ingress
import GrAta.Snap.SpecMode

/-!
# The choice of the format

A whole block: the receive thread, the messages and the work calls, in any order.
Constructor and `start` follow the header type of the block. The receive and work
functions test the constant `SNAP_PACKETTYPE_VOLTAGE` in its place, so they take
the voltage path in every block.

## Main definitions

- `blockRun`: the run of a block, with the outcome of the test as an argument
- `followsHeaderType`: the test that reads the header type of the block

## Main results

- `spect_outcomes_empty`: what the source delivers from a spectrometer block
- `blockRun_follows_headerType_iff`: the blocks that follow their header type
-/

namespace GrAta

/-- An output item of either mode. -/
inductive Output where
  | volt (item : OutItem)
  | spect (item : SpectItem)

/-- What a work call returns: `WORK_DONE`, or items, the argument of `NotifyMissed`
and the header published on `sync_header`. -/
inductive Outcome where
  | workDone
  | returned (items : List Output) (skippedPackets : ℤ) (syncHeader : Option SnapHeader)

/-- The items that are handed to the scheduler. -/
def Outcome.items : Outcome → List Output
  | .workDone => []
  | .returned items _ _ => items

/-- A block, with the outcomes of its work calls so far. -/
structure Block where
  ingress : Ingress
  volt : VoltState
  spect : SpectState
  outcomes : List Outcome

/-- The members that the work functions use. -/
def Block.source (b : Block) : SnapSource := ⟨b.ingress.recv, b.volt, b.spect⟩

/-- What happens to a block. -/
inductive BlockEvent where
  | mmsgReceive (datagrams : List Packet)
  | queuePcapData (minPcapQueueSize : ℤ)
  | handleSyncMsg (msg : Pmt)
  | work (noutputItems ports : ℕ)
  | workTest (noutputItems ports : ℕ)
  | stop

variable (isVoltage : Bool) (c : Config)

/-- The work function of the chosen mode. -/
def workMode (noutputItems ports : ℕ) (liveWork : Bool) (s : SnapSource) :
    Except Fault (Outcome × SnapSource) :=
  if isVoltage then
    (workVoltMode c noutputItems liveWork s).map fun (r, s) =>
      (.returned (r.items.map .volt) r.skippedPackets r.syncHeader, s)
  else
    (workSpecMode c noutputItems ports liveWork s).map fun (r, s) =>
      (.returned (r.items.map .spect) r.skippedPackets r.syncHeader, s)

/-- `work_test`. -/
def workTest (noutputItems ports : ℕ) (s : SnapSource) : Except Fault (Outcome × SnapSource) :=
  workMode isVoltage c noutputItems ports false s

/-- `work`. -/
def work (noutputItems ports : ℕ) (s : SnapSource) : Except Fault (Outcome × SnapSource) :=
  if c.dUsePcap ∧ s.recv.pcapFileDone ∧ s.recv.dLocalqueue.length = 0 then .ok (.workDone, s)
  else workMode isVoltage c noutputItems ports true s

/-- Keep the outcome of a work call. -/
def Block.after (b : Block) (r : Outcome × SnapSource) : Block where
  ingress := { b.ingress with recv := r.2.recv }
  volt := r.2.volt
  spect := r.2.spect
  outcomes := b.outcomes ++ [r.1]

def blockStep (capture : List Record) (b : Block) : BlockEvent → Except Fault Block
  | .mmsgReceive datagrams =>
    .ok { b with ingress := mmsgReceive isVoltage c datagrams b.ingress }
  | .queuePcapData minPcapQueueSize =>
    .ok { b with ingress := queuePcapData isVoltage c capture minPcapQueueSize b.ingress }
  | .handleSyncMsg msg => (handleSyncMsg b.volt msg).map fun v => { b with volt := v }
  | .work noutputItems ports =>
    (work isVoltage c noutputItems ports b.source).map b.after
  | .workTest noutputItems ports =>
    (workTest isVoltage c noutputItems ports b.source).map b.after
  | .stop =>
    .ok { b with ingress := { b.ingress with recv := { b.ingress.recv with stopThread := true } } }

/-- Start a block and let events happen to it. -/
def blockRun (u : Unset) (env : Environment) (events : List BlockEvent) : Except Fault Block := do
  let s ← start c u env
  Execution.run (blockStep isVoltage c env.capture) ⟨⟨s.recv, [], []⟩, s.volt, s.spect, []⟩ events

/-- The test that reads the header type of the block. -/
def followsHeaderType : Bool := decide (c.dHeaderType = SNAP_PACKETTYPE_VOLTAGE)

variable {isVoltage c} {a : Args} {u : Unset}

-- ════════════════════════════════════════════════════════════════════════
-- Spectrometer blocks
-- ════════════════════════════════════════════════════════════════════════

theorem construct_headerType (h : construct a u = .ok c) :
    (a.headerType = SNAP_PACKETTYPE_VOLTAGE ∧ c.dHeaderType = SNAP_PACKETTYPE_VOLTAGE) ∨
      (a.headerType = SNAP_PACKETTYPE_SPECT ∧ c = spectFormat a u) := by
  by_cases hv : a.headerType = SNAP_PACKETTYPE_VOLTAGE
  · left
    refine ⟨hv, ?_⟩
    have hf := (construct_voltage h hv).2
    rw [voltageFormat] at hf
    simp only at hf
    split_ifs at hf
    rw [← Except.ok.inj hf]
    exact hv
  · right
    rw [construct] at h
    split_ifs at h with h1 h2 h3 h4
    exact ⟨h4, (Except.ok.inj h).symm⟩

/-- The voltage members of a spectrometer block: no frame buffer, and nothing
queued. -/
structure VoltState.Idle (v : VoltState) : Prop where
  xSize : v.xVectorBuffer.size = 0
  xQueue : v.xVectorQueue = []
  lastTimestamp : v.dLastTimestamp = 0

/-- The first store of the copy loops has no cell to go to. -/
theorem storeAll_cellStores_empty (hdr : SnapHeader) (even odd : ℕ → ℕ → UInt8)
    {r : Region UInt8} (hr : r.size = 0) : r.storeAll (cellStores c hdr even odd) = none := by
  refine Region.storeAll_eq_none ⟨(vectorStart c hdr 0 + (2 * 0 : ℕ), even 0 0), ?_, by omega⟩
  rw [cellStores, List.mem_flatMap]
  refine ⟨0, by simp, List.mem_flatMap.mpr ⟨0, by simp, by simp⟩⟩

theorem copyVoltData_idle {v : VoltState} (h : v.xVectorBuffer.size = 0) (p : Packet)
    (hdr : SnapHeader) : copyVoltDataToVectorBuffer c p hdr v = .error .outOfBounds := by
  rw [copyVoltDataToVectorBuffer]
  split <;> rw [storeAll_cellStores_empty _ _ _ h, inBounds_none, error_bind]

/-- The voltage path cannot process a packet of such a block. -/
theorem processPacket_idle {v : VoltState} (h : v.Idle) (skippedPackets : ℤ) (p : Packet) :
    processPacket c (v, skippedPackets) p = .error .outOfBounds := by
  have hlast : ¬v.dLastTimestamp > 0 := by
    rw [h.lastTimestamp]
    exact Nat.lt_irrefl 0
  rw [processPacket]
  by_cases hone : c.bOnePacket
  · have hfinish (hdr : SnapHeader) :
        finishFrame c hdr v skippedPackets = .ok (v, skippedPackets) := if_pos hone
    have hcheck (hdr : SnapHeader) :
        checkMissingFrames c hdr v skippedPackets = .ok (v, skippedPackets) :=
      if_neg fun hgap => hlast hgap.1
    have hstart (hdr : SnapHeader) : startFrame c p hdr v = .error .outOfBounds := by
      rw [startFrame, if_pos hone, copyVoltData_idle h.xSize, error_bind]
    simp only [hone, true_or, if_true, hfinish, hcheck, hstart, ok_bind, error_bind]
  · rw [if_neg fun hnew => hnew.elim hone fun hgap => hlast hgap.1, h.lastTimestamp]
    have hcopy := copyVoltData_idle (c := c)
      (v := { v with dLastTimestamp := (getVoltageHeader (pointer p)).sampleNumber }) h.xSize p
      (getVoltageHeader (pointer p))
    simp only [if_true, hcopy, error_bind]

/-- The packet loop takes no packet, or faults. -/
theorem packetLoop_idle {v : VoltState} (h : v.Idle) (noutputItems n : ℕ) (r : Receiver)
    (skippedPackets : ℤ) :
    packetLoop c noutputItems n (r, v, skippedPackets) = .ok (r, v, skippedPackets) ∨
      ∃ f, packetLoop c noutputItems n (r, v, skippedPackets) = .error f := by
  cases n with
  | zero => exact Or.inl rfl
  | succ n =>
    rw [packetLoop]
    by_cases hmore : v.xVectorQueue.length < noutputItems
    · right
      rw [if_pos hmore]
      cases hfill : fillLocalBuffer r with
      | error f => exact ⟨f, rfl⟩
      | ok taken =>
        refine ⟨.outOfBounds, ?_⟩
        simp only [ok_bind, processPacket_idle h, error_bind]
    · exact Or.inl (if_neg hmore)

/-- With a packet to take, it faults. -/
theorem packetLoop_fault {v : VoltState} (h : v.Idle) {noutputItems : ℕ} (hpos : 0 < noutputItems)
    {r : Receiver} (hqueue : r.dLocalqueue ≠ []) (skippedPackets : ℤ) :
    packetLoop c noutputItems r.dLocalqueue.length (r, v, skippedPackets) =
      .error .outOfBounds := by
  obtain ⟨p, rest, hrest⟩ := List.exists_cons_of_ne_nil hqueue
  have hfill : fillLocalBuffer r = .ok (p, { r with dLocalqueue := rest }) := by
    rw [fillLocalBuffer, hrest]
  have hmore : v.xVectorQueue.length < noutputItems := by rwa [h.xQueue]
  rw [hrest, List.length_cons, packetLoop, if_pos hmore]
  simp only [hfill, ok_bind, processPacket_idle h, error_bind]

/-- A call of the voltage path that returns has nothing to deliver. -/
theorem workVoltMode_idle {s s' : SnapSource} (h : s.volt.Idle) {noutputItems : ℕ}
    {liveWork : Bool} {result : WorkResult}
    (hrun : workVoltMode c noutputItems liveWork s = .ok (result, s')) :
    result.items = [] ∧ s'.volt = s.volt := by
  rw [workVoltMode] at hrun
  split at hrun
  · cases hrun
    exact ⟨rfl, rfl⟩
  · rcases packetLoop_idle (c := c) h noutputItems s.recv.dLocalqueue.length
      { s.recv with dSendSyncPmt := false } 0 with hloop | ⟨f, hloop⟩
    · simp only [hloop, ok_bind, h.xQueue, List.length_nil, Nat.min_zero, emitItems] at hrun
      cases hrun
      exact ⟨rfl, rfl⟩
    · simp only [hloop, error_bind] at hrun
      cases hrun

/-- What holds of a spectrometer block on the voltage path. -/
structure Block.Silent (b : Block) : Prop where
  idle : b.volt.Idle
  outcomes : ∀ outcome ∈ b.outcomes, outcome.items = []

theorem Block.Silent.after {b : Block} (h : b.Silent) {r : Outcome × SnapSource}
    (hr : r.1.items = [] ∧ r.2.volt = b.volt) : (b.after r).Silent where
  idle := by
    rw [Block.after, hr.2]
    exact h.idle
  outcomes := List.forall_mem_append.mpr ⟨h.outcomes, List.forall_mem_singleton.mpr hr.1⟩

theorem workMode_silent {b b' : Block} (h : b.Silent) {noutputItems ports : ℕ}
    {liveWork : Bool}
    (hrun : (workMode true c noutputItems ports liveWork b.source).map b.after = .ok b') :
    b'.Silent := by
  rw [workMode, if_pos rfl] at hrun
  cases hvolt : workVoltMode c noutputItems liveWork b.source with
  | error f =>
    rw [hvolt] at hrun
    cases hrun
  | ok r =>
    obtain ⟨hitems, hkept⟩ := workVoltMode_idle (s := b.source) h.idle hvolt
    rw [hvolt] at hrun
    cases hrun
    exact h.after ⟨by rw [Outcome.items, hitems, List.map_nil], hkept⟩

/-- No event makes such a block deliver anything. -/
theorem blockStep_silent {capture : List Record} {b b' : Block} (h : b.Silent)
    (event : BlockEvent) (hstep : blockStep true c capture b event = .ok b') : b'.Silent := by
  cases event with
  | mmsgReceive datagrams =>
    cases hstep
    exact ⟨h.idle, h.outcomes⟩
  | queuePcapData minPcapQueueSize =>
    cases hstep
    exact ⟨h.idle, h.outcomes⟩
  | handleSyncMsg msg =>
    rw [blockStep, handleSyncMsg] at hstep
    cases hdata : msg.cdr with
    | error f =>
      rw [hdata] at hstep
      cases hstep
    | ok data =>
      rw [hdata] at hstep
      cases hstep
      refine ⟨?_, h.outcomes⟩
      simp only
      split <;> exact ⟨h.idle.xSize, h.idle.xQueue, h.idle.lastTimestamp⟩
  | work noutputItems ports =>
    rw [blockStep, work] at hstep
    split at hstep
    · cases hstep
      exact h.after ⟨rfl, rfl⟩
    · exact workMode_silent h hstep
  | workTest noutputItems ports => exact workMode_silent h hstep
  | stop =>
    cases hstep
    exact ⟨h.idle, h.outcomes⟩

/-- Whether a spectrometer block starts: on the network it divides by a member that
its constructor leaves unset. -/
theorem start_spectFormat (hs : a.headerType = SNAP_PACKETTYPE_SPECT) (u : Unset)
    (env : Environment) :
    start (spectFormat a u) u env =
      if a.dataSource ≠ DS_PCAP ∧ u.packetsPerFrame = 0 then .error .divisionByZero
      else .ok ⟨initialReceiver env, initialVolt 0 0, initialSpect 4096 u.heap⟩ := by
  have hvolt : ¬a.headerType = SNAP_PACKETTYPE_VOLTAGE := by
    rw [hs]
    decide
  have hsource : (spectFormat a u).dUsePcap = false ↔ a.dataSource ≠ DS_PCAP :=
    decide_eq_false_iff_not
  rw [start, if_neg (show ¬(spectFormat a u).dHeaderType = _ from hvolt)]
  exact if_congr (and_congr_left' hsource) rfl rfl

/-- **No spectra.** A run of a spectrometer block that returns has delivered nothing. -/
theorem spect_outcomes_empty (hs : a.headerType = SNAP_PACKETTYPE_SPECT) {env : Environment}
    {events : List BlockEvent} {b : Block}
    (hrun : blockRun formatTest (spectFormat a u) u env events = .ok b) :
    ∀ outcome ∈ b.outcomes, outcome.items = [] := by
  rw [blockRun, start_spectFormat hs] at hrun
  split at hrun
  · cases hrun
  · have hsilent := Execution.run_history_partial (fun _ b => Block.Silent b) (fun _ => True)
      (fun _ b event b' hb _ hstep => blockStep_silent hb event hstep) []
      ⟨⟨rfl, rfl, rfl⟩, by simp⟩ (fun _ _ => trivial) hrun
    exact hsilent.outcomes

-- ════════════════════════════════════════════════════════════════════════
-- A run that tells the paths apart
-- ════════════════════════════════════════════════════════════════════════

/-- A spectrometer packet of the starting channel, all bytes zero. -/
def zeroPacket : Packet := List.replicate 8200 0

/-- Both formats take the packet for one of the starting channel. -/
theorem mmsgReceive_zeroPacket (isVoltage : Bool) (a : Args) (u : Unset) :
    let s := mmsgReceive isVoltage (spectFormat a u) [zeroPacket]
      ⟨initialReceiver ⟨[], fun _ _ => 0⟩, [], []⟩
    s.recv.dLocalqueue ≠ [] ∧ s.recv.pcapFileDone = false := by
  have hbuf : recvmmsg (spectFormat a u) [zeroPacket] (fun _ _ => 0) 0 = fun _ => 0 := by
    funext k
    change receiveInto (spectFormat a u) zeroPacket (fun _ => 0) k = 0
    rw [receiveInto, zeroPacket, List.getD_eq_getElem?_getD, List.getElem?_replicate]
    split
    · split <;> rfl
    · rfl
  have hreceive : mmsgReceive isVoltage (spectFormat a u) [zeroPacket]
      ⟨initialReceiver ⟨[], fun _ _ => 0⟩, [], []⟩ =
      mmsgPacket isVoltage (spectFormat a u)
        ⟨{ initialReceiver ⟨[], fun _ _ => 0⟩ with
          bufs := recvmmsg (spectFormat a u) [zeroPacket] fun _ _ => 0 }, [], []⟩ (fun _ => 0) :=
    congrArg (mmsgPacket isVoltage (spectFormat a u) _) hbuf
  have hchan : headerChannel isVoltage (fun _ => 0) = (spectFormat a u).dStartingChannel := by
    cases isVoltage <;> rfl
  have hsize : 8 ≤ (spectFormat a u).totalPacketSize := show 8 ≤ 8200 by decide
  rw [hreceive, mmsgPacket]
  rcases synchronize_cases isVoltage hsize (fun _ => 0) { initialReceiver ⟨[], fun _ _ => 0⟩ with
      bufs := recvmmsg (spectFormat a u) [zeroPacket] fun _ _ => 0 } with
    ⟨-, hskips⟩ | ⟨r, hsync, hr, -⟩
  · exact absurd ((headerChannel_dataVector hsize isVoltage _).trans hchan) hskips.2
  · simp only [deliver, hsync]
    exact ⟨pushBack_ne_nil _ _, hr.pcapFileDone⟩

/-- On the voltage path the block faults with the first packet. -/
theorem workMode_voltage_fault {s : SnapSource} (h : s.volt.Idle) (hqueue : s.recv.dLocalqueue ≠ [])
    {noutputItems : ℕ} (hpos : 0 < noutputItems) (ports : ℕ) (liveWork : Bool) :
    workMode true c noutputItems ports liveWork s = .error .outOfBounds := by
  have hwait : ¬(s.recv.stopThread = false ∧ s.recv.pcapFileDone = false ∧
      s.recv.dLocalqueue.length = 0 ∧ s.volt.xVectorQueue = []) :=
    fun hw => hqueue (List.eq_nil_of_length_eq_zero hw.2.2.1)
  have hloop := packetLoop_fault (c := c) h hpos (r := { s.recv with dSendSyncPmt := false })
    hqueue 0
  rw [workMode, if_pos rfl, workVoltMode, if_neg hwait, hloop, error_bind]
  rfl

/-- On the spectrometer path it returns. -/
theorem workMode_spect_ok {s : SnapSource} (hveclen : c.dVeclen = 4096) (h : s.Spectral)
    (hqueue : s.recv.dLocalqueue ≠ []) (noutputItems ports : ℕ) (liveWork : Bool) :
    ∃ r, workMode false c noutputItems ports liveWork s = .ok r := by
  obtain ⟨result, s', hwork, -⟩ := workSpecMode_ok hveclen h (Or.inr (Or.inr hqueue))
    noutputItems ports liveWork
  rw [workMode, if_neg Bool.false_ne_true, hwork]
  exact ⟨_, rfl⟩

/-- One packet and one work call. -/
def tellingEvents : List BlockEvent := [.mmsgReceive [zeroPacket], .work 1 2]

/-- The run comes down to one call with a queued packet. -/
theorem blockRun_telling (isVoltage : Bool) (hs : a.headerType = SNAP_PACKETTYPE_SPECT)
    (hstart : ¬(a.dataSource ≠ DS_PCAP ∧ u.packetsPerFrame = 0)) :
    ∃ b : Block, b.volt.Idle ∧ b.source.Spectral ∧ b.source.recv.dLocalqueue ≠ [] ∧
      blockRun isVoltage (spectFormat a u) u ⟨[], fun _ _ => 0⟩ tellingEvents =
        (workMode isVoltage (spectFormat a u) 1 2 true b.source).map b.after := by
  obtain ⟨hqueue, hdone⟩ := mmsgReceive_zeroPacket isVoltage a u
  refine ⟨⟨mmsgReceive isVoltage (spectFormat a u) [zeroPacket]
    ⟨initialReceiver ⟨[], fun _ _ => 0⟩, [], []⟩, initialVolt 0 0, initialSpect 4096 u.heap, []⟩,
    ⟨rfl, rfl, rfl⟩, ⟨rfl, rfl, rfl, rfl, rfl, rfl, rfl, rfl⟩, hqueue, ?_⟩
  rw [blockRun, start_spectFormat hs, if_neg hstart, ok_bind, tellingEvents,
    Execution.run_cons_ok rfl, Execution.run_singleton, blockStep, work, if_neg]
  exact fun hend => Bool.noConfusion (hdone.symm.trans hend.2.1)

/-- **The paths differ.** On a spectrometer block that starts, the voltage path
faults where the spectrometer path returns. -/
theorem blockRun_telling_differs (hs : a.headerType = SNAP_PACKETTYPE_SPECT)
    (hstart : ¬(a.dataSource ≠ DS_PCAP ∧ u.packetsPerFrame = 0)) :
    blockRun true (spectFormat a u) u ⟨[], fun _ _ => 0⟩ tellingEvents = .error .outOfBounds ∧
      ∃ b, blockRun false (spectFormat a u) u ⟨[], fun _ _ => 0⟩ tellingEvents = .ok b := by
  constructor
  · obtain ⟨b, hidle, -, hqueue, hrun⟩ := blockRun_telling true hs hstart
    rw [hrun, workMode_voltage_fault hidle hqueue one_pos]
    rfl
  · obtain ⟨b, -, hspectral, hqueue, hrun⟩ := blockRun_telling false hs hstart
    obtain ⟨r, hr⟩ := workMode_spect_ok (c := spectFormat a u) rfl hspectral hqueue 1 2 true
    exact ⟨b.after r, by rw [hrun, hr]; rfl⟩

/-- **Header-type dispatch.** The run of a block is the run that follows its header
type, in its outcomes or as a whole, exactly when the header type is that of the
voltage format or the block cannot start. A spectrometer block never delivers
anything. -/
theorem blockRun_follows_headerType_iff (h : construct a u = .ok c) :
    ((∀ env events, blockRun formatTest c u env events =
        blockRun (followsHeaderType c) c u env events) ↔
      a.headerType = SNAP_PACKETTYPE_VOLTAGE ∨ a.dataSource ≠ DS_PCAP ∧ u.packetsPerFrame = 0) ∧
    ((∀ env events, (blockRun formatTest c u env events).map Block.outcomes =
        (blockRun (followsHeaderType c) c u env events).map Block.outcomes) ↔
      a.headerType = SNAP_PACKETTYPE_VOLTAGE ∨ a.dataSource ≠ DS_PCAP ∧ u.packetsPerFrame = 0) ∧
    (a.headerType = SNAP_PACKETTYPE_SPECT → ∀ env events b,
      blockRun formatTest c u env events = .ok b →
        ∀ outcome ∈ b.outcomes, outcome.items = []) := by
  have hfollows (hcond : a.headerType = SNAP_PACKETTYPE_VOLTAGE ∨
      a.dataSource ≠ DS_PCAP ∧ u.packetsPerFrame = 0) (env : Environment)
      (events : List BlockEvent) :
      blockRun formatTest c u env events = blockRun (followsHeaderType c) c u env events := by
    rcases construct_headerType h with ⟨-, htype⟩ | ⟨hs, rfl⟩
    · rw [followsHeaderType, htype]
      rfl
    · rcases hcond with hv | hstart
      · exact absurd (hs.symm.trans hv) (by decide)
      · rw [blockRun, blockRun, start_spectFormat hs, if_pos hstart, error_bind, error_bind]
  have hdiffers (hcond : ¬(a.headerType = SNAP_PACKETTYPE_VOLTAGE ∨
      a.dataSource ≠ DS_PCAP ∧ u.packetsPerFrame = 0)) :
      ¬∀ env events, (blockRun formatTest c u env events).map Block.outcomes =
        (blockRun (followsHeaderType c) c u env events).map Block.outcomes := by
    intro hsame
    obtain ⟨hv, hstart⟩ := not_or.mp hcond
    rcases construct_headerType h with ⟨hv', -⟩ | ⟨hs, rfl⟩
    · exact hv hv'
    · obtain ⟨hfault, b, hok⟩ := blockRun_telling_differs hs hstart
      have := hsame ⟨[], fun _ _ => 0⟩ tellingEvents
      rw [show formatTest = true from rfl, hfault,
        show followsHeaderType (spectFormat a u) = false from decide_eq_false hv, hok] at this
      cases this
  refine ⟨⟨fun hsame => ?_, hfollows⟩, ⟨fun hsame => ?_, fun hcond env events => ?_⟩, ?_⟩
  · exact not_not.mp fun hcond => hdiffers hcond fun env events => by rw [hsame]
  · exact not_not.mp fun hcond => hdiffers hcond hsame
  · rw [hfollows hcond]
  · intro hs env events b hrun
    rcases construct_headerType h with ⟨hv, -⟩ | ⟨-, rfl⟩
    · exact absurd (hs.symm.trans hv) (by decide)
    · exact spect_outcomes_empty hs hrun

/-- The arguments of a spectrometer block on the network. -/
def spectArgs : Args where
  port := 10000
  headerType := SNAP_PACKETTYPE_SPECT
  notifyMissed := false
  startingChannel := 0
  endingChannel := 4095
  dataSource := DS_NETWORK
  file := ""
  fileOpens := false
  repeatFile := false
  packedOutput := false
  sendStartMsg := false

/-- What the members without an initializer happen to hold. -/
def spectUnset : Unset := ⟨false, 1, fun _ => 0⟩

theorem construct_spectArgs :
    construct spectArgs spectUnset = .ok (spectFormat spectArgs spectUnset) := by
  rw [construct, if_neg (by decide), if_neg (by decide), if_neg (by decide), if_neg (by decide)]
  exact if_pos rfl

/-- A packet of zeros and one work call, on a spectrometer block. -/
theorem blockRun_spect_fault :
    construct spectArgs spectUnset = .ok (spectFormat spectArgs spectUnset) ∧
    blockRun formatTest (spectFormat spectArgs spectUnset) spectUnset ⟨[], fun _ _ => 0⟩
      [.mmsgReceive [List.replicate 8200 0], .work 1 2] = .error .outOfBounds ∧
    ∃ b, blockRun (followsHeaderType (spectFormat spectArgs spectUnset))
      (spectFormat spectArgs spectUnset) spectUnset ⟨[], fun _ _ => 0⟩
      [.mmsgReceive [List.replicate 8200 0], .work 1 2] = .ok b :=
  ⟨construct_spectArgs, blockRun_telling_differs rfl (by decide)⟩

theorem blockRun_follows_headerType_iff_spect :
    ¬∀ env events,
      (blockRun formatTest (spectFormat spectArgs spectUnset) spectUnset env events).map
          Block.outcomes =
        (blockRun (followsHeaderType (spectFormat spectArgs spectUnset))
          (spectFormat spectArgs spectUnset) spectUnset env events).map Block.outcomes := by
  intro hsame
  have := (blockRun_follows_headerType_iff construct_spectArgs).2.1.mp hsame
  exact absurd this (by decide)

end GrAta
