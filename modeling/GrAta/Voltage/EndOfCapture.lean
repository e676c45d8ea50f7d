import GrAta.Voltage.BlockRuns
import GrAta.Voltage.Refills

/-!
# The end of a capture

A block that reads a capture reports the end of its work as soon as the capture is
read and the receive queue is empty. What it has taken from the queue by then may
still be in the frame buffer or in the output queues.

## Main definitions

- `FrameLog.frames`: the frames that packets make up
- `VoltageBlock.NothingLost`: all frames were output
- `VoltageBlock.DrainsAtEnd`: a step that does not end the capture with something left

## Main results

- `VoltageBlock.queuePcapData_fits`: a refill fits into the ring
- `VoltageBlock.nothingLost_iff`: what is left when the capture has ended
- `VoltageBlock.capture_complete_iff`: the runs that lose nothing
-/

namespace GrAta

/-- The frames that packets make up: those that were handed on, and the frame that is
being assembled. -/
def FrameLog.frames (onePacket : Bool) (log : FrameLog) : List FrameOrigin :=
  log.pushed.map FramePush.origin ++
    if onePacket = true ∨ log.assembled = [] then [] else [.received log.assembled]

/-- A frame in assembly is not empty. -/
theorem frameLog_assembled_ne_nil {onePacket : Bool} {ps : List Packet} (h : ps ≠ []) :
    (frameLog onePacket ps).assembled ≠ [] := by
  rcases List.eq_nil_or_concat ps with rfl | ⟨qs, p, rfl⟩
  · exact absurd rfl h
  · rw [List.concat_eq_append, frameLog_concat, FrameLog.step, FrameLog.assemble]
    split
    · exact List.cons_ne_nil _ _
    · exact recordCopy_ne_nil _ _

namespace VoltageBlock

variable (B : VoltageBlock)

/-- The steps of a capture: refills, and calls of the work function. -/
def OfCapture : BlockEvent → Prop
  | .queuePcapData minPcapQueueSize => minPcapQueueSize = startMinPcapQueueSize B.cfg
  | .work noutputItems _ => 0 < noutputItems ∧ 16 ∣ noutputItems
  | _ => False

/-- All frames of queued packets and all zero-filled frames have been output, and
nothing is left in the block. -/
structure NothingLost (b : Block) : Prop where
  delivered : ∀ origin ∈ (frameLog B.cfg.bOnePacket b.ingress.placed).frames B.cfg.bOnePacket,
    ∀ t < 16, ∃ item, Output.volt item ∈ outputs b ∧
      item.x = ⟨B.rowData .x origin t, origin, t⟩
  vectorQueue : b.volt.xVectorQueue = []
  vectorBuffer : B.cfg.bOnePacket = false → b.volt.copied = []

/-- Whenever a call returns `WORK_DONE`, nothing is lost. -/
def LosesNothing (env : Environment) (events : List BlockEvent) : Prop :=
  ∀ before, before <+: events → ∀ b, B.blockRun env before = .ok b →
    ∀ noutputItems ports s,
      work formatTest B.cfg noutputItems ports b.source = .ok (.workDone, s) → B.NothingLost b

/-- The rest of the capture is less than a refill and holds no packet for the block. -/
def Exhausted (r : Receiver) : Prop :=
  ((payloads B.cfg r.pcapFile).length : ℤ) < reloadSize B.cfg ∧
    (fromStart true B.cfg r.dFoundStartChannel (payloads B.cfg r.pcapFile)).filter
      (expected true B.cfg) = []

/-- A step that does not end the capture with something left. When a call takes the
last packet of a capture that has been read, each frame is one packet, and all vectors
fit in its output. When a refill finds the end with no packet queued, there was none
at all, or each frame is one packet and no vectors wait. -/
def DrainsAtEnd (b : Block) : BlockEvent → Prop
  | .work noutputItems _ => b.ingress.recv.pcapFileDone = true →
      ∀ ps p, b.ingress.recv.dLocalqueue = ps ++ [p] →
        b.volt.xVectorQueue.length +
            16 * newFrameCount B.cfg.bOnePacket b.volt.dLastTimestamp ps < noutputItems →
        B.cfg.bOnePacket = true ∧
          b.volt.xVectorQueue.length +
            16 * newFrameCount B.cfg.bOnePacket b.volt.dLastTimestamp (ps ++ [p]) ≤ noutputItems
  | .queuePcapData _ => b.ingress.recv.dLocalqueue = [] → B.Exhausted b.ingress.recv →
      b.ingress.placed = [] ∨ (B.cfg.bOnePacket = true ∧ b.volt.xVectorQueue = [])
  | _ => True

/-- A capture run so far: the packets taken from the queue, the entries delivered and
those that wait. -/
structure Accounts (b : Block) (taken : List Packet) (delivered queue : List Queued)
    (items : List OutItem) : Prop where
  consumed : b.ingress.placed = taken ++ b.ingress.recv.dLocalqueue
  inRange : ∀ p ∈ b.ingress.placed, B.InRange p
  shows : B.Shows (frameLog B.cfg.bOnePacket taken) queue b.volt
  frames : delivered ++ queue = (frameLog B.cfg.bOnePacket taken).pushed.flatMap B.queuedItems
  outputs : outputs b = items.map .volt
  vectors : items.map OutItem.untagged = delivered.map (Queued.emitted false)
  room : (b.ingress.recv.dLocalqueue.length : ℤ) <
    startMinPcapQueueSize B.cfg + reloadSize B.cfg
  running : b.ingress.recv.stopThread = false

variable {B} {b b' : Block} {taken : List Packet} {delivered queue : List Queued}
  {items : List OutItem} {env : Environment}

/-- The capture has been read and the receive queue is empty. -/
def AtEnd (b : Block) : Prop :=
  b.ingress.recv.pcapFileDone = true ∧ b.ingress.recv.dLocalqueue = []

/-- `work` returns `WORK_DONE` then, and only then. -/
theorem work_workDone_iff (hpcap : B.cfg.dUsePcap = true) {noutputItems ports : ℕ} :
    (∃ s, work formatTest B.cfg noutputItems ports b.source = .ok (.workDone, s)) ↔ AtEnd b := by
  rw [work]
  constructor
  · rintro ⟨s, hs⟩
    split at hs
    · rename_i hend
      exact ⟨hend.2.1, List.eq_nil_of_length_eq_zero hend.2.2⟩
    · rw [workMode, if_pos (show formatTest = true from rfl)] at hs
      cases hvolt : workVoltMode B.cfg noutputItems true b.source with
      | error f =>
        rw [hvolt] at hs
        cases hs
      | ok r =>
        rw [hvolt] at hs
        cases hs
  · rintro ⟨hdone, hempty⟩
    rw [if_pos ⟨hpcap, hdone, by rw [Block.source, hempty]; rfl⟩]
    exact ⟨_, rfl⟩

/-- **What is left at the end.** In a block of several packets a frame the last frame
is lost, unless no packet was queued at all. -/
theorem nothingLost_iff (h : B.Accounts b taken delivered queue items)
    (hempty : b.ingress.recv.dLocalqueue = []) :
    B.NothingLost b ↔
      b.ingress.placed = [] ∨ (B.cfg.bOnePacket = true ∧ b.volt.xVectorQueue = []) := by
  have htaken : b.ingress.placed = taken := by rw [h.consumed, hempty, List.append_nil]
  have hqueue : b.volt.xVectorQueue = [] ↔ queue = [] := by
    rw [h.shows.xQueue, List.map_eq_nil_iff]
  have hitem : ∀ q ∈ delivered, ∃ item, Output.volt item ∈ outputs b ∧ item.x = q.x := by
    intro q hq
    have hx : items.map OutItem.x = delivered.map Queued.x := by
      have := congrArg (List.map OutItem.x) h.vectors
      simpa [Function.comp_def, OutItem.untagged, Queued.emitted] using this
    obtain ⟨item, hitem, hx⟩ := List.mem_map.mp (hx ▸ List.mem_map_of_mem hq)
    exact ⟨item, by rw [h.outputs]; exact List.mem_map_of_mem hitem, hx⟩
  constructor
  · intro hlost
    cases hone : B.cfg.bOnePacket with
    | true => exact Or.inr ⟨rfl, hlost.vectorQueue⟩
    | false =>
      left
      by_contra hplaced
      have hcopied := hlost.vectorBuffer hone
      rw [h.shows.copied] at hcopied
      exact frameLog_assembled_ne_nil (htaken ▸ hplaced) hcopied
  · rintro (hnone | ⟨hone, hvectors⟩)
    · obtain rfl : taken = [] := htaken.symm.trans hnone
      have hframes := h.frames
      rw [frameLog_nil] at hframes
      obtain ⟨-, rfl⟩ := List.append_eq_nil_iff.mp hframes
      refine ⟨?_, hqueue.mpr rfl, fun _ => h.shows.copied⟩
      rw [hnone]
      intro origin horigin
      simp [FrameLog.frames, FrameLog.empty] at horigin
    · refine ⟨fun origin horigin t ht => ?_, hvectors, fun hmulti => ?_⟩
      · rw [htaken, FrameLog.frames, if_pos (Or.inl hone), List.append_nil] at horigin
        obtain ⟨f, hf, rfl⟩ := List.mem_map.mp horigin
        have hframes := h.frames
        rw [hqueue.mp hvectors, List.append_nil] at hframes
        have hrow : B.queuedRow f t ∈ delivered := by
          rw [hframes]
          exact List.mem_flatMap.mpr ⟨f, hf, List.mem_map_of_mem (List.mem_range.mpr ht)⟩
        exact hitem _ hrow
      · rw [hone] at hmulti
        cases hmulti

-- ════════════════════════════════════════════════════════════════════════
-- Refills
-- ════════════════════════════════════════════════════════════════════════

/-- A refill of a block fits into the ring. -/
theorem queuePcapData_fits (B : VoltageBlock) {s : Ingress}
    (hroom : (s.recv.dLocalqueue.length : ℤ) < startMinPcapQueueSize B.cfg + reloadSize B.cfg)
    (capture : List Record) :
    Fits s (queuePcapData true B.cfg capture (startMinPcapQueueSize B.cfg) s) := by
  have hone := B.one_le_packets
  have hmost := B.packets_le
  have hreload : 0 ≤ reloadSize B.cfg := by
    rw [B.reloadSize_eq]
    omega
  have hplaced := @queuePcapData_placed_le true B.cfg capture hreload
    (startMinPcapQueueSize B.cfg) s
  rw [B.reloadSize_eq, B.startMinPcapQueueSize_eq] at hroom hplaced
  rw [Fits, B.startMinPcapQueueSize_eq]
  unfold MAX_NET_CIRC_BUFFER
  rcases hplaced with hsame | hmore
  · rw [hsame]
    omega
  · omega

/-- A block after a refill. -/
def refilled (B : VoltageBlock) (capture : List Record) (b : Block) : Block where
  ingress := queuePcapData true B.cfg capture (startMinPcapQueueSize B.cfg) b.ingress
  volt := b.volt
  spect := b.spect
  outcomes := b.outcomes

/-- A refill queues packets in range behind those that wait. -/
theorem Accounts.refill (h : B.Accounts b taken delivered queue items) (capture : List Record) :
    ∃ arrived, B.Accounts (B.refilled capture b) taken delivered queue items ∧
      (B.refilled capture b).ingress.placed = b.ingress.placed ++ arrived ∧
      (B.refilled capture b).ingress.recv.dLocalqueue =
        b.ingress.recv.dLocalqueue ++ arrived := by
  have hfits := B.queuePcapData_fits h.room capture
  obtain ⟨arrived, sync, hplaced, hreceives⟩ :=
    collects_queuePcapData B.cfg capture (startMinPcapQueueSize B.cfg) b.ingress
  have hqueue := (hreceives hfits).queue
  have hstop := (hreceives hfits).stopThread
  have hnew : ∀ p ∈ arrived, B.InRange p := by
    obtain ⟨read, rest, hreads, -⟩ := queuePcapData_handled true B.eight_le_totalPacketSize capture
      (startMinPcapQueueSize B.cfg) b.ingress
    have := hplaced.symm.trans hreads.handled.placed
    rw [List.append_cancel_left this]
    exact fun p hp => B.expected_iff.mp (List.mem_filter.mp hp).2
  have hreload : 0 ≤ reloadSize B.cfg := by
    rw [B.reloadSize_eq]
    omega
  refine ⟨arrived, { h with consumed := ?_, inRange := ?_, room := ?_, running := ?_ }, hplaced,
    hqueue⟩
  · simp only [refilled]
    rw [hplaced, hqueue, h.consumed, List.append_assoc]
  · simp only [refilled]
    rw [hplaced]
    exact List.forall_mem_append.mpr ⟨h.inRange, hnew⟩
  · have hroom := h.room
    have hsize := @queuePcapData_placed_le true B.cfg capture hreload
      (startMinPcapQueueSize B.cfg) b.ingress
    rw [hplaced, List.length_append] at hsize
    simp only [refilled]
    rw [hqueue, List.length_append]
    rcases hsize with hsame | hmore
    · rw [List.append_right_eq_self.mp hsame, List.length_nil]
      omega
    · omega
  · exact hstop.trans h.running

/-- A refill that finds the queue empty reads the capture to its end when less than a
refill is left. Then it queues all that the block is to have of it. -/
theorem refilled_done (hrepeat : B.cfg.dRepeatFile = false)
    (h : B.Accounts b taken delivered queue items) (hempty : b.ingress.recv.dLocalqueue = [])
    (hdone : b.ingress.recv.pcapFileDone = false) (capture : List Record) :
    ((B.refilled capture b).ingress.recv.pcapFileDone = true ↔
      ((payloads B.cfg b.ingress.recv.pcapFile).length : ℤ) < reloadSize B.cfg) ∧
    ((B.refilled capture b).ingress.recv.pcapFileDone = true →
      (B.refilled capture b).ingress.placed = b.ingress.placed ++
        (fromStart true B.cfg b.ingress.recv.dFoundStartChannel
          (payloads B.cfg b.ingress.recv.pcapFile)).filter (expected true B.cfg)) := by
  obtain ⟨read, rest, ended, s', hloop, hreads, hfile, hkept, hrest⟩ :=
    pcapLoop_reads true B.eight_le_totalPacketSize b.ingress.recv.pcapFile 0 b.ingress
  have hended := @pcapLoop_ended true B.cfg B.eight_le_totalPacketSize b.ingress.recv.pcapFile 0
    b.ingress h.running
  have hmin : (b.ingress.recv.dLocalqueue.length : ℤ) < startMinPcapQueueSize B.cfg := by
    have := B.one_le_packets
    rw [hempty, B.startMinPcapQueueSize_eq, List.length_nil]
    omega
  simp only [refilled]
  rw [queuePcapData, if_pos hmin, hloop]
  rw [hloop, Int.zero_add] at hended
  rw [← hended]
  cases ended with
  | false =>
    have hstill : s'.recv.pcapFileDone = false := hkept.trans hdone
    simp only [Bool.false_eq_true, if_false, hstill, true_and, false_implies]
  | true =>
    have hall := hreads.complete h.running
    rw [hrest rfl, show payloads B.cfg [] = [] from rfl, List.append_nil] at hall
    simp only [if_true, hrepeat, Bool.false_eq_true, if_false, true_and, true_implies]
    rw [hreads.handled.placed, hall]

/-- When a refill ends the capture with an empty queue. -/
theorem refill_atEnd_iff (hrepeat : B.cfg.dRepeatFile = false)
    (h : B.Accounts b taken delivered queue items) (hempty : b.ingress.recv.dLocalqueue = [])
    (hdone : b.ingress.recv.pcapFileDone = false) (capture : List Record) :
    AtEnd (B.refilled capture b) ↔ B.Exhausted b.ingress.recv := by
  obtain ⟨arrived, -, hplaced, hqueue⟩ := h.refill capture
  obtain ⟨hfew, hall⟩ := refilled_done hrepeat h hempty hdone capture
  rw [hempty, List.nil_append] at hqueue
  rw [AtEnd, Exhausted, hqueue, ← hfew]
  refine and_congr_right fun hread => ?_
  rw [List.append_cancel_left (hplaced.symm.trans (hall hread))]

-- ════════════════════════════════════════════════════════════════════════
-- Calls of the work function
-- ════════════════════════════════════════════════════════════════════════

/-- The packet loop changes nothing of the receiver but the queue. -/
theorem packetLoop_recv {c : Config} {noutputItems : ℕ} : ∀ {n : ℕ} {r : Receiver}
    {acc : VoltState × ℤ} {looped : Receiver × VoltState × ℤ},
    packetLoop c noutputItems n (r, acc) = .ok looped →
    ∃ rest, looped.1 = { r with dLocalqueue := rest } := by
  intro n
  induction n with
  | zero =>
    intro r acc looped h
    cases h
    exact ⟨r.dLocalqueue, rfl⟩
  | succ n ih =>
    intro r acc looped h
    rw [packetLoop] at h
    split at h
    · cases hqueue : r.dLocalqueue with
      | nil => simp only [fillLocalBuffer, hqueue, error_bind, reduceCtorEq] at h
      | cons p rest =>
        simp only [fillLocalBuffer, hqueue, ok_bind] at h
        cases hp : processPacket c acc p with
        | error f =>
          rw [hp, error_bind] at h
          cases h
        | ok acc' =>
          rw [hp, ok_bind] at h
          obtain ⟨rest', hrest⟩ := ih h
          exact ⟨rest', hrest⟩
    · cases h
      exact ⟨r.dLocalqueue, rfl⟩

/-- A call leaves the end of the capture and the stop flag alone. -/
theorem workVoltMode_recv {c : Config} {noutputItems : ℕ} {live : Bool} {s s' : SnapSource}
    {result : WorkResult} (h : workVoltMode c noutputItems live s = .ok (result, s')) :
    s'.recv.pcapFileDone = s.recv.pcapFileDone ∧ s'.recv.stopThread = s.recv.stopThread := by
  rw [workVoltMode] at h
  split at h
  · cases h
    exact ⟨rfl, rfl⟩
  · cases hloop : packetLoop c noutputItems s.recv.dLocalqueue.length
      ({ s.recv with dSendSyncPmt := false }, s.volt, 0) with
    | error f =>
      rw [hloop] at h
      cases h
    | ok looped =>
      obtain ⟨rest, hrest⟩ := packetLoop_recv hloop
      rw [hloop] at h
      simp only [ok_bind] at h
      cases hemit : emitItems c live (min noutputItems looped.2.1.xVectorQueue.length)
          looped.2.1 with
      | error f =>
        rw [hemit] at h
        cases h
      | ok emitted =>
        rw [hemit] at h
        cases h
        simp only [hrest, and_self]

/-- A block after a call that did some work. -/
theorem Accounts.after (h : B.Accounts b taken delivered queue items) {noutput : ℕ}
    {more : List Packet} {result : WorkResult} {s' : SnapSource}
    (hserves :
      B.Serves (frameLog B.cfg.bOnePacket taken) queue noutput true b.source more result s')
    (hstop : s'.recv.stopThread = b.ingress.recv.stopThread) :
    B.Accounts (b.after (.ofVolt result, s')) (taken ++ more)
      (delivered ++ (queue ++ ((frameLog B.cfg.bOnePacket taken).framesFrom B.cfg.bOnePacket
        more).flatMap B.queuedItems).take noutput)
      ((queue ++ ((frameLog B.cfg.bOnePacket taken).framesFrom B.cfg.bOnePacket
        more).flatMap B.queuedItems).drop noutput) (items ++ result.items) := by
  have hqueue : b.ingress.recv.dLocalqueue = more ++ s'.recv.dLocalqueue := hserves.consumed
  exact
    { consumed := by
        rw [List.append_assoc, Block.after, ← hqueue]
        exact h.consumed
      inRange := h.inRange
      shows := by
        rw [frameLog_append]
        exact hserves.shows
      frames := by
        rw [List.append_assoc, List.take_append_drop, ← List.append_assoc, h.frames,
          frameLog_append, FrameLog.foldl_pushed, List.flatMap_append]
      outputs := by
        rw [VoltageBlock.outputs, Block.after, List.flatMap_append, List.map_append, ← h.outputs]
        simp [VoltageBlock.outputs, Outcome.items, Outcome.ofVolt]
      vectors := by
        rw [List.map_append, List.map_append, h.vectors, hserves.items, List.map_map]
        rfl
      room := by
        have hroom := h.room
        rw [hqueue, List.length_append] at hroom
        simp only [Block.after]
        omega
      running := hstop.trans h.running }

/-- **One call of the work function.** At the end of the capture it changes nothing.
Before, it serves the queue. -/
theorem Accounts.work (h : B.Accounts b taken delivered queue items) {noutputItems ports : ℕ}
    {capture : List Record} (hpcap : B.cfg.dUsePcap = true)
    (hstep : blockStep formatTest B.cfg capture b (.work noutputItems ports) = .ok b') :
    (AtEnd b ∧ b' = b.after (.workDone, b.source)) ∨
      (¬AtEnd b ∧ ∃ more result s', b' = b.after (.ofVolt result, s') ∧
        B.Serves (frameLog B.cfg.bOnePacket taken) queue noutputItems true b.source more result s' ∧
        s'.recv.pcapFileDone = b.ingress.recv.pcapFileDone ∧
        s'.recv.stopThread = b.ingress.recv.stopThread) := by
  rw [blockStep, GrAta.work] at hstep
  split at hstep
  · rename_i hend
    cases hstep
    exact Or.inl ⟨⟨hend.2.1, List.eq_nil_of_length_eq_zero hend.2.2⟩, rfl⟩
  · rename_i hend
    right
    refine ⟨fun hatEnd => hend ⟨hpcap, hatEnd.1, ?_⟩, ?_⟩
    · rw [Block.source, hatEnd.2]
      rfl
    · have hrange : ∀ p ∈ b.source.recv.dLocalqueue, B.InRange p := by
        intro p hp
        refine h.inRange p ?_
        rw [h.consumed]
        exact List.mem_append_right _ hp
      rw [workMode, if_pos (show formatTest = true from rfl)] at hstep
      rcases B.workVoltMode_outcome (s := b.source) h.shows hrange noutputItems true with
        ⟨hloop, -⟩ | ⟨more, result, s', hwork, hserves⟩
      · rw [hloop] at hstep
        cases hstep
      · rw [hwork] at hstep
        cases hstep
        obtain ⟨hdone, hstop⟩ := workVoltMode_recv hwork
        exact ⟨more, result, s', rfl, hserves, hdone, hstop⟩

/-- The end of the capture changes nothing of a block. -/
theorem Accounts.workDone (h : B.Accounts b taken delivered queue items) :
    B.Accounts (b.after (.workDone, b.source)) taken delivered queue items :=
  { h with
    outputs := by
      rw [VoltageBlock.outputs, Block.after, List.flatMap_append, ← h.outputs]
      exact List.append_nil _ }

/-- **Every step keeps the accounts.** -/
theorem Accounts.step (h : B.Accounts b taken delivered queue items) {capture : List Record}
    (hpcap : B.cfg.dUsePcap = true) {e : BlockEvent} (he : B.OfCapture e)
    (hstep : blockStep formatTest B.cfg capture b e = .ok b') :
    ∃ taken' delivered' queue' items', B.Accounts b' taken' delivered' queue' items' := by
  cases e with
  | queuePcapData minPcapQueueSize =>
    obtain rfl : minPcapQueueSize = startMinPcapQueueSize B.cfg := he
    cases hstep
    obtain ⟨-, h', -⟩ := h.refill capture
    exact ⟨_, _, _, _, h'⟩
  | work noutputItems ports =>
    rcases h.work hpcap hstep with ⟨-, rfl⟩ | ⟨-, more, result, s', rfl, hserves, -, hstop⟩
    · exact ⟨_, _, _, _, h.workDone⟩
    · exact ⟨_, _, _, _, h.after hserves hstop⟩
  | mmsgReceive datagrams => exact he.elim
  | handleSyncMsg msg => exact he.elim
  | workTest noutputItems ports => exact he.elim
  | stop => exact he.elim

/-- Nothing is left when the capture has ended. -/
def Settled (B : VoltageBlock) (b : Block) : Prop :=
  b.ingress.placed = [] ∨ (B.cfg.bOnePacket = true ∧ b.volt.xVectorQueue = [])

/-- The condition for a refill is that it does not end the capture too early. -/
theorem drainsAtEnd_refill_iff (hrepeat : B.cfg.dRepeatFile = false)
    (h : B.Accounts b taken delivered queue items) (hsettled : AtEnd b → B.Settled b)
    (capture : List Record) :
    B.DrainsAtEnd b (.queuePcapData (startMinPcapQueueSize B.cfg)) ↔
      (AtEnd (B.refilled capture b) → B.Settled (B.refilled capture b)) := by
  obtain ⟨arrived, -, hplaced, hqueue⟩ := h.refill capture
  by_cases hempty : b.ingress.recv.dLocalqueue = []
  · -- a refill that finds nothing leaves the rest of the block alone
    have hsame : AtEnd (B.refilled capture b) →
        (B.Settled (B.refilled capture b) ↔ B.Settled b) := by
      intro hend
      have hnone : arrived = [] := by
        have := hend.2
        rwa [hqueue, hempty, List.nil_append] at this
      rw [Settled, hplaced, hnone, List.append_nil]
      rfl
    cases hdone : b.ingress.recv.pcapFileDone with
    | true =>
      have hb := hsettled ⟨hdone, hempty⟩
      exact ⟨fun _ hend => (hsame hend).mpr hb, fun _ _ _ => hb⟩
    | false =>
      have hend := refill_atEnd_iff hrepeat h hempty hdone capture
      constructor
      · exact fun hdrains hatEnd => (hsame hatEnd).mpr (hdrains hempty (hend.mp hatEnd))
      · exact fun hnext _ hexhausted =>
          (hsame (hend.mpr hexhausted)).mp (hnext (hend.mpr hexhausted))
  · constructor
    · intro _ hend
      have := hend.2
      rw [hqueue] at this
      exact absurd (List.append_eq_nil_iff.mp this).1 hempty
    · exact fun _ hnil => absurd hnil hempty

/-- What a call that takes all packets leaves behind. -/
theorem Accounts.settled_after_iff (h : B.Accounts b taken delivered queue items) {noutput : ℕ}
    {more : List Packet} {result : WorkResult} {s' : SnapSource}
    (hserves :
      B.Serves (frameLog B.cfg.bOnePacket taken) queue noutput true b.source more result s')
    (hstop : s'.recv.stopThread = b.ingress.recv.stopThread) {ps : List Packet} {p : Packet}
    (hqueue : b.ingress.recv.dLocalqueue = ps ++ [p]) (hnone : s'.recv.dLocalqueue = []) :
    B.Settled (b.after (.ofVolt result, s')) ↔ B.cfg.bOnePacket = true ∧
      b.volt.xVectorQueue.length + 16 * newFrameCount B.cfg.bOnePacket b.volt.dLastTimestamp
        (ps ++ [p]) ≤ noutput := by
  have h' := h.after hserves hstop
  have hlast : b.volt.dLastTimestamp = (frameLog B.cfg.bOnePacket taken).last := h.shows.last
  have hxs : b.volt.xVectorQueue.length = queue.length := by
    rw [h.shows.xQueue, List.length_map]
  have hplaced : b.ingress.placed ≠ [] := by
    rw [h.consumed, hqueue]
    simp
  have hmore : more = ps ++ [p] := by
    have hconsumed := hserves.consumed
    rw [hnone, List.append_nil] at hconsumed
    exact hconsumed.symm.trans hqueue
  have hvectors : (b.after (.ofVolt result, s')).volt.xVectorQueue = [] ↔
      b.volt.xVectorQueue.length + 16 * newFrameCount B.cfg.bOnePacket b.volt.dLastTimestamp
        (ps ++ [p]) ≤ noutput := by
    rw [h'.shows.xQueue, List.map_eq_nil_iff, List.drop_eq_nil_iff, List.length_append,
      rows_length, hxs, hlast, hmore]
  rw [Settled, hvectors]
  exact or_iff_right hplaced

/-- The condition for a call is that it does not end the capture too early. -/
theorem drainsAtEnd_work_iff (hpcap : B.cfg.dUsePcap = true)
    (h : B.Accounts b taken delivered queue items) (hsettled : AtEnd b → B.Settled b)
    {capture : List Record} {noutputItems ports : ℕ}
    (hstep : blockStep formatTest B.cfg capture b (.work noutputItems ports) = .ok b') :
    B.DrainsAtEnd b (.work noutputItems ports) ↔ (AtEnd b' → B.Settled b') := by
  rcases h.work hpcap hstep with ⟨hend, rfl⟩ |
    ⟨hgoes, more, result, s', rfl, hserves, hdone, hstop⟩
  · constructor
    · exact fun _ _ => hsettled hend
    · intro _ _ ps p hqueue
      exact absurd (hqueue.symm.trans hend.2) (by simp)
  · have hlast : b.volt.dLastTimestamp = (frameLog B.cfg.bOnePacket taken).last := h.shows.last
    have hxs : b.volt.xVectorQueue.length = queue.length := by
      rw [h.shows.xQueue, List.length_map]
    -- the capture ends with this call if it takes the last packet
    have hatEnd : AtEnd (b.after (.ofVolt result, s')) ↔
        b.ingress.recv.pcapFileDone = true ∧ s'.recv.dLocalqueue = [] := by
      rw [← hdone]
      rfl
    rw [hatEnd]
    rcases List.eq_nil_or_concat b.ingress.recv.dLocalqueue with hempty | ⟨ps, p, hqueue⟩
    · constructor
      · exact fun _ hend => absurd ⟨hend.1, hempty⟩ hgoes
      · intro _ _ ps p hqueue
        exact absurd (hqueue.symm.trans hempty) (by simp)
    · rw [List.concat_eq_append] at hqueue
      have hall := hserves.all_iff hqueue
      constructor
      · rintro hdrains ⟨hread, hnone⟩
        refine (h.settled_after_iff hserves hstop hqueue hnone).mpr
          (hdrains hread ps p hqueue ?_)
        rw [hxs, hlast]
        exact hall.mp hnone
      · intro hnext hread qs q hqs hfew
        obtain ⟨rfl, hq⟩ := List.append_inj' (hqueue.symm.trans hqs) rfl
        obtain rfl : p = q := List.singleton_inj.mp hq
        rw [hxs, hlast] at hfew
        have hnone := hall.mpr hfew
        exact (h.settled_after_iff hserves hstop hqueue hnone).mp (hnext ⟨hread, hnone⟩)

/-- What the receive thread starts with. -/
theorem start_recv {c : Config} {u : Unset} {s : SnapSource} (h : start c u env = .ok s) :
    s.recv = initialReceiver env := by
  rw [start] at h
  split_ifs at h <;> cases h <;> rfl

/-- A capture starts with empty accounts. -/
theorem start_accounts (B : VoltageBlock) {env : Environment}
    (hrun : B.blockRun env [] = .ok b) :
    B.Accounts b [] [] [] [] ∧ b.ingress.recv.pcapFileDone = false := by
  obtain ⟨s, hs, -, htracks⟩ := B.start_tracks env
  have hrecv : s.recv.pcapFileDone = false ∧ s.recv.stopThread = false := by
    rw [start_recv hs]
    exact ⟨rfl, rfl⟩
  rw [blockRun, GrAta.blockRun, hs] at hrun
  cases hrun
  have hone := B.one_le_packets
  refine ⟨?_, hrecv.1⟩
  exact
    { consumed := htracks.consumed
      inRange := by simp
      shows := htracks.shows
      frames := rfl
      outputs := rfl
      vectors := rfl
      room := by
        have hqueue : s.recv.dLocalqueue = [] := htracks.consumed.symm
        simp only [hqueue, List.length_nil]
        rw [B.startMinPcapQueueSize_eq, B.reloadSize_eq]
        omega
      running := hrecv.2 }

/-- Every run of refills and calls that returns keeps the accounts. -/
theorem run_accounts (hpcap : B.cfg.dUsePcap = true) {events : List BlockEvent}
    (hevents : ∀ e ∈ events, B.OfCapture e) (hrun : B.blockRun env events = .ok b) :
    ∃ taken delivered queue items, B.Accounts b taken delivered queue items := by
  induction events using List.reverseRecOn generalizing b with
  | nil => exact ⟨_, _, _, _, (B.start_accounts hrun).1⟩
  | append_singleton events e ih =>
    obtain ⟨b₁, hb₁, hstep⟩ := blockRun_split hrun
    obtain ⟨_, _, _, _, h₁⟩ := ih (fun e' he' => hevents e' (by simp [he'])) hb₁
    exact h₁.step hpcap (hevents e (by simp)) hstep

/-- What `nothingLost_iff` says at the end of the capture. -/
theorem losesNothing_iff (hpcap : B.cfg.dUsePcap = true) {events : List BlockEvent}
    (hevents : ∀ e ∈ events, B.OfCapture e) :
    B.LosesNothing env events ↔
      ∀ before, before <+: events → ∀ b, B.blockRun env before = .ok b →
        AtEnd b → B.Settled b := by
  constructor
  · intro hnothing before hbefore b hrun hend
    obtain ⟨_, _, _, _, h⟩ := run_accounts hpcap (fun e he => hevents e (hbefore.subset he)) hrun
    obtain ⟨s, hwork⟩ := (@work_workDone_iff B b hpcap 16 1).mpr hend
    exact (nothingLost_iff h hend.2).mp (hnothing before hbefore b hrun 16 1 s hwork)
  · intro hsettled before hbefore b hrun noutputItems ports s hwork
    obtain ⟨_, _, _, _, h⟩ := run_accounts hpcap (fun e he => hevents e (hbefore.subset he)) hrun
    have hend := (work_workDone_iff hpcap).mp ⟨s, hwork⟩
    exact (nothingLost_iff h hend.2).mpr (hsettled before hbefore b hrun hend)

variable (B) in
/-- **The runs that lose nothing.** Whenever `work` returns `WORK_DONE`, all frames of
the capture have been output, if and only if no step of the run ends the capture with
something left in the block. -/
theorem capture_complete_iff (hpcap : B.cfg.dUsePcap = true) (hrepeat : B.cfg.dRepeatFile = false)
    (env : Environment) {events : List BlockEvent} (hevents : ∀ e ∈ events, B.OfCapture e) :
    B.LosesNothing env events ↔
      ∀ before e, before ++ [e] <+: events → ∀ b b', B.blockRun env before = .ok b →
        B.blockRun env (before ++ [e]) = .ok b' → B.DrainsAtEnd b e := by
  -- one step
  have hiff : ∀ before e, before ++ [e] <+: events → ∀ b b', B.blockRun env before = .ok b →
      B.blockRun env (before ++ [e]) = .ok b' → (AtEnd b → B.Settled b) →
      (B.DrainsAtEnd b e ↔ (AtEnd b' → B.Settled b')) := by
    intro before e hbefore b b' hrun hrun' hsettled
    have he : B.OfCapture e := hevents e (hbefore.subset (by simp))
    obtain ⟨_, _, _, _, h⟩ := run_accounts hpcap
      (fun e' he' => hevents e' (hbefore.subset (List.mem_append_left _ he'))) hrun
    rw [blockRun_concat hrun] at hrun'
    cases e with
    | queuePcapData minPcapQueueSize =>
      obtain rfl : minPcapQueueSize = startMinPcapQueueSize B.cfg := he
      cases hrun'
      exact drainsAtEnd_refill_iff hrepeat h hsettled env.capture
    | work noutputItems ports => exact drainsAtEnd_work_iff hpcap h hsettled hrun'
    | mmsgReceive datagrams => exact he.elim
    | handleSyncMsg msg => exact he.elim
    | workTest noutputItems ports => exact he.elim
    | stop => exact he.elim
  rw [losesNothing_iff hpcap hevents]
  constructor
  · intro hsettled before e hbefore b b' hrun hrun'
    have hfirst := hsettled before ((List.prefix_append _ _).trans hbefore) b hrun
    exact (hiff before e hbefore b b' hrun hrun' hfirst).mpr
      (hsettled (before ++ [e]) hbefore b' hrun')
  · intro hdrains before
    induction before using List.reverseRecOn with
    | nil =>
      intro _ b hrun hend
      have hdone := (B.start_accounts hrun).2
      rw [hend.1] at hdone
      cases hdone
    | append_singleton before e ih =>
      intro hbefore b' hrun'
      obtain ⟨b, hrun, -⟩ := blockRun_split hrun'
      have hfirst := ih ((List.prefix_append _ _).trans hbefore) b hrun
      exact (hiff before e hbefore b b' hrun hrun' hfirst).mp
        (hdrains before e hbefore b b' hrun hrun')

-- ════════════════════════════════════════════════════════════════════════
-- A capture of one packet
-- ════════════════════════════════════════════════════════════════════════

/-- The capture of one packet of a channel. -/
def captureOf (p : Packet) : Environment := ⟨[capturedFrame 10000 p], fun _ _ => 0⟩

/-- A refill queues the packet and finds the end. -/
theorem captureOf_refill (hrepeat : B.cfg.dRepeatFile = false)
    (hport : B.cfg.dPort = (10000 : ℕ)) {p : Packet} (hsize : p.length = 8208)
    (hp : B.InRange p) (hstart : channel p = B.firstChannel) :
    ∃ b₀ b, B.blockRun (captureOf p) [] = .ok b₀ ∧ b₀.ingress.placed = [] ∧
      B.blockRun (captureOf p) [.queuePcapData (startMinPcapQueueSize B.cfg)] = .ok b ∧
      B.Accounts b [] [] [] [] ∧ b.ingress.recv.dLocalqueue = [p] ∧
      b.ingress.recv.pcapFileDone = true := by
  obtain ⟨s, hs, -⟩ := B.start_tracks (captureOf p)
  have hb₀ : B.blockRun (captureOf p) [] = .ok ⟨⟨s.recv, [], []⟩, s.volt, s.spect, []⟩ := by
    rw [blockRun, GrAta.blockRun, hs, ok_bind]
    rfl
  obtain ⟨h₀, hdone₀⟩ := B.start_accounts hb₀
  have hrecv := start_recv hs
  have hfull := B.totalPacketSize_eq
  have hpayloads : payloads B.cfg (captureOf p).capture = [p] := by
    have hall : ∀ q ∈ [p], q.length = B.cfg.totalPacketSize := by
      rw [hfull]
      exact List.forall_mem_singleton.mpr hsize
    exact payloads_capturedFrame hport (by decide) (by rw [hfull]; decide) hall
  have hkept : (fromStart true B.cfg false [p]).filter (expected true B.cfg) = [p] := by
    have hfirst : ¬Skips true B.cfg false p := fun hskips => hskips.2 hstart
    rw [fromStart_cons_of_not hfirst, List.filter_singleton, B.expected_iff.mpr hp]
    rfl
  have hempty : s.recv.dLocalqueue = [] := by
    rw [hrecv]
    rfl
  have hfile : payloads B.cfg s.recv.pcapFile = [p] := by
    rw [hrecv]
    exact hpayloads
  have hfound : s.recv.dFoundStartChannel = false := by
    rw [hrecv]
    rfl
  obtain ⟨hfew, hall⟩ := refilled_done hrepeat h₀ hempty hdone₀ (captureOf p).capture
  obtain ⟨arrived, h, hplaced, hqueue⟩ := h₀.refill (captureOf p).capture
  simp only [hfile, hfound, hkept, List.nil_append, List.length_singleton] at hfew hall
  simp only [hempty, List.nil_append] at hplaced hqueue
  have hread := hfew.mpr (by
    have hone := B.one_le_packets
    rw [B.reloadSize_eq]
    omega)
  exact ⟨_, _, hb₀, rfl, blockRun_concat hb₀ _, h, hqueue.trans (hplaced.symm.trans (hall hread)),
    hread⟩

/-- A call takes the packet, and the capture has ended. -/
theorem captureOf_work {p : Packet} (hp : B.InRange p)
    (h : B.Accounts b [] [] [] []) (hqueue : b.ingress.recv.dLocalqueue = [p])
    (hdone : b.ingress.recv.pcapFileDone = true) (capture : List Record) :
    ∃ b', blockStep formatTest B.cfg capture b (.work 16 1) = .ok b' ∧ AtEnd b' ∧
      b'.ingress.placed = b.ingress.placed := by
  have hrange : ∀ q ∈ b.source.recv.dLocalqueue, B.InRange q := by
    rw [show b.source.recv.dLocalqueue = [p] from hqueue]
    exact List.forall_mem_singleton.mpr hp
  rcases B.workVoltMode_outcome (s := b.source) h.shows hrange 16 true with
    ⟨-, hends⟩ | ⟨more, result, s', hwork, hserves⟩
  · refine absurd ?_ hends
    rw [show b.source.recv.dLocalqueue = [p] from hqueue]
    exact ⟨fun hgap => absurd hgap.1 (Nat.lt_irrefl 0), trivial⟩
  · refine ⟨b.after (.ofVolt result, s'), ?_, ⟨(workVoltMode_recv hwork).1.trans hdone, ?_⟩, rfl⟩
    · rw [blockStep, GrAta.work, if_neg fun hend => ?_, workMode,
        if_pos (show formatTest = true from rfl), hwork]
      · rfl
      · have hnone : b.ingress.recv.dLocalqueue.length = 0 := hend.2.2
        rw [hqueue] at hnone
        cases hnone
    · have hone : b.source.recv.dLocalqueue = [] ++ [p] := hqueue
      exact (hserves.all_iff hone).mpr (by simp [newFrameCount, FrameLog.framesFrom])

/-- A block of two packets a frame that reads a capture. -/
def doubleCapture : VoltageBlock := (ofWidth 2 (by decide) (by decide) false).fromCapture

/-- The last frame of a capture stays in the frame buffer of a block of two packets a
frame. -/
theorem capture_incomplete :
    ¬doubleCapture.LosesNothing (captureOf (plainPacket 0 16))
      [.queuePcapData 32, .work 16 1] := by
  have hp : doubleCapture.InRange (plainPacket 0 16) :=
    ofWidth_inRange (n := 2) (by decide) (by decide) false two_pos 16
  obtain ⟨-, b, -, -, hrun, h, hqueue, hdone⟩ := @captureOf_refill doubleCapture rfl rfl _
    (plainPacket_length 0 16) hp (channel_plainPacket (by decide) 16)
  obtain ⟨b', hstep, hend, hplaced⟩ := captureOf_work hp h hqueue hdone
    (captureOf (plainPacket 0 16)).capture
  have hrun' := (blockRun_concat hrun (.work 16 1)).trans hstep
  have hevents : ∀ e ∈ [.queuePcapData 32, .work 16 1], doubleCapture.OfCapture e :=
    List.forall_mem_cons.mpr ⟨rfl, List.forall_mem_singleton.mpr ⟨by decide, dvd_rfl⟩⟩
  rw [losesNothing_iff rfl hevents]
  intro hsettled
  rcases hsettled _ List.prefix_rfl b' hrun' hend with hnone | ⟨hone, -⟩
  · rw [hplaced, h.consumed, hqueue] at hnone
    cases hnone
  · cases hone

/-- In a block of one packet a frame the capture of one packet is output as a whole. -/
theorem capture_complete_iff_single :
    single.fromCapture.LosesNothing (captureOf (plainPacket 0 16))
      [.queuePcapData 16, .work 16 1] := by
  have hp : single.fromCapture.InRange (plainPacket 0 16) :=
    ofWidth_inRange le_rfl (by decide) false one_pos 16
  obtain ⟨b₀, b, hrun₀, hplaced, hrun, h, hqueue, hdone⟩ := @captureOf_refill single.fromCapture
    rfl rfl _ (plainPacket_length 0 16) hp (channel_plainPacket (by decide) 16)
  have hevents : ∀ e ∈ [.queuePcapData 16, .work 16 1], single.fromCapture.OfCapture e :=
    List.forall_mem_cons.mpr ⟨rfl, List.forall_mem_singleton.mpr ⟨by decide, dvd_rfl⟩⟩
  refine (single.fromCapture.capture_complete_iff rfl rfl _ hevents).mpr ?_
  intro before e hbefore b₁ b₂ hrun₁ hrun₂
  rcases before with _ | ⟨e₁, _ | ⟨e₂, before⟩⟩
  · obtain ⟨rfl, -⟩ := List.cons_prefix_cons.mp hbefore
    obtain rfl : b₀ = b₁ := Except.ok.inj (hrun₀.symm.trans hrun₁)
    exact fun _ _ => Or.inl hplaced
  · obtain ⟨hfirst, hrest⟩ := List.cons_prefix_cons.mp hbefore
    obtain ⟨rfl, -⟩ := List.cons_prefix_cons.mp hrest
    rw [hfirst] at hrun₁
    obtain rfl : b = b₁ := Except.ok.inj (hrun.symm.trans hrun₁)
    intro _ ps p hps _
    refine ⟨rfl, ?_⟩
    rw [← hps, hqueue, h.shows.xQueue, h.shows.last]
    simp [newFrameCount, FrameLog.framesFrom, FrameLog.newFrames, gapPushes, gapOf,
      FrameLog.empty, show single.fromCapture.cfg.bOnePacket = true from rfl]
  · simpa using hbefore.length_le

end VoltageBlock

end GrAta
