import GrAta.Voltage.Rendering
import GrAta.Voltage.Schedule

/-!
# The work function refines the frame log

For a voltage block and packets in range, the state is determined by the packets
taken so far: the buffers render the frame in assembly, and the queues hold the rows
of the frames of the log that are not delivered yet.

## Main definitions

- `VoltageBlock.Shows`: the state shows a frame log and a queue of items
- `VoltageBlock.Admissible`: in-range packets whose gaps the counter survives

## Main results

- `VoltageBlock.processPacket_shows`: one packet is one step of the log
-/

namespace GrAta

namespace VoltageBlock

variable (B : VoltageBlock)

/-- The state shows a log and a queue: the assembly buffers render the frame in
assembly, and the queues hold the entries of `queue`, the sequence numbers only
while no handshake has been received. -/
structure Shows (log : FrameLog) (queue : List Queued) (v : VoltState) : Prop where
  last : v.dLastTimestamp = log.last
  copied : v.copied = log.assembled
  xBuffer : v.xVectorBuffer = ⟨16 * B.cfg.dVeclen, B.render .x log.assembled⟩
  yBuffer : B.cfg.dPackedOutput = false →
    v.yVectorBuffer = ⟨16 * B.cfg.dVeclen, B.render .y log.assembled⟩
  xQueue : v.xVectorQueue = queue.map Queued.x
  yQueue : v.yVectorQueue = queue.filterMap Queued.y
  yPort : ∀ q ∈ queue, q.y.isNone = B.cfg.dPackedOutput
  seqNums : v.syncTimestamp = 0 → v.seqNumQueue = queue.map Queued.seqNum

/-- The packets are in range, and no gap before one of them makes the counter of
the filling loop wrap. `last` is the timestamp before them. -/
def Admissible : ℕ → List Packet → Prop
  | _, [] => True
  | last, p :: ps => B.InRange p ∧ GapEnds last (timestamp p) ∧ Admissible (timestamp p) ps

/-- No loop that fills a gap before one of the packets is endless. -/
def FillsEnd : ℕ → List Packet → Prop
  | _, [] => True
  | last, p :: ps => FillEnds last (timestamp p) ∧ FillsEnd (timestamp p) ps

theorem Admissible.inRange {B : VoltageBlock} {last : ℕ} {ps : List Packet}
    (h : B.Admissible last ps) : ∀ p ∈ ps, B.InRange p := by
  induction ps generalizing last with
  | nil => simp
  | cons p ps ih => exact List.forall_mem_cons.mpr ⟨h.1, ih h.2.2⟩

theorem Admissible.fillsEnd {B : VoltageBlock} {last : ℕ} {ps : List Packet}
    (h : B.Admissible last ps) : FillsEnd last ps := by
  induction ps generalizing last with
  | nil => trivial
  | cons p ps ih => exact ⟨h.2.1.fillEnds, ih h.2.2⟩

/-- The copy of an in-range packet returns and records the packet. -/
theorem copy_shows {log : FrameLog} {queue : List Queued} {v : VoltState} {p : Packet}
    (h : B.Shows log queue v) (hp : B.InRange p) :
    ∃ v', copyVoltDataToVectorBuffer B.cfg p (getVoltageHeader (pointer p)) v = .ok v' ∧
      v'.syncTimestamp = v.syncTimestamp ∧ v'.multipacketFramePktCtr = v.multipacketFramePktCtr ∧
      B.Shows { log with assembled := recordCopy log.assembled p } queue v' := by
  have hx := B.storeAll_cellStores (getVoltageHeader (pointer p)) hp.1 hp.2
    (B.samples .x p).1 (B.samples .x p).2 (r := v.xVectorBuffer) (by rw [h.xBuffer])
  have hxr : B.overlay (B.samples .x p).1 (B.samples .x p).2 (channel p)
      (B.render .x log.assembled) = B.render .x (recordCopy log.assembled p) :=
    (B.render_recordCopy .x _ _).symm
  cases hpack : B.cfg.dPackedOutput with
  | true =>
    simp only [samples, hpack, if_true] at hx hxr
    rw [copyVoltDataToVectorBuffer]
    simp only [hpack, if_true, hx, inBounds_some, ok_bind]
    refine ⟨_, rfl, rfl, rfl, h.last, by simp only [h.copied], ?_, by simp [hpack],
      h.xQueue, h.yQueue, h.yPort, h.seqNums⟩
    rw [← hxr, h.xBuffer]
    rfl
  | false =>
    have hb := h.yBuffer hpack
    have hy := B.storeAll_cellStores (getVoltageHeader (pointer p)) hp.1 hp.2
      (B.samples .y p).1 (B.samples .y p).2 (r := v.yVectorBuffer) (by rw [hb])
    have hyr : B.overlay (B.samples .y p).1 (B.samples .y p).2 (channel p)
        (B.render .y log.assembled) = B.render .y (recordCopy log.assembled p) :=
      (B.render_recordCopy .y _ _).symm
    simp only [samples, hpack, Bool.false_eq_true, if_false, Port.pol] at hx hxr hy hyr
    rw [copyVoltDataToVectorBuffer]
    simp only [hpack, Bool.false_eq_true, if_false, hx, hy, inBounds_some, ok_bind]
    refine ⟨_, rfl, rfl, rfl, h.last, by simp only [h.copied], ?_, fun _ => ?_,
      h.xQueue, h.yQueue, h.yPort, h.seqNums⟩
    · rw [← hxr, h.xBuffer]
      rfl
    · rw [← hyr, hb]
      rfl

/-- Numbering the elements of a list that is indexed by a range. -/
theorem zipIdx_map_range {α β : Type*} (f : ℕ → α) (g : α × ℕ → β) (n : ℕ) :
    ((List.range n).map f).zipIdx.map g = (List.range n).map fun t => g (f t, t) := by
  apply List.ext_getElem
  · simp
  · intro t _ _
    simp

/-- The rows of a buffer that renders an origin are its vectors. -/
theorem timeVectors_eq (port : Port) (origin : FrameOrigin) :
    timeVectors B.cfg ⟨16 * B.cfg.dVeclen, B.frameCell port origin⟩ origin =
      .ok (B.frameVectors port origin) := by
  rw [timeVectors, Region.rows_of_le le_rfl]
  simp only [inBounds_some, ok_bind, frameVectors, rowData]
  rw [zipIdx_map_range]

/-- Messages of the handshake set its timestamp, and nothing else. -/
theorem Shows.announced {B : VoltageBlock} {log : FrameLog} {queue : List Queued}
    {v : VoltState} (h : B.Shows log queue v) {t : ℕ}
    (ht : t = 0 → v.seqNumQueue = queue.map Queued.seqNum) :
    B.Shows log queue { v with syncTimestamp := t } :=
  ⟨h.last, h.copied, h.xBuffer, h.yBuffer, h.xQueue, h.yQueue, h.yPort, ht⟩

/-- Appending the rows of a frame to the queues. -/
theorem Shows.push {B : VoltageBlock} {log : FrameLog} {queue : List Queued} {v v' : VoltState}
    (h : B.Shows log queue v) (f : FramePush) (hlast : v'.dLastTimestamp = v.dLastTimestamp)
    (hcopied : v'.copied = v.copied) (hxb : v'.xVectorBuffer = v.xVectorBuffer)
    (hyb : v'.yVectorBuffer = v.yVectorBuffer) (hsync : v'.syncTimestamp = v.syncTimestamp)
    (hx : v'.xVectorQueue = v.xVectorQueue ++ B.frameVectors .x f.origin)
    (hy : v'.yVectorQueue = v.yVectorQueue ++
      if B.cfg.dPackedOutput then [] else B.frameVectors .y f.origin)
    (hn : v'.seqNumQueue = pushSeqNums v f.seqNum) :
    B.Shows log (queue ++ B.queuedItems f) v' where
  last := hlast.trans h.last
  copied := hcopied.trans h.copied
  xBuffer := hxb.trans h.xBuffer
  yBuffer hp := hyb.trans (h.yBuffer hp)
  xQueue := by
    rw [hx, h.xQueue, List.map_append, queuedItems, List.map_map]
    rfl
  yQueue := by
    rw [hy, h.yQueue, List.filterMap_append, queuedItems, List.filterMap_map]
    congr 1
    cases hp : B.cfg.dPackedOutput with
    | true => simp [queuedRow, hp]
    | false => simp [queuedRow, hp, frameVectors]
  yPort q hq := by
    rcases List.mem_append.mp hq with hq | hq
    · exact h.yPort q hq
    · obtain ⟨t, _, rfl⟩ := List.mem_map.mp hq
      cases hp : B.cfg.dPackedOutput <;> simp [queuedRow, hp]
  seqNums h0 := by
    have hv0 : v.syncTimestamp = 0 := hsync ▸ h0
    rw [hn, pushSeqNums, if_pos hv0, h.seqNums hv0, List.map_append, queuedItems, List.map_map]
    simp [queuedRow, Function.comp_def, List.map_const']

/-- Queueing the assembled frame under a header. -/
theorem queue_shows {log : FrameLog} {queue : List Queued} {v : VoltState}
    (h : B.Shows log queue v) (hdr : SnapHeader) :
    ∃ v', queueVoltageData B.cfg hdr v = .ok v' ∧ v'.syncTimestamp = v.syncTimestamp ∧
      v'.multipacketFramePktCtr = v.multipacketFramePktCtr ∧
      B.Shows log (queue ++ B.queuedItems ⟨.received log.assembled, hdr.sampleNumber⟩) v' := by
  have hx := B.timeVectors_eq .x (.received log.assembled)
  rw [queueVoltageData]
  rw [h.xBuffer, h.copied, show timeVectors B.cfg ⟨16 * B.cfg.dVeclen, B.render .x log.assembled⟩
    (.received log.assembled) = _ from hx]
  cases hp : B.cfg.dPackedOutput with
  | true =>
    simp only [if_true, ok_bind]
    exact ⟨_, rfl, rfl, rfl, h.push ⟨_, _⟩ rfl h.copied.symm h.xBuffer.symm rfl rfl rfl
      (by simp [hp]) rfl⟩
  | false =>
    have hy := B.timeVectors_eq .y (.received log.assembled)
    rw [h.yBuffer hp, show timeVectors B.cfg
      ⟨16 * B.cfg.dVeclen, B.render .y log.assembled⟩ (.received log.assembled) = _ from hy]
    simp only [Bool.false_eq_true, if_false, ok_bind]
    exact ⟨_, rfl, rfl, rfl, h.push ⟨_, _⟩ rfl h.copied.symm h.xBuffer.symm
      (h.yBuffer hp).symm rfl rfl (by simp [hp]) rfl⟩

/-- Queueing the zeroed frames of a gap. -/
theorem queueMissed_shows {log : FrameLog} {queue : List Queued} {v : VoltState}
    (h : B.Shows log queue v) (missed : List ℕ) :
    let v' := missed.foldl (queueMissedFrame B.cfg) v
    v'.syncTimestamp = v.syncTimestamp ∧
      v'.multipacketFramePktCtr = v.multipacketFramePktCtr ∧
      B.Shows log (queue ++ (missed.map fun m => (⟨.missed m, m⟩ : FramePush)).flatMap
        B.queuedItems) v' := by
  induction missed generalizing queue v with
  | nil => exact ⟨rfl, rfl, by simpa using h⟩
  | cons m missed ih =>
    have hm : B.Shows log (queue ++ B.queuedItems ⟨.missed m, m⟩) (queueMissedFrame B.cfg v m) :=
      h.push ⟨.missed m, m⟩ rfl rfl rfl rfl rfl (by rw [frameVectors_missed]; rfl)
        (by rw [frameVectors_missed]; rfl) rfl
    obtain ⟨h1, h2, h3⟩ := ih hm
    refine ⟨h1, h2, ?_⟩
    rw [List.foldl_cons, List.map_cons, List.flatMap_cons, ← List.append_assoc]
    exact h3

/-- The frame that ends, if any, is queued under the header of the new packet. -/
theorem finishFrame_shows {log : FrameLog} {queue : List Queued} {v : VoltState}
    (h : B.Shows log queue v) (hdr : SnapHeader) (skipped : ℤ) :
    ∃ v' skipped', finishFrame B.cfg hdr v skipped = .ok (v', skipped') ∧
      v'.syncTimestamp = v.syncTimestamp ∧
      B.Shows log (queue ++ (if B.cfg.bOnePacket then [] else
        [⟨.received log.assembled, hdr.sampleNumber⟩]).flatMap B.queuedItems) v' := by
  rw [finishFrame]
  cases B.cfg.bOnePacket with
  | true => exact ⟨v, skipped, rfl, rfl, by simpa using h⟩
  | false =>
    obtain ⟨v', hv', hsync, _, hs⟩ := B.queue_shows h hdr
    simp only [Bool.false_eq_true, if_false, hv', ok_bind]
    exact ⟨v', _, rfl, hsync, by simpa using hs⟩

/-- The gap before the new packet is filled with the frames of `gapPushes`. -/
theorem checkMissingFrames_shows {log : FrameLog} {queue : List Queued} {v : VoltState}
    (h : B.Shows log queue v) {hdr : SnapHeader} (hsn : hdr.sampleNumber < 2 ^ 64)
    (hgap : FillEnds log.last hdr.sampleNumber) (skipped : ℤ) :
    ∃ v' skipped', checkMissingFrames B.cfg hdr v skipped = .ok (v', skipped') ∧
      v'.syncTimestamp = v.syncTimestamp ∧
      B.Shows log (queue ++ (gapPushes log.last hdr.sampleNumber).flatMap B.queuedItems) v' := by
  have hnone : gapOf log.last hdr.sampleNumber = [] → B.Shows log
      (queue ++ (gapPushes log.last hdr.sampleNumber).flatMap B.queuedItems) v := by
    intro he
    simpa [gapPushes, he] using h
  rw [checkMissingFrames, h.last]
  by_cases hlt : log.last > 0 ∧ hdr.sampleNumber > log.last
  · rw [if_pos hlt]
    by_cases hpos : missedSets log.last hdr.sampleNumber > 0
    · simp only [if_pos hpos]
      by_cases hmax : missedSets log.last hdr.sampleNumber ≤ MAX_MISSED_SETS
      · have hloop := gapTimestamps_gapOf hlt.1 hlt.2 hsn hgap hpos hmax
        simp only [if_pos hmax, fillGap, h.last, hloop, ok_bind]
        obtain ⟨hsync, _, hs⟩ := B.queueMissed_shows h (gapOf log.last hdr.sampleNumber)
        exact ⟨_, _, rfl, hsync, hs⟩
      · rw [if_neg hmax]
        exact ⟨v, _, rfl, rfl, hnone (if_neg fun hc => hmax hc.2.2.2)⟩
    · simp only [if_neg hpos]
      exact ⟨v, _, rfl, rfl, hnone (if_neg fun hc => hpos hc.2.2.1)⟩
  · rw [if_neg hlt]
    exact ⟨v, _, rfl, rfl, hnone (if_neg fun hc => hlt ⟨hc.1, hc.2.1⟩)⟩

/-- The new packet starts a frame, which is queued at once in one-packet mode. -/
theorem startFrame_shows {log : FrameLog} {queue : List Queued} {v : VoltState} {p : Packet}
    (h : B.Shows log queue v) (hp : B.InRange p) :
    ∃ v', startFrame B.cfg p (getVoltageHeader (pointer p)) v = .ok v' ∧
      v'.syncTimestamp = v.syncTimestamp ∧
      B.Shows { log with assembled := if B.cfg.bOnePacket then recordCopy log.assembled p else [p] }
        (queue ++ (if B.cfg.bOnePacket then
          [(⟨.received (recordCopy log.assembled p), timestamp p⟩ : FramePush)] else []).flatMap
            B.queuedItems) v' := by
  rw [startFrame]
  cases B.cfg.bOnePacket with
  | true =>
    obtain ⟨v₁, hv₁, hsync₁, _, hs₁⟩ := B.copy_shows h hp
    obtain ⟨v₂, hv₂, hsync₂, _, hs₂⟩ := B.queue_shows hs₁ (getVoltageHeader (pointer p))
    simp only [if_true, hv₁, ok_bind, hv₂]
    exact ⟨v₂, rfl, hsync₂.trans hsync₁, by simpa [timestamp] using hs₂⟩
  | false =>
    have hclear : B.Shows { log with assembled := [] } queue
        (clearVectorBuffers B.cfg { v with multipacketFramePktCtr := 1 }) :=
      { last := h.last
        copied := rfl
        xBuffer := by simp [clearVectorBuffers, h.xBuffer, Region.fill]
        yBuffer := fun hpk => by simp [clearVectorBuffers, hpk, h.yBuffer hpk, Region.fill]
        xQueue := h.xQueue
        yQueue := h.yQueue
        yPort := h.yPort
        seqNums := h.seqNums }
    obtain ⟨v', hv', hsync, _, hs⟩ := B.copy_shows hclear hp
    simp only [Bool.false_eq_true, if_false]
    exact ⟨v', hv', hsync, by simpa [recordCopy] using hs⟩

/-- **One packet is one step of the log.** -/
theorem processPacket_shows {log : FrameLog} {queue : List Queued} {acc : VoltState × ℤ}
    {p : Packet} (h : B.Shows log queue acc.1) (hp : B.InRange p)
    (hgap : FillEnds log.last (timestamp p)) :
    ∃ acc', processPacket B.cfg acc p = .ok acc' ∧
      acc'.1.syncTimestamp = acc.1.syncTimestamp ∧
      B.Shows (log.step B.cfg.bOnePacket p)
        (queue ++ (log.newFrames B.cfg.bOnePacket p).flatMap B.queuedItems) acc'.1 := by
  rw [processPacket]
  simp only [h.last]
  by_cases hnew : B.cfg.bOnePacket = true ∨
      (log.last > 0 ∧ (getVoltageHeader (pointer p)).sampleNumber ≠ log.last)
  · rw [if_pos hnew]
    obtain ⟨v₁, k₁, hv₁, hsync₁, hs₁⟩ :=
      B.finishFrame_shows h (getVoltageHeader (pointer p)) acc.2
    obtain ⟨v₂, k₂, hv₂, hsync₂, hs₂⟩ :=
      B.checkMissingFrames_shows hs₁ (sampleNumber_lt _) hgap k₁
    obtain ⟨v₃, hv₃, hsync₃, hs₃⟩ := B.startFrame_shows hs₂ hp
    simp only [hv₁, hv₂, hv₃, ok_bind]
    refine ⟨_, rfl, hsync₃.trans (hsync₂.trans hsync₁), ?_⟩
    -- the frames of the three parts are those of the log step
    have hasm := FrameLog.assemble_of_starts hnew
    rw [FrameLog.newFrames_of_starts hnew, List.flatMap_append, List.flatMap_append,
      ← List.append_assoc, ← List.append_assoc]
    exact
      { last := rfl
        copied := by rw [FrameLog.step, hasm]; exact hs₃.copied
        xBuffer := by rw [FrameLog.step, hasm]; exact hs₃.xBuffer
        yBuffer := by rw [FrameLog.step, hasm]; exact hs₃.yBuffer
        xQueue := hs₃.xQueue
        yQueue := hs₃.yQueue
        yPort := hs₃.yPort
        seqNums := hs₃.seqNums }
  · rw [if_neg hnew]
    obtain ⟨hone, hsame⟩ := not_or.mp hnew
    have hlast : timestamp p = log.last ∨ log.last = 0 := by
      rw [timestamp]
      omega
    have hset : B.Shows { log with last := timestamp p } queue
        (if log.last = 0 then { acc.1 with
          dLastTimestamp := (getVoltageHeader (pointer p)).sampleNumber } else acc.1) := by
      split
      · exact ⟨rfl, h.copied, h.xBuffer, h.yBuffer, h.xQueue, h.yQueue, h.yPort, h.seqNums⟩
      · exact ⟨by rw [h.last]; simp only; omega, h.copied, h.xBuffer, h.yBuffer, h.xQueue,
          h.yQueue, h.yPort, h.seqNums⟩
    obtain ⟨v', hv', hsync, _, hs⟩ := B.copy_shows hset hp
    simp only [hv', ok_bind]
    refine ⟨_, rfl, ?_, ?_⟩
    · simp only [hsync]
      split <;> rfl
    · rw [FrameLog.newFrames_of_not_starts hnew, FrameLog.step,
        FrameLog.assemble_of_not_starts hnew, List.flatMap_nil, List.append_nil]
      exact ⟨hs.last, hs.copied, hs.xBuffer, hs.yBuffer, hs.xQueue, hs.yQueue, hs.yPort,
        hs.seqNums⟩

/-- A gap whose counter wraps is never filled. -/
theorem checkMissingFrames_endless (c : Config) {hdr : SnapHeader} {v : VoltState}
    (hsn : hdr.sampleNumber < 2 ^ 64) (hgap : ¬FillEnds v.dLastTimestamp hdr.sampleNumber)
    (skipped : ℤ) : checkMissingFrames c hdr v skipped = .error .endlessLoop := by
  have hloop := gapTimestamps_endless hsn hgap
  obtain ⟨⟨h0, hlt, hpos, hmax⟩, -⟩ := Classical.not_imp.mp hgap
  rw [checkMissingFrames, if_pos ⟨h0, hlt⟩]
  simp only [fillGap, hloop]
  rw [if_pos hpos, if_pos hmax, error_bind]

/-- A packet behind a gap whose loop does not end is the last one that is taken. -/
theorem processPacket_endless {log : FrameLog} {queue : List Queued} {acc : VoltState × ℤ}
    {p : Packet} (h : B.Shows log queue acc.1) (hgap : ¬FillEnds log.last (timestamp p)) :
    processPacket B.cfg acc p = .error .endlessLoop := by
  obtain ⟨⟨h0, hlt, -⟩, -⟩ := Classical.not_imp.mp hgap
  have hnew : B.cfg.bOnePacket = true ∨
      (acc.1.dLastTimestamp > 0 ∧
        (getVoltageHeader (pointer p)).sampleNumber ≠ acc.1.dLastTimestamp) := by
    rw [h.last]
    exact Or.inr ⟨h0, hlt.ne'⟩
  obtain ⟨v, skipped, hv, -, hs⟩ := B.finishFrame_shows h (getVoltageHeader (pointer p)) acc.2
  have hgap' : ¬FillEnds v.dLastTimestamp (getVoltageHeader (pointer p)).sampleNumber := by
    rw [hs.last]
    exact hgap
  have hcheck := checkMissingFrames_endless B.cfg (sampleNumber_lt _) hgap' skipped
  rw [processPacket, if_pos hnew]
  simp only [hv, ok_bind, hcheck, error_bind]

end VoltageBlock

end GrAta
