import GrAta.Snap.Encoding
import GrAta.Voltage.LossCount

/-!
# Shifted timestamps

Two runs of a voltage block side by side, where the timestamps of the second one are
larger by a constant. The block does the same in both unless the second run meets a
timestamp that is not zero any more, or a gap whose loop counter wraps only there.

## Main definitions

- `shiftPacket`: a packet with a later timestamp
- `VoltState.shift`: the state after such packets
- `VoltageBlock.taken`: the packets that the calls of a run take
- `MovesAlike`: a step between two timestamps that looks the same later
- `WorkResult.MovedBy`: equal vectors and counts, and tags that differ by the constant

## Main results

- `processPacket_shift`: one packet
- `VoltageBlock.run_movedBy`: whole runs
- `VoltageBlock.shifted_frame_cut`: a stream that starts at timestamp zero
-/

namespace GrAta

/-- The packet with its timestamp increased by `s`. Missing header bytes read as zeros. -/
def shiftPacket (s : ℕ) (p : Packet) : Packet :=
  let p' := p ++ List.replicate (16 - p.length) 0
  p'.take 8 ++ beBytes (timestamp p + s) 8 ++ p'.drop 16

/-- Padding with zeros changes no byte that is read. -/
theorem pointer_padded (p : Packet) (n : ℕ) : pointer (p ++ List.replicate n 0) = pointer p := by
  funext i
  simp only [pointer]
  rcases Nat.lt_or_ge i p.length with hlt | hge
  · exact List.getD_append _ _ _ _ hlt
  · rw [List.getD_append_right _ _ _ _ hge, List.getD_eq_default _ _ hge]
    rcases Nat.lt_or_ge (i - p.length) n with hin | hout
    · rw [List.getD_replicate _ hin]
    · exact List.getD_eq_default _ _ (by rwa [List.length_replicate])

theorem padded_length (p : Packet) :
    16 ≤ (p ++ List.replicate (16 - p.length) (0 : UInt8)).length := by
  rw [List.length_append, List.length_replicate]
  omega

theorem pointer_shiftPacket (s : ℕ) (p : Packet) {i : ℕ} (h : i < 8 ∨ 16 ≤ i) :
    pointer (shiftPacket s p) i = pointer p i := by
  have hlen := padded_length p
  rw [← pointer_padded p (16 - p.length), shiftPacket]
  generalize p ++ List.replicate (16 - p.length) 0 = p' at hlen
  have htake : (p'.take 8).length = 8 := by
    rw [List.length_take]
    omega
  simp only [pointer]
  rw [List.append_assoc]
  rcases h with hlow | hhigh
  · rw [List.getD_append _ _ _ _ (by omega), List.getD_eq_getElem?_getD,
      List.getElem?_take_of_lt hlow, ← List.getD_eq_getElem?_getD]
  · rw [List.getD_append_right _ _ _ _ (by omega),
      List.getD_append_right _ _ _ _ (by rw [beBytes_length]; omega), htake, beBytes_length,
      List.getD_eq_getElem?_getD, List.getElem?_drop, ← List.getD_eq_getElem?_getD]
    congr 1
    omega

theorem timestamp_shiftPacket {s : ℕ} {p : Packet} (h : timestamp p + s < 2 ^ 64) :
    timestamp (shiftPacket s p) = timestamp p + s := by
  have hlen := padded_length p
  have htake : ((p ++ List.replicate (16 - p.length) 0).take 8).length = 8 := by
    rw [List.length_take]
    omega
  have hread := beToHost_beBytes ((p ++ List.replicate (16 - p.length) 0).take 8)
    ((p ++ List.replicate (16 - p.length) 0).drop 16) (timestamp p + s) 8
  rw [htake, Nat.mod_eq_of_lt (show timestamp p + s < 256 ^ 8 from h)] at hread
  exact hread

theorem voltageChan_shiftPacket (s : ℕ) (p : Packet) :
    voltageChan (pointer (shiftPacket s p)) = voltageChan (pointer p) :=
  beToHost_congr fun _ hk => pointer_shiftPacket s p (.inl (by omega))

theorem VoltageBlock.inRange_shiftPacket (B : VoltageBlock) (s : ℕ) (p : Packet) :
    B.InRange (shiftPacket s p) ↔ B.InRange p := by
  rw [InRange, InRange, voltageChan_shiftPacket]

/-- The samples stay the same. -/
theorem VoltageBlock.vpData_shiftPacket (B : VoltageBlock) (s : ℕ) (p : Packet) :
    vpData B.cfg (shiftPacket s p) = vpData B.cfg p := by
  funext sample t pol
  rw [vpData, vpData, B.dHeaderSize_eq, pointer_shiftPacket s p (.inr (by omega))]

-- ════════════════════════════════════════════════════════════════════════
-- Shifted states
-- ════════════════════════════════════════════════════════════════════════

def FrameOrigin.shift (s : ℕ) : FrameOrigin → FrameOrigin
  | .received packets => .received (packets.map (shiftPacket s))
  | .missed t => .missed (t + s)

def TimeVector.shift (s : ℕ) (x : TimeVector) : TimeVector := { x with origin := x.origin.shift s }

/-- The state with all timestamps increased by `s`, except the last one, which is given. -/
def VoltState.shift (s last : ℕ) (v : VoltState) : VoltState where
  dLastTimestamp := last
  multipacketFramePktCtr := v.multipacketFramePktCtr
  xVectorBuffer := v.xVectorBuffer
  yVectorBuffer := v.yVectorBuffer
  copied := v.copied.map (shiftPacket s)
  xVectorQueue := v.xVectorQueue.map (TimeVector.shift s)
  yVectorQueue := v.yVectorQueue.map (TimeVector.shift s)
  seqNumQueue := v.seqNumQueue.map (· + s)
  syncTimestamp := v.syncTimestamp

section Shift

variable (s last : ℕ) (v : VoltState)

theorem pushSeqNums_shift (n : ℕ) :
    pushSeqNums (v.shift s last) (n + s) = (pushSeqNums v n).map (· + s) := by
  rw [pushSeqNums, pushSeqNums]
  change (if v.syncTimestamp = 0 then _ else _) = _
  split
  · rw [List.map_append, List.map_replicate]
    rfl
  · rfl

theorem recordCopy_shift (copied : List Packet) (p : Packet) :
    recordCopy (copied.map (shiftPacket s)) (shiftPacket s p) =
      (recordCopy copied p).map (shiftPacket s) := by
  rw [recordCopy, recordCopy, List.map_append, List.filter_map]
  simp only [Function.comp_def, voltageChan_shiftPacket, List.map_singleton]

theorem timeVectors_shift (c : Config) (buffer : Region UInt8) (origin : FrameOrigin) :
    timeVectors c buffer (origin.shift s) =
      (timeVectors c buffer origin).map (List.map (TimeVector.shift s)) := by
  rw [timeVectors, timeVectors]
  cases buffer.rows 16 c.dVeclen with
  | none => rfl
  | some rows =>
    simp only [inBounds_some, ok_bind, Except.map, List.map_map]
    rfl

theorem queueVoltageData_shift (c : Config) {hdr hdr' : SnapHeader}
    (hsample : hdr'.sampleNumber = hdr.sampleNumber + s) :
    queueVoltageData c hdr' (v.shift s last) =
      (queueVoltageData c hdr v).map (VoltState.shift s last) := by
  have hx := timeVectors_shift s c v.xVectorBuffer (.received v.copied)
  have hy := timeVectors_shift s c v.yVectorBuffer (.received v.copied)
  have hnums := pushSeqNums_shift s last v hdr.sampleNumber
  have hmerge : ∀ xs ys, (Except.ok
      { v.shift s last with
        xVectorQueue := (v.shift s last).xVectorQueue ++ List.map (TimeVector.shift s) xs
        yVectorQueue := (v.shift s last).yVectorQueue ++ List.map (TimeVector.shift s) ys
        seqNumQueue := pushSeqNums (v.shift s last) hdr'.sampleNumber } : Except Fault VoltState) =
      .ok (VoltState.shift s last
        { v with
          xVectorQueue := v.xVectorQueue ++ xs
          yVectorQueue := v.yVectorQueue ++ ys
          seqNumQueue := pushSeqNums v hdr.sampleNumber }) := by
    intro xs ys
    rw [hsample, hnums]
    simp only [VoltState.shift, List.map_append]
  rw [queueVoltageData, queueVoltageData]
  simp only
  change (timeVectors c v.xVectorBuffer ((FrameOrigin.received v.copied).shift s) >>= _) = _
  rw [hx]
  cases timeVectors c v.xVectorBuffer (.received v.copied) with
  | error f => rfl
  | ok xs =>
    simp only [Except.map, ok_bind]
    split
    · exact hmerge xs []
    · change (timeVectors c v.yVectorBuffer ((FrameOrigin.received v.copied).shift s) >>= _) = _
      rw [hy]
      cases timeVectors c v.yVectorBuffer (.received v.copied) with
      | error f => rfl
      | ok ys => exact hmerge xs ys

theorem zeroVectors_shift (c : Config) (missed : ℕ) :
    zeroVectors c (missed + s) = (zeroVectors c missed).map (TimeVector.shift s) := by
  rw [zeroVectors, zeroVectors, List.map_map]
  rfl

theorem queueMissedFrame_shift (c : Config) (missed : ℕ) :
    queueMissedFrame c (v.shift s last) (missed + s) =
      (queueMissedFrame c v missed).shift s last := by
  rw [queueMissedFrame, queueMissedFrame, pushSeqNums_shift, zeroVectors_shift]
  simp only [VoltState.shift, List.map_append, VoltState.mk.injEq, true_and]
  split <;> simp

theorem foldl_queueMissedFrame_shift (c : Config) (missed : List ℕ) :
    (missed.map (· + s)).foldl (queueMissedFrame c) (v.shift s last) =
      (missed.foldl (queueMissedFrame c) v).shift s last := by
  induction missed generalizing v with
  | nil => rfl
  | cons m missed ih =>
    rw [List.map_cons, List.foldl_cons, queueMissedFrame_shift, ih, List.foldl_cons]

end Shift

-- ════════════════════════════════════════════════════════════════════════
-- Steps that look the same later
-- ════════════════════════════════════════════════════════════════════════

/-- A packet at timestamp `t` behind one at `last`, for which a block does the same `s`
later. A last timestamp of zero is taken for none, and the counter of the gap filling loop
may wrap only later. -/
def MovesAlike (s : ℕ) (onePacket : Bool) (last t : ℕ) : Prop :=
  (last = 0 → s = 0 ∨ t = 0 ∨ (onePacket = true ∧ missedSets 0 t = 0)) ∧
    (FillEnds last t → FillEnds (last + s) (t + s))

theorem missedSets_add (last t s : ℕ) : missedSets (last + s) (t + s) = missedSets last t := by
  rw [missedSets, missedSets, Nat.add_sub_add_right]

/-- A loop that ends in both runs, or in none, visits the same timestamps. -/
theorem gapTimestamps_shift {s last t : ℕ} (h0 : 0 < last) (hlt : last < t)
    (hwrap : t + s < 2 ^ 64) (hpos : 0 < missedSets last t)
    (hmax : missedSets last t ≤ MAX_MISSED_SETS)
    (hends : FillEnds last t → FillEnds (last + s) (t + s)) :
    gapTimestamps (t + s) (MAX_MISSED_SETS + 1) ((last + s + 16) % 2 ^ 64) =
      (gapTimestamps t (MAX_MISSED_SETS + 1) ((last + 16) % 2 ^ 64)).map (List.map (· + s)) := by
  have hsets := missedSets_add last t s
  by_cases hfill : FillEnds last t
  · rw [gapTimestamps_gapOf h0 hlt (by omega) hfill hpos hmax,
      gapTimestamps_gapOf (by omega) (by omega) hwrap (hends hfill) (by omega) (by omega),
      gapOf, gapOf, hsets, if_pos ⟨by omega, by omega, hpos, hmax⟩, if_pos ⟨h0, hlt, hpos, hmax⟩,
      Option.map_some, List.map_map, Nat.add_sub_add_right]
    refine congrArg some (List.map_congr_left fun k _ => ?_)
    simp only [Function.comp]
    omega
  · have hfill' : ¬FillEnds (last + s) (t + s) := by
      intro h
      refine hfill fun hgap => ?_
      have := h ⟨by omega, by omega, by omega, by omega⟩
      omega
    rw [gapTimestamps_endless (by omega) hfill, gapTimestamps_endless hwrap hfill', Option.map_none]

/-- The last timestamp of the shifted run. Before the first packet both are zero. -/
def LastShifted (s : ℕ) (onePacket : Bool) (t last last' : ℕ) : Prop :=
  (last = 0 ∧ last' = 0) ∨ (last' = last + s ∧ MovesAlike s onePacket last t)

/-- Both runs start a new frame, or none of them. -/
theorem LastShifted.newFrame_iff {s t last last' : ℕ} {onePacket : Bool}
    (h : LastShifted s onePacket t last last') :
    (onePacket = true ∨ (last' > 0 ∧ t + s ≠ last')) ↔
      (onePacket = true ∨ (last > 0 ∧ t ≠ last)) := by
  cases onePacket with
  | true => simp only [true_or]
  | false =>
    simp only [Bool.false_eq_true, false_or]
    rcases h with ⟨hzero, rfl⟩ | ⟨rfl, hzero, -⟩
    · omega
    · simp only [Bool.false_eq_true, false_and, or_false] at hzero
      omega

/-- A packet of the frame in assembly has the last timestamp. -/
theorem LastShifted.eq_last {s t last last' : ℕ} {onePacket : Bool}
    (h : LastShifted s onePacket t last last')
    (hsame : ¬(onePacket = true ∨ (last > 0 ∧ t ≠ last))) (hseen : last' ≠ 0) :
    last' = t + s := by
  cases onePacket with
  | true => exact absurd (Or.inl rfl) hsame
  | false =>
    obtain ⟨rfl, hzero, -⟩ := h.resolve_left fun hnone => hseen hnone.2
    simp only [Bool.false_eq_true, false_or, false_and, or_false] at hsame hzero
    omega

-- ════════════════════════════════════════════════════════════════════════
-- One packet
-- ════════════════════════════════════════════════════════════════════════

section Packet

variable {B : VoltageBlock} {s last t : ℕ} {hdr hdr' : SnapHeader} {v : VoltState} {k : ℤ}

theorem copyVoltDataToVectorBuffer_shift (p : Packet) (hchan : hdr'.channelId = hdr.channelId) :
    copyVoltDataToVectorBuffer B.cfg (shiftPacket s p) hdr' (v.shift s last) =
      (copyVoltDataToVectorBuffer B.cfg p hdr v).map (VoltState.shift s last) := by
  have hstores : cellStores B.cfg hdr' = cellStores B.cfg hdr := by
    funext even odd
    simp only [cellStores, vectorStart, hchan]
  have hcopied := recordCopy_shift s v.copied p
  rw [copyVoltDataToVectorBuffer, copyVoltDataToVectorBuffer]
  simp only [hstores, B.vpData_shiftPacket]
  change (if _ then _ else _) = _
  simp only [VoltState.shift, hcopied]
  split
  · cases v.xVectorBuffer.storeAll _ <;> rfl
  · cases v.xVectorBuffer.storeAll _ with
    | none => rfl
    | some x =>
      simp only [inBounds_some, ok_bind]
      cases v.yVectorBuffer.storeAll _ <;> rfl

theorem fillGap_shift (h0 : 0 < v.dLastTimestamp) (hlt : v.dLastTimestamp < t)
    (hwrap : t + s < 2 ^ 64) (hpos : 0 < missedSets v.dLastTimestamp t)
    (hmax : missedSets v.dLastTimestamp t ≤ MAX_MISSED_SETS)
    (hends : FillEnds v.dLastTimestamp t → FillEnds (v.dLastTimestamp + s) (t + s)) :
    fillGap B.cfg (t + s) (v.shift s (v.dLastTimestamp + s)) =
      (fillGap B.cfg t v).map (VoltState.shift s (v.dLastTimestamp + s)) := by
  have hloop := gapTimestamps_shift h0 hlt hwrap hpos hmax hends
  have hself : (v.shift s (v.dLastTimestamp + s)).dLastTimestamp = v.dLastTimestamp + s := rfl
  rw [fillGap, fillGap, hself, hloop]
  cases gapTimestamps t (MAX_MISSED_SETS + 1) ((v.dLastTimestamp + 16) % 2 ^ 64) with
  | none => rfl
  | some missed => exact congrArg Except.ok (foldl_queueMissedFrame_shift ..)

theorem checkMissingFrames_shift (hsample : hdr'.sampleNumber = hdr.sampleNumber + s)
    (hwrap : hdr.sampleNumber + s < 2 ^ 64) {onePacket : Bool}
    (hlast : LastShifted s onePacket hdr.sampleNumber v.dLastTimestamp last) :
    checkMissingFrames B.cfg hdr' (v.shift s last) k =
      (checkMissingFrames B.cfg hdr v k).map fun acc => (acc.1.shift s last, acc.2) := by
  have hself : (v.shift s last).dLastTimestamp = last := rfl
  rw [checkMissingFrames, checkMissingFrames, hself, hsample]
  rcases hlast with ⟨hzero, rfl⟩ | ⟨rfl, hzero, hends⟩
  · rw [if_neg (fun h => absurd h.1 (lt_irrefl 0)), if_neg (fun h => by omega)]
    rfl
  · have hsets := missedSets_add v.dLastTimestamp hdr.sampleNumber s
    by_cases hpos : v.dLastTimestamp > 0 ∧ hdr.sampleNumber > v.dLastTimestamp
    · rw [if_pos hpos, if_pos (by omega)]
      simp only [hsets]
      split
      next hmissed =>
        split
        next hmax =>
          rw [fillGap_shift hpos.1 hpos.2 hwrap hmissed hmax hends]
          exact Execution.map_bind fun _ => rfl
        next => rfl
      next => rfl
    · rw [if_neg hpos]
      simp only [hsets]
      split
      next hlater =>
        -- the last timestamp was zero and is not any more
        have h0 : v.dLastTimestamp = 0 := by omega
        rcases hzero h0 with rfl | ht | ⟨-, hmissed⟩
        · omega
        · omega
        · rw [h0, hmissed, if_neg (lt_irrefl 0)]
          rfl
      next => rfl

theorem finishFrame_shift (hsample : hdr'.sampleNumber = hdr.sampleNumber + s) :
    finishFrame B.cfg hdr' (v.shift s last) k =
      (finishFrame B.cfg hdr v k).map fun acc => (acc.1.shift s last, acc.2) := by
  rw [finishFrame, finishFrame]
  split
  · rfl
  · rw [queueVoltageData_shift s last v B.cfg hsample]
    exact Execution.map_bind fun _ => rfl

theorem startFrame_shift (p : Packet) (hchan : hdr'.channelId = hdr.channelId)
    (hsample : hdr'.sampleNumber = hdr.sampleNumber + s) :
    startFrame B.cfg (shiftPacket s p) hdr' (v.shift s last) =
      (startFrame B.cfg p hdr v).map (VoltState.shift s last) := by
  rw [startFrame, startFrame]
  split
  · rw [copyVoltDataToVectorBuffer_shift p hchan]
    exact Execution.map_bind fun v => queueVoltageData_shift s last v B.cfg hsample
  · have hclear : clearVectorBuffers B.cfg { v.shift s last with multipacketFramePktCtr := 1 } =
        (clearVectorBuffers B.cfg { v with multipacketFramePktCtr := 1 }).shift s last := rfl
    rw [hclear, copyVoltDataToVectorBuffer_shift p hchan]

/-- The parts of a new frame leave the last timestamp alone. -/
theorem finishFrame_last {c : Config} {acc : VoltState × ℤ} (h : finishFrame c hdr v k = .ok acc) :
    acc.1.dLastTimestamp = v.dLastTimestamp := by
  have hlast := congrArg Tally.last (finishFrame_tally h)
  rw [Tally.finish] at hlast
  split at hlast <;> exact hlast

/-- **One packet.** -/
theorem processPacket_shift (p : Packet) (hwrap : timestamp p + s < 2 ^ 64)
    (hlast : LastShifted s B.cfg.bOnePacket (timestamp p) v.dLastTimestamp last) :
    processPacket B.cfg (v.shift s last, k) (shiftPacket s p) =
      (processPacket B.cfg (v, k) p).map fun acc =>
        (acc.1.shift s (timestamp p + s), acc.2) := by
  have hself : (v.shift s last).dLastTimestamp = last := rfl
  have hsample : (getVoltageHeader (pointer (shiftPacket s p))).sampleNumber =
      (getVoltageHeader (pointer p)).sampleNumber + s := timestamp_shiftPacket hwrap
  have hchan : (getVoltageHeader (pointer (shiftPacket s p))).channelId =
      (getVoltageHeader (pointer p)).channelId := voltageChan_shiftPacket s p
  have htime : (getVoltageHeader (pointer p)).sampleNumber = timestamp p := rfl
  rw [processPacket, processPacket]
  simp only [hself, hsample, htime, hlast.newFrame_iff]
  split
  next hnew =>
    rw [finishFrame_shift hsample]
    cases hfinish : finishFrame B.cfg (getVoltageHeader (pointer p)) v k with
    | error f => rfl
    | ok acc =>
      have hkeep := finishFrame_last hfinish
      simp only [Except.map, ok_bind]
      rw [checkMissingFrames_shift hsample hwrap (hkeep.symm ▸ hlast)]
      refine Execution.map_bind fun acc₂ => ?_
      rw [startFrame_shift p hchan hsample]
      exact Execution.map_bind fun _ => rfl
  next hnew =>
    have hstart : (if last = 0 then
          { v.shift s last with dLastTimestamp := timestamp p + s } else v.shift s last) =
        (if v.dLastTimestamp = 0 then { v with dLastTimestamp := timestamp p } else v).shift s
          (timestamp p + s) := by
      have hright : (if v.dLastTimestamp = 0 then
          { v with dLastTimestamp := timestamp p } else v).shift s (timestamp p + s) =
            v.shift s (timestamp p + s) := by
        split <;> rfl
      rw [hright]
      split
      next => rfl
      next hseen => rw [hlast.eq_last hnew hseen]
    rw [hstart, copyVoltDataToVectorBuffer_shift p hchan]
    exact Execution.map_bind fun _ => rfl

end Packet

-- ════════════════════════════════════════════════════════════════════════
-- Packets that are taken
-- ════════════════════════════════════════════════════════════════════════

/-- The packets that the packet loop takes from a queue, up to one at which it faults. -/
def loopTaken (c : Config) (noutputItems : ℕ) : List Packet → VoltState × ℤ → List Packet
  | [], _ => []
  | p :: rest, acc =>
    if acc.1.xVectorQueue.length < noutputItems then
      p :: match processPacket c acc p with
        | .error _ => []
        | .ok acc => loopTaken c noutputItems rest acc
    else []

/-- The packets that a call takes. One that returns at once finds none. -/
def callTaken (c : Config) (w : WorkRun) (call : Call) : List Packet :=
  match handleMessages w.source.volt call.messages with
  | .error _ => []
  | .ok volt =>
    loopTaken c call.noutputItems (w.source.recv.dLocalqueue ++ call.arrived) (volt, 0)

/-- The packets that the calls take, up to a fault. -/
def callsTaken (c : Config) : WorkRun → List Call → List Packet
  | _, [] => []
  | w, call :: calls =>
    callTaken c w call ++
      match workCall c w call with
      | .error _ => []
      | .ok w => callsTaken c w calls

/-- The packets that a run takes, up to a fault. -/
def VoltageBlock.taken (B : VoltageBlock) (env : Environment) (calls : List Call) : List Packet :=
  match start B.cfg B.unset env with
  | .error _ => []
  | .ok s => callsTaken B.cfg ⟨s, []⟩ calls

section Taken

variable {c : Config}

theorem loopTaken_prefix (noutputItems : ℕ) (queue : List Packet) (acc : VoltState × ℤ) :
    loopTaken c noutputItems queue acc <+: queue := by
  induction queue generalizing acc with
  | nil => exact List.prefix_rfl
  | cons p rest ih =>
    rw [loopTaken]
    split
    · refine (List.prefix_cons_inj p).mpr ?_
      cases processPacket c acc p with
      | error f => exact List.nil_prefix
      | ok acc' => exact ih acc'
    · exact List.nil_prefix

/-- A packet loop that returns has taken these packets. -/
theorem packetLoop_taken {noutputItems : ℕ} {queue : List Packet} {r : Receiver}
    {acc : VoltState × ℤ} {looped : Receiver × VoltState × ℤ} (hr : r.dLocalqueue = queue)
    (h : packetLoop c noutputItems queue.length (r, acc) = .ok looped) :
    queue = loopTaken c noutputItems queue acc ++ looped.1.dLocalqueue := by
  induction queue generalizing r acc with
  | nil =>
    cases h
    exact hr.symm
  | cons p rest ih =>
    rw [List.length_cons, packetLoop] at h
    rw [loopTaken]
    split at h
    next hmore =>
      simp only [fillLocalBuffer, hr, ok_bind] at h
      obtain ⟨acc', hpacket, h⟩ := bind_eq_ok h
      rw [if_pos hmore, hpacket, List.cons_append]
      exact congrArg (p :: ·) (ih rfl h)
    next hmore =>
      cases h
      rw [if_neg hmore]
      exact hr.symm

theorem callTaken_eq {w : WorkRun} {call : Call} {volt : VoltState}
    (h : handleMessages w.source.volt call.messages = .ok volt) :
    callTaken c w call =
      loopTaken c call.noutputItems (w.source.recv.dLocalqueue ++ call.arrived) (volt, 0) := by
  rw [callTaken, h]

theorem callsTaken_cons {w w' : WorkRun} {call : Call} (h : workCall c w call = .ok w')
    (calls : List Call) :
    callsTaken c w (call :: calls) = callTaken c w call ++ callsTaken c w' calls := by
  rw [callsTaken, h]

/-- A call that returns has taken these packets. -/
theorem workCall_taken {w w' : WorkRun} {call : Call} (h : workCall c w call = .ok w') :
    w.source.recv.dLocalqueue ++ call.arrived =
      callTaken c w call ++ w'.source.recv.dLocalqueue := by
  rw [workCall] at h
  obtain ⟨volt, hmessages, h⟩ := bind_eq_ok h
  obtain ⟨⟨result, s'⟩, hwork, h⟩ := bind_eq_ok h
  cases h
  rw [callTaken_eq hmessages]
  rw [workVoltMode] at hwork
  simp only at hwork
  split at hwork
  next hidle =>
    cases hwork
    have hempty : w.source.recv.dLocalqueue ++ call.arrived = [] :=
      List.eq_nil_of_length_eq_zero hidle.2.2.1
    rw [hempty, loopTaken, List.nil_append]
    exact hempty.symm
  next =>
    obtain ⟨looped, hloop, hwork⟩ := bind_eq_ok hwork
    obtain ⟨emitted, -, hwork⟩ := bind_eq_ok hwork
    cases hwork
    exact packetLoop_taken rfl hloop

theorem arrivals_cons (call : Call) (calls : List Call) :
    arrivals (call :: calls) = call.arrived ++ arrivals calls := List.flatMap_cons

theorem callsTaken_prefix (w : WorkRun) (calls : List Call) :
    callsTaken c w calls <+: w.source.recv.dLocalqueue ++ arrivals calls := by
  induction calls generalizing w with
  | nil => exact List.nil_prefix
  | cons call calls ih =>
    rw [callsTaken, arrivals_cons, ← List.append_assoc]
    cases hcall : workCall c w call with
    | error f =>
      rw [List.append_nil]
      refine List.IsPrefix.trans ?_ (List.prefix_append _ _)
      rw [callTaken]
      cases handleMessages w.source.volt call.messages with
      | error f => exact List.nil_prefix
      | ok volt => exact loopTaken_prefix _ _ _
    | ok w' =>
      rw [workCall_taken hcall, List.append_assoc]
      exact (List.prefix_append_right_inj _).mpr (ih w')

/-- Calls that return have taken these packets. -/
theorem callsTaken_append {w w' : WorkRun} {calls : List Call}
    (h : Execution.run (workCall c) w calls = .ok w') :
    w.source.recv.dLocalqueue ++ arrivals calls =
      callsTaken c w calls ++ w'.source.recv.dLocalqueue := by
  induction calls generalizing w with
  | nil =>
    cases h
    exact List.append_nil _
  | cons call calls ih =>
    cases hcall : workCall c w call with
    | error f =>
      rw [Execution.run, hcall] at h
      cases h
    | ok m =>
      rw [Execution.run_cons_ok hcall] at h
      rw [arrivals_cons, ← List.append_assoc, workCall_taken hcall, callsTaken_cons hcall,
        List.append_assoc, List.append_assoc, ih h]

theorem start_queue {u : Unset} {env : Environment} {s : SnapSource}
    (h : start c u env = .ok s) : s.recv.dLocalqueue = [] := by
  rw [start] at h
  split_ifs at h <;> cases h <;> rfl

/-- A run that returns has taken what is not queued any more. -/
theorem VoltageBlock.taken_append {B : VoltageBlock} {env : Environment} {calls : List Call}
    {w : WorkRun} (h : B.run env calls = .ok w) :
    arrivals calls = B.taken env calls ++ w.source.recv.dLocalqueue := by
  obtain ⟨s, hstart, hrun⟩ := bind_eq_ok h
  have htaken := callsTaken_append hrun
  rw [start_queue hstart, List.nil_append] at htaken
  rw [taken, hstart]
  exact htaken

/-- A run takes the packets in their order. -/
theorem VoltageBlock.taken_prefix (B : VoltageBlock) (env : Environment) (calls : List Call) :
    B.taken env calls <+: arrivals calls := by
  rw [taken]
  cases hstart : start B.cfg B.unset env with
  | error f => exact List.nil_prefix
  | ok s =>
    have htaken := callsTaken_prefix (c := B.cfg) ⟨s, []⟩ calls
    rwa [start_queue hstart, List.nil_append] at htaken

end Taken

-- ════════════════════════════════════════════════════════════════════════
-- Calls
-- ════════════════════════════════════════════════════════════════════════

/-- The steps of a packet sequence look the same later. The timestamp before them is `last`,
if there is one. -/
def StepsAlike (s : ℕ) (onePacket : Bool) : Option ℕ → List Packet → Prop
  | _, [] => True
  | last, p :: ps => (∀ t ∈ last, MovesAlike s onePacket t (timestamp p)) ∧
      StepsAlike s onePacket (some (timestamp p)) ps

/-- The timestamp of the last of some packets, or the one before them. -/
def lastAfter : Option ℕ → List Packet → Option ℕ
  | last, [] => last
  | _, p :: ps => lastAfter (some (timestamp p)) ps

theorem stepsAlike_append {s : ℕ} {onePacket : Bool} {last : Option ℕ} {ps qs : List Packet} :
    StepsAlike s onePacket last (ps ++ qs) ↔
      StepsAlike s onePacket last ps ∧ StepsAlike s onePacket (lastAfter last ps) qs := by
  induction ps generalizing last with
  | nil => exact (true_and _).symm ▸ Iff.rfl
  | cons p ps ih => rw [List.cons_append, StepsAlike, StepsAlike, lastAfter, ih, and_assoc]

/-- Packets with timestamps that are neither zero nor at the end of the range. -/
theorem stepsAlike_of_pos {s : ℕ} {onePacket : Bool} {last : Option ℕ} {ps : List Packet}
    (hlast : ∀ t ∈ last, 0 < t)
    (h : ∀ p ∈ ps, 0 < timestamp p ∧ timestamp p + s ≤ 2 ^ 64 - 16) :
    StepsAlike s onePacket last ps := by
  induction ps generalizing last with
  | nil => exact trivial
  | cons p ps ih =>
    obtain ⟨hpos, hle⟩ := h p List.mem_cons_self
    refine ⟨fun t ht => ⟨fun hzero => ?_, fun _ => (gapEnds_of_le hle).fillEnds⟩, ?_⟩
    · have := hlast t ht
      omega
    · refine ih (fun t ht => ?_) fun q hq => h q (List.mem_cons_of_mem _ hq)
      rwa [← Option.mem_some_iff.mp ht]

/-- The last timestamp of the shifted run. -/
def shiftedLast (s : ℕ) (last : Option ℕ) : ℕ := last.elim 0 (· + s)

theorem lastShifted_of_stepsAlike {s : ℕ} {onePacket : Bool} {last : Option ℕ} {p : Packet}
    {ps : List Packet} (h : StepsAlike s onePacket last (p :: ps)) :
    LastShifted s onePacket (timestamp p) (last.getD 0) (shiftedLast s last) := by
  cases last with
  | none => exact .inl ⟨rfl, rfl⟩
  | some t => exact .inr ⟨rfl, h.1 t rfl⟩

section Calls

variable {B : VoltageBlock} {s : ℕ}

/-- The second run holds the shifted packets and the shifted state. -/
structure Beside (s : ℕ) (last : Option ℕ) (r r' : Receiver) (v v' : VoltState) : Prop where
  time : v.dLastTimestamp = last.getD 0
  volt : v' = v.shift s (shiftedLast s last)
  queue : r'.dLocalqueue = r.dLocalqueue.map (shiftPacket s)
  stopThread : r'.stopThread = r.stopThread
  pcapFileDone : r'.pcapFileDone = r.pcapFileDone

/-- Both calls return at once, or none of them. -/
theorem Beside.returns_iff {last : Option ℕ} {r r' : Receiver} {v v' : VoltState}
    (h : Beside s last r r' v v') :
    (r'.stopThread = false ∧ r'.pcapFileDone = false ∧ r'.dLocalqueue.length = 0 ∧
      v'.xVectorQueue = []) ↔
      (r.stopThread = false ∧ r.pcapFileDone = false ∧ r.dLocalqueue.length = 0 ∧
        v.xVectorQueue = []) := by
  have hidle : v'.xVectorQueue = [] ↔ v.xVectorQueue = [] := by
    rw [h.volt]
    exact List.map_eq_nil_iff
  rw [h.stopThread, h.pcapFileDone, h.queue, List.length_map, hidle]

/-- The two runs of the packet loop stay beside each other. -/
theorem packetLoop_shift (noutputItems : ℕ) {queue : List Packet} {last : Option ℕ}
    {r r' : Receiver} {v v' : VoltState} (k : ℤ) (h : Beside s last r r' v v')
    (hr : r.dLocalqueue = queue)
    (halike : StepsAlike s B.cfg.bOnePacket last (loopTaken B.cfg noutputItems queue (v, k)))
    (hwrap : ∀ p ∈ queue, timestamp p + s < 2 ^ 64) :
    Execution.Related (fun x x' => x'.2.2 = x.2.2 ∧
        Beside s (lastAfter last (loopTaken B.cfg noutputItems queue (v, k))) x.1 x'.1 x.2.1 x'.2.1)
      (packetLoop B.cfg noutputItems queue.length (r, v, k))
      (packetLoop B.cfg noutputItems queue.length (r', v', k)) := by
  induction queue generalizing last r r' v v' k with
  | nil => exact .ok ⟨rfl, h⟩
  | cons p rest ih =>
    have hlen : v'.xVectorQueue.length = v.xVectorQueue.length := by
      rw [h.volt]
      exact List.length_map _
    have hqueue := h.queue
    rw [hr] at hqueue
    rw [List.length_cons, packetLoop, packetLoop]
    rw [loopTaken] at halike ⊢
    simp only [hlen]
    split
    next hmore =>
      rw [if_pos hmore] at halike
      simp only [fillLocalBuffer, hr, hqueue, List.map_cons, ok_bind]
      have hshift := processPacket_shift (v := v) (k := k) p (hwrap p List.mem_cons_self)
        (h.time ▸ lastShifted_of_stepsAlike halike)
      rw [h.volt, hshift]
      cases hacc : processPacket B.cfg (v, k) p with
      | error f => exact .fault f
      | ok acc =>
        have htime : acc.1.dLastTimestamp = timestamp p :=
          (congrArg Tally.last (processPacket_tally hacc)).trans (Tally.step_last ..)
        simp only [Except.map, ok_bind]
        have hnext : Beside s (some (timestamp p)) { r with dLocalqueue := rest }
            { r' with dLocalqueue := rest.map (shiftPacket s) } acc.1
            (acc.1.shift s (timestamp p + s)) :=
          ⟨htime, rfl, rfl, h.stopThread, h.pcapFileDone⟩
        rw [hacc] at halike
        exact ih acc.2 hnext rfl halike.2 fun q hq => hwrap q (List.mem_cons_of_mem _ hq)
    next => exact .ok ⟨rfl, h⟩

/-- The output item of the second run. -/
def OutItem.shift (s : ℕ) (item : OutItem) : OutItem :=
  ⟨item.x.shift s, item.y.map (TimeVector.shift s), item.tag.map (· + s)⟩

theorem popFront_map {α β : Type*} (f : α → β) (as : List α) :
    popFront (as.map f) = (popFront as).map fun r => (f r.1, r.2.map f) := by
  cases as <;> rfl

theorem emitItem_shift (c : Config) (live : Bool) (last : ℕ) (v : VoltState) :
    emitItem c live (v.shift s last) =
      (emitItem c live v).map fun r => (r.1.shift s, r.2.shift s last) := by
  have hsecond : popSecond c (v.shift s last) = (popSecond c v).map fun r =>
      (r.1.map (TimeVector.shift s), r.2.map (TimeVector.shift s)) := by
    rw [popSecond, popSecond]
    split
    · rfl
    · have hfront := popFront_map (TimeVector.shift s) v.yVectorQueue
      change Except.map _ (popFront (v.yVectorQueue.map (TimeVector.shift s))) = _
      rw [hfront]
      cases popFront v.yVectorQueue <;> rfl
  have htag : popTag live (v.shift s last) = (popTag live v).map fun r =>
      (r.1.map (· + s), r.2.map (· + s)) := by
    rw [popTag, popTag]
    change (if v.syncTimestamp = 0 then _ else _) = _
    split
    · have hfront := popFront_map (· + s) v.seqNumQueue
      change Except.map _ (popFront (v.seqNumQueue.map (· + s))) = _
      rw [hfront]
      cases popFront v.seqNumQueue with
      | error f => rfl
      | ok r => cases live <;> rfl
    · rfl
  have hfirst : popFront (v.shift s last).xVectorQueue = (popFront v.xVectorQueue).map fun r =>
      (r.1.shift s, r.2.map (TimeVector.shift s)) := popFront_map ..
  rw [emitItem, emitItem, hfirst, hsecond, htag]
  refine Execution.map_bind fun x => ?_
  refine Execution.map_bind fun y => ?_
  exact Execution.map_bind fun tag => rfl

theorem emitItems_shift (c : Config) (live : Bool) (last n : ℕ) (v : VoltState) :
    emitItems c live n (v.shift s last) = (emitItems c live n v).map fun r =>
      (r.1.map (OutItem.shift s), r.2.shift s last) := by
  induction n generalizing v with
  | zero => rfl
  | succ n ih =>
    rw [emitItems, emitItems, emitItem_shift]
    refine Execution.map_bind fun r => ?_
    simp only
    rw [ih]
    exact Execution.map_bind fun _ => rfl

/-- Two results with equal vectors and counts, and with tags that differ by `s`. -/
structure WorkResult.MovedBy (s : ℕ) (result result' : WorkResult) : Prop where
  x : result'.items.map (fun item => item.x.data) = result.items.map fun item => item.x.data
  y : result'.items.map (fun item => item.y.map TimeVector.data) =
    result.items.map fun item => item.y.map TimeVector.data
  tags : result'.items.map OutItem.tag = result.items.map fun item => item.tag.map (· + s)
  skippedPackets : result'.skippedPackets = result.skippedPackets

theorem WorkResult.movedBy_of_shift {result result' : WorkResult}
    (hitems : result'.items = result.items.map (OutItem.shift s))
    (hskipped : result'.skippedPackets = result.skippedPackets) : result.MovedBy s result' where
  x := by
    rw [hitems, List.map_map]
    rfl
  y := by
    rw [hitems, List.map_map]
    refine List.map_congr_left fun item _ => ?_
    cases h : item.y <;> simp [OutItem.shift, h, TimeVector.shift]
  tags := by
    rw [hitems, List.map_map]
    rfl
  skippedPackets := hskipped

/-- **One call.** -/
theorem workVoltMode_shift {last : Option ℕ} {a a' : SnapSource} (noutputItems : ℕ) (live : Bool)
    (h : Beside s last a.recv a'.recv a.volt a'.volt)
    (halike : StepsAlike s B.cfg.bOnePacket last
      (loopTaken B.cfg noutputItems a.recv.dLocalqueue (a.volt, 0)))
    (hwrap : ∀ p ∈ a.recv.dLocalqueue, timestamp p + s < 2 ^ 64) :
    Execution.Related (fun x x' => x.1.MovedBy s x'.1 ∧
        Beside s (lastAfter last (loopTaken B.cfg noutputItems a.recv.dLocalqueue (a.volt, 0)))
          x.2.recv x'.2.recv x.2.volt x'.2.volt)
      (workVoltMode B.cfg noutputItems live a) (workVoltMode B.cfg noutputItems live a') := by
  have hlen : a'.recv.dLocalqueue.length = a.recv.dLocalqueue.length := by
    rw [h.queue, List.length_map]
  rw [workVoltMode, workVoltMode]
  simp only [h.returns_iff]
  split
  next hidle =>
    have hempty : a.recv.dLocalqueue = [] := List.eq_nil_of_length_eq_zero hidle.2.2.1
    rw [hempty, loopTaken, lastAfter]
    exact .ok ⟨WorkResult.movedBy_of_shift rfl rfl, h⟩
  next =>
    have hbefore : Beside s last { a.recv with dSendSyncPmt := false }
        { a'.recv with dSendSyncPmt := false } a.volt a'.volt :=
      ⟨h.time, h.volt, h.queue, h.stopThread, h.pcapFileDone⟩
    have hloop := packetLoop_shift noutputItems 0 hbefore rfl halike hwrap
    rw [hlen]
    generalize packetLoop B.cfg noutputItems a.recv.dLocalqueue.length
      ({ a.recv with dSendSyncPmt := false }, a.volt, 0) = looped at hloop ⊢
    generalize packetLoop B.cfg noutputItems a.recv.dLocalqueue.length
      ({ a'.recv with dSendSyncPmt := false }, a'.volt, 0) = looped' at hloop ⊢
    cases hloop with
    | fault f => exact .fault f
    | @ok x x' hx =>
      obtain ⟨hskipped, hbeside⟩ := hx
      have hitems : x'.2.1.xVectorQueue.length = x.2.1.xVectorQueue.length := by
        rw [hbeside.volt]
        exact List.length_map _
      simp only [ok_bind, hitems]
      rw [hbeside.volt, emitItems_shift]
      cases hemit : emitItems B.cfg live (min noutputItems x.2.1.xVectorQueue.length) x.2.1 with
      | error f => exact .fault f
      | ok emitted =>
        have hkeep := congrArg Tally.last (emitItems_tally 0 hemit)
        exact .ok ⟨WorkResult.movedBy_of_shift rfl hskipped,
          ⟨hkeep.trans hbeside.time, rfl, hbeside.queue, hbeside.stopThread,
            hbeside.pcapFileDone⟩⟩

end Calls

-- ════════════════════════════════════════════════════════════════════════
-- Runs
-- ════════════════════════════════════════════════════════════════════════

/-- The same call with shifted packets. -/
def Call.shift (s : ℕ) (call : Call) : Call :=
  { call with
    arrived := call.arrived.map (shiftPacket s)
    synchronized := call.synchronized.map fun hdr =>
      { hdr with sampleNumber := hdr.sampleNumber + s } }

namespace VoltageBlock

variable {B : VoltageBlock} {s : ℕ}

/-- Two runs beside each other, before the calls `calls`. -/
structure RunsBeside (B : VoltageBlock) (s : ℕ) (last : Option ℕ) (calls : List Call)
    (w w' : WorkRun) : Prop where
  beside : Beside s last w.source.recv w'.source.recv w.source.volt w'.source.volt
  alike : StepsAlike s B.cfg.bOnePacket last (callsTaken B.cfg w calls)
  wrap : ∀ p ∈ w.source.recv.dLocalqueue ++ arrivals calls, timestamp p + s < 2 ^ 64
  results : List.Forall₂ (WorkResult.MovedBy s) w.results w'.results

/-- Messages are handled alike. -/
theorem handleMessages_shift (messages : List Pmt) (last : ℕ) (v : VoltState) :
    handleMessages (v.shift s last) messages =
      (handleMessages v messages).map (VoltState.shift s last) := by
  refine Execution.run_map (fun v m => ?_) v messages
  rw [handleSyncMsg, handleSyncMsg]
  cases m.cdr with
  | error f => rfl
  | ok data =>
    simp only [Except.map]
    split <;> rfl

/-- **One call of both runs.** -/
theorem RunsBeside.call {calls : List Call} {last : Option ℕ} {w w' : WorkRun} {call : Call}
    (h : B.RunsBeside s last (call :: calls) w w') :
    Execution.Related (fun x x' => ∃ last', B.RunsBeside s last' calls x x')
      (workCall B.cfg w call) (workCall B.cfg w' (call.shift s)) := by
  have hwrap := h.wrap
  rw [arrivals_cons, ← List.append_assoc] at hwrap
  obtain ⟨hnow, hlater⟩ := stepsAlike_append.mp h.alike
  have hmessages : handleMessages w'.source.volt (call.shift s).messages =
      (handleMessages w.source.volt call.messages).map
        (VoltState.shift s (shiftedLast s last)) := by
    rw [h.beside.volt]
    exact handleMessages_shift ..
  rw [workCall, workCall, hmessages]
  cases hvolt : handleMessages w.source.volt call.messages with
  | error f => exact .fault f
  | ok volt =>
    have htime := congrArg Tally.last (handleMessages_tally hvolt 0)
    -- what the two calls of the work function find
    let a : SnapSource := { w.source with recv := call.receive w.source.recv, volt := volt }
    let a' : SnapSource := { w'.source with
      recv := (call.shift s).receive w'.source.recv
      volt := volt.shift s (shiftedLast s last) }
    have hbefore : Beside s last a.recv a'.recv a.volt a'.volt :=
      { time := htime.trans h.beside.time
        volt := rfl
        queue := by
          simp only [a, a', Call.receive, Call.shift, h.beside.queue, List.map_append]
        stopThread := rfl
        pcapFileDone := rfl }
    rw [callTaken_eq hvolt] at hnow hlater
    have hwork := workVoltMode_shift call.noutputItems true hbefore hnow fun p hp =>
      hwrap p (List.mem_append_left _ hp)
    change Execution.Related _ (workVoltMode B.cfg call.noutputItems true a >>= _)
      (workVoltMode B.cfg call.noutputItems true a' >>= _)
    generalize hx : workVoltMode B.cfg call.noutputItems true a = x at hwork ⊢
    generalize workVoltMode B.cfg call.noutputItems true a' = x' at hwork ⊢
    cases hwork with
    | fault f => exact .fault f
    | @ok x x' hboth =>
      obtain ⟨hmoved, hbeside⟩ := hboth
      have hcall : workCall B.cfg w call = .ok ⟨x.2, w.results ++ [x.1]⟩ := by
        rw [workCall, hvolt, ok_bind]
        change (workVoltMode B.cfg call.noutputItems true a >>= _) = _
        rw [hx]
        rfl
      have hqueue := workCall_taken hcall
      rw [hcall] at hlater
      refine .ok ⟨_, hbeside, hlater, fun p hp => hwrap p ?_, ?_⟩
      · rw [hqueue, List.append_assoc]
        exact List.mem_append_right _ hp
      · exact List.rel_append h.results (.cons hmoved .nil)

/-- A started block has nothing to shift. -/
theorem runsBeside_start {env : Environment} {a : SnapSource} {calls : List Call}
    (h : start B.cfg B.unset env = .ok a)
    (halike : StepsAlike s B.cfg.bOnePacket none (callsTaken B.cfg ⟨a, []⟩ calls))
    (hwrap : ∀ p ∈ arrivals calls, timestamp p + s < 2 ^ 64) :
    B.RunsBeside s none calls ⟨a, []⟩ ⟨a, []⟩ := by
  rw [start] at h
  split_ifs at h
  all_goals
    cases h
    exact ⟨⟨rfl, rfl, rfl, rfl, rfl⟩, halike, hwrap, .nil⟩

/-- **Shifted runs.** In a run whose packet steps look the same later, the run on the shifted
packets outputs the same vectors in every call and reports the same losses, and its tags
are larger by the shift. It meets a fault when the first one does. -/
theorem run_movedBy (B : VoltageBlock) (env : Environment) {s : ℕ} {calls : List Call}
    (hwrap : ∀ p ∈ arrivals calls, timestamp p + s < 2 ^ 64)
    (halike : StepsAlike s B.cfg.bOnePacket none (B.taken env calls)) :
    Execution.Related (fun w w' => List.Forall₂ (WorkResult.MovedBy s) w.results w'.results)
      (B.run env calls) (B.run env (calls.map (Call.shift s))) := by
  rw [run, run, workRun, workRun]
  rw [taken] at halike
  cases hstart : start B.cfg B.unset env with
  | error f => exact .fault f
  | ok a =>
    rw [hstart] at halike
    have hrun := Execution.run_related (u := Call.shift s)
      (fun calls w w' => ∃ last, B.RunsBeside s last calls w w')
      (fun call calls w w' h => h.elim fun last h => RunsBeside.call h)
      ⟨none, runsBeside_start hstart halike hwrap⟩
    simp only [ok_bind]
    exact hrun.mono fun w w' h => h.elim fun _ h => h.results

/-- Two packets of successive frames, and the same frame later. -/
theorem run_movedBy_later_frames :
    let B := ofWidth 2 (by decide) (by decide) true
    let calls := [Call.taking [plainPacket 0 16, plainPacket 0 32] 16]
    Execution.Related (fun w w' => List.Forall₂ (WorkResult.MovedBy 16) w.results w'.results)
      (B.run ⟨[], fun _ _ => 0⟩ calls)
      (B.run ⟨[], fun _ _ => 0⟩ (calls.map (Call.shift 16))) := by
  intro B calls
  have h16 := timestamp_plainPacket 0 (show 16 < 2 ^ 64 by decide)
  have h32 := timestamp_plainPacket 0 (show 32 < 2 ^ 64 by decide)
  have hpackets : ∀ p ∈ arrivals calls, 0 < timestamp p ∧ timestamp p + 16 ≤ 2 ^ 64 - 16 := by
    intro p hp
    rcases List.mem_cons.mp hp with rfl | hp
    · rw [h16]
      decide
    · rw [List.mem_singleton.mp hp, h32]
      decide
  refine run_movedBy B _ (fun p hp => ?_) (stepsAlike_of_pos (fun t ht => ?_) fun p hp =>
    hpackets p ((B.taken_prefix _ calls).subset hp))
  · have := hpackets p hp
    omega
  · cases ht

/-- Results that differ by a shift have the same number of items. -/
theorem items_length_movedBy {results results' : List WorkResult}
    (h : List.Forall₂ (WorkResult.MovedBy s) results results') :
    (results'.flatMap WorkResult.items).length = (results.flatMap WorkResult.items).length := by
  induction h with
  | nil => rfl
  | cons hmoved _ ih =>
    have hlen := congrArg List.length hmoved.x
    rw [List.length_map, List.length_map] at hlen
    rw [List.flatMap_cons, List.flatMap_cons, List.length_append, List.length_append, ih, hlen]

/-- A stream that starts at timestamp zero: the packets at 0 and 16 go into one frame,
which is not complete. Shifted, the frame of the first packet is handed on. -/
theorem shifted_frame_cut :
    let B := ofWidth 2 (by decide) (by decide) true
    let calls := [Call.taking [plainPacket 0 0, plainPacket 0 16] 16]
    (∀ call ∈ calls, call.Valid) ∧
      (∀ p ∈ arrivals calls, B.InRange p ∧ timestamp p + 16 < 2 ^ 64) ∧
      ∃ w w', B.run ⟨[], fun _ _ => 0⟩ calls = .ok w ∧
        B.run ⟨[], fun _ _ => 0⟩ (calls.map (Call.shift 16)) = .ok w' ∧
        w.items = [] ∧ w'.items ≠ [] ∧
        ¬List.Forall₂ (WorkResult.MovedBy 16) w.results w'.results := by
  intro B calls
  have h0 := timestamp_plainPacket 0 (show 0 < 2 ^ 64 by decide)
  have h16 := timestamp_plainPacket 0 (show 16 < 2 ^ 64 by decide)
  have hs0 : timestamp (shiftPacket 16 (plainPacket 0 0)) = 16 := by
    rw [timestamp_shiftPacket (by rw [h0]; decide), h0]
  have hs16 : timestamp (shiftPacket 16 (plainPacket 0 16)) = 32 := by
    rw [timestamp_shiftPacket (by rw [h16]; decide), h16]
  have hrange : ∀ ts, B.InRange (plainPacket 0 ts) :=
    ofWidth_inRange (s := 0) (by decide) (by decide) true (by decide)
  have hrange' : ∀ ts, B.InRange (shiftPacket 16 (plainPacket 0 ts)) := fun ts =>
    (B.inRange_shiftPacket 16 _).mpr (hrange ts)
  have hcalls : ∀ call ∈ calls, call.Valid := by
    intro call hcall
    rw [List.mem_singleton.mp hcall]
    exact Call.taking_valid _ (by decide) (by decide)
  have hcalls' : ∀ call ∈ calls.map (Call.shift 16), call.Valid := by
    intro call hcall
    rw [List.mem_singleton.mp hcall]
    exact Call.taking_valid _ (by decide) (by decide)
  have harr : arrivals calls = [plainPacket 0 0, plainPacket 0 16] := rfl
  have harr' : arrivals (calls.map (Call.shift 16)) =
      [shiftPacket 16 (plainPacket 0 0), shiftPacket 16 (plainPacket 0 16)] := rfl
  obtain ⟨w, _, _, _, hw, ht, -⟩ := B.run_tracks ⟨[], fun _ _ => 0⟩ calls hcalls
    (B.admissible_of_timestamp_lt 0 (by rw [harr]; simp [hrange, h0, h16]))
  obtain ⟨w', _, _, _, hw', ht', -⟩ := B.run_tracks ⟨[], fun _ _ => 0⟩ _ hcalls'
    (B.admissible_of_timestamp_lt 0 (by rw [harr']; simp [hrange', hs0, hs16]))
  have hnone : w.items = [] := by
    rw [ht.items_eq_nil_iff, harr]
    simp [frameLog, FrameLog.step, FrameLog.newFrames, FrameLog.empty, h0, B, ofWidth, widthConfig]
  have hsome : w'.items ≠ [] := by
    rw [Ne, ht'.items_eq_nil_iff, harr']
    simp [frameLog, FrameLog.step, FrameLog.newFrames, FrameLog.empty, hs0, hs16, B, ofWidth,
      widthConfig]
  refine ⟨hcalls, ?_, w, w', hw, hw', hnone, hsome, fun hmoved => hsome ?_⟩
  · rw [harr]
    simp [hrange, h0, h16]
  · have hlen := items_length_movedBy hmoved
    have hzero : (w.results.flatMap WorkResult.items).length = 0 := congrArg List.length hnone
    rw [hzero] at hlen
    exact List.eq_nil_of_length_eq_zero hlen

end VoltageBlock

end GrAta
