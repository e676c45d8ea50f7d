import GrAta.Voltage.Runs

/-!
# A source after a handshake

The handshake sets the timestamp that the work function tests before it queues or takes
a sequence number. A source that has received one runs beside the same source without
it: the sequence numbers and the tags are all that differs.

## Main definitions

- `Announced`: the state of a source beside the same source after a handshake
- `WorkResult.untagged`: a result without the tags of its items

## Main results

- `Announced.packet`: one packet
- `Announced.work`: one call of the work function
-/

namespace GrAta

open Execution

/-- The result with items that carry no tags. -/
def WorkResult.untagged (r : WorkResult) : WorkResult :=
  { r with items := r.items.map OutItem.untagged }

/-- State `v'` is `v` after a handshake with the number `t`, which has left `q` in the
queue of the sequence numbers. In `v` there is a number for every queued vector. -/
structure Announced (t : ℕ) (q : List ℕ) (v v' : VoltState) : Prop where
  state : v' = { v with seqNumQueue := q, syncTimestamp := t }
  quiet : v.syncTimestamp = 0
  paced : v.seqNumQueue.length = v.xVectorQueue.length

/-- The two sides of a step that also counts skipped packets. -/
def AnnouncedCount (t : ℕ) (q : List ℕ) (acc acc' : VoltState × ℤ) : Prop :=
  Announced t q acc.1 acc'.1 ∧ acc'.2 = acc.2

namespace Announced

variable {t : ℕ} {q : List ℕ} {v v' : VoltState} (c : Config)

theorem pushSeqNums_quiet (hquiet : v.syncTimestamp = 0) (n : ℕ) :
    pushSeqNums v n = v.seqNumQueue ++ List.replicate 16 n := if_pos hquiet

theorem pushSeqNums_announced (h : Announced t q v v') (ht : t ≠ 0) (n : ℕ) :
    pushSeqNums v' n = q := by
  rw [h.state]
  exact if_neg ht

theorem copy (h : Announced t q v v') (p : Packet) (hdr : SnapHeader) :
    Related (Announced t q) (copyVoltDataToVectorBuffer c p hdr v)
      (copyVoltDataToVectorBuffer c p hdr v') := by
  obtain ⟨rfl, hquiet, hpaced⟩ := h
  rw [copyVoltDataToVectorBuffer, copyVoltDataToVectorBuffer]
  by_cases hpacked : c.dPackedOutput = true
  · simp only [hpacked, if_true]
    cases v.xVectorBuffer.storeAll _ with
    | none =>
      simp only [inBounds_none, error_bind]
      exact .fault _
    | some x =>
      simp only [inBounds_some, ok_bind]
      exact .ok ⟨rfl, hquiet, hpaced⟩
  · simp only [hpacked, Bool.false_eq_true, if_false]
    cases v.xVectorBuffer.storeAll _ with
    | none =>
      simp only [inBounds_none, error_bind]
      exact .fault _
    | some x =>
      simp only [inBounds_some, ok_bind]
      cases v.yVectorBuffer.storeAll _ with
      | none =>
        simp only [inBounds_none, error_bind]
        exact .fault _
      | some y =>
        simp only [inBounds_some, ok_bind]
        exact .ok ⟨rfl, hquiet, hpaced⟩

theorem timeVectors_length {buffer : Region UInt8} {origin : FrameOrigin} {xs : List TimeVector}
    (h : timeVectors c buffer origin = .ok xs) : xs.length = 16 := by
  rw [timeVectors, Region.rows] at h
  split at h
  · rw [inBounds_some, ok_bind] at h
    rw [← Except.ok.inj h]
    simp
  · cases h

/-- A frame is queued with sixteen numbers, or with none after the handshake. -/
theorem queue (ht : t ≠ 0) (h : Announced t q v v') (hdr : SnapHeader) :
    Related (Announced t q) (queueVoltageData c hdr v) (queueVoltageData c hdr v') := by
  have hnums := h.pushSeqNums_announced ht hdr.sampleNumber
  obtain ⟨rfl, hquiet, hpaced⟩ := h
  rw [queueVoltageData, queueVoltageData, hnums, pushSeqNums_quiet hquiet]
  dsimp only
  cases hx : timeVectors c v.xVectorBuffer (.received v.copied) with
  | error f =>
    rw [error_bind, error_bind]
    exact .fault f
  | ok xs =>
    have hlen := timeVectors_length c hx
    have hpaced' : (v.seqNumQueue ++ List.replicate 16 hdr.sampleNumber).length =
        (v.xVectorQueue ++ xs).length := by
      rw [List.length_append, List.length_append, List.length_replicate, hlen, hpaced]
    simp only [ok_bind]
    split_ifs
    · exact .ok ⟨rfl, hquiet, hpaced'⟩
    · cases timeVectors c v.yVectorBuffer (.received v.copied) with
      | error f =>
        rw [error_bind, error_bind]
        exact .fault f
      | ok ys =>
        rw [ok_bind, ok_bind]
        exact .ok ⟨rfl, hquiet, hpaced'⟩

theorem missedFrame (ht : t ≠ 0) (h : Announced t q v v') (missed : ℕ) :
    Announced t q (queueMissedFrame c v missed) (queueMissedFrame c v' missed) := by
  have hnums := h.pushSeqNums_announced ht missed
  obtain ⟨rfl, hquiet, hpaced⟩ := h
  rw [queueMissedFrame, queueMissedFrame, hnums, pushSeqNums_quiet hquiet]
  refine ⟨rfl, hquiet, ?_⟩
  simp only [zeroVectors, List.length_append, List.length_replicate, List.length_map,
    List.length_range, hpaced]

theorem missedFrames (ht : t ≠ 0) (missed : List ℕ) (h : Announced t q v v') :
    Announced t q (missed.foldl (queueMissedFrame c) v)
      (missed.foldl (queueMissedFrame c) v') := by
  induction missed generalizing v v' with
  | nil => exact h
  | cons m missed ih => exact ih (h.missedFrame c ht m)

theorem fill (ht : t ≠ 0) (h : Announced t q v v') (sample : ℕ) :
    Related (Announced t q) (fillGap c sample v) (fillGap c sample v') := by
  have hlast : v'.dLastTimestamp = v.dLastTimestamp := by rw [h.state]
  rw [fillGap, fillGap, hlast]
  cases gapTimestamps sample (MAX_MISSED_SETS + 1) ((v.dLastTimestamp + 16) % 2 ^ 64) with
  | none => exact .fault _
  | some missed => exact .ok (h.missedFrames c ht missed)

theorem check (ht : t ≠ 0) (h : Announced t q v v') (hdr : SnapHeader) (skipped : ℤ) :
    Related (AnnouncedCount t q) (checkMissingFrames c hdr v skipped)
      (checkMissingFrames c hdr v' skipped) := by
  have hlast : v'.dLastTimestamp = v.dLastTimestamp := by rw [h.state]
  rw [checkMissingFrames, checkMissingFrames, hlast]
  simp only
  split_ifs
  · exact (h.fill c ht hdr.sampleNumber).bind fun _ _ h' => .ok ⟨h', rfl⟩
  all_goals exact .ok ⟨h, rfl⟩

theorem finish (ht : t ≠ 0) (h : Announced t q v v') (hdr : SnapHeader) (skipped : ℤ) :
    Related (AnnouncedCount t q) (finishFrame c hdr v skipped)
      (finishFrame c hdr v' skipped) := by
  rw [finishFrame, finishFrame]
  split_ifs
  · exact .ok ⟨h, rfl⟩
  · refine (h.queue c ht hdr).bind fun a b h' => .ok ⟨h', ?_⟩
    rw [h'.state]

theorem clear (h : Announced t q v v') :
    Announced t q (clearVectorBuffers c { v with multipacketFramePktCtr := 1 })
      (clearVectorBuffers c { v' with multipacketFramePktCtr := 1 }) := by
  obtain ⟨rfl, hquiet, hpaced⟩ := h
  exact ⟨rfl, hquiet, hpaced⟩

theorem startFrame (ht : t ≠ 0) (h : Announced t q v v') (p : Packet) (hdr : SnapHeader) :
    Related (Announced t q) (GrAta.startFrame c p hdr v) (GrAta.startFrame c p hdr v') := by
  rw [GrAta.startFrame, GrAta.startFrame]
  split_ifs
  · exact (h.copy c p hdr).bind fun _ _ h' => h'.queue c ht hdr
  · exact (h.clear c).copy c p hdr

/-- **One packet.** -/
theorem packet (ht : t ≠ 0) (p : Packet) {acc acc' : VoltState × ℤ}
    (h : AnnouncedCount t q acc acc') :
    Related (AnnouncedCount t q) (processPacket c acc p) (processPacket c acc' p) := by
  obtain ⟨h, hcount⟩ := h
  have hlast : acc'.1.dLastTimestamp = acc.1.dLastTimestamp := by rw [h.state]
  rw [processPacket, processPacket, hlast, hcount]
  simp only
  split
  · refine (h.finish c ht _ acc.2).bind fun a b hab => ?_
    obtain ⟨hab, heq⟩ := hab
    rw [heq]
    refine (hab.check c ht _ a.2).bind fun a' b' hab' => ?_
    obtain ⟨hab', heq'⟩ := hab'
    refine (hab'.startFrame c ht p _).bind fun w w' hw => ?_
    refine .ok ⟨⟨?_, hw.quiet, hw.paced⟩, heq'⟩
    rw [hw.state]
  · have hnext : Announced t q
        (if acc.1.dLastTimestamp = 0 then
          { acc.1 with dLastTimestamp := (getVoltageHeader (pointer p)).sampleNumber }
        else acc.1)
        (if acc.1.dLastTimestamp = 0 then
          { acc'.1 with dLastTimestamp := (getVoltageHeader (pointer p)).sampleNumber }
        else acc'.1) := by
      split_ifs
      · refine ⟨?_, h.quiet, h.paced⟩
        rw [h.state]
      · exact h
    refine (hnext.copy c p _).bind fun w w' hw => ?_
    refine .ok ⟨⟨?_, hw.quiet, hw.paced⟩, rfl⟩
    rw [hw.state]

/-- **The packet loop.** -/
theorem loop (ht : t ≠ 0) (noutputItems : ℕ) : ∀ (n : ℕ) (r : Receiver)
    {acc acc' : VoltState × ℤ}, AnnouncedCount t q acc acc' →
    Related (fun a b => b.1 = a.1 ∧ AnnouncedCount t q a.2 b.2)
      (packetLoop c noutputItems n (r, acc)) (packetLoop c noutputItems n (r, acc')) := by
  intro n
  induction n with
  | zero => exact fun r _ _ h => .ok ⟨rfl, h⟩
  | succ n ih =>
    intro r acc acc' h
    have hqueue : acc'.1.xVectorQueue = acc.1.xVectorQueue := by rw [h.1.state]
    rw [packetLoop, packetLoop]
    simp only [hqueue]
    split_ifs
    · cases fillLocalBuffer r with
      | error f => exact .fault f
      | ok taken =>
        rw [ok_bind, ok_bind]
        exact (packet c ht taken.1 h).bind fun _ _ hnext => ih taken.2 hnext
    · exact .ok ⟨rfl, h⟩

-- ════════════════════════════════════════════════════════════════════════
-- Output
-- ════════════════════════════════════════════════════════════════════════

/-- **One item.** The source with the handshake pops no number. -/
theorem item (ht : t ≠ 0) (live : Bool) (h : Announced t q v v') :
    Related (fun a b => b.1 = a.1.untagged ∧ Announced t q a.2 b.2)
      (emitItem c live v) (emitItem c live v') := by
  obtain ⟨rfl, hquiet, hpaced⟩ := h
  rw [emitItem, emitItem]
  dsimp only
  cases hx : v.xVectorQueue with
  | nil =>
    simp only [popFront, error_bind]
    exact .fault _
  | cons x xs =>
    obtain ⟨k, ns, hnums⟩ : ∃ k ns, v.seqNumQueue = k :: ns :=
      List.exists_cons_of_length_pos (by rw [hpaced, hx]; exact Nat.succ_pos _)
    have htag : popTag live v = .ok (if live then some k else none, ns) := by
      rw [popTag, if_pos hquiet, hnums]
      rfl
    have htag' : popTag live { v with seqNumQueue := q, syncTimestamp := t } =
        .ok (none, q) := if_neg ht
    have hsecond : popSecond c { v with seqNumQueue := q, syncTimestamp := t } =
        popSecond c v := rfl
    simp only [hx] at htag htag' hsecond
    simp only [popFront, ok_bind, htag, htag', hsecond]
    cases popSecond c v with
    | error f =>
      simp only [error_bind]
      exact .fault f
    | ok y =>
      simp only [ok_bind]
      refine .ok ⟨rfl, rfl, hquiet, ?_⟩
      rw [hnums, hx] at hpaced
      exact Nat.succ.inj hpaced

theorem items (ht : t ≠ 0) (live : Bool) : ∀ (n : ℕ) {v v' : VoltState}, Announced t q v v' →
    Related (fun a b => b.1 = a.1.map OutItem.untagged ∧ Announced t q a.2 b.2)
      (emitItems c live n v) (emitItems c live n v') := by
  intro n
  induction n with
  | zero => exact fun h => .ok ⟨rfl, h⟩
  | succ n ih =>
    intro v v' h
    rw [emitItems, emitItems]
    refine (h.item c ht live).bind fun a b hab => (ih hab.2).bind fun a' b' hab' => ?_
    refine .ok ⟨?_, hab'.2⟩
    rw [hab.1, hab'.1, List.map_cons]

/-- **One call.** Both sources return the same vectors and counts, or fault together. -/
theorem work (ht : t ≠ 0) (noutputItems : ℕ) (live : Bool) {s s' : SnapSource}
    (hrecv : s'.recv = s.recv) (hspect : s'.spect = s.spect) (h : Announced t q s.volt s'.volt) :
    Related (fun a b => b.1 = a.1.untagged ∧ b.2.recv = a.2.recv ∧ b.2.spect = a.2.spect ∧
        Announced t q a.2.volt b.2.volt)
      (workVoltMode c noutputItems live s) (workVoltMode c noutputItems live s') := by
  have hqueue : s'.volt.xVectorQueue = s.volt.xVectorQueue := by rw [h.state]
  rw [workVoltMode, workVoltMode]
  simp only [hrecv, hqueue]
  split_ifs with hidle
  · exact .ok ⟨rfl, hrecv, hspect, h⟩
  all_goals
    have hacc : AnnouncedCount t q (s.volt, 0) (s'.volt, 0) := ⟨h, rfl⟩
    refine (loop c ht noutputItems _ { s.recv with dSendSyncPmt := false } hacc).bind
      fun a b hab => ?_
    obtain ⟨hr, hv, hk⟩ := hab
    have hx : b.2.1.xVectorQueue = a.2.1.xVectorQueue := by rw [hv.state]
    simp only [hx]
    refine (hv.items c ht live _).bind fun a' b' hab' => ?_
    refine .ok ⟨?_, hr, hspect, hab'.2⟩
    rw [hab'.1, hk]
    rfl

/-- A source without a handshake keeps a number for every vector that it queues. -/
theorem paced_work {noutputItems : ℕ} {live : Bool} {s : SnapSource}
    (hquiet : s.volt.syncTimestamp = 0)
    (hpaced : s.volt.seqNumQueue.length = s.volt.xVectorQueue.length)
    {result : WorkResult × SnapSource} (hwork : workVoltMode c noutputItems live s = .ok result) :
    result.2.volt.syncTimestamp = 0 ∧
      result.2.volt.seqNumQueue.length = result.2.volt.xVectorQueue.length := by
  -- beside any source with a handshake
  have hvolt : Announced 1 [] s.volt { s.volt with seqNumQueue := [], syncTimestamp := 1 } :=
    ⟨rfl, hquiet, hpaced⟩
  have hbeside := work c one_ne_zero noutputItems live
    (show ({ s with volt := { s.volt with seqNumQueue := [], syncTimestamp := 1 } } :
      SnapSource).recv = s.recv from rfl) rfl hvolt
  obtain ⟨_, -, -, -, -, h⟩ := hbeside.of_ok hwork
  exact ⟨h.quiet, h.paced⟩

end Announced

end GrAta
