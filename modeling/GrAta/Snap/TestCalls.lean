import GrAta.Voltage.EndOfCapture

/-!
# Calls by the benchmark

The benchmark calls `work_test` where the runtime calls `work`. Such a call attaches no tag
and publishes no header, and it does not look for the end of a capture. Apart from that it
is the call that it stands for, in both modes.

## Main definitions

- `BlockEvent.test`: a call of `work`, made as a call of `work_test`
- `Block.tested`: a block with the outcomes of such calls
- `Block.Ends`: the state in which `work` returns `WORK_DONE`

## Main results

- `workMode_test`: one call
- `blockRun_test`: every run that does not reach the end of a capture
-/

namespace GrAta

def SpectItem.untagged (item : SpectItem) : SpectItem := { item with tag := none }

def Output.untagged : Output → Output
  | .volt item => .volt item.untagged
  | .spect item => .spect item.untagged

/-- What a call of `work_test` returns. -/
def Outcome.tested : Outcome → Outcome
  | .workDone => .workDone
  | .returned items skippedPackets _ =>
    .returned (items.map Output.untagged) skippedPackets none

def Block.tested (b : Block) : Block := { b with outcomes := b.outcomes.map Outcome.tested }

def BlockEvent.test : BlockEvent → BlockEvent
  | .work noutputItems ports => .workTest noutputItems ports
  | event => event

/-- A capture has been read and its packets have been taken. -/
def Block.Ends (c : Config) (b : Block) : Prop :=
  c.dUsePcap = true ∧ b.ingress.recv.pcapFileDone = true ∧ b.ingress.recv.dLocalqueue = []

variable {isVoltage : Bool} {c : Config}

-- ════════════════════════════════════════════════════════════════════════
-- Voltage mode
-- ════════════════════════════════════════════════════════════════════════

/-- A number is popped in both calls. -/
theorem popTag_test (v : VoltState) :
    popTag false v = (popTag true v).map fun r => (none, r.2) := by
  rw [popTag, popTag]
  split
  · cases popFront v.seqNumQueue <;> rfl
  · rfl

theorem emitItem_test (v : VoltState) :
    emitItem c false v = (emitItem c true v).map fun r => (r.1.untagged, r.2) := by
  rw [emitItem, emitItem, popTag_test]
  cases popFront v.xVectorQueue with
  | error f => rfl
  | ok xs =>
    cases popSecond c v with
    | error f => rfl
    | ok ys =>
      cases popTag true v with
      | error f => rfl
      | ok tags => rfl

theorem emitItems_test (n : ℕ) (v : VoltState) :
    emitItems c false n v = (emitItems c true n v).map fun r => (r.1.map OutItem.untagged, r.2) := by
  induction n generalizing v with
  | zero => rfl
  | succ n ih =>
    rw [emitItems, emitItems, emitItem_test]
    refine Execution.map_bind fun item => ?_
    change (emitItems c false n item.2 >>= _) = _
    rw [ih]
    exact Execution.map_bind fun items => rfl

def WorkResult.tested (r : WorkResult) : WorkResult :=
  ⟨r.items.map OutItem.untagged, r.skippedPackets, none⟩

theorem workVoltMode_test (noutputItems : ℕ) (s : SnapSource) :
    workVoltMode c noutputItems false s =
      (workVoltMode c noutputItems true s).map fun r => (r.1.tested, r.2) := by
  rw [workVoltMode, workVoltMode]
  simp only
  split
  · rfl
  · cases packetLoop c noutputItems s.recv.dLocalqueue.length
      ({ s.recv with dSendSyncPmt := false }, s.volt, 0) with
    | error f => rfl
    | ok looped =>
      simp only [ok_bind, emitItems_test, Bool.false_eq_true, and_false, false_and, if_false]
      exact Execution.map_bind fun items => rfl

-- ════════════════════════════════════════════════════════════════════════
-- Spectrometer mode
-- ════════════════════════════════════════════════════════════════════════

theorem emitSpectItem_test (ports syncTimestamp : ℕ) (w : SpectWork) :
    emitSpectItem false ports syncTimestamp w =
      (emitSpectItem true ports syncTimestamp w).map fun r => (r.1.untagged, r.2) := by
  rw [emitSpectItem, emitSpectItem]
  cases popFront w.spect.xxVectorQueue with
  | error f => rfl
  | ok xx =>
    cases popFront w.spect.yyVectorQueue with
    | error f => rfl
    | ok yy =>
      cases popFront w.spect.xyRealVectorQueue with
      | error f => rfl
      | ok xyReal =>
        cases popFront w.spect.xyImagVectorQueue with
        | error f => rfl
        | ok xyImag =>
          cases popFront w.seqNumQueue with
          | error f => rfl
          | ok seqNum =>
            simp only [ok_bind, Except.map, SpectItem.untagged, Bool.false_eq_true, false_and,
              if_false]

theorem emitSpectItems_test (ports syncTimestamp n : ℕ) (w : SpectWork) :
    emitSpectItems false ports syncTimestamp n w =
      (emitSpectItems true ports syncTimestamp n w).map fun r =>
        (r.1.map SpectItem.untagged, r.2) := by
  induction n generalizing w with
  | zero => rfl
  | succ n ih =>
    rw [emitSpectItems, emitSpectItems, emitSpectItem_test]
    refine Execution.map_bind fun item => ?_
    change (emitSpectItems false ports syncTimestamp n item.2 >>= _) = _
    rw [ih]
    exact Execution.map_bind fun items => rfl

def SpectResult.tested (r : SpectResult) : SpectResult :=
  ⟨r.items.map SpectItem.untagged, r.skippedPackets, none⟩

theorem workSpecMode_test (noutputItems ports : ℕ) (s : SnapSource) :
    workSpecMode c noutputItems ports false s =
      (workSpecMode c noutputItems ports true s).map fun r => (r.1.tested, r.2) := by
  rw [workSpecMode, workSpecMode]
  simp only
  split
  · rfl
  · cases spectLoop c noutputItems s.recv.dLocalqueue.length
      ({ s.recv with dSendSyncPmt := false }, ⟨s.spect, s.volt.seqNumQueue, 0⟩) with
    | error f => rfl
    | ok looped =>
      simp only [ok_bind, emitSpectItems_test, Bool.false_eq_true, and_false, if_false]
      exact Execution.map_bind fun items => rfl

-- ════════════════════════════════════════════════════════════════════════
-- Whole blocks
-- ════════════════════════════════════════════════════════════════════════

/-- **One call.** A call of `work_test` returns what the call of the work function returns,
without its tags and its header, and leaves the same state. -/
theorem workMode_test (noutputItems ports : ℕ) (s : SnapSource) :
    workMode isVoltage c noutputItems ports false s =
      (workMode isVoltage c noutputItems ports true s).map fun r => (r.1.tested, r.2) := by
  rw [workMode, workMode]
  split
  · rw [workVoltMode_test]
    cases workVoltMode c noutputItems true s with
    | error f => rfl
    | ok r => simp [Except.map, WorkResult.tested, Outcome.tested, Output.untagged]
  · rw [workSpecMode_test]
    cases workSpecMode c noutputItems ports true s with
    | error f => rfl
    | ok r => simp [Except.map, SpectResult.tested, Outcome.tested, Output.untagged]

theorem Outcome.tested_tested (o : Outcome) : o.tested.tested = o.tested := by
  cases o with
  | workDone => rfl
  | returned items skippedPackets syncHeader =>
    have hitem : Output.untagged ∘ Output.untagged = Output.untagged := by
      funext item
      cases item <;> rfl
    simp only [tested, List.map_map, hitem]

theorem Block.tested_after (b : Block) (r : Outcome × SnapSource) :
    b.tested.after (r.1.tested, r.2) = (b.after r).tested := by
  simp only [Block.tested, Block.after, List.map_append]
  rfl

/-- The benchmark's call on the block that the other calls have left. -/
theorem workTest_tested (noutputItems ports : ℕ) (b : Block) :
    (workTest isVoltage c noutputItems ports b.tested.source).map b.tested.after =
      ((workMode isVoltage c noutputItems ports true b.source).map b.after).map Block.tested := by
  rw [workTest, workMode_test]
  change ((workMode isVoltage c noutputItems ports true b.source).map _).map _ = _
  cases workMode isVoltage c noutputItems ports true b.source with
  | error f => rfl
  | ok r => exact congrArg Except.ok (b.tested_after r)

theorem blockStep_test {capture : List Record} {b : Block} (h : ¬b.Ends c) (event : BlockEvent) :
    blockStep isVoltage c capture b.tested event.test =
      (blockStep isVoltage c capture b event).map Block.tested := by
  cases event with
  | mmsgReceive datagrams => rfl
  | queuePcapData minPcapQueueSize => rfl
  | handleSyncMsg msg =>
    change (handleSyncMsg b.volt msg).map (fun v => { b.tested with volt := v }) =
      ((handleSyncMsg b.volt msg).map fun v => { b with volt := v }).map Block.tested
    cases handleSyncMsg b.volt msg <;> rfl
  | work noutputItems ports =>
    have hnot : ¬(c.dUsePcap ∧ b.source.recv.pcapFileDone ∧
        b.source.recv.dLocalqueue.length = 0) := fun hend =>
      h ⟨hend.1, hend.2.1, List.eq_nil_of_length_eq_zero hend.2.2⟩
    rw [BlockEvent.test, blockStep, blockStep, work, if_neg hnot]
    exact workTest_tested noutputItems ports b
  | workTest noutputItems ports =>
    change blockStep isVoltage c capture b.tested (.workTest noutputItems ports) = _
    rw [blockStep, blockStep, workTest_tested, workTest, workMode_test]
    cases workMode isVoltage c noutputItems ports true b.source with
    | error f => rfl
    | ok r =>
      refine congrArg Except.ok ?_
      rw [← b.tested_after, ← b.tested_after, Outcome.tested_tested]
  | stop => rfl

/-- **Every run.** Made with `work_test` in place of `work`, a run that does not come to the
end of a capture faults in the same way, or leaves the same state and returns the same
vectors and counts. -/
theorem blockRun_test {u : Unset} {env : Environment} {events : List BlockEvent}
    (h : ∀ before, before <+: events → ∀ b, blockRun isVoltage c u env before = .ok b →
      ¬b.Ends c) :
    blockRun isVoltage c u env (events.map BlockEvent.test) =
      (blockRun isVoltage c u env events).map Block.tested := by
  cases hstart : start c u env with
  | error f => simp only [blockRun, hstart, error_bind, Except.map]
  | ok s =>
    simp only [blockRun, hstart, ok_bind] at h ⊢
    induction events using List.reverseRecOn with
    | nil => rfl
    | append_singleton events e ih =>
      have hbefore := ih fun before hinit => h before (hinit.trans (List.prefix_append _ _))
      rw [List.map_append]
      cases hrun : Execution.run (blockStep isVoltage c env.capture)
          ⟨⟨s.recv, [], []⟩, s.volt, s.spect, []⟩ events with
      | error f =>
        rw [hrun] at hbefore
        rw [Execution.run_append_error hrun, Execution.run_append_error hbefore]
        rfl
      | ok b =>
        rw [hrun] at hbefore
        rw [Execution.run_append_ok hrun, Execution.run_append_ok hbefore, List.map_singleton,
          Execution.run_singleton, Execution.run_singleton]
        exact blockStep_test (h events (List.prefix_append _ _) b hrun) e

-- ════════════════════════════════════════════════════════════════════════
-- A capture that is longer than a refill
-- ════════════════════════════════════════════════════════════════════════

open VoltageBlock

/-- A capture of more packets than a refill reads. -/
def longCapture : Environment :=
  ⟨List.replicate 64 (capturedFrame 10000 (plainPacket 0 16)) ++
    [capturedFrame 10000 (plainPacket 0 32)], fun _ _ => 0⟩

/-- Its end is not found by the first refill. -/
theorem longCapture_refill {s : Ingress} (hfile : s.recv.pcapFile = longCapture.capture) :
    (queuePcapData formatTest single.fromCapture.cfg longCapture.capture 16 s).recv.pcapFileDone =
      s.recv.pcapFileDone := by
  have haccepted : ∀ r ∈ List.replicate 64 (capturedFrame 10000 (plainPacket 0 16)),
      (udpPayload single.fromCapture.cfg r).isSome = true := by
    intro r hr
    obtain ⟨pData, hpayload, -⟩ := @udpPayload_capturedFrame single.fromCapture.cfg 10000
      (plainPacket 0 16) rfl (by decide) (plainPacket_length 0 16) (by decide)
    rw [List.eq_of_mem_replicate hr, hpayload]
    rfl
  have hmore := @pcapLoop_enough formatTest single.fromCapture.cfg _
    [capturedFrame 10000 (plainPacket 0 32)] 0 s haccepted
    (by rw [List.length_replicate]; decide) (List.cons_ne_nil _ _)
  obtain ⟨read, rest, ended, s', hloop, -, -, hdone, -⟩ := pcapLoop_reads formatTest
    single.fromCapture.eight_le_totalPacketSize longCapture.capture 0 s
  rw [queuePcapData, hfile]
  change (pcapLoop formatTest single.fromCapture.cfg longCapture.capture 0 s).1 = false at hmore
  split
  · rw [hloop] at hmore ⊢
    obtain rfl : ended = false := hmore
    exact hdone
  · rfl

/-- A call does not look for it. -/
theorem blockStep_work_recv {capture : List Record} {b b' : Block} {noutputItems ports : ℕ}
    (h : blockStep formatTest c capture b (.work noutputItems ports) = .ok b') :
    b'.ingress.recv.pcapFileDone = b.ingress.recv.pcapFileDone := by
  rw [blockStep, work] at h
  split at h
  · cases h
    rfl
  · rw [workMode, if_pos (show formatTest = true from rfl)] at h
    cases hwork : workVoltMode c noutputItems true b.source with
    | error f =>
      rw [hwork] at h
      cases h
    | ok r =>
      rw [hwork] at h
      cases h
      exact (workVoltMode_recv hwork).1

/-- A refill and a call of the benchmark. -/
theorem blockRun_test_longCapture :
    blockRun formatTest single.fromCapture.cfg single.fromCapture.unset longCapture
        ([.queuePcapData 16, .work 16 1].map BlockEvent.test) =
      (blockRun formatTest single.fromCapture.cfg single.fromCapture.unset longCapture
        [.queuePcapData 16, .work 16 1]).map Block.tested := by
  obtain ⟨s, hs, -, -⟩ := single.fromCapture.start_tracks longCapture
  have hrecv := start_recv hs
  have hrefill := @longCapture_refill ⟨s.recv, [], []⟩ (by rw [hrecv]; rfl)
  refine blockRun_test fun before hbefore b hrun hends => ?_
  have hdone : b.ingress.recv.pcapFileDone = false := by
    rw [blockRun, hs, ok_bind] at hrun
    rcases before with _ | ⟨e₁, _ | ⟨e₂, before⟩⟩
    · cases hrun
      rw [hrecv]
      rfl
    · obtain ⟨rfl, -⟩ := List.cons_prefix_cons.mp hbefore
      cases hrun
      rw [hrefill, hrecv]
      rfl
    · obtain ⟨rfl, htail⟩ := List.cons_prefix_cons.mp hbefore
      obtain ⟨rfl, hnil⟩ := List.cons_prefix_cons.mp htail
      obtain rfl := List.prefix_nil.mp hnil
      obtain ⟨b₁, hb₁, hwork⟩ := Execution.run_append_split (show Execution.run _ _
        ([BlockEvent.queuePcapData 16] ++ [BlockEvent.work 16 1]) = _ from hrun)
      cases hb₁
      rw [Execution.run_singleton] at hwork
      rw [blockStep_work_recv hwork, hrefill, hrecv]
      rfl
  exact Bool.noConfusion (hdone.symm.trans hends.2.1)

end GrAta
