import GrAta.Voltage.EndOfCapture

/-!
# What a block delivers

As long as no message reaches a block, its outputs are the rows of the frames of the
packets that it has taken, up to those that wait in the output queue. This does not depend
on where the packets came from.

## Main definitions

- `VoltageBlock.rows`: the output items that packets make up
- `VoltageBlock.Delivers`: what a block has taken, delivered and kept

## Main results

- `VoltageBlock.Delivers.outputs_initial`, `VoltageBlock.Delivers.outputs_all`: the outputs in
  terms of the packets that were queued
- `VoltageBlock.Delivers.work`: a call of the work function
-/

namespace GrAta

namespace VoltageBlock

variable {B : VoltageBlock}

/-- The packets from the starting channel on are among all packets. -/
theorem fromStart_sublist (B : VoltageBlock) (ps : List Packet) :
    (fromStart true B.cfg false ps).Sublist ps :=
  List.dropWhile_sublist _

/-- The rows of the frames that packets make up, in order, with their tags. -/
def rows (B : VoltageBlock) (ps : List Packet) : List OutItem :=
  ((frameLog B.cfg.bOnePacket ps).pushed.flatMap B.queuedItems).map (Queued.emitted true)

/-- More packets make up more frames. -/
theorem rows_mono (B : VoltageBlock) {ps qs : List Packet} (h : ps <+: qs) :
    B.rows ps <+: B.rows qs :=
  ((frameLog_pushed_mono _ h).flatMap _).map _

/-- Packets that a block can process. -/
def Processes (B : VoltageBlock) (ps : List Packet) : Prop :=
  ∀ p ∈ ps, B.InRange p ∧ timestamp p < 2 ^ 64 - 16

/-- A call changes the queue of the receiver and the request for a header. -/
theorem workVoltMode_receiver {c : Config} {noutputItems : ℕ} {live : Bool} {s s' : SnapSource}
    {result : WorkResult} (h : workVoltMode c noutputItems live s = .ok (result, s')) :
    ∃ send queue, s'.recv = { s.recv with dSendSyncPmt := send, dLocalqueue := queue } := by
  rw [workVoltMode] at h
  split at h
  · cases h
    exact ⟨_, _, rfl⟩
  · cases hloop : packetLoop c noutputItems s.recv.dLocalqueue.length
      ({ s.recv with dSendSyncPmt := false }, s.volt, 0) with
    | error f =>
      rw [hloop] at h
      cases h
    | ok looped =>
      obtain ⟨rest, hrest⟩ := packetLoop_recv hloop
      rw [hloop] at h
      simp only [ok_bind] at h
      cases hemit : emitItems c live (min noutputItems looped.2.1.xVectorQueue.length)
          looped.2.1 with
      | error f =>
        rw [hemit] at h
        cases h
      | ok emitted =>
        rw [hemit] at h
        cases h
        exact ⟨false, rest, hrest⟩

/-- A block that no message has reached: the packets that calls have taken, and the rows of
their frames, delivered or waiting. -/
structure Delivers (b : Block) (taken : List Packet) (delivered queue : List Queued) : Prop where
  consumed : b.ingress.placed = taken ++ b.ingress.recv.dLocalqueue
  shows : B.Shows (frameLog B.cfg.bOnePacket taken) queue b.volt
  frames : delivered ++ queue = (frameLog B.cfg.bOnePacket taken).pushed.flatMap B.queuedItems
  outputs : outputs b = (delivered.map (Queued.emitted true)).map .volt
  quiet : b.volt.syncTimestamp = 0

namespace Delivers

variable {b : Block} {taken : List Packet} {delivered queue : List Queued}

/-- The outputs are those of the first of the packets that were queued. -/
theorem outputs_initial (h : B.Delivers b taken delivered queue) {ps : List Packet}
    (hplaced : b.ingress.placed <+: ps) :
    VoltageBlock.outputs b <+: (B.rows ps).map Output.volt := by
  have htaken : taken <+: ps := (h.consumed ▸ List.prefix_append taken _).trans hplaced
  have hdelivered : delivered.map (Queued.emitted true) <+: B.rows taken := by
    rw [rows, ← h.frames, List.map_append]
    exact List.prefix_append _ _
  rw [h.outputs]
  exact (hdelivered.trans (B.rows_mono htaken)).map _

/-- When nothing waits all packets have been output. -/
theorem outputs_all (h : B.Delivers b taken delivered queue)
    (hlocal : b.ingress.recv.dLocalqueue = []) (hqueue : b.volt.xVectorQueue = []) :
    VoltageBlock.outputs b = (B.rows b.ingress.placed).map Output.volt := by
  have htaken : b.ingress.placed = taken := by rw [h.consumed, hlocal, List.append_nil]
  have hnil : queue = [] := List.map_eq_nil_iff.mp (h.shows.xQueue.symm.trans hqueue)
  rw [htaken, rows, ← h.frames, hnil, List.append_nil]
  exact h.outputs

/-- A call that did some work. -/
theorem after (h : B.Delivers b taken delivered queue) {noutput : ℕ} {more : List Packet}
    {result : WorkResult} {s' : SnapSource}
    (hserves :
      B.Serves (frameLog B.cfg.bOnePacket taken) queue noutput true b.source more result s') :
    B.Delivers (b.after (.ofVolt result, s')) (taken ++ more)
      (delivered ++ (queue ++ ((frameLog B.cfg.bOnePacket taken).framesFrom B.cfg.bOnePacket
        more).flatMap B.queuedItems).take noutput)
      ((queue ++ ((frameLog B.cfg.bOnePacket taken).framesFrom B.cfg.bOnePacket
        more).flatMap B.queuedItems).drop noutput) := by
  have hlocal : b.ingress.recv.dLocalqueue = more ++ s'.recv.dLocalqueue := hserves.consumed
  have hlive : (decide (b.source.volt.syncTimestamp = 0) && true) = true := by
    rw [show b.source.volt.syncTimestamp = 0 from h.quiet]
    rfl
  have hitems := hserves.items
  rw [hlive] at hitems
  refine ⟨?_, ?_, ?_, ?_, hserves.sync.trans h.quiet⟩
  · rw [List.append_assoc, Block.after, ← hlocal]
    exact h.consumed
  · rw [frameLog_append]
    exact hserves.shows
  · -- the rows that are delivered come off the front of the queue
    rw [List.append_assoc, List.take_append_drop, ← List.append_assoc, h.frames, frameLog_append,
      FrameLog.foldl_pushed, List.flatMap_append]
  · rw [VoltageBlock.outputs, Block.after, List.flatMap_append, ← VoltageBlock.outputs, h.outputs,
      List.map_append, List.map_append, ← hitems]
    exact congrArg (_ ++ ·) (List.append_nil _)

/-- **A call of the work function** that does not find the end of a capture. It returns, and
of the receiving side it changes the queue and the request for a header. -/
theorem work (h : B.Delivers b taken delivered queue) (hprocesses : B.Processes b.ingress.placed)
    (hgoes : B.cfg.dUsePcap = true → b.ingress.recv.pcapFileDone = false) (capture : List Record)
    (noutputItems ports : ℕ) :
    ∃ more result s' send,
      blockStep formatTest B.cfg capture b (.work noutputItems ports) =
        .ok (b.after (.ofVolt result, s')) ∧
      B.Serves (frameLog B.cfg.bOnePacket taken) queue noutputItems true b.source more result s' ∧
      s'.recv = { b.ingress.recv with
        dSendSyncPmt := send, dLocalqueue := s'.recv.dLocalqueue } := by
  have hadm : B.Admissible (frameLog B.cfg.bOnePacket taken).last b.source.recv.dLocalqueue := by
    refine B.admissible_of_timestamp_lt _ fun p hp => hprocesses p ?_
    rw [h.consumed]
    exact List.mem_append_right _ hp
  obtain ⟨more, result, s', hwork, hserves⟩ :=
    B.workVoltMode_shows (s := b.source) h.shows hadm noutputItems true
  obtain ⟨send, waiting, hrecv⟩ := workVoltMode_receiver hwork
  refine ⟨more, result, s', send, ?_, hserves, ?_⟩
  · rw [blockStep, GrAta.work, if_neg fun hend => ?_, workMode,
      if_pos (show formatTest = true from rfl), hwork]
    · rfl
    · exact Bool.noConfusion ((hgoes hend.1).symm.trans hend.2.1)
  · rw [hrecv]
    rfl

end Delivers

/-- The accounts of a capture that no message has interrupted. -/
theorem Accounts.delivers {b : Block} {taken : List Packet} {delivered queue : List Queued}
    (h : B.Accounts b taken delivered queue (delivered.map (Queued.emitted true)))
    (hquiet : b.volt.syncTimestamp = 0) : B.Delivers b taken delivered queue :=
  ⟨h.consumed, h.shows, h.frames, h.outputs, hquiet⟩

end VoltageBlock

end GrAta
