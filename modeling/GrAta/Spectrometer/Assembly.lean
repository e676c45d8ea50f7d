import GrAta.Spectrometer.Stream
import Mathlib.Data.List.Forall2

/-!
# Assembling spectra

A set of spectra is assembled in buffers that are cleared by a packet of the first channels
and queued by one of the last channels. The assembly below does this with every packet it
gets, and the work function follows it over any schedule.

## Main definitions

- `Assembly`: the buffers, and all sets queued so far
- `Assembles`: the members of a block follow an assembly
- `SpectOutput.Renders`: an output item shows a set

## Main results

- `run_assembles`: the outputs of a schedule show sets of the assembly of the packets taken
-/

namespace GrAta

/-- One spectrum for each of the four products. -/
abbrev Spectra := ℕ → ℕ → UInt32

structure SpectSet where
  spectra : Spectra
  seqNum : ℕ

def SpectSet.vector (set : SpectSet) (product : ℕ) : List UInt32 :=
  (List.range 4096).map (set.spectra product)

structure Assembly where
  buffers : Spectra
  sets : List SpectSet

namespace Assembly

/-- The buffers after a packet. -/
def fill (c : Config) (a : Assembly) (p : Packet) : Spectra := fun product =>
  spectOverlay (spectChannel p) (spData c p product)
    (if spectChannel p = 0 then fun _ => 0 else a.buffers product)

def step (c : Config) (a : Assembly) (p : Packet) : Assembly where
  buffers := a.fill c p
  sets := if spectChannel p = 3584 then a.sets ++ [⟨a.fill c p, spectNumber p⟩] else a.sets

/-- The assembly of a list of packets, in buffers with the bytes of a fresh allocation. -/
def run (c : Config) (heap : ℕ → UInt32) (ps : List Packet) : Assembly :=
  ps.foldl (step c) ⟨fun _ => heap, []⟩

end Assembly

/-- The members follow an assembly of which some sets have left the queues and the others
are waiting. -/
structure Assembles (a : Assembly) (left waiting : List SpectSet) (w : SpectWork) : Prop where
  spectral : w.Spectral
  xxCell : w.spect.xxBuffer.cell = a.buffers 0
  yyCell : w.spect.yyBuffer.cell = a.buffers 1
  xyRealCell : w.spect.xyRealBuffer.cell = a.buffers 2
  xyImagCell : w.spect.xyImagBuffer.cell = a.buffers 3
  sets : a.sets = left ++ waiting
  xxQueue : w.spect.xxVectorQueue = waiting.map fun set => set.vector 0
  yyQueue : w.spect.yyVectorQueue = waiting.map fun set => set.vector 1
  xyRealQueue : w.spect.xyRealVectorQueue = waiting.map fun set => set.vector 2
  xyImagQueue : w.spect.xyImagVectorQueue = waiting.map fun set => set.vector 3
  seqNums : w.seqNumQueue = waiting.map SpectSet.seqNum

variable {a : Assembly} {left waiting : List SpectSet} {w : SpectWork} {B : SpectBlock}

theorem Assembles.with_skipped (h : Assembles a left waiting w) (k : ℤ) :
    Assembles a left waiting { w with skippedPackets := k } :=
  ⟨⟨h.spectral.xxSize, h.spectral.yySize, h.spectral.xyRealSize, h.spectral.xyImagSize,
      h.spectral.yyLength, h.spectral.xyRealLength, h.spectral.xyImagLength,
      h.spectral.seqNumLength⟩,
    h.xxCell, h.yyCell, h.xyRealCell, h.xyImagCell, h.sets, h.xxQueue, h.yyQueue, h.xyRealQueue,
    h.xyImagQueue, h.seqNums⟩

-- ════════════════════════════════════════════════════════════════════════
-- One packet
-- ════════════════════════════════════════════════════════════════════════

/-- The buffers after a packet are those of the assembly. -/
theorem Assembles.cells (h : Assembles a left waiting w) (p : Packet) :
    let s := overlaySpect B.cfg p (spectChannel p) (beforeCopy B.cfg w.spect (spectChannel p))
    s.xxBuffer.cell = a.fill B.cfg p 0 ∧ s.yyBuffer.cell = a.fill B.cfg p 1 ∧
      s.xyRealBuffer.cell = a.fill B.cfg p 2 ∧ s.xyImagBuffer.cell = a.fill B.cfg p 3 := by
  have hstart : B.cfg.dStartingChannel = 0 := rfl
  simp only [overlaySpect, beforeCopy, hstart, Assembly.fill]
  by_cases hzero : spectChannel p = 0
  · simp only [if_pos hzero]
    exact ⟨rfl, rfl, rfl, rfl⟩
  · simp only [if_neg hzero, h.xxCell, h.yyCell, h.xyRealCell, h.xyImagCell, and_self]

/-- A packet that is copied does not touch the queues. -/
theorem overlay_queues (c : Config) (p : Packet) (chan : ℕ) (s : SpectState) :
    let s' := overlaySpect c p chan (beforeCopy c s chan)
    s'.xxVectorQueue = s.xxVectorQueue ∧ s'.yyVectorQueue = s.yyVectorQueue ∧
      s'.xyRealVectorQueue = s.xyRealVectorQueue ∧
      s'.xyImagVectorQueue = s.xyImagVectorQueue := by
  rw [overlaySpect, beforeCopy]
  split <;> exact ⟨rfl, rfl, rfl, rfl⟩

/-- A vector that is queued from a buffer of the assembly. -/
theorem queue_push {queue : List (List UInt32)} {cell : ℕ → UInt32} {product : ℕ} {set : SpectSet}
    (hqueue : queue = waiting.map fun set => set.vector product)
    (hcell : cell = set.spectra product) :
    queue ++ [(List.range 4096).map cell] =
      (waiting ++ [set]).map fun set => set.vector product := by
  rw [List.map_append, List.map_singleton, SpectSet.vector, hqueue, hcell]

/-- What a packet leaves in a block. -/
theorem processSpectPacket_spect (h : w.Spectral) (p : Packet) :
    ∃ s k, s = overlaySpect B.cfg p (spectChannel p) (beforeCopy B.cfg w.spect (spectChannel p)) ∧
      SpectWork.Spectral ⟨s, w.seqNumQueue, k⟩ ∧ processSpectPacket B.cfg w p =
        .ok (if spectChannel p = 3584 then ⟨pushSpectra s, w.seqNumQueue ++ [spectNumber p], k⟩
          else ⟨s, w.seqNumQueue, k⟩) :=
  ⟨_, _, rfl, (h.beforeCopy B.cfg (spectChannel p)).overlay B.cfg p (spectChannel p) _,
    processSpectPacket_eq rfl h p⟩

/-- One packet is one step of the assembly. -/
theorem Assembles.packet (h : Assembles a left waiting w) (p : Packet) :
    ∃ w' waiting', processSpectPacket B.cfg w p = .ok w' ∧
      Assembles (a.step B.cfg p) left waiting' w' := by
  obtain ⟨s, k, hs, hspectral, hprocess⟩ := processSpectPacket_spect (B := B) h.spectral p
  have hcells := h.cells (B := B) p
  have hqueues := overlay_queues B.cfg p (spectChannel p) w.spect
  rw [← hs] at hcells hqueues
  obtain ⟨hxx, hyy, hreal, himag⟩ := hcells
  obtain ⟨hxxs, hyys, hreals, himags⟩ := hqueues
  by_cases hend : spectChannel p = 3584
  · rw [if_pos hend] at hprocess
    refine ⟨_, waiting ++ [⟨a.fill B.cfg p, spectNumber p⟩], hprocess, ?_⟩
    exact
      { spectral := hspectral.push _
        xxCell := hxx
        yyCell := hyy
        xyRealCell := hreal
        xyImagCell := himag
        sets := by rw [Assembly.step, if_pos hend, h.sets, List.append_assoc]
        xxQueue := queue_push (hxxs.trans h.xxQueue) hxx
        yyQueue := queue_push (hyys.trans h.yyQueue) hyy
        xyRealQueue := queue_push (hreals.trans h.xyRealQueue) hreal
        xyImagQueue := queue_push (himags.trans h.xyImagQueue) himag
        seqNums := by rw [List.map_append, List.map_singleton, ← h.seqNums] }
  · rw [if_neg hend] at hprocess
    refine ⟨_, waiting, hprocess, ?_⟩
    exact
      { spectral := hspectral
        xxCell := hxx
        yyCell := hyy
        xyRealCell := hreal
        xyImagCell := himag
        sets := by rw [Assembly.step, if_neg hend, h.sets]
        xxQueue := hxxs.trans h.xxQueue
        yyQueue := hyys.trans h.yyQueue
        xyRealQueue := hreals.trans h.xyRealQueue
        xyImagQueue := himags.trans h.xyImagQueue
        seqNums := h.seqNums }

/-- The packets that the loop takes are steps of the assembly. -/
theorem Assembles.run_packets (h : Assembles a left waiting w) (ps : List Packet) :
    ∃ w' waiting', Execution.run (processSpectPacket B.cfg) w ps = .ok w' ∧
      Assembles (ps.foldl (Assembly.step B.cfg) a) left waiting' w' := by
  induction ps generalizing a waiting w with
  | nil => exact ⟨w, waiting, rfl, h⟩
  | cons p ps ih =>
    obtain ⟨w', waiting', hprocess, hw'⟩ := h.packet (B := B) p
    rw [Execution.run_cons_ok hprocess]
    exact ih hw'

-- ════════════════════════════════════════════════════════════════════════
-- Output
-- ════════════════════════════════════════════════════════════════════════

/-- The output item of a set. -/
def SpectSet.item (set : SpectSet) (liveWork : Bool) (ports syncTimestamp : ℕ) : SpectItem where
  xx := set.vector 0
  yy := set.vector 1
  xyReal := if ports > 2 then some (set.vector 2) else none
  xyImag := if ports > 3 then some (set.vector 3) else none
  tag := if liveWork ∧ syncTimestamp > 0 then some set.seqNum else none

/-- The first set that waits leaves the queues. -/
theorem Assembles.emit {set : SpectSet} (h : Assembles a left (set :: waiting) w)
    (liveWork : Bool) (ports syncTimestamp : ℕ) :
    emitSpectItem liveWork ports syncTimestamp w =
        .ok (set.item liveWork ports syncTimestamp, popSpectra w) ∧
      Assembles a (left ++ [set]) waiting (popSpectra w) := by
  constructor
  · rw [emitSpectItem, h.xxQueue, h.yyQueue, h.xyRealQueue, h.xyImagQueue, h.seqNums, popSpectra,
      h.xxQueue, h.yyQueue, h.xyRealQueue, h.xyImagQueue, h.seqNums]
    rfl
  · exact
      { spectral := h.spectral.pop
        xxCell := h.xxCell
        yyCell := h.yyCell
        xyRealCell := h.xyRealCell
        xyImagCell := h.xyImagCell
        sets := by rw [h.sets, List.append_assoc, List.singleton_append]
        xxQueue := by rw [popSpectra, h.xxQueue, List.map_cons, List.tail_cons]
        yyQueue := by rw [popSpectra, h.yyQueue, List.map_cons, List.tail_cons]
        xyRealQueue := by rw [popSpectra, h.xyRealQueue, List.map_cons, List.tail_cons]
        xyImagQueue := by rw [popSpectra, h.xyImagQueue, List.map_cons, List.tail_cons]
        seqNums := by rw [popSpectra, h.seqNums, List.map_cons, List.tail_cons] }

theorem Assembles.emit_all (h : Assembles a left waiting w) (liveWork : Bool)
    (ports syncTimestamp : ℕ) {n : ℕ} (hn : n ≤ waiting.length) :
    ∃ w', emitSpectItems liveWork ports syncTimestamp n w =
        .ok ((waiting.take n).map fun set => set.item liveWork ports syncTimestamp, w') ∧
      Assembles a (left ++ waiting.take n) (waiting.drop n) w' ∧
      w'.skippedPackets = w.skippedPackets ∧
      w'.spect.dLastChannelBlock = w.spect.dLastChannelBlock := by
  induction n generalizing left waiting w with
  | zero => exact ⟨w, rfl, by rwa [List.take_zero, List.append_nil], rfl, rfl⟩
  | succ n ih =>
    obtain ⟨set, waiting', rfl⟩ := List.exists_cons_of_length_pos (Nat.lt_of_lt_of_le n.succ_pos hn)
    obtain ⟨hitem, hpop⟩ := h.emit liveWork ports syncTimestamp
    obtain ⟨w', hitems, hw', hskipped, hlast⟩ := ih hpop (Nat.le_of_succ_le_succ hn)
    refine ⟨w', ?_, ?_, hskipped, hlast⟩
    · simp only [emitSpectItems, hitem, ok_bind, hitems]
      rfl
    · rwa [List.append_assoc] at hw'

/-- An item shows a set that leaves the queues together with a sequence number. -/
structure SpectOutput.Renders (o : SpectOutput) (set : SpectSet) : Prop where
  xx : o.item.xx = set.vector 0
  yy : o.item.yy = set.vector 1
  xyReal : ∀ v ∈ o.item.xyReal, v = set.vector 2
  xyImag : ∀ v ∈ o.item.xyImag, v = set.vector 3
  seqNum : o.seqNum = set.seqNum

theorem SpectSet.item_renders (set : SpectSet) (liveWork : Bool) (ports syncTimestamp : ℕ) :
    SpectOutput.Renders ⟨set.item liveWork ports syncTimestamp, set.seqNum⟩ set := by
  refine ⟨by rw [item], by rw [item], fun v hv => ?_, fun v hv => ?_, rfl⟩
  · rw [item] at hv
    exact (Option.mem_some.mp (Option.mem_ite_none_right.mp hv).2).symm
  · rw [item] at hv
    exact (Option.mem_some.mp (Option.mem_ite_none_right.mp hv).2).symm

-- ════════════════════════════════════════════════════════════════════════
-- Calls
-- ════════════════════════════════════════════════════════════════════════

/-- What a call does: it takes the packets at the front of the queue, and then hands on the
sets at the front of theirs. It leaves nothing behind unless the output is full. -/
structure Served (B : SpectBlock) (noutputItems : ℕ) (a : Assembly) (left : List SpectSet)
    (s : SnapSource) (result : SpectResult) (outputs : List SpectOutput) (s' : SnapSource)
    (taken rest : List Packet) : Prop where
  queue : s'.recv.dLocalqueue = rest
  packets : ∃ w, Execution.run (processSpectPacket B.cfg) ⟨s.spect, s.volt.seqNumQueue, 0⟩ taken =
      .ok w ∧ result.skippedPackets = w.skippedPackets ∧
    s'.spect.dLastChannelBlock = w.spect.dLastChannelBlock
  sets : ∃ left' waiting', Assembles (taken.foldl (Assembly.step B.cfg) a) (left ++ left') waiting'
      ⟨s'.spect, s'.volt.seqNumQueue, 0⟩ ∧
    outputs.Forall₂ SpectOutput.Renders left' ∧
    (rest = [] ∧ waiting' = [] ∨ noutputItems ≤ left'.length)

/-- Handshakes do not touch the sequence numbers. -/
theorem handleMessages_seqNumQueue {messages : List Pmt} {v v' : VoltState}
    (h : handleMessages v messages = .ok v') : v'.seqNumQueue = v.seqNumQueue := by
  refine Execution.run_history_partial (fun _ u => u.seqNumQueue = v.seqNumQueue)
    (fun _ => True) ?_ [] rfl (fun _ _ => trivial) h
  intro _ u m u' hu _ hstep
  rw [← hu]
  rw [handleSyncMsg] at hstep
  cases hm : m.cdr with
  | error f =>
    rw [hm] at hstep
    cases hstep
  | ok data =>
    rw [hm] at hstep
    cases hstep
    simp only
    split <;> rfl

/-- The items of the first sets, paired with the sequence numbers, show these sets. -/
theorem zipWith_renders (waiting : List SpectSet) (liveWork : Bool) (ports syncTimestamp n : ℕ) :
    (((waiting.take n).map fun set => set.item liveWork ports syncTimestamp).zipWith
      SpectOutput.mk (waiting.map SpectSet.seqNum)).Forall₂ SpectOutput.Renders
        (waiting.take n) := by
  induction waiting generalizing n with
  | nil =>
    rw [List.take_nil]
    exact .nil
  | cons set waiting ih =>
    cases n with
    | zero => exact .nil
    | succ n => exact .cons (set.item_renders liveWork ports syncTimestamp) (ih n)

theorem workSpecMode_served {s s' : SnapSource} {noutputItems ports : ℕ} {liveWork : Bool}
    {result : SpectResult} (h : Assembles a left waiting ⟨s.spect, s.volt.seqNumQueue, 0⟩)
    (hwork : workSpecMode B.cfg noutputItems ports liveWork s = .ok (result, s')) :
    ∃ n, Served B noutputItems a left s result
      (result.items.zipWith SpectOutput.mk (queuedSeqNums B.cfg noutputItems s)) s'
      (s.recv.dLocalqueue.take n) (s.recv.dLocalqueue.drop n) := by
  obtain ⟨n, w, hloop, hrun, hstop⟩ := spectLoop_takes (c := B.cfg) rfl noutputItems
    (r := { s.recv with dSendSyncPmt := false }) le_rfl h.spectral
  obtain ⟨w', waiting', hrun', hw⟩ := h.run_packets (B := B) (s.recv.dLocalqueue.take n)
  obtain rfl : w = w' := Except.ok.inj (hrun.symm.trans hrun')
  have hlength : w.spect.xxVectorQueue.length = waiting'.length := by
    rw [hw.xxQueue, List.length_map]
  have hcount : min noutputItems w.spect.xxVectorQueue.length ≤ waiting'.length := by
    rw [hlength]
    exact Nat.min_le_right ..
  obtain ⟨w'', hitems, hw'', hskipped, hlast⟩ :=
    hw.emit_all liveWork ports s.volt.syncTimestamp hcount
  have hnums : queuedSeqNums B.cfg noutputItems s = waiting'.map SpectSet.seqNum := by
    rw [queuedSeqNums, hloop]
    exact hw.seqNums
  rw [workSpecMode] at hwork
  split at hwork
  · cases hwork
  · rw [hloop, ok_bind] at hwork
    simp only [hitems, ok_bind] at hwork
    cases hwork
    rw [hnums]
    refine ⟨n, rfl, ⟨w, hrun, hskipped, hlast⟩, _, _, hw''.with_skipped 0,
      zipWith_renders .., ?_⟩
    rw [hlength] at hstop ⊢
    rcases Nat.lt_or_ge waiting'.length noutputItems with hfew | hmany
    · left
      rw [hstop.resolve_right hfew.not_ge, Nat.min_eq_right hfew.le]
      exact ⟨List.drop_length, List.drop_length⟩
    · right
      rw [Nat.min_eq_left hmany, List.length_take, Nat.min_eq_left hmany]

/-- One call of a run. -/
theorem spectCall_served {w w' : SpectRun} {call : SpectCall}
    (h : Assembles a left waiting ⟨w.source.spect, w.source.volt.seqNumQueue, 0⟩)
    (hcall : spectCall B.cfg w call = .ok w') :
    ∃ s result outputs n, s.spect = w.source.spect ∧
      s.volt.seqNumQueue = w.source.volt.seqNumQueue ∧
      w'.results = w.results ++ [result] ∧ w'.outputs = w.outputs ++ outputs ∧
      Served B call.noutputItems a left s result outputs w'.source
        ((w.source.recv.dLocalqueue ++ call.arrived).take n)
        ((w.source.recv.dLocalqueue ++ call.arrived).drop n) := by
  rw [spectCall] at hcall
  obtain ⟨volt, hmessages, hcall⟩ := bind_eq_ok hcall
  obtain ⟨⟨result, s'⟩, hwork, hcall⟩ := bind_eq_ok hcall
  cases hcall
  have hseq := handleMessages_seqNumQueue hmessages
  rw [← hseq] at h
  obtain ⟨n, hserved⟩ := workSpecMode_served h hwork
  exact ⟨{ w.source with recv := call.receive w.source.recv, volt := volt }, result, _, n, rfl,
    hseq, rfl, rfl, hserved⟩

-- ════════════════════════════════════════════════════════════════════════
-- Runs
-- ════════════════════════════════════════════════════════════════════════

/-- A run has taken some packets, and its outputs show the sets that have left the queues. -/
structure SpectRun.Follows (B : SpectBlock) (taken : List Packet) (left waiting : List SpectSet)
    (w : SpectRun) : Prop where
  assembles : Assembles (Assembly.run B.cfg B.unset.heap taken) left waiting
    ⟨w.source.spect, w.source.volt.seqNumQueue, 0⟩
  outputs : w.outputs.Forall₂ SpectOutput.Renders left

theorem SpectBlock.start_eq {env : Environment} {s : SnapSource}
    (h : start B.cfg B.unset env = .ok s) :
    s = ⟨initialReceiver env, initialVolt 0 0, initialSpect 4096 B.unset.heap⟩ := by
  have htype : B.cfg.dHeaderType = SNAP_PACKETTYPE_SPECT := B.isSpect
  rw [start, htype] at h
  split at h
  · cases h
  · exact (Except.ok.inj h).symm

theorem SpectRun.start_follows (env : Environment) :
    SpectRun.Follows B [] [] []
      ⟨⟨initialReceiver env, initialVolt 0 0, initialSpect 4096 B.unset.heap⟩, [], []⟩ where
  assembles := ⟨⟨rfl, rfl, rfl, rfl, rfl, rfl, rfl, rfl⟩, rfl, rfl, rfl, rfl, rfl, rfl, rfl, rfl, rfl,
    rfl⟩
  outputs := .nil

theorem SpectRun.Follows.served {taken more rest : List Packet} {w w' : SpectRun} {n : ℕ}
    {s : SnapSource} {result : SpectResult} {outputs : List SpectOutput}
    (h : w.Follows B taken left waiting) (houtputs : w'.outputs = w.outputs ++ outputs)
    (hserved : Served B n (Assembly.run B.cfg B.unset.heap taken) left s result outputs w'.source
      more rest) :
    ∃ left' waiting', w'.Follows B (taken ++ more) left' waiting' := by
  obtain ⟨left', waiting', hw', hrenders, -⟩ := hserved.sets
  refine ⟨left ++ left', waiting', ?_, ?_⟩
  · rw [Assembly.run, List.foldl_append]
    exact hw'
  · rw [houtputs]
    exact List.rel_append h.outputs hrenders

/-- The packets that have arrived are taken or wait in the queue. -/
theorem spectArrivals_concat {calls : List SpectCall} {call : SpectCall} {taken queue : List Packet}
    (h : spectArrivals calls = taken ++ queue) (n : ℕ) :
    spectArrivals (calls ++ [call]) =
      taken ++ (queue ++ call.arrived).take n ++ (queue ++ call.arrived).drop n := by
  rw [List.append_assoc, List.take_append_drop, spectArrivals, List.flatMap_append,
    List.flatMap_singleton, ← List.append_assoc, ← h]
  rfl

/-- In every run that returns, the outputs show the sets of the assembly of the packets
taken, in order. -/
theorem run_assembles {env : Environment} {calls : List SpectCall} {w : SpectRun}
    (h : B.run env calls = .ok w) :
    ∃ taken left waiting, spectArrivals calls = taken ++ w.source.recv.dLocalqueue ∧
      w.Follows B taken left waiting := by
  rw [SpectBlock.run] at h
  obtain ⟨s, hstart, h⟩ := bind_eq_ok h
  rw [B.start_eq hstart] at h
  refine Execution.run_history_partial
    (fun calls w => ∃ taken left waiting,
      spectArrivals calls = taken ++ w.source.recv.dLocalqueue ∧ w.Follows B taken left waiting)
    (fun _ => True) ?_ [] ⟨[], [], [], rfl, SpectRun.start_follows env⟩ (fun _ _ => trivial) h
  rintro calls w call w' ⟨taken, left, waiting, harrived, hfollows⟩ - hcall
  obtain ⟨s, result, outputs, n, -, -, -, houtputs, hserved⟩ :=
    spectCall_served hfollows.assembles hcall
  obtain ⟨left', waiting', hw'⟩ := hfollows.served houtputs hserved
  refine ⟨_, left', waiting', ?_, hw'⟩
  rw [hserved.queue]
  exact spectArrivals_concat harrived n

theorem Assembly.sets_length_le (c : Config) (a : Assembly) (ps : List Packet) :
    (ps.foldl (step c) a).sets.length ≤ a.sets.length + ps.length := by
  induction ps generalizing a with
  | nil => exact le_rfl
  | cons p ps ih =>
    have hstep : (a.step c p).sets.length ≤ a.sets.length + 1 := by
      rw [step]
      split
      · exact (List.length_append ..).le
      · exact Nat.le_succ _
    have hrest := ih (a.step c p)
    rw [List.foldl_cons, List.length_cons]
    omega

/-- One call that asks for more items than there are packets hands on all sets. -/
theorem SpectBlock.run_single {env : Environment} {s : SnapSource}
    (hstart : start B.cfg B.unset env = .ok s) {call : SpectCall} (hmessages : call.messages = [])
    (hsome : call.arrived ≠ []) (hmany : call.arrived.length < call.noutputItems) :
    ∃ w, B.run env [call] = .ok w ∧ w.source.recv.dLocalqueue = [] ∧
      w.outputs.Forall₂ SpectOutput.Renders
        (Assembly.run B.cfg B.unset.heap call.arrived).sets := by
  have hs := B.start_eq hstart
  have hfollows := SpectRun.start_follows (B := B) env
  rw [← hs] at hfollows
  have hqueue : s.recv.dLocalqueue = [] := by rw [hs]; rfl
  have hdata : (call.receive s.recv).dLocalqueue ≠ [] := by
    change s.recv.dLocalqueue ++ call.arrived ≠ []
    rwa [hqueue]
  obtain ⟨result, s', hwork, -⟩ := workSpecMode_ok (c := B.cfg) rfl
    (s := { s with recv := call.receive s.recv }) hfollows.assembles.spectral
    (.inr (.inr hdata)) call.noutputItems call.ports call.liveWork
  obtain ⟨w, hcall⟩ : ∃ w, spectCall B.cfg ⟨s, [], []⟩ call = .ok w := by
    rw [spectCall, hmessages]
    change ∃ w, (workSpecMode B.cfg call.noutputItems call.ports call.liveWork
      { s with recv := call.receive s.recv } >>= _) = .ok w
    rw [hwork]
    exact ⟨_, rfl⟩
  refine ⟨w, ?_, ?_⟩
  · rw [run, hstart, ok_bind, Execution.run_singleton, hcall]
  · obtain ⟨_, _, outputs, n, -, -, -, houtputs, hserved⟩ :=
      spectCall_served hfollows.assembles hcall
    simp only [hqueue, List.nil_append] at hserved houtputs
    obtain ⟨left, waiting, hw, hrenders, hall⟩ := hserved.sets
    have hcount := Assembly.sets_length_le B.cfg (Assembly.run B.cfg B.unset.heap [])
      (call.arrived.take n)
    rw [hw.sets, List.length_append, List.nil_append, List.length_take] at hcount
    have hnone : (Assembly.run B.cfg B.unset.heap []).sets.length = 0 := rfl
    obtain ⟨hrest, hwaiting⟩ := hall.resolve_right (by omega)
    have htaken : call.arrived.take n = call.arrived :=
      List.take_of_length_le (List.drop_eq_nil_iff.mp hrest)
    have hsets := hw.sets
    rw [htaken, hwaiting, List.nil_append, List.append_nil] at hsets
    refine ⟨hserved.queue.trans hrest, ?_⟩
    rw [houtputs]
    change outputs.Forall₂ SpectOutput.Renders
      (call.arrived.foldl (Assembly.step B.cfg) (Assembly.run B.cfg B.unset.heap [])).sets
    rw [hsets]
    exact hrenders

end GrAta
