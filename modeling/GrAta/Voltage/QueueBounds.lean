import GrAta.Snap.Encoding
import GrAta.Voltage.Runs

/-!
# Bounds of the work queues

The queues between the packet loop and the output are not bounded by their type. The loop
takes a packet only while fewer vectors are queued than were asked for, and a packet hands
on at most the frame in assembly or its own one, and the frames of a gap that is not too
long. As vectors come and go in groups of sixteen, this bounds the queues at every point.

## Main definitions

- `packetSteps`, `callSteps`: the states before and after each packet of a call
- `VoltageBlock.StepBounded`: the bounds that hold in a packet step
- `VoltageBlock.Queueing`: the invariant of calls without messages

## Main results

- `packetLoop_eq_last`: the packet loop ends where its last step does
- `VoltageBlock.run_queues_bounded`: the bounds in every run
-/

namespace GrAta

/-- The states before and after each packet that the packet loop takes. -/
def packetSteps (c : Config) (noutputItems : ℕ) :
    ℕ → Receiver × VoltState × ℤ → List (VoltState × VoltState)
  | 0, _ => []
  | numPacketsAvailable + 1, s =>
    if s.2.1.xVectorQueue.length < noutputItems then
      match s.1.dLocalqueue with
      | [] => []
      | p :: rest =>
        match processPacket c s.2 p with
        | .error _ => []
        | .ok acc => (s.2.1, acc.1) ::
            packetSteps c noutputItems numPacketsAvailable ({ s.1 with dLocalqueue := rest }, acc)
    else []

/-- A packet loop that returns does so in the state after its last step. -/
theorem packetLoop_eq_last {c : Config} {noutputItems : ℕ} : ∀ {n : ℕ}
    {s s' : Receiver × VoltState × ℤ}, packetLoop c noutputItems n s = .ok s' →
    ((packetSteps c noutputItems n s).getLast?.map Prod.snd).getD s.2.1 = s'.2.1 := by
  intro n
  induction n with
  | zero =>
    intro s s' h
    rw [← Except.ok.inj h]
    rfl
  | succ n ih =>
    intro s s' h
    rw [packetLoop] at h
    rw [packetSteps]
    by_cases hlt : s.2.1.xVectorQueue.length < noutputItems
    · rw [if_pos hlt] at h ⊢
      cases hqueue : s.1.dLocalqueue with
      | nil =>
        simp only [fillLocalBuffer, hqueue, error_bind] at h
        cases h
      | cons p rest =>
        simp only [fillLocalBuffer, hqueue, ok_bind] at h
        obtain ⟨acc, hprocess, h⟩ := bind_eq_ok h
        simp only [hprocess, List.getLast?_cons, ← ih h]
        generalize packetSteps c noutputItems n ({ s.1 with dLocalqueue := rest }, acc) = steps
        cases steps.getLast? with
        | none => rfl
        | some step => rfl
    · rw [if_neg hlt] at h ⊢
      rw [← Except.ok.inj h]
      rfl

/-- The packet steps of a call of `work_volt_mode`. -/
def workSteps (c : Config) (noutputItems : ℕ) (s : SnapSource) : List (VoltState × VoltState) :=
  if s.recv.stopThread = false ∧ s.recv.pcapFileDone = false ∧ s.recv.dLocalqueue.length = 0 ∧
      s.volt.xVectorQueue = [] then []
  else packetSteps c noutputItems s.recv.dLocalqueue.length
    ({ s.recv with dSendSyncPmt := false }, s.volt, 0)

/-- The packet steps of a call of a schedule. -/
def callSteps (c : Config) (w : WorkRun) (call : Call) : List (VoltState × VoltState) :=
  match handleMessages w.source.volt call.messages with
  | .error _ => []
  | .ok volt => workSteps c call.noutputItems
      { w.source with recv := call.receive w.source.recv, volt := volt }

/-- The largest number of vectors in the first queue, for calls that ask for at most `N`
items: one packet can hand on a frame and a whole gap. -/
def queueBound (N : ℕ) : ℕ := N + 16 * (MAX_MISSED_SETS + 1)

namespace VoltageBlock

variable (B : VoltageBlock)

/-- The bounds of a packet step, for calls that ask for at most `N` items: room for sixteen
vectors at its start, the frames of one packet at every point between two pushes, and the
other queues no longer than the first one at its end. -/
structure StepBounded (N : ℕ) (step : VoltState × VoltState) : Prop where
  start : step.1.xVectorQueue.length + 16 ≤ N
  grows : step.1.xVectorQueue <+: step.2.xVectorQueue
  between : ∀ queue, step.1.xVectorQueue <+: queue → queue <+: step.2.xVectorQueue →
    queue.length ≤ queueBound N
  seqNums : step.2.seqNumQueue.length ≤ step.2.xVectorQueue.length
  second : B.cfg.dPackedOutput = false →
    step.2.yVectorQueue.length ≤ step.2.xVectorQueue.length

/-- A state between packets of a run without messages: the queues hold whole groups of
sixteen rows. -/
def Queueing (v : VoltState) : Prop :=
  v.syncTimestamp = 0 ∧ ∃ log queue, B.Shows log queue v ∧ 16 ∣ queue.length

end VoltageBlock

/-- A gap that is filled has at most one frame more than there are missed sets. -/
theorem gapPushes_length_le {last sample : ℕ} (hs : sample < 2 ^ 64) :
    (gapPushes last sample).length ≤ MAX_MISSED_SETS + 1 := by
  rw [gapPushes, List.length_map, gapOf]
  split
  · rename_i h
    obtain ⟨-, -, hpos, hmax⟩ := h
    obtain ⟨hsets, hfar⟩ := missedSets_eq hs hpos hmax
    rw [List.length_map, List.length_range]
    omega
  · exact Nat.zero_le _

/-- The frames that one packet makes the block hand on. -/
theorem newFrames_length_le (onePacket : Bool) (log : FrameLog) (p : Packet) :
    (log.newFrames onePacket p).length ≤ MAX_MISSED_SETS + 2 := by
  have hgap : (gapPushes log.last (timestamp p)).length ≤ MAX_MISSED_SETS + 1 :=
    gapPushes_length_le (timestamp_lt p)
  rw [FrameLog.newFrames]
  split_ifs
  · rw [List.length_append, List.length_singleton]
    omega
  · rw [List.length_cons]
    omega
  · exact Nat.zero_le _

namespace VoltageBlock

variable {B : VoltageBlock} {log : FrameLog} {queue : List Queued} {v : VoltState}

theorem Shows.x_length (h : B.Shows log queue v) : v.xVectorQueue.length = queue.length := by
  rw [h.xQueue, List.length_map]

theorem Shows.y_length_le (h : B.Shows log queue v) :
    v.yVectorQueue.length ≤ v.xVectorQueue.length := by
  rw [h.x_length, h.yQueue]
  exact List.length_filterMap_le ..

theorem Shows.seqNum_length (h : B.Shows log queue v) (hsync : v.syncTimestamp = 0) :
    v.seqNumQueue.length = v.xVectorQueue.length := by
  rw [h.x_length, h.seqNums hsync, List.length_map]

/-- **One packet** that is taken while fewer vectors are queued than were asked for. -/
theorem Queueing.step (h : B.Queueing v) {N noutputItems : ℕ} (hdvd : 16 ∣ noutputItems)
    (hN : noutputItems ≤ N) (hfew : v.xVectorQueue.length < noutputItems) {p : Packet}
    (hp : B.InRange p) (ht : timestamp p < 2 ^ 64 - 16) (skippedPackets : ℤ) :
    ∃ acc, processPacket B.cfg (v, skippedPackets) p = .ok acc ∧ B.Queueing acc.1 ∧
      B.StepBounded N (v, acc.1) := by
  obtain ⟨hsync, log, queue, hshows, hrows⟩ := h
  have hstate : B.Shows log queue (v, skippedPackets).1 := hshows
  obtain ⟨acc, hacc, hsync', hshows'⟩ :=
    B.processPacket_shows hstate hp (gapEnds_of_le ht.le).fillEnds
  have hnew := newFrames_length_le B.cfg.bOnePacket log p
  have hlen : (queue ++ (log.newFrames B.cfg.bOnePacket p).flatMap B.queuedItems).length =
      queue.length + 16 * (log.newFrames B.cfg.bOnePacket p).length := by
    rw [List.length_append, List.length_flatMap]
    simp only [queuedItems_length, List.map_const', List.sum_replicate_nat]
    rw [Nat.mul_comm]
  have hstart : queue.length + 16 ≤ N := by
    rw [hshows.x_length] at hfew
    omega
  refine ⟨acc, hacc, ⟨hsync'.trans hsync, _, _, hshows', ?_⟩, ?_⟩
  · rw [hlen]
    exact Nat.dvd_add hrows (Nat.dvd_mul_right ..)
  · exact
      { start := by
          rw [hshows.x_length]
          exact hstart
        grows := by
          simp only [hshows.xQueue, hshows'.xQueue, List.map_append]
          exact List.prefix_append _ _
        between := by
          intro between _ hprefix
          have hle := hprefix.length_le
          rw [hshows'.x_length, hlen] at hle
          rw [queueBound]
          omega
        seqNums := (hshows'.seqNum_length (hsync'.trans hsync)).le
        second := fun _ => hshows'.y_length_le }

/-- In-range packets whose timestamps leave room for the counter of the gap filling loop. -/
def Takes (B : VoltageBlock) (p : Packet) : Prop := B.InRange p ∧ timestamp p < 2 ^ 64 - 16

/-- **The packet loop.** It returns, and every step of it is bounded. -/
theorem Queueing.loop {N noutputItems : ℕ} (hdvd : 16 ∣ noutputItems) (hN : noutputItems ≤ N) :
    ∀ (n : ℕ) {r : Receiver} {acc : VoltState × ℤ}, B.Queueing acc.1 →
    acc.1.xVectorQueue.length ≤ queueBound N → (∀ p ∈ r.dLocalqueue, B.Takes p) →
    n ≤ r.dLocalqueue.length →
    ∃ r' acc', packetLoop B.cfg noutputItems n (r, acc) = .ok (r', acc') ∧
      B.Queueing acc'.1 ∧ acc'.1.xVectorQueue.length ≤ queueBound N ∧
      r'.dLocalqueue <:+ r.dLocalqueue ∧
      ∀ step ∈ packetSteps B.cfg noutputItems n (r, acc), B.StepBounded N step := by
  intro n
  induction n with
  | zero =>
    intro r acc h hle _ _
    exact ⟨r, acc, rfl, h, hle, List.suffix_rfl, fun _ hstep => absurd hstep List.not_mem_nil⟩
  | succ n ih =>
    intro r acc h hle hpackets hn
    rw [packetLoop, packetSteps]
    by_cases hfew : acc.1.xVectorQueue.length < noutputItems
    · obtain ⟨p, rest, hqueue⟩ := List.exists_cons_of_length_pos (Nat.lt_of_lt_of_le n.succ_pos hn)
      rw [hqueue] at hpackets hn
      obtain ⟨⟨hp, ht⟩, hrest⟩ := List.forall_mem_cons.mp hpackets
      obtain ⟨acc₁, hacc, hqueueing, hstep⟩ := h.step hdvd hN hfew hp ht acc.2
      obtain ⟨r', acc', hloop, hqueueing', hle', hsuffix, hsteps⟩ :=
        ih (r := { r with dLocalqueue := rest }) hqueueing
          (hstep.between _ hstep.grows List.prefix_rfl) hrest (Nat.le_of_succ_le_succ hn)
      refine ⟨r', acc', ?_, hqueueing', hle', ?_, ?_⟩
      · simp only [if_pos hfew, fillLocalBuffer, hqueue, ok_bind, hacc, hloop]
      · rw [hqueue]
        exact hsuffix.trans (List.suffix_cons _ _)
      · simp only [if_pos hfew, hqueue, hacc]
        exact List.forall_mem_cons.mpr ⟨hstep, hsteps⟩
    · rw [if_neg hfew, if_neg hfew]
      exact ⟨r, acc, rfl, h, hle, List.suffix_rfl, fun _ hstep => absurd hstep List.not_mem_nil⟩

/-- The output loop takes whole groups of rows. -/
theorem Queueing.emit (h : B.Queueing v) {noutputItems : ℕ} (hdvd : 16 ∣ noutputItems)
    (live : Bool) :
    ∃ items v', emitItems B.cfg live (min noutputItems v.xVectorQueue.length) v =
        .ok (items, v') ∧ B.Queueing v' ∧
      v'.xVectorQueue.length ≤ v.xVectorQueue.length := by
  obtain ⟨hsync, log, queue, hshows, hrows⟩ := h
  obtain ⟨v', hemit, hsync', hshows'⟩ := B.emitItems_shows live
    (min noutputItems v.xVectorQueue.length) hshows
    (by rw [hshows.x_length]; exact Nat.min_le_right _ _)
  refine ⟨_, v', hemit, ⟨hsync'.trans hsync, log, _, hshows', ?_⟩, ?_⟩
  · rw [List.length_drop, hshows.x_length]
    omega
  · rw [hshows'.x_length, List.length_drop, hshows.x_length]
    exact Nat.sub_le _ _

/-- What a run without messages keeps: whole groups of rows in bounded queues, and packets
that the loop can take. -/
structure Bounded (B : VoltageBlock) (N : ℕ) (s : SnapSource) : Prop where
  queueing : B.Queueing s.volt
  length_le : s.volt.xVectorQueue.length ≤ queueBound N
  packets : ∀ p ∈ s.recv.dLocalqueue, B.Takes p

theorem Bounded.work {N noutputItems : ℕ} {s : SnapSource} (h : B.Bounded N s)
    (hdvd : 16 ∣ noutputItems) (hN : noutputItems ≤ N) (live : Bool) :
    ∃ result s', workVoltMode B.cfg noutputItems live s = .ok (result, s') ∧ B.Bounded N s' ∧
      ∀ step ∈ workSteps B.cfg noutputItems s, B.StepBounded N step := by
  rw [workVoltMode, workSteps]
  simp only
  split
  · exact ⟨_, s, rfl, h, fun _ hstep => absurd hstep List.not_mem_nil⟩
  · have hstate : B.Queueing (s.volt, (0 : ℤ)).1 := h.queueing
    obtain ⟨r', ⟨volt, skipped⟩, hloop, hqueueing, hle, hsuffix, hsteps⟩ :=
      Queueing.loop hdvd hN s.recv.dLocalqueue.length (r := { s.recv with dSendSyncPmt := false })
        hstate h.length_le h.packets le_rfl
    obtain ⟨items, v', hemit, hqueueing', hle'⟩ := hqueueing.emit hdvd live
    simp only [hloop, ok_bind, hemit]
    exact ⟨_, _, rfl, ⟨hqueueing', hle'.trans hle, fun p hp => h.packets p (hsuffix.mem hp)⟩,
      hsteps⟩

/-- **One call.** -/
theorem Bounded.call {N : ℕ} {w : WorkRun} (h : B.Bounded N w.source) {call : Call}
    (hquiet : call.Quiet) (hdvd : 16 ∣ call.noutputItems) (hN : call.noutputItems ≤ N)
    (harrived : ∀ p ∈ call.arrived, B.Takes p) :
    ∃ w', workCall B.cfg w call = .ok w' ∧ B.Bounded N w'.source ∧
      ∀ step ∈ callSteps B.cfg w call, B.StepBounded N step := by
  have hmessages : handleMessages w.source.volt call.messages = .ok w.source.volt := by
    rw [show call.messages = [] from hquiet]
    rfl
  have hreceived : B.Bounded N { w.source with recv := call.receive w.source.recv } :=
    ⟨h.queueing, h.length_le, fun p hp =>
      (List.mem_append.mp hp).elim (h.packets p) (harrived p)⟩
  obtain ⟨result, s', hwork, hbounded, hsteps⟩ := hreceived.work hdvd hN true
  refine ⟨⟨s', w.results ++ [result]⟩, ?_, hbounded, ?_⟩
  · rw [workCall, hmessages, ok_bind, hwork, ok_bind]
  · rw [callSteps, hmessages]
    exact hsteps

/-- A call without messages that asks for a positive multiple of sixteen items, at most `N`,
and finds packets that the loop can take. -/
structure Bounding (B : VoltageBlock) (N : ℕ) (call : Call) : Prop where
  quiet : call.Quiet
  pos : 0 < call.noutputItems
  dvd : 16 ∣ call.noutputItems
  le : call.noutputItems ≤ N
  arrived : ∀ p ∈ call.arrived, B.Takes p

/-- **Bounded queues.** In every run without messages whose calls ask for at most `N` items,
every packet step of every call is bounded, and so is the first queue after the call. -/
theorem run_queues_bounded (B : VoltageBlock) (env : Environment) (N : ℕ) (calls : List Call)
    (call : Call) (hcalls : ∀ c ∈ calls ++ [call], B.Bounding N c) :
    ∃ w w', B.run env calls = .ok w ∧ B.run env (calls ++ [call]) = .ok w' ∧
      (∀ step ∈ callSteps B.cfg w call, B.StepBounded N step) ∧
      w'.source.volt.xVectorQueue.length ≤ queueBound N := by
  obtain ⟨s, hs, hsync, htracks⟩ := B.start_tracks env
  have hstart : B.Bounded N s :=
    ⟨⟨hsync, _, [], htracks.shows, Nat.dvd_zero _⟩, by
      rw [htracks.shows.x_length]
      exact Nat.zero_le _, by
      rw [show s.recv.dLocalqueue = [] from htracks.consumed.symm]
      exact fun p hp => absurd hp List.not_mem_nil⟩
  obtain ⟨hbefore, hcall⟩ := List.forall_mem_append.mp hcalls
  have hcall := hcall call List.mem_cons_self
  obtain ⟨w, hw, hbounded⟩ : ∃ w, Execution.run (workCall B.cfg) ⟨s, []⟩ calls = .ok w ∧
      B.Bounded N w.source :=
    Execution.run_history (fun _ (w : WorkRun) => B.Bounded N w.source) (B.Bounding N)
      (fun _ w c h hc => by
        obtain ⟨w', hw', hbounded', -⟩ := h.call hc.quiet hc.dvd hc.le hc.arrived
        exact ⟨w', hw', hbounded'⟩)
      [] hstart calls hbefore
  obtain ⟨w', hw', hbounded', hsteps⟩ := hbounded.call hcall.quiet hcall.dvd hcall.le hcall.arrived
  refine ⟨w, w', ?_, ?_, hsteps, hbounded'.length_le⟩
  · rw [run, workRun, hs, ok_bind, hw]
  · rw [run, workRun, hs, ok_bind, Execution.run_concat_ok hw hw']

/-- A packet, and one behind a gap: the second call queues a frame and a frame of zeros. -/
theorem run_queues_bounded_gap :
    let B := ofWidth 2 width_two_pos width_two_le true
    let first := Call.taking [plainPacket 0 16] 16
    let call := Call.taking [plainPacket 0 48] 32
    ∃ w w', B.run ⟨[], fun _ _ => 0⟩ [first] = .ok w ∧
      B.run ⟨[], fun _ _ => 0⟩ [first, call] = .ok w' ∧
      (∀ step ∈ callSteps B.cfg w call, B.StepBounded 32 step) ∧
      w'.source.volt.xVectorQueue.length ≤ queueBound 32 := by
  have htakes : ∀ ts < 2 ^ 64 - 16,
      (ofWidth 2 width_two_pos width_two_le true).Takes (plainPacket 0 ts) := fun ts hts =>
    ⟨ofWidth_inRange (s := 0) width_two_pos width_two_le true (by decide) ts, by
      rw [timestamp_plainPacket 0 (by omega)]
      exact hts⟩
  refine run_queues_bounded (ofWidth 2 width_two_pos width_two_le true) ⟨[], fun _ _ => 0⟩ 32
    [Call.taking [plainPacket 0 16] 16] (Call.taking [plainPacket 0 48] 32) fun c hc => ?_
  rcases List.mem_pair.mp hc with rfl | rfl
  · exact ⟨rfl, by decide, by decide, by decide,
      List.forall_mem_singleton.mpr (htakes 16 (by decide))⟩
  · exact ⟨rfl, by decide, by decide, le_rfl,
      List.forall_mem_singleton.mpr (htakes 48 (by decide))⟩

end VoltageBlock

end GrAta
