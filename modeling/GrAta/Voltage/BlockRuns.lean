import GrAta.Snap.Dispatch
import GrAta.Voltage.ChannelRange
import GrAta.Voltage.Reconstruction

/-!
# Runs of a voltage block are schedules

A schedule says which packets a call finds. In a block, the packets come from the
receive thread. As long as the receive ring drops nothing, a run of a voltage block
is a schedule: the packets that were queued between two calls are those that the
later call finds.

## Main definitions

- `Receives`: what a step of the receive thread does to the members that the work
  function reads
- `Follows`: a block and a schedule in correspondence
- `Served`: the runs that are schedules

## Main results

- `VoltageBlock.blockRun_follows`: such a run returns, and follows a schedule
- `VoltageBlock.blockRun_reconstructs`: reconstruction from the receive thread on
-/

namespace GrAta

/-- Packets were queued, and the search for the starting channel may have ended at
a packet with a header. -/
structure Receives (arrived : List Packet) (sync : Option SnapHeader) (r r' : Receiver) :
    Prop where
  found : r'.dFoundStartChannel = (r.dFoundStartChannel || sync.isSome)
  send : r'.dSendSyncPmt = (r.dSendSyncPmt || sync.isSome)
  header : r'.asyncVoltSyncHdr = sync.getD r.asyncVoltSyncHdr
  stopThread : r'.stopThread = r.stopThread
  queue : r'.dLocalqueue = r.dLocalqueue ++ arrived

theorem Receives.trans {arrived arrived' : List Packet} {sync sync' : Option SnapHeader}
    {r r' r'' : Receiver} (h : Receives arrived sync r r') (h' : Receives arrived' sync' r' r'') :
    Receives (arrived ++ arrived') (sync' <|> sync) r r'' where
  found := by
    rw [h'.found, h.found]
    cases sync' <;> simp
  send := by
    rw [h'.send, h.send]
    cases sync' <;> simp
  header := by
    rw [h'.header, h.header]
    cases sync' <;> rfl
  stopThread := h'.stopThread.trans h.stopThread
  queue := by rw [h'.queue, h.queue, List.append_assoc]

/-- The ring has room for all packets that are queued. -/
def Fits (s s' : Ingress) : Prop :=
  s.recv.dLocalqueue.length + s'.placed.length ≤ s.placed.length + MAX_NET_CIRC_BUFFER

/-- A step that queues packets at the end, if the ring has room. -/
def Collects (s s' : Ingress) : Prop :=
  ∃ arrived sync, s'.placed = s.placed ++ arrived ∧
    (Fits s s' → Receives arrived sync s.recv s'.recv)

variable {s s' s'' : Ingress} {c : Config}

/-- A step that leaves all this alone. -/
theorem Collects.of_same (hplaced : s'.placed = s.placed)
    (h : Receives [] none s.recv s'.recv) : Collects s s' :=
  ⟨[], none, by rw [hplaced, List.append_nil], fun _ => h⟩

theorem Receives.refl (r : Receiver) : Receives [] none r r :=
  ⟨(Bool.or_false _).symm, (Bool.or_false _).symm, rfl, rfl, (List.append_nil _).symm⟩

theorem Collects.trans (h : Collects s s') (h' : Collects s' s'') : Collects s s'' := by
  obtain ⟨arrived, sync, hplaced, hreceives⟩ := h
  obtain ⟨arrived', sync', hplaced', hreceives'⟩ := h'
  refine ⟨arrived ++ arrived', sync' <|> sync,
    by rw [hplaced', hplaced, List.append_assoc], fun hfits => ?_⟩
  have hroom : s.recv.dLocalqueue.length + (arrived.length + arrived'.length) ≤
      MAX_NET_CIRC_BUFFER := by
    rw [Fits, hplaced', hplaced, List.length_append, List.length_append] at hfits
    omega
  have h := hreceives (by
    rw [Fits, hplaced, List.length_append]
    omega)
  refine h.trans (hreceives' ?_)
  rw [Fits, h.queue, hplaced', List.length_append, List.length_append]
  omega

/-- The search for the starting channel. -/
theorem synchronize_receives (c : Config) (p : Pointer) (r : Receiver) :
    synchronize true c p r = none ∨
      ∃ r' sync, synchronize true c p r = some r' ∧ Receives [] sync r r' := by
  cases hfound : r.dFoundStartChannel with
  | true => exact Or.inr ⟨r, none, if_pos hfound, .refl r⟩
  | false =>
    rw [synchronize, if_neg (by rw [hfound]; exact Bool.false_ne_true), if_pos rfl,
      voltageSynchronize]
    split
    · exact Or.inr ⟨_, some (getVoltageHeader p), rfl,
        ⟨(Bool.or_true _).symm, (Bool.or_true _).symm, rfl, rfl, (List.append_nil _).symm⟩⟩
    · exact Or.inl rfl

/-- A packet that is queued after the search. -/
theorem collects_queuePacket {r : Receiver} {sync : Option SnapHeader} (p : Packet)
    (h : Receives [] sync s.recv r) (delivered : List Packet) :
    Collects s (queuePacket p ⟨r, delivered, s.placed⟩) := by
  refine ⟨[p], sync, rfl, fun hfits => ⟨h.found, h.send, h.header, h.stopThread, ?_⟩⟩
  have hqueue := h.queue
  rw [List.append_nil] at hqueue
  have hroom : s.recv.dLocalqueue.length < MAX_NET_CIRC_BUFFER := by
    simp only [Fits, queuePacket, List.length_append, List.length_singleton] at hfits
    omega
  rw [queuePacket, hqueue]
  exact if_pos hroom

theorem collects_mmsgPacket (c : Config) (s : Ingress) (p : Pointer) :
    Collects s (mmsgPacket true c s p) := by
  rw [mmsgPacket]
  rcases synchronize_receives c p s.recv with hsync | ⟨r, sync, hsync, hr⟩
  · simp only [deliver, hsync]
    exact .of_same rfl (.refl _)
  · simp only [deliver, hsync]
    exact collects_queuePacket _ hr _

theorem collects_pcapPacket (c : Config) (s : Ingress) (p : Pointer) :
    Collects s (pcapPacket true c s p) := by
  rw [pcapPacket]
  rcases synchronize_receives c p s.recv with hsync | ⟨r, sync, hsync, hr⟩
  · simp only [deliver, hsync]
    exact .of_same rfl (.refl _)
  · simp only [deliver, hsync]
    split
    · exact ⟨[], sync, (List.append_nil _).symm, fun _ => hr⟩
    · exact collects_queuePacket _ hr _

theorem Collects.foldl {step : Ingress → Pointer → Ingress} (hstep : ∀ s p, Collects s (step s p))
    (ps : List Pointer) (s : Ingress) : Collects s (ps.foldl step s) := by
  induction ps generalizing s with
  | nil => exact .of_same rfl (.refl _)
  | cons p ps ih => exact (hstep s p).trans (ih (step s p))

/-- A batch of datagrams. -/
theorem collects_mmsgReceive (c : Config) (datagrams : List Packet) (s : Ingress) :
    Collects s (mmsgReceive true c datagrams s) := by
  have hbufs : Collects s { s with recv := { s.recv with
      bufs := recvmmsg c (datagrams.take MMSG_LENGTH) s.recv.bufs } } :=
    .of_same rfl ⟨(Bool.or_false _).symm, (Bool.or_false _).symm, rfl, rfl,
      (List.append_nil _).symm⟩
  exact hbufs.trans (.foldl (collects_mmsgPacket c) _ _)

/-- A step that only moves on in the capture. -/
theorem collects_pcapFile (s : Ingress) (records : List Record) (done : Bool) :
    Collects s { s with recv := { s.recv with pcapFile := records, pcapFileDone := done } } :=
  .of_same rfl ⟨(Bool.or_false _).symm, (Bool.or_false _).symm, rfl, rfl,
    (List.append_nil _).symm⟩

theorem collects_pcapLoop (c : Config) (records : List Record) (matchingPackets : ℤ)
    (s : Ingress) : Collects s (pcapLoop true c records matchingPackets s).2 := by
  induction records generalizing matchingPackets s with
  | nil => exact collects_pcapFile s [] s.recv.pcapFileDone
  | cons record rest ih =>
    rw [pcapLoop]
    split
    · split
      · exact collects_pcapFile s rest s.recv.pcapFileDone
      · split
        · exact ih matchingPackets s
        · exact (collects_pcapPacket c s _).trans (ih _ _)
    · exact collects_pcapFile s (record :: rest) s.recv.pcapFileDone

/-- A refill from the capture. -/
theorem collects_queuePcapData (c : Config) (capture : List Record) (minPcapQueueSize : ℤ)
    (s : Ingress) : Collects s (queuePcapData true c capture minPcapQueueSize s) := by
  have hloop := collects_pcapLoop c s.recv.pcapFile 0 s
  rw [queuePcapData]
  split
  · generalize pcapLoop true c s.recv.pcapFile 0 s = looped at hloop ⊢
    obtain ⟨ended, t⟩ := looped
    simp only
    split
    · split
      · exact hloop.trans (collects_pcapFile t capture t.recv.pcapFileDone)
      · exact hloop.trans (collects_pcapFile t t.recv.pcapFile true)
    · exact hloop
  · exact .of_same rfl (.refl _)

-- ════════════════════════════════════════════════════════════════════════
-- What the work function does not look at
-- ════════════════════════════════════════════════════════════════════════

/-- A receiver with the members of another one that only the receive thread uses. -/
def Receiver.onto (r t : Receiver) : Receiver :=
  { r with bufs := t.bufs, pcapFile := t.pcapFile, asyncSpectSyncHdr := t.asyncSpectSyncHdr }

def SnapSource.onto (s : SnapSource) (t : Receiver) : SnapSource :=
  { s with recv := s.recv.onto t }

theorem packetLoop_onto (c : Config) (noutputItems : ℕ) (t : Receiver) (n : ℕ) (r : Receiver)
    (acc : VoltState × ℤ) :
    packetLoop c noutputItems n (r.onto t, acc) =
      (packetLoop c noutputItems n (r, acc)).map fun s => (s.1.onto t, s.2) := by
  induction n generalizing r acc with
  | zero => rfl
  | succ n ih =>
    have hfill : fillLocalBuffer (r.onto t) =
        (fillLocalBuffer r).map fun taken => (taken.1, taken.2.onto t) := by
      rw [fillLocalBuffer, fillLocalBuffer]
      cases r with
      | mk _ _ _ _ _ _ _ _ queue => cases queue <;> rfl
    rw [packetLoop, packetLoop]
    split
    · rw [hfill]
      refine Execution.map_bind fun taken => ?_
      change (processPacket c acc taken.1 >>= _) = (processPacket c acc taken.1 >>= _).map _
      cases processPacket c acc taken.1 with
      | error f => rfl
      | ok acc' => exact ih taken.2 acc'
    · rfl

/-- The work function passes these members through. -/
theorem workVoltMode_onto (c : Config) (noutputItems : ℕ) (liveWork : Bool) (s : SnapSource)
    (t : Receiver) :
    workVoltMode c noutputItems liveWork (s.onto t) =
      (workVoltMode c noutputItems liveWork s).map fun r => (r.1, r.2.onto t) := by
  rw [workVoltMode, workVoltMode]
  by_cases hwait : s.recv.stopThread = false ∧ s.recv.pcapFileDone = false ∧
      s.recv.dLocalqueue.length = 0 ∧ s.volt.xVectorQueue = []
  · rw [if_pos hwait]
    exact if_pos hwait
  · rw [if_neg hwait]
    refine (if_neg hwait).trans ?_
    have hloop := packetLoop_onto c noutputItems t s.recv.dLocalqueue.length
      { s.recv with dSendSyncPmt := false } (s.volt, 0)
    change (packetLoop c noutputItems s.recv.dLocalqueue.length
      (Receiver.onto { s.recv with dSendSyncPmt := false } t, s.volt, 0) >>= _) = _
    rw [hloop]
    refine Execution.map_bind fun looped => ?_
    simp only
    cases emitItems c liveWork (min noutputItems looped.2.1.xVectorQueue.length) looped.2.1 with
    | error f => rfl
    | ok emitted => rfl

/-- Two receivers that the work function cannot tell apart. -/
structure SameView (r r' : Receiver) : Prop where
  found : r.dFoundStartChannel = r'.dFoundStartChannel
  send : r.dSendSyncPmt = r'.dSendSyncPmt
  header : r.asyncVoltSyncHdr = r'.asyncVoltSyncHdr
  pcapFileDone : r.pcapFileDone = r'.pcapFileDone
  stopThread : r.stopThread = r'.stopThread
  queue : r.dLocalqueue = r'.dLocalqueue

theorem SameView.eq_onto {r r' : Receiver} (h : SameView r r') : r = r'.onto r := by
  cases r
  cases r'
  cases h
  simp_all [Receiver.onto]

-- ════════════════════════════════════════════════════════════════════════
-- Blocks and schedules
-- ════════════════════════════════════════════════════════════════════════

/-- Calls that the runtime makes, and messages that announce a timestamp. -/
def BlockEvent.Scheduled : BlockEvent → Prop
  | .handleSyncMsg msg => msg.Announces
  | .work noutputItems _ => 0 < noutputItems ∧ 16 ∣ noutputItems
  | .workTest _ _ => False
  | _ => True

/-- What a call of the voltage mode returns. -/
def Outcome.ofVolt (r : WorkResult) : Outcome :=
  .returned (r.items.map .volt) r.skippedPackets r.syncHeader

def Outcome.isReturned : Outcome → Bool
  | .workDone => false
  | .returned _ _ _ => true

/-- The outcomes of the calls that did some work. -/
def Block.returned (b : Block) : List Outcome := b.outcomes.filter Outcome.isReturned

namespace VoltageBlock

variable (B : VoltageBlock)

/-- The run of the block from the receive thread on. -/
def blockRun (env : Environment) (events : List BlockEvent) : Except Fault Block :=
  GrAta.blockRun formatTest B.cfg B.unset env events

/-- A block, and the run of a schedule that has made the same calls. `pending` holds
what has happened since the last of them. -/
structure Follows (env : Environment) (b : Block) (calls : List Call) (w : WorkRun)
    (pending : Call) : Prop where
  run : B.run env calls = .ok w
  valid : ∀ call ∈ calls, call.Valid
  recv : SameView b.ingress.recv (pending.receive w.source.recv)
  messages : ∀ m ∈ pending.messages, m.Announces
  volt : handleMessages w.source.volt pending.messages = .ok b.volt
  spect : w.source.spect = b.spect
  placed : b.ingress.placed = arrivals calls ++ pending.arrived
  returned : b.returned = w.results.map Outcome.ofVolt

variable {B} {env : Environment} {b : Block} {calls : List Call} {w : WorkRun} {pending : Call}

/-- A step of the receive thread. -/
theorem Follows.receive (h : B.Follows env b calls w pending) {s : Ingress}
    (hcollects : Collects b.ingress s) (hfits : Fits b.ingress s) :
    ∃ pending', B.Follows env { b with ingress := s } calls w pending' := by
  obtain ⟨arrived, sync, hplaced, hreceives⟩ := hcollects
  have hr := hreceives hfits
  refine ⟨{ pending with
    arrived := pending.arrived ++ arrived
    synchronized := sync <|> pending.synchronized
    pcapFileDone := s.recv.pcapFileDone }, ?_⟩
  refine { h with recv := ⟨?_, ?_, ?_, rfl, ?_, ?_⟩, placed := ?_ }
  · rw [hr.found, h.recv.found]
    cases sync <;> simp [Call.receive]
  · rw [hr.send, h.recv.send]
    cases sync <;> simp [Call.receive]
  · rw [hr.header, h.recv.header]
    cases sync <;> rfl
  · exact hr.stopThread.trans h.recv.stopThread
  · rw [hr.queue, h.recv.queue]
    exact List.append_assoc _ _ _
  · rw [hplaced, h.placed, List.append_assoc]

/-- A message on port `sync`. -/
theorem Follows.message (h : B.Follows env b calls w pending) {msg : Pmt}
    (hmsg : msg.Announces) :
    ∃ v, handleSyncMsg b.volt msg = .ok v ∧ B.Follows env { b with volt := v } calls w
      { pending with messages := pending.messages ++ [msg] } := by
  have hok : ∃ v, handleSyncMsg b.volt msg = .ok v := by
    obtain ⟨data, hdata, -⟩ := hmsg
    rw [handleSyncMsg, hdata]
    exact ⟨_, rfl⟩
  obtain ⟨v, hv⟩ := hok
  refine ⟨v, hv, { h with recv := h.recv, messages := ?_, volt := ?_ }⟩
  · exact List.forall_mem_append.mpr ⟨h.messages, List.forall_mem_singleton.mpr hmsg⟩
  · exact Execution.run_concat_ok h.volt hv

/-- The block is stopped. -/
theorem Follows.stop (h : B.Follows env b calls w pending) :
    B.Follows env { b with ingress :=
        { b.ingress with recv := { b.ingress.recv with stopThread := true } } } calls w
      { pending with stopThread := true } :=
  { h with recv := ⟨h.recv.found, h.recv.send, h.recv.header, h.recv.pcapFileDone, rfl,
      h.recv.queue⟩ }

/-- One more call of a schedule. -/
theorem run_concat (hrun : B.run env calls = .ok w) (call : Call) :
    B.run env (calls ++ [call]) = workCall B.cfg w call := by
  rw [run, workRun] at hrun ⊢
  cases hstart : start B.cfg B.unset env with
  | error f =>
    rw [hstart] at hrun
    cases hrun
  | ok s =>
    rw [hstart] at hrun
    rw [ok_bind, Execution.run_append_ok hrun, Execution.run_singleton]

/-- What the work function finds in the block is what the pending call finds. -/
theorem Follows.source_eq (h : B.Follows env b calls w pending) :
    b.source = SnapSource.onto
      { w.source with recv := pending.receive w.source.recv, volt := b.volt } b.ingress.recv := by
  rw [Block.source, SnapSource.onto, ← h.recv.eq_onto, h.spect]

/-- A call that returns. -/
theorem Follows.call (h : B.Follows env b calls w pending) {noutputItems : ℕ}
    (hsize : 0 < noutputItems ∧ 16 ∣ noutputItems) (hadm : B.Admissible 0 b.ingress.placed)
    (ports : ℕ) :
    ∃ r calls' w' pending', workMode true B.cfg noutputItems ports true b.source = .ok r ∧
      B.Follows env (b.after r) calls' w' pending' := by
  -- the call of the schedule finds all that is pending
  set call : Call := { pending with noutputItems := noutputItems } with hcall
  have hvalid : ∀ call' ∈ calls ++ [call], call'.Valid :=
    List.forall_mem_append.mpr
      ⟨h.valid, List.forall_mem_singleton.mpr ⟨hsize.1, hsize.2, h.messages⟩⟩
  have harrivals : arrivals (calls ++ [call]) = b.ingress.placed := by
    rw [arrivals_concat, h.placed]
  obtain ⟨w', -, -, -, hw', -⟩ := B.run_tracks env _ hvalid (harrivals ▸ hadm)
  have hworkCall := hw'
  rw [run_concat h.run, workCall] at hworkCall
  rw [show call.messages = pending.messages from rfl, h.volt, ok_bind] at hworkCall
  have honto := workVoltMode_onto B.cfg noutputItems true
    { w.source with recv := pending.receive w.source.recv, volt := b.volt } b.ingress.recv
  rw [← h.source_eq] at honto
  change (workVoltMode B.cfg noutputItems true
    { w.source with recv := pending.receive w.source.recv, volt := b.volt } >>= _) = _ at hworkCall
  cases hvolt : workVoltMode B.cfg noutputItems true
      { w.source with recv := pending.receive w.source.recv, volt := b.volt } with
  | error f =>
    rw [hvolt] at hworkCall
    cases hworkCall
  | ok r =>
    rw [hvolt] at hworkCall honto
    cases hworkCall
    refine ⟨(.ofVolt r.1, r.2.onto b.ingress.recv), calls ++ [call],
      ⟨r.2, w.results ++ [r.1]⟩,
      { arrived := [], noutputItems := noutputItems, stopThread := r.2.recv.stopThread,
        pcapFileDone := r.2.recv.pcapFileDone }, ?_, ?_⟩
    · rw [workMode, if_pos rfl, honto]
      rfl
    · exact {
        run := hw'
        valid := hvalid
        recv := ⟨(Bool.or_false _).symm, (Bool.or_false _).symm, rfl, rfl, rfl,
          (List.append_nil _).symm⟩
        messages := by simp
        volt := rfl
        spect := rfl
        placed := by
          rw [List.append_nil, harrivals]
          rfl
        returned := by
          rw [Block.returned, Block.after, List.filter_append, List.map_append]
          exact congrArg (· ++ _) h.returned }

/-- A call of `work`. At the end of a capture it does nothing. -/
theorem Follows.work (h : B.Follows env b calls w pending) {noutputItems : ℕ}
    (hsize : 0 < noutputItems ∧ 16 ∣ noutputItems) (hadm : B.Admissible 0 b.ingress.placed)
    (ports : ℕ) :
    ∃ r calls' w' pending', GrAta.work true B.cfg noutputItems ports b.source = .ok r ∧
      B.Follows env (b.after r) calls' w' pending' := by
  rw [GrAta.work]
  split
  · refine ⟨(.workDone, b.source), calls, w, pending, rfl, ?_⟩
    have hreturned : (b.after (.workDone, b.source)).returned = b.returned := by
      rw [Block.returned, Block.after, List.filter_append]
      exact List.append_nil _
    exact { h with recv := h.recv, returned := hreturned.trans h.returned }
  · exact h.call hsize hadm ports

/-- A run whose calls are those of a schedule, whose packets the voltage mode can
process, and whose ring never drops a packet. -/
structure Served (B : VoltageBlock) (env : Environment) (events : List BlockEvent) : Prop where
  scheduled : ∀ e ∈ events, e.Scheduled
  admissible : ∀ before, before <+: events → ∀ b, B.blockRun env before = .ok b →
    B.Admissible 0 b.ingress.placed
  fits : ∀ before e, before ++ [e] <+: events → ∀ b b', B.blockRun env before = .ok b →
    B.blockRun env (before ++ [e]) = .ok b' → Fits b.ingress b'.ingress

theorem Served.of_concat {events : List BlockEvent} {e : BlockEvent}
    (h : B.Served env (events ++ [e])) : B.Served env events where
  scheduled := fun e' he' => h.scheduled e' (List.mem_append_left _ he')
  admissible := fun before hbefore =>
    h.admissible before (hbefore.trans (List.prefix_append _ _))
  fits := fun before e' hbefore => h.fits before e' (hbefore.trans (List.prefix_append _ _))

/-- One event. -/
theorem Follows.step (h : B.Follows env b calls w pending) {e : BlockEvent}
    (hscheduled : e.Scheduled) (hadm : B.Admissible 0 b.ingress.placed)
    (hfits : ∀ b', blockStep formatTest B.cfg env.capture b e = .ok b' →
      Fits b.ingress b'.ingress) :
    ∃ b' calls' w' pending', blockStep formatTest B.cfg env.capture b e = .ok b' ∧
      B.Follows env b' calls' w' pending' := by
  cases e with
  | mmsgReceive datagrams =>
    obtain ⟨pending', h'⟩ := h.receive (collects_mmsgReceive B.cfg datagrams _) (hfits _ rfl)
    exact ⟨_, calls, w, pending', rfl, h'⟩
  | queuePcapData minPcapQueueSize =>
    obtain ⟨pending', h'⟩ := h.receive
      (collects_queuePcapData B.cfg env.capture minPcapQueueSize _) (hfits _ rfl)
    exact ⟨_, calls, w, pending', rfl, h'⟩
  | handleSyncMsg msg =>
    obtain ⟨v, hv, h'⟩ := h.message hscheduled
    exact ⟨_, calls, w, _, by rw [blockStep, hv]; rfl, h'⟩
  | work noutputItems ports =>
    obtain ⟨r, calls', w', pending', hr, h'⟩ := h.work hscheduled hadm ports
    exact ⟨_, calls', w', pending', by rw [blockStep, show formatTest = true from rfl, hr]; rfl, h'⟩
  | workTest noutputItems ports => exact hscheduled.elim
  | stop => exact ⟨_, calls, w, _, rfl, h.stop⟩

theorem blockRun_concat {events : List BlockEvent} (hrun : B.blockRun env events = .ok b)
    (e : BlockEvent) :
    B.blockRun env (events ++ [e]) = blockStep formatTest B.cfg env.capture b e := by
  rw [blockRun, GrAta.blockRun] at hrun ⊢
  cases hstart : start B.cfg B.unset env with
  | error f =>
    rw [hstart] at hrun
    cases hrun
  | ok s =>
    rw [hstart] at hrun
    rw [ok_bind, Execution.run_append_ok hrun, Execution.run_singleton]

/-- A run over one more event passes through the state before it. -/
theorem blockRun_split {events : List BlockEvent} {e : BlockEvent} {b' : Block}
    (hrun : B.blockRun env (events ++ [e]) = .ok b') :
    ∃ b, B.blockRun env events = .ok b ∧
      blockStep formatTest B.cfg env.capture b e = .ok b' := by
  rw [blockRun, GrAta.blockRun] at hrun
  cases hstart : start B.cfg B.unset env with
  | error f =>
    rw [hstart] at hrun
    cases hrun
  | ok s =>
    rw [hstart] at hrun
    obtain ⟨b, hb, hstep⟩ := Execution.run_append_split hrun
    rw [Execution.run_singleton] at hstep
    refine ⟨b, ?_, hstep⟩
    rw [blockRun, GrAta.blockRun, hstart]
    exact hb

/-- **Runs are schedules.** A run of the block returns, and follows the run of a
schedule that brings the same packets. -/
theorem blockRun_follows {events : List BlockEvent} (h : B.Served env events) :
    ∃ b calls w pending, B.blockRun env events = .ok b ∧ B.Follows env b calls w pending := by
  induction events using List.reverseRecOn with
  | nil =>
    obtain ⟨s, hs, -, -⟩ := B.start_tracks env
    refine ⟨⟨⟨s.recv, [], []⟩, s.volt, s.spect, []⟩, [], ⟨s, []⟩,
      { arrived := [], noutputItems := 0, stopThread := s.recv.stopThread,
        pcapFileDone := s.recv.pcapFileDone }, ?_, ?_⟩
    · rw [blockRun, GrAta.blockRun, hs]
      rfl
    · exact {
        run := by
          rw [run, workRun, hs]
          rfl
        valid := by simp
        recv := ⟨(Bool.or_false _).symm, (Bool.or_false _).symm, rfl, rfl, rfl,
          (List.append_nil _).symm⟩
        messages := by simp
        volt := rfl
        spect := rfl
        placed := rfl
        returned := rfl }
  | append_singleton events e ih =>
    obtain ⟨b, calls, w, pending, hrun, hfollows⟩ := ih h.of_concat
    have hconcat := blockRun_concat hrun e
    obtain ⟨b', calls', w', pending', hstep, hfollows'⟩ := hfollows.step
      (h.scheduled e (by simp)) (h.admissible events (List.prefix_append _ _) b hrun)
      fun b' hb' => h.fits events e List.prefix_rfl b b' hrun (hconcat.trans hb')
    exact ⟨b', calls', w', pending', hconcat.trans hstep, hfollows'⟩

-- ════════════════════════════════════════════════════════════════════════
-- Traffic that a block can serve
-- ════════════════════════════════════════════════════════════════════════

/-- The packets from the starting channel on are among all packets. -/
theorem mem_of_mem_fromStart {isVoltage : Bool} {c : Config} {found : Bool} {ps : List Packet}
    {p : Packet} (h : p ∈ fromStart isVoltage c found ps) : p ∈ ps := by
  cases found with
  | true => exact h
  | false => exact (List.dropWhile_sublist _).subset h

/-- A step that queues packets in range, all of them examined payloads. -/
structure Admits (B : VoltageBlock) (s s' : Ingress) : Prop where
  delivered : s.delivered ⊆ s'.delivered
  placed : ∀ p ∈ s'.placed, p ∈ s.placed ∨ B.InRange p ∧ p ∈ s'.delivered

theorem Admits.of_same {s s' : Ingress} (hdelivered : s'.delivered = s.delivered)
    (hplaced : s'.placed = s.placed) : B.Admits s s' :=
  ⟨hdelivered ▸ List.Subset.refl _, fun _ hp => Or.inl (hplaced ▸ hp)⟩

theorem Admits.of_handled {s s' : Ingress} {filter : Packet → Bool} {ps : List Packet}
    (h : Handled true B.cfg filter ps s s')
    (hrange : ∀ p ∈ (fromStart true B.cfg s.recv.dFoundStartChannel ps).filter filter,
      B.InRange p) : B.Admits s s' where
  delivered := by
    rw [h.delivered]
    exact List.subset_append_left _ _
  placed := by
    rw [h.placed, h.delivered]
    refine fun p hp => (List.mem_append.mp hp).imp_right fun hp => ⟨hrange p hp, ?_⟩
    exact List.mem_append_right _ (mem_of_mem_fromStart (List.mem_of_mem_filter hp))

/-- What an event queues. -/
theorem blockStep_admits {capture : List Record} {b' : Block} {e : BlockEvent}
    (hstep : blockStep formatTest B.cfg capture b e = .ok b')
    (hexpected : ∀ datagrams, e = .mmsgReceive datagrams → B.Expected b.ingress.recv datagrams) :
    B.Admits b.ingress b'.ingress := by
  cases e with
  | mmsgReceive datagrams =>
    cases hstep
    refine .of_handled (mmsgReceive_handled true B.eight_le_totalPacketSize datagrams _) ?_
    rw [filter_unfiltered]
    exact hexpected datagrams rfl
  | queuePcapData minPcapQueueSize =>
    cases hstep
    obtain ⟨read, rest, hreads, -⟩ := queuePcapData_handled true B.eight_le_totalPacketSize
      capture minPcapQueueSize b.ingress
    exact .of_handled hreads.handled fun p hp => B.expected_iff.mp (List.mem_filter.mp hp).2
  | handleSyncMsg msg =>
    rw [blockStep] at hstep
    cases hmsg : handleSyncMsg b.volt msg with
    | error f =>
      rw [hmsg] at hstep
      cases hstep
    | ok v =>
      rw [hmsg] at hstep
      cases hstep
      exact .of_same rfl rfl
  | work noutputItems ports =>
    rw [blockStep] at hstep
    cases hwork : GrAta.work formatTest B.cfg noutputItems ports b.source with
    | error f =>
      rw [hwork] at hstep
      cases hstep
    | ok r =>
      rw [hwork] at hstep
      cases hstep
      exact .of_same rfl rfl
  | workTest noutputItems ports =>
    rw [blockStep] at hstep
    cases hwork : GrAta.workTest formatTest B.cfg noutputItems ports b.source with
    | error f =>
      rw [hwork] at hstep
      cases hstep
    | ok r =>
      rw [hwork] at hstep
      cases hstep
      exact .of_same rfl rfl
  | stop =>
    cases hstep
    exact .of_same rfl rfl

/-- Traffic without unexpected channels, whose timestamps are not at the very end of
their range. -/
structure Clean (B : VoltageBlock) (env : Environment) (events : List BlockEvent) : Prop where
  scheduled : ∀ e ∈ events, e.Scheduled
  expected : ∀ before datagrams, before ++ [.mmsgReceive datagrams] <+: events →
    ∀ b, B.blockRun env before = .ok b → B.Expected b.ingress.recv datagrams
  timestamps : ∀ before, before <+: events → ∀ b, B.blockRun env before = .ok b →
    ∀ p ∈ b.ingress.delivered, timestamp p < 2 ^ 64 - 16
  fits : ∀ before e, before ++ [e] <+: events → ∀ b b', B.blockRun env before = .ok b →
    B.blockRun env (before ++ [e]) = .ok b' → Fits b.ingress b'.ingress

theorem Clean.of_prefix {before events : List BlockEvent} (h : B.Clean env events)
    (hbefore : before <+: events) : B.Clean env before where
  scheduled := fun e he => h.scheduled e (hbefore.subset he)
  expected := fun before' datagrams hearlier =>
    h.expected before' datagrams (hearlier.trans hbefore)
  timestamps := fun before' hearlier => h.timestamps before' (hearlier.trans hbefore)
  fits := fun before' e hearlier => h.fits before' e (hearlier.trans hbefore)

/-- The packets that such traffic leaves in the queue. -/
theorem Clean.placed {events : List BlockEvent} (h : B.Clean env events)
    (hrun : B.blockRun env events = .ok b) :
    ∀ p ∈ b.ingress.placed, B.InRange p ∧ p ∈ b.ingress.delivered := by
  induction events using List.reverseRecOn generalizing b with
  | nil =>
    obtain ⟨s, hs, -, -⟩ := B.start_tracks env
    rw [blockRun, GrAta.blockRun, hs] at hrun
    cases hrun
    simp
  | append_singleton events e ih =>
    obtain ⟨b', hb', hstep⟩ := blockRun_split hrun
    have hadmits := blockStep_admits hstep fun datagrams he =>
      h.expected events datagrams (he ▸ List.prefix_rfl) b' hb'
    intro p hp
    rcases hadmits.placed p hp with hold | hnew
    · obtain ⟨hrange, hdelivered⟩ := ih (h.of_prefix (List.prefix_append _ _)) hb' p hold
      exact ⟨hrange, hadmits.delivered hdelivered⟩
    · exact hnew

theorem Clean.served {events : List BlockEvent} (h : B.Clean env events) :
    B.Served env events where
  scheduled := h.scheduled
  admissible := fun before hbefore b hb =>
    B.admissible_of_timestamp_lt 0 fun p hp => by
      obtain ⟨hrange, hdelivered⟩ := (h.of_prefix hbefore).placed hb p hp
      exact ⟨hrange, h.timestamps before hbefore b hb p hdelivered⟩
  fits := h.fits

/-- **No faults.** A block that receives such traffic returns from every call. -/
theorem blockRun_returns {events : List BlockEvent} (h : B.Clean env events) :
    ∃ b, B.blockRun env events = .ok b := by
  obtain ⟨b, -, -, -, hrun, -⟩ := B.blockRun_follows h.served
  exact ⟨b, hrun⟩

/-- The output items of a block. -/
def outputs (b : Block) : List Output := b.outcomes.flatMap Outcome.items

/-- Calls that only return `WORK_DONE` output nothing. -/
theorem outputs_eq_returned (b : Block) : outputs b = b.returned.flatMap Outcome.items := by
  rw [outputs, Block.returned]
  induction b.outcomes with
  | nil => rfl
  | cons outcome outcomes ih =>
    cases outcome with
    | workDone => exact ih
    | returned items skippedPackets syncHeader => exact congrArg (items ++ ·) ih

/-- The items of a block are those of the schedule it follows. -/
theorem Follows.outputs_eq (h : B.Follows env b calls w pending) :
    outputs b = w.items.map .volt := by
  rw [outputs_eq_returned, h.returned, WorkRun.items, List.flatMap_map, List.map_flatMap]
  rfl

/-- **Reconstruction from the receive thread on.** A run whose queued packets are an
in-order lossy stream outputs, on the first port, a prefix of the reference
reconstruction of the packets it has taken. -/
theorem blockRun_reconstructs {events : List BlockEvent} (h : B.Served env events) :
    ∃ b, B.blockRun env events = .ok b ∧ ∀ first, LossyStream B first b.ingress.placed →
      ∃ (taken : List Packet) (items : List OutItem), taken <+: b.ingress.placed ∧
        outputs b = items.map Output.volt ∧
        items.map (fun item => item.x.data) <+: B.reference .x taken := by
  obtain ⟨b, calls, w, pending, hrun, hfollows⟩ := B.blockRun_follows h
  refine ⟨b, hrun, fun first hlossy => ?_⟩
  rw [hfollows.placed] at hlossy ⊢
  obtain ⟨w', taken, delivered, queue, hw', ht, -, -⟩ :=
    B.run_tracks env calls hfollows.valid hlossy.of_append.admissible
  obtain rfl : w' = w := Except.ok.inj (hw'.symm.trans hfollows.run)
  have harrived := hlossy.of_append
  rw [ht.consumed] at harrived
  exact ⟨taken, w'.items, ht.taken_arrived.trans (List.prefix_append _ _), hfollows.outputs_eq,
    ht.outputs_x harrived.of_append⟩

end VoltageBlock

end GrAta
