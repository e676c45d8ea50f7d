import GrAta.Library.Fairness
import GrAta.Voltage.Delivery
import Mathlib.Data.Prod.Lex

/-!
# A capture plays to its end

The receive thread refills the queue from a capture, and the runtime calls the work
function. However the two alternate, the block comes to the end of the capture, and has
then output the frames of the capture, apart from the vectors that still wait in the output
queue. What is output does not depend on how the two alternated.

## Main definitions

- `VoltageBlock.playback`: the output items that a capture makes up
- `VoltageBlock.Played`: a block at the end of a capture
- `VoltageBlock.Playing`: a block on the way there

## Main results

- `VoltageBlock.playback_ends`: every fair schedule plays the capture
-/

namespace GrAta

/-- The two kinds of steps of a capture. -/
def BlockEvent.isRefill : BlockEvent → Bool
  | .queuePcapData _ => true
  | _ => false

namespace VoltageBlock

variable (B : VoltageBlock)

/-- The rows of the frames that a capture makes up, in order, with their tags. -/
def playback (capture : List Record) : List OutItem :=
  ((frameLog B.cfg.bOnePacket (captured B capture)).pushed.flatMap B.queuedItems).map
    (Queued.emitted true)

/-- The end of the capture has come, and what has not been output waits in the output
queue. -/
structure Played (capture : List Record) (b : Block) : Prop where
  atEnd : AtEnd b
  items : ∃ played waiting, B.playback capture = played ++ waiting ∧
    outputs b = played.map Output.volt ∧ b.volt.xVectorQueue = waiting.map OutItem.x

/-- What every step of a capture keeps. -/
structure Playing (env : Environment) (b : Block) : Prop where
  accounts : ∃ taken delivered queue,
    B.Accounts b taken delivered queue (delivered.map (Queued.emitted true))
  quiet : b.volt.syncTimestamp = 0
  progress : ∃ read, Refill.Progress true B.cfg env read ⟨b.ingress, .idle⟩

/-- What is left to do: records to read, packets to take, vectors to output. -/
def remaining (b : Block) : ℕ ×ₗ ℕ ×ₗ ℕ :=
  toLex (b.ingress.recv.pcapFile.length + (if b.ingress.recv.pcapFileDone then 0 else 1),
    toLex (b.ingress.recv.dLocalqueue.length, b.volt.xVectorQueue.length))

/-- A refill helps while the capture has not ended and the queue is short. Otherwise a call
of the work function does. -/
def refillHelps (b : Block) : Bool :=
  !b.ingress.recv.pcapFileDone &&
    decide ((b.ingress.recv.dLocalqueue.length : ℤ) < startMinPcapQueueSize B.cfg)

variable {B} {env : Environment} {b b' : Block}

-- ════════════════════════════════════════════════════════════════════════
-- Refills
-- ════════════════════════════════════════════════════════════════════════

/-- A refill works through the capture. -/
theorem queuePcapData_progress (hrepeat : B.cfg.dRepeatFile = false) {read : List Packet}
    {s : Ingress} (h : Refill.Progress true B.cfg env read ⟨s, .idle⟩) (minPcapQueueSize : ℤ) :
    ∃ read', Refill.Progress true B.cfg env read'
      ⟨queuePcapData true B.cfg env.capture minPcapQueueSize s, .idle⟩ := by
  obtain ⟨rounds, hrounds⟩ := @refill_alone true B.cfg env.capture minPcapQueueSize s
  rw [← hrounds, refillRun]
  refine List.foldlRecOn
    (motive := fun s : Refill => ∃ read, s.Progress true B.cfg env read) _ _ ⟨read, h⟩ ?_
  rintro s ⟨read, hread⟩ event -
  exact refillStep_progress B.eight_le_totalPacketSize hrepeat hread event

/-- The loop reads a record if there is one. -/
theorem pcapLoop_reads_record {record : Record} {rest : List Record} {s : Ingress}
    (hrunning : s.recv.stopThread = false) :
    (pcapLoop true B.cfg (record :: rest) 0 s).2.recv.pcapFile.length ≤ rest.length := by
  have hmore : 0 < reloadSize B.cfg := by
    have hone := B.one_le_packets
    rw [B.reloadSize_eq]
    omega
  have hrest : ∀ m s', (pcapLoop true B.cfg rest m s').2.recv.pcapFile.length ≤ rest.length := by
    intro m s'
    obtain ⟨read, rest', ended, t, hloop, hreads, hfile, -, -⟩ :=
      pcapLoop_reads true B.eight_le_totalPacketSize rest m s'
    rw [hloop]
    exact hfile ▸ hreads.suffix.length_le
  rw [pcapLoop, if_pos hmore, if_neg (by rw [hrunning]; exact Bool.false_ne_true)]
  cases udpPayload B.cfg record with
  | none => exact hrest 0 s
  | some pData => exact hrest (0 + 1) (pcapPacket true B.cfg s pData)

/-- **A refill advances.** It reads a record, finds the end of the capture, or leaves the
block as it is. -/
theorem Playing.refill (hrepeat : B.cfg.dRepeatFile = false) (h : B.Playing env b) :
    B.Playing env (B.refilled env.capture b) ∧
      Execution.Advances AtEnd remaining B.refillHelps true b (B.refilled env.capture b) ∧
      (AtEnd b → AtEnd (B.refilled env.capture b)) := by
  obtain ⟨⟨taken, delivered, queue, haccounts⟩, hquiet, read, hread⟩ := h
  obtain ⟨arrived, haccounts', -, -⟩ := haccounts.refill env.capture
  refine ⟨⟨⟨_, _, _, haccounts'⟩, hquiet, queuePcapData_progress hrepeat hread _⟩, ?_⟩
  have hrunning : b.ingress.recv.stopThread = false := haccounts.running
  by_cases hmin : (b.ingress.recv.dLocalqueue.length : ℤ) < startMinPcapQueueSize B.cfg
  · cases hfile : b.ingress.recv.pcapFile with
    | nil =>
      have hmore : 0 < reloadSize B.cfg := by
        have hone := B.one_le_packets
        rw [B.reloadSize_eq]
        omega
      have hrefilled : (B.refilled env.capture b).ingress.recv =
          { b.ingress.recv with pcapFile := [], pcapFileDone := true } := by
        simp only [refilled]
        rw [queuePcapData, if_pos hmin, hfile, pcapLoop, decide_eq_true hmore]
        simp only [if_true, hrepeat, Bool.false_eq_true, if_false]
      refine ⟨?_, fun hend => ?_⟩
      · cases hdone : b.ingress.recv.pcapFileDone with
        | false =>
          refine .lower (Prod.Lex.toLex_lt_toLex.mpr (.inl ?_))
          simp only [hrefilled, hfile, hdone]
          decide
        | true =>
          refine .waits ?_ ?_ ?_
          · simp [refillHelps, hdone]
          · simp only [remaining, hrefilled, hfile, hdone]
            rfl
          · simp only [refillHelps, hrefilled, hdone]
      · rw [AtEnd, hrefilled]
        exact ⟨rfl, hend.2⟩
    | cons record rest =>
      -- a capture with a record left has not ended
      have hnot : b.ingress.recv.pcapFileDone = false := by
        by_contra hdone
        rw [Bool.not_eq_false] at hdone
        have hnil := hread.done hdone
        rw [show (Refill.mk b.ingress .idle).ingress.recv.pcapFile = _ from hfile] at hnil
        cases hnil
      have hshorter : (B.refilled env.capture b).ingress.recv.pcapFile.length ≤ rest.length := by
        have hloop := @pcapLoop_reads_record B record rest b.ingress hrunning
        simp only [refilled]
        rw [queuePcapData, if_pos hmin, hfile]
        generalize pcapLoop true B.cfg (record :: rest) 0 b.ingress = looped at hloop
        obtain ⟨ended, t⟩ := looped
        cases ended with
        | false => exact hloop
        | true =>
          simp only [if_true, hrepeat, Bool.false_eq_true, if_false]
          exact hloop
      refine ⟨.lower (Prod.Lex.toLex_lt_toLex.mpr (.inl ?_)), fun hend => ?_⟩
      · simp only [hfile, hnot, List.length_cons, Bool.false_eq_true, if_false]
        split <;> omega
      · rw [hend.1] at hnot
        cases hnot
  · have hsame : B.refilled env.capture b = b := by
      rw [refilled, queuePcapData, if_neg hmin]
    rw [hsame]
    exact ⟨.waits (by simp [refillHelps, hmin]) rfl rfl, id⟩

-- ════════════════════════════════════════════════════════════════════════
-- Calls of the work function
-- ════════════════════════════════════════════════════════════════════════

/-- The block queues the first packets of the capture. -/
theorem Playing.placed_initial (h : B.Playing env b) :
    b.ingress.placed <+: captured B env.capture := by
  obtain ⟨read, hread⟩ := h.progress
  have hplaced := hread.handled.placed
  rw [← B.captured_eq, ← hread.rest, fromStart_append, List.filter_append]
  exact hplaced ▸ List.prefix_append _ _

/-- Before the end of the capture a call takes packets or outputs vectors, or finds
neither. -/
theorem Serves.advances {log : FrameLog} {queue : List Queued} {noutput : ℕ} {s' : SnapSource}
    {more : List Packet} {result : WorkResult} (hpos : 0 < noutput)
    (hshows : B.Shows log queue b.volt)
    (hserves : B.Serves log queue noutput true b.source more result s')
    (hfile : s'.recv.pcapFile = b.ingress.recv.pcapFile)
    (hdone : s'.recv.pcapFileDone = b.ingress.recv.pcapFileDone) (hnot : ¬AtEnd b) :
    Execution.Advances AtEnd remaining B.refillHelps false b
      (b.after (.ofVolt result, s')) := by
  have hqueue : b.ingress.recv.dLocalqueue = more ++ s'.recv.dLocalqueue := hserves.consumed
  have hvectors : b.volt.xVectorQueue.length = queue.length := by
    rw [hshows.xQueue, List.length_map]
  have hleft := congrArg List.length hserves.shows.xQueue
  rw [List.length_map, List.length_drop] at hleft
  cases more with
  | cons p ps =>
    refine .lower (Prod.Lex.toLex_lt_toLex.mpr (.inr ⟨?_, ?_⟩))
    · simp only [Block.after, hfile, hdone]
    · refine Prod.Lex.toLex_lt_toLex.mpr (.inl ?_)
      simp only [Block.after, hqueue, List.length_append, List.length_cons]
      omega
  | nil =>
    rw [List.nil_append] at hqueue
    simp only [FrameLog.framesFrom, List.flatMap_nil, List.append_nil] at hleft
    by_cases hnone : queue = []
    · -- no vectors wait, so no packet did
      have hempty : s'.recv.dLocalqueue = [] := by
        refine hserves.enough.resolve_right fun henough => ?_
        rw [hserves.items, hnone] at henough
        simp only [FrameLog.framesFrom, List.flatMap_nil, List.append_nil, List.take_nil,
          List.map_nil, List.length_nil] at henough
        omega
      have hreading : b.ingress.recv.pcapFileDone = false := by
        by_contra hread
        exact hnot ⟨Bool.not_eq_false _ ▸ hread, hqueue.trans hempty⟩
      have hmin : (0 : ℤ) < startMinPcapQueueSize B.cfg := by
        have hone := B.one_le_packets
        rw [B.startMinPcapQueueSize_eq]
        omega
      refine .waits ?_ ?_ ?_
      · simp [refillHelps, hreading, hqueue, hempty, hmin]
      · simp only [remaining, Block.after, hfile, hdone, hqueue, hvectors, hnone, hleft,
          List.length_nil, Nat.zero_sub]
      · change (!s'.recv.pcapFileDone &&
          decide ((s'.recv.dLocalqueue.length : ℤ) < startMinPcapQueueSize B.cfg)) = _
        rw [hdone, ← hqueue]
        rfl
    · have hsome : 0 < queue.length := List.length_pos_iff.mpr hnone
      refine .lower (Prod.Lex.toLex_lt_toLex.mpr (.inr ⟨?_, ?_⟩))
      · simp only [Block.after, hfile, hdone]
      · refine Prod.Lex.toLex_lt_toLex.mpr (.inr ⟨?_, ?_⟩)
        · simp only [Block.after, hqueue]
        · simp only [Block.after]
          omega

/-- **A call advances.** At the end of the capture it outputs nothing. -/
theorem Playing.work (hpcap : B.cfg.dUsePcap = true)
    (htimes : ∀ p ∈ captured B env.capture, timestamp p < 2 ^ 64 - 16) (h : B.Playing env b)
    {noutputItems : ℕ} (hpos : 0 < noutputItems) (ports : ℕ) :
    ∃ b', blockStep formatTest B.cfg env.capture b (.work noutputItems ports) = .ok b' ∧
      B.Playing env b' ∧
      (¬AtEnd b → Execution.Advances AtEnd remaining B.refillHelps false b b') ∧
      (AtEnd b → AtEnd b' ∧ outputs b' = outputs b) := by
  have hplaced := h.placed_initial.subset
  obtain ⟨⟨taken, delivered, queue, haccounts⟩, hquiet, read, hread⟩ := h
  by_cases hend : AtEnd b
  · have hdone : blockStep formatTest B.cfg env.capture b (.work noutputItems ports) =
        .ok (b.after (.workDone, b.source)) := by
      rw [blockStep, GrAta.work, if_pos ⟨hpcap, hend.1, by rw [Block.source, hend.2]; rfl⟩]
      rfl
    have houtputs : outputs (b.after (.workDone, b.source)) = outputs b := by
      rw [VoltageBlock.outputs, Block.after, List.flatMap_append]
      exact List.append_nil _
    exact ⟨_, hdone, ⟨⟨_, _, _, haccounts.workDone⟩, hquiet, read, hread⟩,
      fun hnot => absurd hend hnot, fun _ => ⟨hend, houtputs⟩⟩
  · have hadm : B.Admissible (frameLog B.cfg.bOnePacket taken).last
        b.source.recv.dLocalqueue := by
      refine B.admissible_of_timestamp_lt _ fun p hp => ?_
      have hmem : p ∈ b.ingress.placed := by
        rw [haccounts.consumed]
        exact List.mem_append_right _ hp
      exact ⟨haccounts.inRange p hmem, htimes p (hplaced hmem)⟩
    obtain ⟨more, result, s', hwork, hserves⟩ :=
      B.workVoltMode_shows (s := b.source) haccounts.shows hadm noutputItems true
    obtain ⟨send, waiting, hrecv⟩ := workVoltMode_receiver hwork
    have hfile : s'.recv.pcapFile = b.ingress.recv.pcapFile := by
      rw [hrecv]
      rfl
    have hdone : s'.recv.pcapFileDone = b.ingress.recv.pcapFileDone := by
      rw [hrecv]
      rfl
    have hstop : s'.recv.stopThread = b.ingress.recv.stopThread := by
      rw [hrecv]
      rfl
    have hfound : s'.recv.dFoundStartChannel = b.ingress.recv.dFoundStartChannel := by
      rw [hrecv]
      rfl
    have hstep : blockStep formatTest B.cfg env.capture b (.work noutputItems ports) =
        .ok (b.after (.ofVolt result, s')) := by
      rw [blockStep, GrAta.work, if_neg fun hcond => hend
        ⟨hcond.2.1, List.eq_nil_of_length_eq_zero hcond.2.2⟩, workMode,
        if_pos (show formatTest = true from rfl), hwork]
      rfl
    have hlive : (decide (b.source.volt.syncTimestamp = 0) && true) = true := by
      rw [show b.source.volt.syncTimestamp = 0 from hquiet]
      rfl
    have hafter := haccounts.after hserves hstop
    rw [hserves.items, hlive, ← List.map_append] at hafter
    refine ⟨_, hstep, ⟨⟨_, _, _, hafter⟩, ?_, read, ?_⟩, fun hnot =>
      Serves.advances hpos haccounts.shows hserves hfile hdone hnot, fun hatEnd =>
      absurd hatEnd hend⟩
    · exact hserves.sync.trans hquiet
    · exact ⟨⟨hread.handled.delivered, hread.handled.placed, hfound.trans hread.handled.found⟩,
        (congrArg (read ++ payloads B.cfg ·) hfile).trans hread.rest, hstop.trans hread.running,
        fun hread' => hfile.trans (hread.done (hdone.symm.trans hread'))⟩

-- ════════════════════════════════════════════════════════════════════════
-- Schedules
-- ════════════════════════════════════════════════════════════════════════

/-- One step, which the end of the capture makes idle. -/
theorem Playing.step (hpcap : B.cfg.dUsePcap = true) (hrepeat : B.cfg.dRepeatFile = false)
    (htimes : ∀ p ∈ captured B env.capture, timestamp p < 2 ^ 64 - 16) (h : B.Playing env b)
    {e : BlockEvent} (he : B.OfCapture e) :
    ∃ b', blockStep formatTest B.cfg env.capture b e = .ok b' ∧ B.Playing env b' ∧
      (¬AtEnd b → Execution.Advances AtEnd remaining B.refillHelps e.isRefill b b') ∧
      (AtEnd b → AtEnd b' ∧ outputs b' = outputs b) := by
  cases e with
  | queuePcapData minPcapQueueSize =>
    obtain rfl : minPcapQueueSize = startMinPcapQueueSize B.cfg := he
    obtain ⟨hplaying, hadvances, hends⟩ := h.refill hrepeat
    exact ⟨_, rfl, hplaying, fun _ => hadvances, fun hend => ⟨hends hend, rfl⟩⟩
  | work noutputItems ports => exact h.work hpcap htimes he.1 ports
  | mmsgReceive datagrams => exact he.elim
  | handleSyncMsg msg => exact he.elim
  | workTest noutputItems ports => exact he.elim
  | stop => exact he.elim

/-- What a block starts with. -/
theorem start_playing (B : VoltageBlock) (env : Environment) :
    ∃ b, (∀ events, B.blockRun env events =
      Execution.run (blockStep formatTest B.cfg env.capture) b events) ∧ B.Playing env b := by
  obtain ⟨s, hs, hquiet, -⟩ := B.start_tracks env
  have hrun : ∀ events, B.blockRun env events =
      Execution.run (blockStep formatTest B.cfg env.capture)
        ⟨⟨s.recv, [], []⟩, s.volt, s.spect, []⟩ events := fun events => by
    rw [blockRun, GrAta.blockRun, hs]
    rfl
  refine ⟨_, hrun, ⟨⟨_, _, _, (B.start_accounts (hrun [])).1⟩, hquiet, [], ?_⟩⟩
  simp only [start_recv hs]
  exact ⟨.refl _, rfl, rfl, fun hdone => by cases hdone⟩

/-- At the end of the capture it has queued all of them. -/
theorem Playing.placed_all (h : B.Playing env b) (hdone : b.ingress.recv.pcapFileDone = true) :
    b.ingress.placed = captured B env.capture := by
  obtain ⟨read, hread⟩ := h.progress
  have hall : read = payloads B.cfg env.capture := by
    have hrest := hread.rest
    rwa [hread.done hdone, show payloads B.cfg [] = [] from rfl, List.append_nil] at hrest
  rw [← B.captured_eq, ← hall]
  exact hread.handled.placed

/-- What the block has taken and delivered. -/
theorem Playing.delivers (h : B.Playing env b) :
    ∃ taken delivered queue, B.Delivers b taken delivered queue := by
  obtain ⟨⟨taken, delivered, queue, haccounts⟩, hquiet, -⟩ := h
  exact ⟨taken, delivered, queue, haccounts.delivers hquiet⟩

/-- At the end of the capture its frames have been output or wait. -/
theorem Playing.played (h : B.Playing env b) (hend : AtEnd b) : B.Played env.capture b := by
  have hplaced := h.placed_all hend.1
  obtain ⟨⟨taken, delivered, queue, haccounts⟩, -, -⟩ := h
  -- all packets of the capture have been taken
  have htaken : taken = captured B env.capture := by
    have hconsumed := haccounts.consumed
    rwa [hend.2, List.append_nil, hplaced, eq_comm] at hconsumed
  refine ⟨hend, delivered.map (Queued.emitted true), queue.map (Queued.emitted true), ?_,
    haccounts.outputs, ?_⟩
  · rw [playback, ← htaken, ← haccounts.frames, List.map_append]
  · rw [haccounts.shows.xQueue, List.map_map]
    rfl

/-- Every run that returns keeps this. -/
theorem run_playing (hpcap : B.cfg.dUsePcap = true) (hrepeat : B.cfg.dRepeatFile = false)
    (htimes : ∀ p ∈ captured B env.capture, timestamp p < 2 ^ 64 - 16) {events : List BlockEvent}
    (hevents : ∀ e ∈ events, B.OfCapture e) (hrun : B.blockRun env events = .ok b) :
    B.Playing env b := by
  obtain ⟨b₀, hruns, h₀⟩ := B.start_playing env
  rw [hruns] at hrun
  refine Execution.run_history_partial (fun _ => B.Playing env) B.OfCapture ?_ [] h₀ hevents hrun
  intro _ b e b' h he hstep
  obtain ⟨b'', hstep', h', -⟩ := h.step hpcap hrepeat htimes he
  obtain rfl := Except.ok.inj (hstep.symm.trans hstep')
  exact h'

variable (B) in
/-- **A capture plays to its end.** Under every schedule in which refills and calls come
again and again, the block comes to the end of the capture. What it has output by then is
all it ever outputs: the frames of the capture up to those that wait in the output queue. -/
theorem playback_ends (hpcap : B.cfg.dUsePcap = true) (hrepeat : B.cfg.dRepeatFile = false)
    (env : Environment) (htimes : ∀ p ∈ captured B env.capture, timestamp p < 2 ^ 64 - 16)
    {schedule : ℕ → BlockEvent} (hschedule : ∀ n, B.OfCapture (schedule n))
    (hfair : Execution.Fair BlockEvent.isRefill schedule) :
    ∃ n b, B.blockRun env (Execution.first schedule n) = .ok b ∧ B.Played env.capture b ∧
      ∀ m, n ≤ m → ∃ b', B.blockRun env (Execution.first schedule m) = .ok b' ∧ AtEnd b' ∧
        outputs b' = outputs b := by
  obtain ⟨b₀, hrun, -⟩ := B.start_playing env
  have hplaying : ∀ n b, Execution.run (blockStep formatTest B.cfg env.capture) b₀
      (Execution.first schedule n) = .ok b → B.Playing env b := by
    intro n b hb
    refine run_playing hpcap hrepeat htimes (fun e he => ?_) ((hrun _).trans hb)
    obtain ⟨m, rfl⟩ := Execution.mem_first he
    exact hschedule m
  obtain ⟨n, b, hb, hend⟩ := Execution.fair_reaches hfair fun n b hb hnot => by
    obtain ⟨b', hstep, -, hadvances, -⟩ :=
      (hplaying n b hb).step hpcap hrepeat htimes (hschedule n)
    exact ⟨b', hstep, hadvances hnot⟩
  refine ⟨n, b, (hrun _).trans hb, (hplaying n b hb).played hend, fun m hm => ?_⟩
  simp only [hrun]
  -- every later step is idle
  induction m, hm using Nat.le_induction with
  | base => exact ⟨b, hb, hend, rfl⟩
  | succ m _ ih =>
    obtain ⟨b₁, hb₁, hend₁, houtputs₁⟩ := ih
    obtain ⟨b', hstep, -, -, hidle⟩ :=
      (hplaying m b₁ hb₁).step hpcap hrepeat htimes (hschedule m)
    obtain ⟨hend', houtputs'⟩ := hidle hend₁
    refine ⟨b', ?_, hend', houtputs'.trans houtputs₁⟩
    rw [Execution.first_succ]
    exact Execution.run_concat_ok hb₁ hstep

/-- The payload of a capture of one packet. -/
theorem payloads_captureOf (hport : B.cfg.dPort = (10000 : ℕ)) {p : Packet}
    (hsize : p.length = 8208) : payloads B.cfg (captureOf p).capture = [p] := by
  have hfull := B.totalPacketSize_eq
  have hall : ∀ q ∈ [p], q.length = B.cfg.totalPacketSize := by
    rw [hfull]
    exact List.forall_mem_singleton.mpr hsize
  exact payloads_capturedFrame hport (by decide) (by rw [hfull]; decide) hall

/-- Refills and calls in turn. -/
def alternating (n : ℕ) : BlockEvent :=
  if n % 2 = 0 then .queuePcapData 16 else .work 16 1

theorem alternating_ofCapture (n : ℕ) : single.fromCapture.OfCapture (alternating n) := by
  rw [alternating]
  split
  · rfl
  · exact ⟨by decide, dvd_rfl⟩

theorem alternating_fair : Execution.Fair BlockEvent.isRefill alternating := by
  intro k n
  cases k with
  | true => exact ⟨2 * n, by omega, by rw [alternating, if_pos (by omega)]; rfl⟩
  | false => exact ⟨2 * n + 1, by omega, by rw [alternating, if_neg (by omega)]; rfl⟩

/-- A capture of one packet. -/
theorem playback_ends_single : ∃ n b,
    single.fromCapture.blockRun (captureOf (plainPacket 0 16)) (Execution.first alternating n) =
      .ok b ∧
    single.fromCapture.Played (captureOf (plainPacket 0 16)).capture b ∧ ∀ m, n ≤ m → ∃ b',
      single.fromCapture.blockRun (captureOf (plainPacket 0 16)) (Execution.first alternating m) =
        .ok b' ∧ AtEnd b' ∧ outputs b' = outputs b := by
  refine single.fromCapture.playback_ends rfl rfl _ (fun p hp => ?_) alternating_ofCapture
    alternating_fair
  rw [← single.fromCapture.captured_eq, payloads_captureOf rfl (plainPacket_length 0 16)] at hp
  rw [List.mem_singleton.mp (mem_of_mem_fromStart (List.mem_of_mem_filter hp)),
    timestamp_plainPacket 0 (by decide)]
  decide

end VoltageBlock

end GrAta
