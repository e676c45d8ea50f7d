import GrAta.Voltage.Playback
import Mathlib.Data.List.TakeWhile

/-!
# Repeated captures

A block that repeats its capture opens the file again when it has come to its end. The
search for the starting channel is over by then, so that every later reading also queues
the packets in front of the first one of the starting channel. The end of the capture is
never seen by the work function, and every reading is played sooner or later.

## Main definitions

- `VoltageBlock.repetition`: the packets that a number of readings yield
- `VoltageBlock.Repeating`: a block that repeats its capture

## Main results

- `VoltageBlock.repetition_plays`: what every schedule outputs
-/

namespace GrAta

namespace VoltageBlock

variable (B : VoltageBlock)

/-- The packets of a first reading and of `n` more. -/
def repetition (capture : List Record) (n : ℕ) : List Packet :=
  captured B capture ++
    (List.replicate n ((payloads B.cfg capture).filter (expected true B.cfg))).flatten

/-- The payloads that so many readings examine. -/
def readings (capture : List Record) (n : ℕ) : List Packet :=
  (List.replicate n (payloads B.cfg capture)).flatten

/-- What the rest of the file holds for the block. -/
def yields (r : Receiver) : List Packet :=
  (fromStart true B.cfg r.dFoundStartChannel (payloads B.cfg r.pcapFile)).filter
    (expected true B.cfg)

/-- A block that repeats its capture. -/
structure Repeating (env : Environment) (b : Block) : Prop where
  accounts : ∃ taken delivered queue,
    B.Accounts b taken delivered queue (delivered.map (Queued.emitted true))
  quiet : b.volt.syncTimestamp = 0
  read : ∃ read n, Handled true B.cfg (expected true B.cfg) read
      ⟨initialReceiver env, [], []⟩ b.ingress ∧
    read ++ payloads B.cfg b.ingress.recv.pcapFile = B.readings env.capture (n + 1)
  notDone : b.ingress.recv.pcapFileDone = false
  goesOn : ∀ outcome ∈ b.outcomes, outcome ≠ .workDone

variable {B} {env : Environment} {b b' : Block} {capture : List Record}

-- ════════════════════════════════════════════════════════════════════════
-- Readings
-- ════════════════════════════════════════════════════════════════════════

theorem readings_succ (capture : List Record) (n : ℕ) :
    B.readings capture (n + 1) = payloads B.cfg capture ++ B.readings capture n := by
  rw [readings, List.replicate_succ, List.flatten_cons]
  rfl

theorem readings_concat (capture : List Record) (n : ℕ) :
    B.readings capture (n + 1) = B.readings capture n ++ payloads B.cfg capture := by
  rw [readings, List.replicate_succ', List.flatten_append, List.flatten_singleton]
  rfl

theorem repetition_mono (capture : List Record) {m n : ℕ} (h : m ≤ n) :
    B.repetition capture m <+: B.repetition capture n := by
  obtain ⟨k, rfl⟩ := Nat.exists_eq_add_of_le h
  rw [repetition, repetition, List.replicate_add, List.flatten_append, ← List.append_assoc]
  exact List.prefix_append _ _

/-- A capture that holds something for the block holds a packet of the starting channel. -/
theorem startSeen_of_captured (h : captured B capture ≠ []) :
    startSeen true B.cfg false (payloads B.cfg capture) = true := by
  by_contra hnone
  refine h ?_
  rw [← B.captured_eq, fromStart, if_neg Bool.false_ne_true, List.dropWhile_eq_nil_iff.mpr,
    List.filter_nil]
  intro p hp
  rw [startSeen, Bool.false_or, Bool.not_eq_true, List.any_eq_false] at hnone
  simpa using hnone p hp

/-- All readings together. -/
theorem filter_readings (h : captured B capture ≠ []) (n : ℕ) :
    (fromStart true B.cfg false (B.readings capture (n + 1))).filter (expected true B.cfg) =
      B.repetition capture n := by
  rw [readings_succ, fromStart_append, startSeen_of_captured h, fromStart_found,
    List.filter_append, B.captured_eq, readings, List.filter_flatten, List.map_replicate]
  rfl

theorem mem_repetition {n : ℕ} {p : Packet} (h : p ∈ B.repetition capture n) :
    p ∈ payloads B.cfg capture := by
  rcases List.mem_append.mp h with hfirst | hmore
  · rw [← B.captured_eq] at hfirst
    exact (B.fromStart_sublist _).subset (List.mem_of_mem_filter hfirst)
  · obtain ⟨l, hl, hp⟩ := List.mem_flatten.mp hmore
    rw [(List.mem_replicate.mp hl).2] at hp
    exact List.mem_of_mem_filter hp

/-- A file that has been opened again holds something for the block. -/
theorem yields_reopened (h : captured B capture ≠ []) {r : Receiver}
    (hfile : r.pcapFile = capture) : B.yields r ≠ [] := by
  rw [yields, hfile]
  cases r.dFoundStartChannel with
  | false => exact B.captured_eq capture ▸ h
  | true =>
    rw [fromStart_found]
    intro hnone
    have hfirst := (B.fromStart_sublist (payloads B.cfg capture)).filter (expected true B.cfg)
    rw [hnone, B.captured_eq] at hfirst
    exact h (List.sublist_nil.mp hfirst)

-- ════════════════════════════════════════════════════════════════════════
-- Refills
-- ════════════════════════════════════════════════════════════════════════

theorem reloadSize_pos : 0 < reloadSize B.cfg := by
  have hone := B.one_le_packets
  rw [B.reloadSize_eq]
  omega

/-- A refill reads a record at least, and opens the file again at its end. -/
theorem queuePcapData_repeats (hrepeat : B.cfg.dRepeatFile = true) (capture : List Record)
    {s : Ingress} (hrunning : s.recv.stopThread = false)
    (hmin : (s.recv.dLocalqueue.length : ℤ) < startMinPcapQueueSize B.cfg) :
    ∃ read rest s', queuePcapData true B.cfg capture (startMinPcapQueueSize B.cfg) s = s' ∧
      Reads true B.cfg s.recv.pcapFile read rest s s' ∧
      s'.recv.pcapFileDone = s.recv.pcapFileDone ∧
      (s'.recv.pcapFile = rest ∧ rest.length < s.recv.pcapFile.length ∨
        rest = [] ∧ s'.recv.pcapFile = capture) := by
  obtain ⟨read, rest, ended, t, hloop, hreads, hfile, hdone, hended⟩ :=
    pcapLoop_reads true B.eight_le_totalPacketSize s.recv.pcapFile 0 s
  refine ⟨read, rest, _, rfl, ?_⟩
  rw [queuePcapData, if_pos hmin, hloop]
  cases ended with
  | true =>
    simp only [if_true, hrepeat]
    obtain ⟨hhandled, hkept, hsuffix, hcomplete⟩ := hreads
    exact ⟨⟨⟨hhandled.delivered, hhandled.placed, hhandled.found⟩, hkept, hsuffix, hcomplete⟩,
      hdone, .inr ⟨hended rfl, trivial⟩⟩
  | false =>
    refine ⟨hreads, hdone, .inl ⟨hfile, ?_⟩⟩
    cases hrecords : s.recv.pcapFile with
    | nil =>
      rw [hrecords, pcapLoop, decide_eq_true B.reloadSize_pos] at hloop
      exact Bool.noConfusion (congrArg Prod.fst hloop)
    | cons record records =>
      have hrecord := @pcapLoop_reads_record B record records s hrunning
      rw [← hrecords, hloop] at hrecord
      exact Nat.lt_succ_of_le (hfile ▸ hrecord)

/-- Every refill keeps this. -/
theorem Repeating.refill (hrepeat : B.cfg.dRepeatFile = true) (h : B.Repeating env b) :
    B.Repeating env (B.refilled env.capture b) := by
  obtain ⟨⟨taken, delivered, queue, haccounts⟩, hquiet, ⟨read, n, hhandled, hread⟩, hdone, hgoes⟩ :=
    h
  obtain ⟨arrived, haccounts', -, -⟩ := haccounts.refill env.capture
  by_cases hmin : (b.ingress.recv.dLocalqueue.length : ℤ) < startMinPcapQueueSize B.cfg
  · obtain ⟨more, rest, s', hs', hreads, hdone', hfile⟩ :=
      queuePcapData_repeats hrepeat env.capture haccounts.running hmin
    have hcomplete := hreads.complete haccounts.running
    rw [hcomplete, ← List.append_assoc] at hread
    refine ⟨⟨_, _, _, haccounts'⟩, hquiet, ?_, ?_, hgoes⟩
    · simp only [refilled, hs']
      rcases hfile with ⟨hfile, -⟩ | ⟨hrest, hfile⟩
      · exact ⟨read ++ more, n, hhandled.trans hreads.handled, hfile ▸ hread⟩
      · refine ⟨read ++ more, n + 1, hhandled.trans hreads.handled, ?_⟩
        rw [hrest, show payloads B.cfg [] = [] from rfl, List.append_nil] at hread
        rw [hread, hfile, ← readings_concat]
    · simp only [refilled, hs']
      exact hdone'.trans hdone
  · have hsame : B.refilled env.capture b = b := by
      rw [refilled, queuePcapData, if_neg hmin]
    rw [hsame]
    exact ⟨⟨_, _, _, haccounts⟩, hquiet, ⟨read, n, hhandled, hread⟩, hdone, hgoes⟩

/-- The packets that have been queued are the first ones of some readings. -/
theorem Repeating.placed_initial (h : B.Repeating env b) (hsome : captured B env.capture ≠ []) :
    ∃ n, b.ingress.placed <+: B.repetition env.capture n := by
  obtain ⟨read, n, hhandled, hread⟩ := h.read
  have hplaced := hhandled.placed
  rw [List.nil_append] at hplaced
  refine ⟨n, ?_⟩
  rw [← filter_readings hsome, hplaced, ← hread, fromStart_append, List.filter_append]
  exact List.prefix_append _ _

-- ════════════════════════════════════════════════════════════════════════
-- Progress
-- ════════════════════════════════════════════════════════════════════════

/-- What is left to read until so many packets have been queued: the packets, whether the
rest of the file holds one of them, and the records of it. -/
def toRead (B : VoltageBlock) (packets : ℕ) (b : Block) : ℕ ×ₗ ℕ ×ₗ ℕ :=
  if b.ingress.placed.length < packets then
    toLex (packets - b.ingress.placed.length,
      toLex (if B.yields b.ingress.recv = [] then 1 else 0, b.ingress.recv.pcapFile.length))
  else toLex (0, toLex (0, 0))

/-- A refill of a short queue reads on. -/
theorem Repeating.toRead_refilled (hrepeat : B.cfg.dRepeatFile = true)
    (hsome : captured B env.capture ≠ []) (h : B.Repeating env b) {packets : ℕ}
    (hmin : (b.ingress.recv.dLocalqueue.length : ℤ) < startMinPcapQueueSize B.cfg)
    (hleft : b.ingress.placed.length < packets) :
    B.toRead packets (B.refilled env.capture b) < B.toRead packets b := by
  obtain ⟨⟨taken, delivered, queue, haccounts⟩, -, -, -, -⟩ := h
  obtain ⟨read, rest, s', hs', hreads, -, hfile⟩ :=
    queuePcapData_repeats hrepeat env.capture haccounts.running hmin
  have hcomplete := hreads.complete haccounts.running
  have hplaced := hreads.handled.placed
  have hsplit : B.yields b.ingress.recv =
      (fromStart true B.cfg b.ingress.recv.dFoundStartChannel read).filter (expected true B.cfg) ++
        (fromStart true B.cfg s'.recv.dFoundStartChannel (payloads B.cfg rest)).filter
          (expected true B.cfg) := by
    rw [yields, hcomplete, fromStart_append, List.filter_append, hreads.handled.found]
  generalize (fromStart true B.cfg b.ingress.recv.dFoundStartChannel read).filter
    (expected true B.cfg) = new at hplaced hsplit
  have hsize := congrArg List.length hplaced
  rw [List.length_append] at hsize
  rw [toRead, toRead, if_pos hleft]
  simp only [refilled, hs']
  rcases eq_or_ne new [] with rfl | hnew
  · -- nothing was queued, so the file is shorter or has been opened again
    rw [List.length_nil, Nat.add_zero] at hsize
    rw [hsize, if_pos hleft]
    refine Prod.Lex.toLex_lt_toLex.mpr (.inr ⟨rfl, Prod.Lex.toLex_lt_toLex.mpr ?_⟩)
    rcases hfile with ⟨hfile, hshorter⟩ | ⟨hrest, hfile⟩
    · have hsame : B.yields s'.recv = B.yields b.ingress.recv := by
        rw [hsplit, List.nil_append, yields, hfile]
      rw [hsame, hfile]
      exact .inr ⟨rfl, hshorter⟩
    · have hnone : B.yields b.ingress.recv = [] := by
        rw [hsplit, hrest, show payloads B.cfg [] = [] from rfl, fromStart_nil]
        rfl
      rw [if_pos hnone, if_neg (yields_reopened hsome hfile)]
      exact .inl Nat.zero_lt_one
  · have hgrows : 0 < new.length := List.length_pos_iff.mpr hnew
    by_cases hmore : s'.placed.length < packets
    · rw [if_pos hmore]
      exact Prod.Lex.toLex_lt_toLex.mpr (.inl (by omega))
    · rw [if_neg hmore]
      exact Prod.Lex.toLex_lt_toLex.mpr (.inl (by omega))

/-- What is left to do until so many packets have been taken and so many items output:
what is left to read, packets to take, items to output. -/
def toPlay (B : VoltageBlock) (packets items : ℕ) (b : Block) : (ℕ ×ₗ ℕ ×ₗ ℕ) ×ₗ ℕ ×ₗ ℕ :=
  toLex (B.toRead packets b,
    toLex (packets - (b.ingress.placed.length - b.ingress.recv.dLocalqueue.length),
      items - (outputs b).length))

/-- A refill helps while the queue is short and not all of the packets have been queued. -/
def readsOn (B : VoltageBlock) (packets : ℕ) (b : Block) : Bool :=
  decide ((b.ingress.recv.dLocalqueue.length : ℤ) < startMinPcapQueueSize B.cfg) &&
    decide (b.ingress.placed.length < packets)

/-- So many items have been output. -/
def HasOutput (items : ℕ) (b : Block) : Prop := items ≤ (outputs b).length

/-- **A refill advances**, or leaves what is left to do as it is. -/
theorem Repeating.refill_advances (hrepeat : B.cfg.dRepeatFile = true)
    (hsome : captured B env.capture ≠ []) (h : B.Repeating env b) (packets items : ℕ) :
    Execution.Advances (HasOutput items) (B.toPlay packets items) (B.readsOn packets) true b
      (B.refilled env.capture b) := by
  by_cases hmin : (b.ingress.recv.dLocalqueue.length : ℤ) < startMinPcapQueueSize B.cfg
  · by_cases hleft : b.ingress.placed.length < packets
    · exact .lower (Prod.Lex.toLex_lt_toLex.mpr
        (.inl (h.toRead_refilled hrepeat hsome hmin hleft)))
    · obtain ⟨⟨taken, delivered, queue, haccounts⟩, -, -, -, -⟩ := h
      obtain ⟨arrived, -, hplaced, hqueue⟩ := haccounts.refill env.capture
      have hplaced := congrArg List.length hplaced
      have hqueue := congrArg List.length hqueue
      rw [List.length_append] at hplaced hqueue
      have hleft' : ¬(B.refilled env.capture b).ingress.placed.length < packets := by omega
      refine .waits ?_ ?_ ?_
      · rw [readsOn, decide_eq_false hleft, Bool.and_false]
        exact Bool.noConfusion
      · rw [toPlay, toPlay, toRead, toRead, if_neg hleft, if_neg hleft', hplaced, hqueue,
          Nat.add_sub_add_right]
        rfl
      · rw [readsOn, readsOn, decide_eq_false hleft, decide_eq_false hleft', Bool.and_false,
          Bool.and_false]
  · have hsame : B.refilled env.capture b = b := by
      rw [refilled, queuePcapData, if_neg hmin]
    rw [hsame]
    refine .waits ?_ rfl rfl
    rw [readsOn, decide_eq_false hmin, Bool.false_and]
    exact Bool.noConfusion

/-- **A call advances.** It takes a packet or outputs an item, or there is neither. -/
theorem Delivers.advances {taken more : List Packet} {delivered queue : List Queued}
    (h : B.Delivers b taken delivered queue) {noutput : ℕ} (hpos : 0 < noutput)
    {result : WorkResult} {s' : SnapSource} {send : Bool} {packets items : ℕ}
    (hserves :
      B.Serves (frameLog B.cfg.bOnePacket taken) queue noutput true b.source more result s')
    (hrecv : s'.recv = { b.ingress.recv with
      dSendSyncPmt := send, dLocalqueue := s'.recv.dLocalqueue })
    (hitems : packets ≤ taken.length → items ≤ (B.rows taken).length)
    (hnot : ¬HasOutput items b) :
    Execution.Advances (HasOutput items) (B.toPlay packets items) (B.readsOn packets) false b
      (b.after (.ofVolt result, s')) := by
  have hafter := h.after hserves
  have hlocal : b.ingress.recv.dLocalqueue = more ++ s'.recv.dLocalqueue := hserves.consumed
  set b' := b.after (.ofVolt result, s') with hb'
  have hplaced : b'.ingress.placed = b.ingress.placed := rfl
  have hqueue : b'.ingress.recv.dLocalqueue = s'.recv.dLocalqueue := rfl
  have hfile : b'.ingress.recv.pcapFile = b.ingress.recv.pcapFile := by
    rw [hb', Block.after, hrecv]
  have hyields : B.yields b'.ingress.recv = B.yields b.ingress.recv := by
    rw [yields, yields, hfile, hb', Block.after, hrecv]
  have hread : B.toRead packets b' = B.toRead packets b := by
    rw [toRead, toRead, hplaced, hyields, hfile]
  have hconsumed := congrArg List.length h.consumed
  have hsplit := congrArg List.length hlocal
  rw [List.length_append] at hconsumed hsplit
  have houtput : (VoltageBlock.outputs b).length = delivered.length := by
    rw [h.outputs, List.length_map, List.length_map]
  have houtput' := congrArg List.length hafter.outputs
  rw [List.length_map, List.length_map, List.length_append, List.length_take,
    List.length_append, ← houtput] at houtput'
  have hrows : (B.rows taken).length = delivered.length + queue.length := by
    rw [rows, ← h.frames, List.length_map, List.length_append]
  rw [HasOutput, not_le] at hnot
  -- fewer packets to take or fewer items to output
  have hlower : (VoltageBlock.outputs b).length < (VoltageBlock.outputs b').length ∨
      more ≠ [] ∧ taken.length < packets →
      Execution.Advances (HasOutput items) (B.toPlay packets items) (B.readsOn packets) false b
        b' := by
    intro hless
    have hmore : more ≠ [] → 0 < more.length := List.length_pos_iff.mpr
    refine .lower (Prod.Lex.toLex_lt_toLex.mpr (.inr ⟨hread, Prod.Lex.toLex_lt_toLex.mpr ?_⟩))
    rw [hplaced, hqueue]
    simp only
    by_cases hsame : packets - (b.ingress.placed.length - s'.recv.dLocalqueue.length) =
        packets - (b.ingress.placed.length - b.ingress.recv.dLocalqueue.length)
    · refine .inr ⟨hsame, ?_⟩
      rcases hless with hless | ⟨hnil, htaken⟩
      · omega
      · have := hmore hnil
        omega
    · exact .inl (by omega)
  by_cases hnone : queue = []
  · by_cases htaken : taken.length < packets
    · by_cases hmore : more = []
      · -- the call asked for more items, so there was nothing to take
        subst hnone hmore
        have hitems' : result.items = [] := by
          rw [hserves.items]
          simp [FrameLog.framesFrom]
        have hempty : s'.recv.dLocalqueue = [] := by
          refine hserves.enough.resolve_right fun henough => ?_
          rw [hitems', List.length_nil] at henough
          omega
        rw [List.nil_append] at hlocal
        rw [hlocal, hempty, List.length_nil, Nat.add_zero] at hconsumed
        have hmin : (0 : ℤ) < startMinPcapQueueSize B.cfg := by
          have hone := B.one_le_packets
          rw [B.startMinPcapQueueSize_eq]
          omega
        refine .waits ?_ ?_ ?_
        · rw [readsOn, hlocal, hempty, hconsumed, List.length_nil, Nat.cast_zero,
            decide_eq_true hmin, decide_eq_true htaken]
          exact Bool.noConfusion
        · have hsame : (VoltageBlock.outputs b').length = (VoltageBlock.outputs b).length := by
            rw [houtput']
            simp [FrameLog.framesFrom]
          rw [toPlay, toPlay, hread, hplaced, hqueue, hlocal, hsame]
        · rw [readsOn, readsOn, hplaced, hqueue, hlocal]
      · exact hlower (.inr ⟨hmore, htaken⟩)
    · have hall := hitems (not_lt.mp htaken)
      rw [hrows, hnone, List.length_nil] at hall
      omega
  · have hsome := List.length_pos_iff.mpr hnone
    exact hlower (.inl (by omega))

/-- A call keeps what a repeated capture keeps, and advances. -/
theorem Repeating.work (hsome : captured B env.capture ≠ [])
    (htimes : ∀ p ∈ payloads B.cfg env.capture, B.InRange p → timestamp p < 2 ^ 64 - 16)
    (h : B.Repeating env b) {noutputItems : ℕ} (hpos : 0 < noutputItems) (ports n : ℕ) :
    ∃ b', blockStep formatTest B.cfg env.capture b (.work noutputItems ports) = .ok b' ∧
      B.Repeating env b' ∧ (¬HasOutput (B.rows (B.repetition env.capture n)).length b →
        Execution.Advances (HasOutput (B.rows (B.repetition env.capture n)).length)
          (B.toPlay (B.repetition env.capture n).length
            (B.rows (B.repetition env.capture n)).length)
          (B.readsOn (B.repetition env.capture n).length) false b b') := by
  obtain ⟨m, hm⟩ := h.placed_initial hsome
  obtain ⟨⟨taken, delivered, queue, haccounts⟩, hquiet, ⟨read, k, hhandled, hread⟩, hdone, hgoes⟩ :=
    h
  have hdelivers := haccounts.delivers hquiet
  have hprocesses : B.Processes b.ingress.placed := fun p hp =>
    ⟨haccounts.inRange p hp, htimes p (mem_repetition (hm.subset hp)) (haccounts.inRange p hp)⟩
  obtain ⟨more, result, s', send, hstep, hserves, hrecv⟩ := hdelivers.work hprocesses
    (fun _ => hdone) env.capture noutputItems ports
  have hrows : (B.repetition env.capture n).length ≤ taken.length →
      (B.rows (B.repetition env.capture n)).length ≤ (B.rows taken).length := by
    intro hle
    have htaken : taken <+: b.ingress.placed := hdelivers.consumed ▸ List.prefix_append _ _
    exact (B.rows_mono (List.prefix_of_prefix_length_le
      (repetition_mono env.capture (le_max_right m n))
      ((htaken.trans hm).trans (repetition_mono env.capture (le_max_left m n))) hle)).length_le
  refine ⟨_, hstep, ⟨?_, hserves.sync.trans hquiet, ⟨read, k, ?_, ?_⟩, ?_, ?_⟩,
    hdelivers.advances hpos hserves hrecv hrows⟩
  · have hstop : s'.recv.stopThread = b.ingress.recv.stopThread := by rw [hrecv]
    have hlive : (decide (b.source.volt.syncTimestamp = 0) && true) = true := by
      rw [show b.source.volt.syncTimestamp = 0 from hquiet]
      rfl
    have hafter := haccounts.after hserves hstop
    rw [hserves.items, hlive, ← List.map_append] at hafter
    exact ⟨_, _, _, hafter⟩
  · have hfound : s'.recv.dFoundStartChannel = b.ingress.recv.dFoundStartChannel := by rw [hrecv]
    exact ⟨hhandled.delivered, hhandled.placed, hfound.trans hhandled.found⟩
  · rw [Block.after, hrecv]
    exact hread
  · rw [Block.after, hrecv]
    exact hdone
  · rw [Block.after]
    refine List.forall_mem_append.mpr ⟨hgoes, List.forall_mem_singleton.mpr ?_⟩
    exact fun hend => by cases hend

-- ════════════════════════════════════════════════════════════════════════
-- Schedules
-- ════════════════════════════════════════════════════════════════════════

/-- One step. -/
theorem Repeating.step (hrepeat : B.cfg.dRepeatFile = true) (hsome : captured B env.capture ≠ [])
    (htimes : ∀ p ∈ payloads B.cfg env.capture, B.InRange p → timestamp p < 2 ^ 64 - 16)
    (h : B.Repeating env b) {e : BlockEvent} (he : B.OfCapture e) (n : ℕ) :
    ∃ b', blockStep formatTest B.cfg env.capture b e = .ok b' ∧ B.Repeating env b' ∧
      (¬HasOutput (B.rows (B.repetition env.capture n)).length b →
        Execution.Advances (HasOutput (B.rows (B.repetition env.capture n)).length)
          (B.toPlay (B.repetition env.capture n).length
            (B.rows (B.repetition env.capture n)).length)
          (B.readsOn (B.repetition env.capture n).length) e.isRefill b b') := by
  cases e with
  | queuePcapData minPcapQueueSize =>
    obtain rfl : minPcapQueueSize = startMinPcapQueueSize B.cfg := he
    exact ⟨_, rfl, h.refill hrepeat, fun _ => h.refill_advances hrepeat hsome _ _⟩
  | work noutputItems ports => exact h.work hsome htimes he.1 ports n
  | mmsgReceive datagrams => exact he.elim
  | handleSyncMsg msg => exact he.elim
  | workTest noutputItems ports => exact he.elim
  | stop => exact he.elim

/-- What a block starts with. -/
theorem start_repeating (B : VoltageBlock) (env : Environment) :
    ∃ b, (∀ events, B.blockRun env events =
      Execution.run (blockStep formatTest B.cfg env.capture) b events) ∧ B.Repeating env b := by
  obtain ⟨s, hs, hquiet, -⟩ := B.start_tracks env
  have hrun : ∀ events, B.blockRun env events =
      Execution.run (blockStep formatTest B.cfg env.capture)
        ⟨⟨s.recv, [], []⟩, s.volt, s.spect, []⟩ events := fun events => by
    rw [blockRun, GrAta.blockRun, hs]
    rfl
  refine ⟨_, hrun, ⟨_, _, _, (B.start_accounts (hrun [])).1⟩, hquiet, ⟨[], 0, ?_, ?_⟩, ?_, ?_⟩
  · rw [start_recv hs]
    exact .refl _
  · rw [start_recv hs, readings_succ]
    exact (List.append_nil _).symm
  · rw [start_recv hs]
    rfl
  · exact List.forall_mem_nil _

variable (B) in
/-- **A repeated capture plays for ever.** Under every schedule of refills and calls, no call
fails or finds an end, and the outputs are the first ones of the frames that some readings
make up. When refills and calls come again and again, the frames of every number of
readings are output. -/
theorem repetition_plays (hrepeat : B.cfg.dRepeatFile = true) (env : Environment)
    (hsome : captured B env.capture ≠ [])
    (htimes : ∀ p ∈ payloads B.cfg env.capture, B.InRange p → timestamp p < 2 ^ 64 - 16)
    {schedule : ℕ → BlockEvent} (hschedule : ∀ n, B.OfCapture (schedule n)) :
    (∀ n, ∃ b, B.blockRun env (Execution.first schedule n) = .ok b ∧
      (∀ outcome ∈ b.outcomes, outcome ≠ .workDone) ∧
      ∃ k, outputs b <+: (B.rows (B.repetition env.capture k)).map .volt) ∧
    (Execution.Fair BlockEvent.isRefill schedule →
      ∀ k, ∃ n b, B.blockRun env (Execution.first schedule n) = .ok b ∧
        (B.rows (B.repetition env.capture k)).map .volt <+: outputs b) := by
  obtain ⟨b₀, hrun, h₀⟩ := B.start_repeating env
  have hrepeating : ∀ n, ∃ b, Execution.run (blockStep formatTest B.cfg env.capture) b₀
      (Execution.first schedule n) = .ok b ∧ B.Repeating env b := by
    intro n
    induction n with
    | zero => exact ⟨b₀, rfl, h₀⟩
    | succ n ih =>
      obtain ⟨b, hb, h⟩ := ih
      obtain ⟨b', hstep, h', -⟩ := h.step hrepeat hsome htimes (hschedule n) 0
      rw [Execution.first_succ]
      exact ⟨b', Execution.run_concat_ok hb hstep, h'⟩
  simp only [hrun]
  constructor
  · intro n
    obtain ⟨b, hb, h⟩ := hrepeating n
    obtain ⟨k, hplaced⟩ := h.placed_initial hsome
    obtain ⟨taken, delivered, queue, haccounts⟩ := h.accounts
    exact ⟨b, hb, h.goesOn, k, (haccounts.delivers h.quiet).outputs_initial hplaced⟩
  · intro hfair k
    obtain ⟨n, b, hb, hgoal⟩ := Execution.fair_reaches hfair fun n b hb hnot => by
      obtain ⟨b₁, hb₁, h⟩ := hrepeating n
      obtain rfl := Except.ok.inj (hb₁.symm.trans hb)
      obtain ⟨b', hstep, -, hadvances⟩ := h.step hrepeat hsome htimes (hschedule n) k
      exact ⟨b', hstep, hadvances hnot⟩
    obtain ⟨b₁, hb₁, h⟩ := hrepeating n
    obtain rfl := Except.ok.inj (hb₁.symm.trans hb)
    obtain ⟨m, hplaced⟩ := h.placed_initial hsome
    obtain ⟨taken, delivered, queue, haccounts⟩ := h.accounts
    have houtputs := (haccounts.delivers h.quiet).outputs_initial
      (hplaced.trans (repetition_mono env.capture (le_max_left m k)))
    refine ⟨n, b₁, hb, List.prefix_of_prefix_length_le
      ((B.rows_mono (repetition_mono env.capture (le_max_right m k))).map _) houtputs ?_⟩
    rw [List.length_map]
    exact hgoal

-- ════════════════════════════════════════════════════════════════════════
-- A repeated capture of one packet
-- ════════════════════════════════════════════════════════════════════════

end VoltageBlock

/-- The same arguments for a block that repeats its capture. -/
def Args.repeating (a : Args) : Args := { a with repeatFile := true }

theorem voltageFormat_repeating (a : Args) :
    voltageFormat a.repeating = (voltageFormat a).map fun c => { c with dRepeatFile := true } := by
  rw [voltageFormat, voltageFormat]
  simp only
  split
  · rename_i hmod
    rw [if_pos (show ((toUint16 a.endingChannel : ℤ) - toUint16 a.startingChannel + 1).tmod 256 > 0
      from hmod)]
    rfl
  · rename_i hmod
    rw [if_neg (show ¬((toUint16 a.endingChannel : ℤ) - toUint16 a.startingChannel + 1).tmod 256 > 0
      from hmod), Except.map, show declaredItemSize a.repeating = declaredItemSize a from rfl]
    simp only [Args.repeating]
    rfl

theorem construct_repeating {a : Args} {u : Unset} {c : Config} (h : construct a u = .ok c)
    (hv : a.headerType = SNAP_PACKETTYPE_VOLTAGE) :
    construct a.repeating u = .ok { c with dRepeatFile := true } := by
  have hformat := (construct_voltage h hv).2
  rw [construct] at h
  split_ifs at h with hsize hnone hclosed
  rw [construct, if_neg (show ¬declaredItemSize a.repeating < 1 from hsize),
    if_neg (show ¬(a.repeating.dataSource = DS_PCAP ∧ a.repeating.file.length = 0) from hnone),
    if_neg (show ¬(a.repeating.dataSource = DS_PCAP ∧ a.repeating.fileOpens = false) from hclosed),
    if_pos (show a.repeating.headerType = SNAP_PACKETTYPE_VOLTAGE from hv),
    voltageFormat_repeating, hformat, Except.map]

namespace VoltageBlock

/-- The block with the same channels that repeats its capture. -/
def repeating (B : VoltageBlock) : VoltageBlock where
  args := B.args.repeating
  unset := B.unset
  cfg := { B.cfg with dRepeatFile := true }
  constructed := construct_repeating B.constructed B.isVoltage
  isVoltage := B.isVoltage
  one_le_packetsPerFrame := B.one_le_packetsPerFrame

/-- A block of one packet a frame that repeats its capture. -/
def singleRepeating : VoltageBlock := single.fromCapture.repeating

/-- A capture of one packet, read again and again. -/
theorem repetition_plays_single :
    (∀ n, ∃ b, singleRepeating.blockRun (captureOf (plainPacket 0 16))
        (Execution.first alternating n) = .ok b ∧
      (∀ outcome ∈ b.outcomes, outcome ≠ .workDone) ∧
      ∃ k, outputs b <+: (singleRepeating.rows
        (singleRepeating.repetition (captureOf (plainPacket 0 16)).capture k)).map .volt) ∧
    ∀ k, ∃ n b, singleRepeating.blockRun (captureOf (plainPacket 0 16))
        (Execution.first alternating n) = .ok b ∧
      (singleRepeating.rows (singleRepeating.repetition
        (captureOf (plainPacket 0 16)).capture k)).map .volt <+: outputs b := by
  have hpayloads : payloads singleRepeating.cfg (captureOf (plainPacket 0 16)).capture =
      [plainPacket 0 16] := payloads_captureOf rfl (plainPacket_length 0 16)
  have hchannel : channel (plainPacket 0 16) = 0 := channel_plainPacket (by decide) 16
  have hsome : captured singleRepeating (captureOf (plainPacket 0 16)).capture ≠ [] := by
    have hfirst : ¬Skips true singleRepeating.cfg false (plainPacket 0 16) := fun hskips =>
      hskips.2 hchannel
    have hrange : singleRepeating.InRange (plainPacket 0 16) :=
      ofWidth_inRange le_rfl (by decide) false one_pos 16
    rw [← singleRepeating.captured_eq, hpayloads, fromStart_cons_of_not hfirst,
      List.filter_cons_of_pos (singleRepeating.expected_iff.mpr hrange)]
    exact List.cons_ne_nil _ _
  have hplays := singleRepeating.repetition_plays rfl _ hsome (fun p hp _ => ?_)
    alternating_ofCapture
  · exact ⟨hplays.1, hplays.2 alternating_fair⟩
  · rw [hpayloads] at hp
    rw [List.mem_singleton.mp hp, timestamp_plainPacket 0 (by decide)]
    decide

end VoltageBlock

end GrAta
