import GrAta.Snap.CaptureFormat

/-!
# Refills from a capture, step by step

`queue_pcap_data` holds the lock of the receive queue only while it reads the size
of the queue and while it queues a packet. In between the work function may take
packets. The steps below are the ones that the locks leave indivisible.

## Main definitions

- `Refill`, `refillStep`: the receive thread inside `queue_pcap_data`
- `refillRun`, `refill`: its steps and those of the work function, from the start of a block on

## Main results

- `refill_alone`: without interference the steps are a call of `queuePcapData`
- `refill_bounded`: the ring never fills up
- `refill_placed`: a capture read to its end was queued as a whole
-/

namespace GrAta

/-- Where the receive thread is. -/
inductive RefillPhase where
  /-- Outside `queue_pcap_data`. -/
  | idle
  /-- In its loop, after so many matching packets. -/
  | reading (matchingPackets : ℤ)
  deriving DecidableEq, Repr

structure Refill where
  ingress : Ingress
  phase : RefillPhase

/-- One step of the receive thread or of the work function. -/
inductive RefillEvent where
  /-- `queue_pcap_data` is called and reads the size of the queue. -/
  | packetsAvailable
  /-- The loop condition is evaluated. The loop body or the end of the call follows. -/
  | pcapNext
  /-- The work function takes a packet. -/
  | fillLocalBuffer
  deriving DecidableEq, Repr

variable (isVoltage : Bool) (c : Config) (capture : List Record)

/-- The receiving side at a position in the capture. -/
def Ingress.atFile (s : Ingress) (records : List Record) : Ingress :=
  { s with recv := { s.recv with pcapFile := records } }

/-- What follows the loop when there is no record left. -/
def endOfFile (s : Ingress) : Ingress :=
  if c.dRepeatFile then s.atFile capture
  else { s with recv := { s.recv with pcapFileDone := true } }

/-- One round of the loop over the records. -/
def pcapNext (matchingPackets : ℤ) (s : Ingress) : Refill :=
  if matchingPackets < reloadSize c then
    match s.recv.pcapFile with
    | [] => ⟨endOfFile c capture s, .idle⟩
    | record :: rest =>
      if s.recv.stopThread then ⟨s.atFile rest, .idle⟩
      else
        match udpPayload c record with
        | none => ⟨s.atFile rest, .reading matchingPackets⟩
        | some pData =>
          ⟨pcapPacket isVoltage c (s.atFile rest) pData, .reading (matchingPackets + 1)⟩
  else ⟨s, .idle⟩

/-- One step. A step that the thread cannot take where it is does nothing. -/
def refillStep (minPcapQueueSize : ℤ) (s : Refill) : RefillEvent → Refill
  | .packetsAvailable =>
    match s.phase with
    | .idle =>
      if (s.ingress.recv.dLocalqueue.length : ℤ) < minPcapQueueSize then ⟨s.ingress, .reading 0⟩
      else s
    | .reading _ => s
  | .pcapNext =>
    match s.phase with
    | .idle => s
    | .reading matchingPackets => pcapNext isVoltage c capture matchingPackets s.ingress
  | .fillLocalBuffer =>
    { s with ingress := { s.ingress with recv :=
      { s.ingress.recv with dLocalqueue := s.ingress.recv.dLocalqueue.tail } } }

def refillRun (minPcapQueueSize : ℤ) (s : Refill) (events : List RefillEvent) : Refill :=
  events.foldl (refillStep isVoltage c capture minPcapQueueSize) s

-- ════════════════════════════════════════════════════════════════════════
-- Without interference
-- ════════════════════════════════════════════════════════════════════════

variable {isVoltage c capture} {s : Ingress}

/-- The position in the capture does not matter for a packet. -/
theorem pcapPacket_atFile (s : Ingress) (records : List Record) (p : Pointer) :
    pcapPacket isVoltage c (s.atFile records) p = (pcapPacket isVoltage c s p).atFile records := by
  have hsync : synchronize isVoltage c p { s.recv with pcapFile := records } =
      (synchronize isVoltage c p s.recv).map fun r => { r with pcapFile := records } := by
    rw [synchronize, synchronize, voltageSynchronize, voltageSynchronize, spectSynchronize,
      spectSynchronize]
    split_ifs <;> rfl
  rw [pcapPacket, pcapPacket]
  simp only [deliver, Ingress.atFile, hsync]
  cases synchronize isVoltage c p s.recv with
  | none => rfl
  | some r =>
    simp only [Option.map_some]
    split <;> rfl

/-- The loop sets the position itself. -/
theorem pcapLoop_atFile (records file : List Record) (matchingPackets : ℤ) (s : Ingress) :
    pcapLoop isVoltage c records matchingPackets (s.atFile file) =
      pcapLoop isVoltage c records matchingPackets s := by
  induction records generalizing matchingPackets s with
  | nil => rfl
  | cons record rest ih =>
    rw [pcapLoop, pcapLoop]
    cases udpPayload c record with
    | none =>
      simp only [ih]
      rfl
    | some pData =>
      simp only [pcapPacket_atFile, ih]
      rfl

theorem refillRun_cons (minPcapQueueSize : ℤ) (s : Refill) (event : RefillEvent)
    (events : List RefillEvent) :
    refillRun isVoltage c capture minPcapQueueSize s (event :: events) =
      refillRun isVoltage c capture minPcapQueueSize
        (refillStep isVoltage c capture minPcapQueueSize s event) events := rfl

theorem refillStep_reading (minPcapQueueSize matchingPackets : ℤ) (s : Ingress) :
    refillStep isVoltage c capture minPcapQueueSize ⟨s, .reading matchingPackets⟩ .pcapNext =
      pcapNext isVoltage c capture matchingPackets s := rfl

theorem pcapNext_end {matchingPackets : ℤ} (hmore : matchingPackets < reloadSize c)
    (hs : s.recv.pcapFile = []) :
    pcapNext isVoltage c capture matchingPackets s = ⟨endOfFile c capture s, .idle⟩ := by
  rw [pcapNext, if_pos hmore, hs]

/-- What a call leaves behind when its loop is over. -/
def afterLoop (c : Config) (capture : List Record) (looped : Bool × Ingress) : Ingress :=
  if looped.1 then endOfFile c capture looped.2 else looped.2

theorem Ingress.atFile_self {records : List Record} (h : s.recv.pcapFile = records) :
    s.atFile records = s := by
  rw [← h]
  rfl

/-- The rounds of the loop. -/
theorem pcapLoop_alone (minPcapQueueSize : ℤ) (records : List Record) (matchingPackets : ℤ)
    (s : Ingress) (hs : s.recv.pcapFile = records) :
    ∃ rounds, refillRun isVoltage c capture minPcapQueueSize ⟨s, .reading matchingPackets⟩
        (List.replicate rounds .pcapNext) =
      ⟨afterLoop c capture (pcapLoop isVoltage c records matchingPackets s), .idle⟩ := by
  induction records generalizing matchingPackets s with
  | nil =>
    refine ⟨1, ?_⟩
    change pcapNext isVoltage c capture matchingPackets s = _
    rw [pcapNext, pcapLoop, ← Ingress.atFile, Ingress.atFile_self hs, hs, afterLoop]
    by_cases hmore : matchingPackets < reloadSize c <;> simp [hmore]
  | cons record rest ih =>
    by_cases hmore : matchingPackets < reloadSize c
    · rw [pcapLoop, if_pos hmore]
      by_cases hstop : s.recv.stopThread = true
      · refine ⟨1, ?_⟩
        change pcapNext isVoltage c capture matchingPackets s = _
        rw [pcapNext, hs, if_pos hmore, if_pos hstop]
        simp only [if_pos hstop]
        rfl
      · simp only [if_neg hstop]
        cases hpayload : udpPayload c record with
        | none =>
          obtain ⟨rounds, hrounds⟩ := ih matchingPackets (s.atFile rest) rfl
          refine ⟨rounds + 1, ?_⟩
          rw [List.replicate_succ, refillRun_cons, refillStep_reading, pcapNext, hs, if_pos hmore]
          simp only [if_neg hstop, hpayload]
          rw [hrounds, pcapLoop_atFile]
        | some pData =>
          obtain ⟨rounds, hrounds⟩ := ih (matchingPackets + 1)
            ((pcapPacket isVoltage c s pData).atFile rest) rfl
          refine ⟨rounds + 1, ?_⟩
          rw [List.replicate_succ, refillRun_cons, refillStep_reading, pcapNext, hs, if_pos hmore]
          simp only [if_neg hstop, hpayload, pcapPacket_atFile]
          rw [hrounds, pcapLoop_atFile]
    · refine ⟨1, ?_⟩
      change pcapNext isVoltage c capture matchingPackets s = _
      rw [pcapNext, if_neg hmore, pcapLoop, if_neg hmore, ← Ingress.atFile, Ingress.atFile_self hs]
      rfl

/-- **A call alone.** When the work function takes no packet in between, the steps of
a call are the call. -/
theorem refill_alone (minPcapQueueSize : ℤ) (s : Ingress) :
    ∃ rounds, refillRun isVoltage c capture minPcapQueueSize ⟨s, .idle⟩
        (.packetsAvailable :: List.replicate rounds .pcapNext) =
      ⟨queuePcapData isVoltage c capture minPcapQueueSize s, .idle⟩ := by
  rw [queuePcapData]
  by_cases hmin : (s.recv.dLocalqueue.length : ℤ) < minPcapQueueSize
  · obtain ⟨rounds, hrounds⟩ := @pcapLoop_alone isVoltage c capture minPcapQueueSize
      s.recv.pcapFile 0 s rfl
    refine ⟨rounds, ?_⟩
    rw [refillRun_cons, refillStep]
    simp only [if_pos hmin]
    rw [hrounds, afterLoop]
    generalize pcapLoop isVoltage c s.recv.pcapFile 0 s = looped
    obtain ⟨ended, t⟩ := looped
    cases ended <;> rfl
  · refine ⟨0, ?_⟩
    rw [refillRun_cons, refillStep]
    simp only [if_neg hmin]
    rfl

-- ════════════════════════════════════════════════════════════════════════
-- What every step keeps
-- ════════════════════════════════════════════════════════════════════════

theorem pushBack_length_le (queue : List Packet) (p : Packet) :
    (pushBack queue p).length ≤ queue.length + 1 := by
  rw [pushBack]
  split <;> simp

/-- A packet from the capture makes the queue longer by one at most. -/
theorem pcapPacket_length_le (s : Ingress) (p : Pointer) :
    (pcapPacket isVoltage c s p).recv.dLocalqueue.length ≤ s.recv.dLocalqueue.length + 1 := by
  have hsync : ∀ r, synchronize isVoltage c p s.recv = some r →
      r.dLocalqueue = s.recv.dLocalqueue := by
    intro r hr
    rw [synchronize, voltageSynchronize, spectSynchronize] at hr
    split_ifs at hr <;> cases hr <;> rfl
  rw [pcapPacket]
  simp only [deliver]
  cases hr : synchronize isVoltage c p s.recv with
  | none => exact Nat.le_succ _
  | some r =>
    simp only
    split
    · rw [hsync r hr]
      exact Nat.le_succ _
    · rw [queuePacket]
      exact (pushBack_length_le _ _).trans_eq (by rw [hsync r hr])

/-- The queue is shorter than it was allowed to be when the call began, by the packets
that are still missing. -/
def Refill.Bounded (c : Config) (minPcapQueueSize : ℤ) (s : Refill) : Prop :=
  match s.phase with
  | .idle => (s.ingress.recv.dLocalqueue.length : ℤ) < minPcapQueueSize + reloadSize c
  | .reading matchingPackets => matchingPackets ≤ reloadSize c ∧
      (s.ingress.recv.dLocalqueue.length : ℤ) < minPcapQueueSize + matchingPackets

theorem pcapNext_bounded {minPcapQueueSize matchingPackets : ℤ}
    (h : (⟨s, .reading matchingPackets⟩ : Refill).Bounded c minPcapQueueSize) :
    (pcapNext isVoltage c capture matchingPackets s).Bounded c minPcapQueueSize := by
  obtain ⟨hmatching, hlength⟩ := h
  simp only at hlength
  have hidle : (s.recv.dLocalqueue.length : ℤ) < minPcapQueueSize + reloadSize c := by omega
  rw [pcapNext]
  by_cases hmore : matchingPackets < reloadSize c
  · rw [if_pos hmore]
    cases s.recv.pcapFile with
    | nil =>
      simp only [endOfFile]
      split <;> exact hidle
    | cons record rest =>
      simp only
      split
      · exact hidle
      · cases udpPayload c record with
        | none => exact ⟨hmatching, hlength⟩
        | some pData =>
          have hpacket := @pcapPacket_length_le isVoltage c (s.atFile rest) pData
          simp only [Ingress.atFile] at hpacket
          refine ⟨by omega, ?_⟩
          simp only [Ingress.atFile]
          omega
  · rw [if_neg hmore]
    exact hidle

theorem refillStep_bounded {minPcapQueueSize : ℤ} {s : Refill} (hreload : 0 ≤ reloadSize c)
    (h : s.Bounded c minPcapQueueSize) (event : RefillEvent) :
    (refillStep isVoltage c capture minPcapQueueSize s event).Bounded c minPcapQueueSize := by
  obtain ⟨s, phase⟩ := s
  cases event with
  | packetsAvailable =>
    cases phase with
    | idle =>
      rw [refillStep]
      simp only
      split
      · rename_i hmin
        exact ⟨hreload, by simpa using hmin⟩
      · exact h
    | reading matchingPackets => exact h
  | pcapNext =>
    cases phase with
    | idle => exact h
    | reading matchingPackets => exact pcapNext_bounded h
  | fillLocalBuffer =>
    have htail : (s.recv.dLocalqueue.tail.length : ℤ) ≤ s.recv.dLocalqueue.length := by
      rw [List.length_tail]
      omega
    cases phase with
    | idle => exact htail.trans_lt h
    | reading matchingPackets => exact ⟨h.1, htail.trans_lt h.2⟩

/-- What has been read of a capture, and what is left of it. -/
structure Refill.Progress (isVoltage : Bool) (c : Config) (env : Environment) (read : List Packet)
    (s : Refill) : Prop where
  handled : Handled isVoltage c (expected isVoltage c) read ⟨initialReceiver env, [], []⟩ s.ingress
  rest : read ++ payloads c s.ingress.recv.pcapFile = payloads c env.capture
  running : s.ingress.recv.stopThread = false
  done : s.ingress.recv.pcapFileDone = true → s.ingress.recv.pcapFile = []

variable {env : Environment} {read : List Packet}

theorem pcapNext_progress (hsize : 8 ≤ c.totalPacketSize) (hrepeat : c.dRepeatFile = false)
    {matchingPackets : ℤ}
    (h : (⟨s, .reading matchingPackets⟩ : Refill).Progress isVoltage c env read) :
    ∃ read', (pcapNext isVoltage c capture matchingPackets s).Progress isVoltage c env read' := by
  obtain ⟨hhandled, hrest, hrunning, hdone⟩ := h
  simp only at hhandled hrest hrunning hdone
  rw [pcapNext]
  by_cases hmore : matchingPackets < reloadSize c
  · rw [if_pos hmore]
    cases hfile : s.recv.pcapFile with
    | nil =>
      refine ⟨read, ?_⟩
      simp only [endOfFile, hrepeat, Bool.false_eq_true, if_false]
      exact ⟨⟨hhandled.delivered, hhandled.placed, hhandled.found⟩, hrest, hrunning, fun _ => hfile⟩
    | cons record rest =>
      -- a capture with a record left has not ended
      have hnot : s.recv.pcapFileDone = false := by
        by_contra hd
        rw [hdone (by simpa using hd)] at hfile
        cases hfile
      rw [hfile] at hrest
      simp only [hrunning, Bool.false_eq_true, if_false]
      cases hpayload : udpPayload c record with
      | none =>
        refine ⟨read, ⟨⟨hhandled.delivered, hhandled.placed, hhandled.found⟩, ?_, hrunning, ?_⟩⟩
        · rw [payloads, List.filterMap_cons, hpayload] at hrest
          exact hrest
        · exact fun hd => Bool.noConfusion (hnot.symm.trans hd)
      | some pData =>
        have hpacket := pcapPacket_handled isVoltage hsize s pData
        obtain ⟨hstop, hkept⟩ := pcapPacket_kept isVoltage hsize s pData
        have htrans := hhandled.trans hpacket
        refine ⟨read ++ [dataVector pData c.totalPacketSize], ?_⟩
        simp only [pcapPacket_atFile]
        refine ⟨⟨htrans.delivered, htrans.placed, htrans.found⟩, ?_, hstop.trans hrunning, ?_⟩
        · rw [payloads, List.filterMap_cons, hpayload, List.map_cons] at hrest
          rw [List.append_assoc]
          exact hrest
        · exact fun hd => Bool.noConfusion (hnot.symm.trans (hkept.symm.trans hd))
  · rw [if_neg hmore]
    exact ⟨read, hhandled, hrest, hrunning, hdone⟩

theorem refillStep_progress (hsize : 8 ≤ c.totalPacketSize) (hrepeat : c.dRepeatFile = false)
    {minPcapQueueSize : ℤ} {s : Refill} (h : s.Progress isVoltage c env read)
    (event : RefillEvent) :
    ∃ read', (refillStep isVoltage c capture minPcapQueueSize s event).Progress isVoltage c env
      read' := by
  obtain ⟨s, phase⟩ := s
  cases event with
  | packetsAvailable =>
    refine ⟨read, ?_⟩
    cases phase with
    | idle =>
      rw [refillStep]
      simp only
      split
      · exact ⟨h.handled, h.rest, h.running, h.done⟩
      · exact h
    | reading matchingPackets => exact h
  | pcapNext =>
    cases phase with
    | idle => exact ⟨read, h⟩
    | reading matchingPackets => exact pcapNext_progress hsize hrepeat h
  | fillLocalBuffer =>
    exact ⟨read, ⟨h.handled.delivered, h.handled.placed, h.handled.found⟩, h.rest, h.running,
      h.done⟩

/-- The steps of a block that has just started. -/
def refill (isVoltage : Bool) (c : Config) (env : Environment) (events : List RefillEvent) :
    Refill :=
  refillRun isVoltage c env.capture (startMinPcapQueueSize c)
    ⟨⟨initialReceiver env, [], []⟩, .idle⟩ events

/-- Any order of refills and removals leaves room in the ring. -/
theorem refill_bounded (hmin : 0 < startMinPcapQueueSize c) (env : Environment)
    (events : List RefillEvent) :
    ((refill isVoltage c env events).ingress.recv.dLocalqueue.length : ℤ) <
      startMinPcapQueueSize c + reloadSize c := by
  have hreload : 0 ≤ reloadSize c := by
    rw [reloadSize]
    omega
  have hbounded : (refill isVoltage c env events).Bounded c (startMinPcapQueueSize c) := by
    refine List.foldlRecOn events _ ?_ fun s hs event _ => refillStep_bounded hreload hs event
    change ((0 : ℕ) : ℤ) < _
    omega
  rw [Refill.Bounded] at hbounded
  split at hbounded <;> omega

/-- Any order of refills and removals works through the capture. -/
theorem refill_progress (hsize : 8 ≤ c.totalPacketSize) (hrepeat : c.dRepeatFile = false)
    (env : Environment) (events : List RefillEvent) :
    ∃ read, (refill isVoltage c env events).Progress isVoltage c env read := by
  refine List.foldlRecOn (motive := fun s : Refill => ∃ read, s.Progress isVoltage c env read)
    events _ ?_ fun s hs event _ => ?_
  · exact ⟨[], .refl _, rfl, rfl, Bool.noConfusion⟩
  · obtain ⟨read, hread⟩ := hs
    exact refillStep_progress hsize hrepeat hread event

/-- A capture that was read to its end has been queued, apart from what comes before
the first packet of the starting channel and from other channels. -/
theorem refill_placed (hsize : 8 ≤ c.totalPacketSize) (hrepeat : c.dRepeatFile = false)
    {env : Environment} {events : List RefillEvent}
    (hdone : (refill isVoltage c env events).ingress.recv.pcapFileDone = true) :
    (refill isVoltage c env events).ingress.placed =
      (fromStart isVoltage c false (payloads c env.capture)).filter (expected isVoltage c) := by
  obtain ⟨read, hread⟩ := @refill_progress isVoltage c hsize hrepeat env events
  have hrest := hread.rest
  rw [hread.done hdone, show payloads c [] = [] from rfl, List.append_nil] at hrest
  rw [hread.handled.placed, hrest]
  rfl

-- ════════════════════════════════════════════════════════════════════════
-- Whole calls
-- ════════════════════════════════════════════════════════════════════════

theorem pcapPacket_placed_le (s : Ingress) (p : Pointer) :
    (pcapPacket isVoltage c s p).placed.length ≤ s.placed.length + 1 := by
  rw [pcapPacket]
  simp only [deliver]
  cases synchronize isVoltage c p s.recv with
  | none => exact Nat.le_succ _
  | some r =>
    simp only
    split
    · exact Nat.le_succ _
    · simp [queuePacket]

/-- A loop queues one packet for each matching one at most. -/
theorem pcapLoop_placed_le (records : List Record) (matchingPackets : ℤ) (s : Ingress)
    (hmatching : matchingPackets ≤ reloadSize c) :
    ((pcapLoop isVoltage c records matchingPackets s).2.placed.length : ℤ) + matchingPackets ≤
      s.placed.length + reloadSize c := by
  induction records generalizing matchingPackets s with
  | nil =>
    simp only [pcapLoop]
    omega
  | cons record rest ih =>
    rw [pcapLoop]
    by_cases hmore : matchingPackets < reloadSize c
    · rw [if_pos hmore]
      split
      · simp only
        omega
      · cases udpPayload c record with
        | none => exact ih matchingPackets s hmatching
        | some pData =>
          have hrest := ih (matchingPackets + 1) (pcapPacket isVoltage c s pData) (by omega)
          have hpacket := @pcapPacket_placed_le isVoltage c s pData
          simp only
          omega
    · rw [if_neg hmore]
      simp only
      omega

/-- A loop that is not stopped comes to the end of the capture when fewer packets than
a refill match. -/
theorem pcapLoop_ended (hsize : 8 ≤ c.totalPacketSize) (records : List Record)
    (matchingPackets : ℤ) {s : Ingress} (hrunning : s.recv.stopThread = false) :
    (pcapLoop isVoltage c records matchingPackets s).1 = true ↔
      matchingPackets + (payloads c records).length < reloadSize c := by
  induction records generalizing matchingPackets s with
  | nil => simp [pcapLoop, payloads]
  | cons record rest ih =>
    rw [pcapLoop]
    by_cases hmore : matchingPackets < reloadSize c
    · rw [if_pos hmore, if_neg (by rw [hrunning]; exact Bool.false_ne_true)]
      cases hpayload : udpPayload c record with
      | none =>
        rw [payloads, List.filterMap_cons, hpayload]
        exact ih matchingPackets hrunning
      | some pData =>
        rw [payloads, List.filterMap_cons, hpayload, List.map_cons, List.length_cons]
        have hstop := (pcapPacket_kept isVoltage hsize s pData).1
        refine (ih (matchingPackets + 1) (hstop.trans hrunning)).trans ?_
        rw [payloads]
        omega
    · rw [if_neg hmore]
      simp only [Bool.false_eq_true, false_iff]
      omega

/-- A call queues no more packets than a refill has. -/
theorem queuePcapData_placed_le (hreload : 0 ≤ reloadSize c) (minPcapQueueSize : ℤ)
    (s : Ingress) :
    (queuePcapData isVoltage c capture minPcapQueueSize s).placed = s.placed ∨
      (s.recv.dLocalqueue.length : ℤ) < minPcapQueueSize ∧
      ((queuePcapData isVoltage c capture minPcapQueueSize s).placed.length : ℤ) ≤
        s.placed.length + reloadSize c := by
  rw [queuePcapData]
  by_cases hmin : (s.recv.dLocalqueue.length : ℤ) < minPcapQueueSize
  · right
    refine ⟨hmin, ?_⟩
    have hloop := @pcapLoop_placed_le isVoltage c s.recv.pcapFile 0 s hreload
    rw [if_pos hmin]
    generalize pcapLoop isVoltage c s.recv.pcapFile 0 s = looped at hloop
    obtain ⟨ended, t⟩ := looped
    have hplaced : (t.placed.length : ℤ) ≤ s.placed.length + reloadSize c := by
      simp only at hloop
      omega
    simp only
    split_ifs <;> exact hplaced
  · left
    rw [if_neg hmin]

end GrAta
