import GrAta.Snap.Refill
import GrAta.Voltage.ChannelRange

/-!
# A capture is queued once

A voltage block that reads a capture queues a bounded number of packets at a time,
so its ring never drops one. By the end of the capture it has queued every packet
that the capture holds for it, once and in order, whatever the work function took in
between.

## Main definitions

- `Wanted`, `captured`: the packets that a capture holds for a block

## Main results

- `VoltageBlock.refill_delivers_once`: a capture is queued once
-/

namespace GrAta

/-- An untruncated IPv4 frame that carries UDP, with at most one VLAN tag, to the port
of the block, and whose payload has the size of a packet. -/
def Wanted (c : Config) (r : Record) : Prop :=
  r.len = r.caplen ∧ IsUdp r ∧ (udpDestPort r : ℤ) = c.dPort ∧
    (udpData r).length = c.totalPacketSize

instance (c : Config) (r : Record) : Decidable (Wanted c r) := inferInstanceAs (Decidable (_ ∧ _))

/-- The packets that a capture holds for a block: the payloads from the first one of
the starting channel on, as far as their channel is in range. -/
def captured (B : VoltageBlock) (capture : List Record) : List Packet :=
  ((((capture.filter fun r => Wanted B.cfg r).map udpData).dropWhile
    fun p => channel p ≠ B.firstChannel).filter fun p => B.InRange p)

namespace VoltageBlock

variable (B : VoltageBlock)

theorem accepted_iff (r : Record) : Accepted B.cfg r ↔ Wanted B.cfg r := by
  have hsize := B.totalPacketSize_eq
  have hlength : (udpData r).length = udpLength r - 8 := by simp [udpData, dataVector]
  have hlt : udpLength r < 2 ^ 16 := be16toh_lt _ _
  rw [Accepted, ForBlock, Wanted, hlength, toSizeT, hsize]
  refine and_congr_right fun _ => and_congr_right fun _ => and_congr_right fun _ => ?_
  omega

/-- The payloads that are examined are those of the wanted frames. -/
theorem payloads_eq (records : List Record) :
    payloads B.cfg records = (records.filter fun r => Wanted B.cfg r).map udpData := by
  induction records with
  | nil => rfl
  | cons r records ih =>
    rw [payloads] at ih ⊢
    rw [List.filterMap_cons, udpPayload_eq]
    by_cases h : Wanted B.cfg r
    · rw [if_pos ((B.accepted_iff r).mpr h), List.filter_cons_of_pos (by simpa using h),
        List.map_cons, List.map_cons, ih]
      congr 1
      have hlength := h.2.2.2
      rw [udpData, dataVector, List.length_map, List.length_range] at hlength
      rw [udpData, hlength]
    · rw [if_neg fun ha => h ((B.accepted_iff r).mp ha), List.filter_cons_of_neg (by simpa using h),
        ih]

/-- What a whole capture leaves in the queue. -/
theorem captured_eq (capture : List Record) :
    (fromStart true B.cfg false (payloads B.cfg capture)).filter (expected true B.cfg) =
      captured B capture := by
  rw [captured, B.payloads_eq]
  refine List.filter_congr fun p _ => ?_
  rw [Bool.eq_iff_iff, B.expected_iff, decide_eq_true_iff]

/-- `start` asks for sixteen packets for each packet of a frame. -/
theorem startMinPcapQueueSize_eq : startMinPcapQueueSize B.cfg = 16 * B.packets := by
  have hf := B.format_eq
  have hp := B.packetsPerFrame_eq
  have hone := B.one_le_packets
  rw [voltageFormat] at hf
  simp only at hf
  split_ifs at hf
  rw [← Except.ok.inj hf] at hp
  have hdiff : B.cfg.dChannelDiff.tdiv B.cfg.channelsPerPacket = B.packets := by
    rw [← Except.ok.inj hf]
    exact hp
  rw [startMinPcapQueueSize, hdiff, if_neg (by omega)]
  omega

theorem reloadSize_eq : reloadSize B.cfg = 64 * B.packets := by
  rw [reloadSize, B.startMinPcapQueueSize_eq]
  omega

theorem packets_le : B.packets ≤ 256 := by
  have := B.cfg_spec.2.1
  omega

/-- The receive thread inside `queue_pcap_data`, with the work function. -/
def refill (env : Environment) (events : List RefillEvent) : Refill :=
  GrAta.refill formatTest B.cfg env events

/-- **Every packet once.** While a capture is read once, the ring never fills up,
under any order of the steps of the refills and of the removals. At the end of the
capture exactly the packets that it holds for the block have been queued. -/
theorem refill_delivers_once (hrepeat : B.cfg.dRepeatFile = false) (env : Environment)
    (events : List RefillEvent) :
    (∀ before, before <+: events →
      (B.refill env before).ingress.recv.dLocalqueue.length < MAX_NET_CIRC_BUFFER) ∧
    ((B.refill env events).ingress.recv.pcapFileDone = true →
      (B.refill env events).ingress.placed = captured B env.capture) := by
  constructor
  · intro before _
    have hone := B.one_le_packets
    have hmost := B.packets_le
    have hroom := @refill_bounded true B.cfg (by rw [B.startMinPcapQueueSize_eq]; omega) env before
    rw [B.startMinPcapQueueSize_eq, B.reloadSize_eq] at hroom
    unfold MAX_NET_CIRC_BUFFER
    rw [refill, show formatTest = true from rfl]
    omega
  · intro hdone
    rw [← B.captured_eq]
    exact refill_placed B.eight_le_totalPacketSize hrepeat hdone

-- ════════════════════════════════════════════════════════════════════════
-- A capture of two refills
-- ════════════════════════════════════════════════════════════════════════

/-- Where the receive thread is after the events, and how many packets wait at most. -/
structure Reaches (B : VoltageBlock) (env : Environment) (events : List RefillEvent)
    (file : List Record) (phase : RefillPhase) (waiting : ℕ) : Prop where
  file : (B.refill env events).ingress.recv.pcapFile = file
  running : (B.refill env events).ingress.recv.stopThread = false
  waiting : (B.refill env events).ingress.recv.dLocalqueue.length ≤ waiting
  phase : (B.refill env events).phase = phase

namespace Reaches

variable {B : VoltageBlock} {env : Environment} {events : List RefillEvent}
  {file first : List Record} {r : Record} {m : ℤ} {waiting : ℕ} {phase : RefillPhase}

theorem refill_concat (B : VoltageBlock) (env : Environment) (events : List RefillEvent)
    (e : RefillEvent) : B.refill env (events ++ [e]) =
      refillStep formatTest B.cfg env.capture (startMinPcapQueueSize B.cfg)
        (B.refill env events) e :=
  List.foldl_append

theorem start : B.Reaches env [] env.capture .idle 0 := ⟨rfl, rfl, le_rfl, rfl⟩

theorem available (h : B.Reaches env events file .idle waiting)
    (hmin : (waiting : ℤ) < startMinPcapQueueSize B.cfg) :
    B.Reaches env (events ++ [.packetsAvailable]) file (.reading 0) waiting := by
  have hlt : ((B.refill env events).ingress.recv.dLocalqueue.length : ℤ) <
      startMinPcapQueueSize B.cfg := (Int.ofNat_le.mpr h.waiting).trans_lt hmin
  have hstep : B.refill env (events ++ [.packetsAvailable]) =
      ⟨(B.refill env events).ingress, .reading 0⟩ := by
    rw [refill_concat, refillStep, h.phase]
    exact if_pos hlt
  exact ⟨hstep ▸ h.file, hstep ▸ h.running, hstep ▸ h.waiting, hstep ▸ rfl⟩

/-- The loop evaluates its condition. -/
theorem pcapNext_eq (h : B.Reaches env events file (.reading m) waiting) :
    B.refill env (events ++ [.pcapNext]) =
      pcapNext formatTest B.cfg env.capture m (B.refill env events).ingress := by
  rw [refill_concat, refillStep, h.phase]

theorem accepted (h : B.Reaches env events (r :: file) (.reading m) waiting)
    (hr : (udpPayload B.cfg r).isSome = true) (hm : m < reloadSize B.cfg) :
    B.Reaches env (events ++ [.pcapNext]) file (.reading (m + 1)) (waiting + 1) := by
  obtain ⟨pData, hpayload⟩ := Option.isSome_iff_exists.mp hr
  have hstep : B.refill env (events ++ [.pcapNext]) =
      ⟨(pcapPacket formatTest B.cfg (B.refill env events).ingress pData).atFile file,
        .reading (m + 1)⟩ := by
    rw [h.pcapNext_eq, pcapNext, if_pos hm, h.file]
    simp only [h.running, hpayload, pcapPacket_atFile, Bool.false_eq_true, if_false]
  have hkept := pcapPacket_kept formatTest B.eight_le_totalPacketSize
    (B.refill env events).ingress pData
  refine ⟨hstep ▸ rfl, hstep ▸ hkept.1.trans h.running, hstep ▸ ?_, hstep ▸ rfl⟩
  exact (pcapPacket_length_le _ pData).trans (Nat.succ_le_succ h.waiting)

theorem skipped (h : B.Reaches env events (r :: file) (.reading m) waiting)
    (hr : udpPayload B.cfg r = none) (hm : m < reloadSize B.cfg) :
    B.Reaches env (events ++ [.pcapNext]) file (.reading m) waiting := by
  have hstep : B.refill env (events ++ [.pcapNext]) =
      ⟨(B.refill env events).ingress.atFile file, .reading m⟩ := by
    rw [h.pcapNext_eq, pcapNext, if_pos hm, h.file]
    simp only [h.running, hr, Bool.false_eq_true, if_false]
  exact ⟨hstep ▸ rfl, hstep ▸ h.running, hstep ▸ h.waiting, hstep ▸ rfl⟩

/-- A refill is over when it has read enough. -/
theorem enough (h : B.Reaches env events file (.reading m) waiting) (hm : reloadSize B.cfg ≤ m) :
    B.Reaches env (events ++ [.pcapNext]) file .idle waiting := by
  have hstep : B.refill env (events ++ [.pcapNext]) = ⟨(B.refill env events).ingress, .idle⟩ := by
    rw [h.pcapNext_eq, pcapNext, if_neg (not_lt.mpr hm)]
  exact ⟨hstep ▸ h.file, hstep ▸ h.running, hstep ▸ h.waiting, hstep ▸ rfl⟩

/-- The work function takes packets. -/
theorem taken (h : B.Reaches env events file phase waiting) (n : ℕ) :
    B.Reaches env (events ++ List.replicate n .fillLocalBuffer) file phase (waiting - n) := by
  induction n with
  | zero => rwa [List.replicate_zero, List.append_nil]
  | succ n ih =>
    rw [List.replicate_succ', ← List.append_assoc]
    have hlength := ih.waiting
    refine ⟨?_, ?_, ?_, ?_⟩ <;> rw [refill_concat]
    · exact ih.file
    · exact ih.running
    · change List.length (List.tail _) ≤ _
      rw [List.length_tail]
      omega
    · exact ih.phase

theorem all_accepted (h : B.Reaches env events (first ++ file) (.reading m) waiting)
    (hfirst : ∀ r ∈ first, (udpPayload B.cfg r).isSome = true)
    (hm : m + first.length ≤ reloadSize B.cfg) :
    B.Reaches env (events ++ List.replicate first.length .pcapNext) file
      (.reading (m + first.length)) (waiting + first.length) := by
  induction first generalizing events m waiting with
  | nil =>
    rw [List.length_nil, List.replicate_zero, List.append_nil, Int.natCast_zero, add_zero, add_zero]
    exact h
  | cons r first ih =>
    obtain ⟨hr, hfirst⟩ := List.forall_mem_cons.mp hfirst
    have hcount : m + ((r :: first).length : ℤ) = m + 1 + first.length := by
      rw [List.length_cons]
      omega
    have hwaiting : waiting + (r :: first).length = waiting + 1 + first.length := by
      rw [List.length_cons]
      omega
    have hnext := h.accepted hr (by rw [List.length_cons] at hm; omega)
    have hrest := ih hnext hfirst (hcount ▸ hm)
    rw [hcount, hwaiting, List.length_cons, List.replicate_succ, List.append_cons]
    exact hrest

/-- The end of a capture that is read once. -/
theorem done (h : B.Reaches env events [] (.reading m) waiting)
    (hrepeat : B.cfg.dRepeatFile = false) (hm : m < reloadSize B.cfg) :
    (B.refill env (events ++ [.pcapNext])).ingress.recv.pcapFileDone = true := by
  rw [h.pcapNext_eq, pcapNext_end hm h.file, endOfFile, hrepeat]
  rfl

end Reaches

/-- Packets for the block, one for another port, and one more. -/
def twoRefills : Environment :=
  ⟨List.replicate 64 (capturedFrame 10000 (plainPacket 0 16)) ++
    [capturedFrame 9999 (plainPacket 0 16), capturedFrame 10000 (plainPacket 0 32)], fun _ _ => 0⟩

/-- The first refill reads enough, the work function takes what is queued, and the second one
gets to the end. -/
def twoRefillEvents : List RefillEvent :=
  [.packetsAvailable] ++ List.replicate 64 .pcapNext ++ [.pcapNext] ++
    List.replicate 64 .fillLocalBuffer ++ [.packetsAvailable] ++ [.pcapNext] ++ [.pcapNext] ++
    [.pcapNext]

theorem udpPayload_twoRefills :
    (∀ ts, (udpPayload single.cfg (capturedFrame 10000 (plainPacket 0 ts))).isSome = true) ∧
      udpPayload single.cfg (capturedFrame 9999 (plainPacket 0 16)) = none := by
  constructor
  · intro ts
    obtain ⟨pData, hpayload, -⟩ := @udpPayload_capturedFrame single.cfg 10000 (plainPacket 0 ts)
      rfl (by decide) (plainPacket_length 0 ts) (by decide)
    rw [hpayload]
    rfl
  · rw [udpPayload_eq, if_neg]
    rintro ⟨-, -, hblock⟩
    have hport : udpDestPort (capturedFrame 9999 (plainPacket 0 16)) = 9999 :=
      capturedFrame_destPort (by decide)
    have hsame : ((9999 : ℕ) : ℤ) = 10000 := hport ▸ hblock.1
    exact absurd hsame (by decide)

theorem twoRefills_done :
    (single.refill twoRefills twoRefillEvents).ingress.recv.pcapFileDone = true := by
  obtain ⟨haccepted, hskipped⟩ := udpPayload_twoRefills
  have hfirst : ∀ r ∈ List.replicate 64 (capturedFrame 10000 (plainPacket 0 16)),
      (udpPayload single.cfg r).isSome = true :=
    fun r hr => List.eq_of_mem_replicate hr ▸ haccepted 16
  have hstart : single.Reaches twoRefills [] (List.replicate 64
      (capturedFrame 10000 (plainPacket 0 16)) ++ [capturedFrame 9999 (plainPacket 0 16),
        capturedFrame 10000 (plainPacket 0 32)]) .idle 0 := Reaches.start
  have hread := (hstart.available (by decide)).all_accepted hfirst
    (by rw [List.length_replicate]; decide)
  rw [List.length_replicate] at hread
  have hskip := ((((hread.enough (by decide)).taken 64).available (by decide)).skipped hskipped
    (by decide))
  have hdone := (hskip.accepted (haccepted 32) (by decide)).done rfl (by decide)
  rw [List.nil_append] at hdone
  rw [twoRefillEvents]
  exact hdone

/-- A capture that takes two refills. -/
theorem refill_delivers_once_twoRefills :
    (∀ before, before <+: twoRefillEvents →
      (single.refill twoRefills before).ingress.recv.dLocalqueue.length < MAX_NET_CIRC_BUFFER) ∧
    (single.refill twoRefills twoRefillEvents).ingress.placed =
      captured single twoRefills.capture :=
  (single.refill_delivers_once rfl _ _).imp_right fun h => h twoRefills_done

end VoltageBlock

end GrAta
