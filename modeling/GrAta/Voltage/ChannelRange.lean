import GrAta.Snap.CornerTurn
import GrAta.Snap.CaptureFormat
import Mathlib.Data.List.Induction

/-!
# The channels of queued packets

The work function trusts the channel of a queued packet: it computes store
indices from it. The capture path queues packets of expected channels only. The
network path reports an unexpected channel as skipped and queues the packet all
the same, so its queue is as good as its traffic.

## Main definitions

- `VoltageBlock.Expected`: a batch without unexpected channels
- `VoltageBlock.IndexInBounds`: the indices of a packet are inside the buffer

## Main results

- `VoltageBlock.indexInBounds_of_inRange`: expected channels are safe
- `VoltageBlock.network_placed`, `VoltageBlock.capture_placed`: what the two paths
  queue of the payloads they examine
- `VoltageBlock.placed_inRange_iff`: when all queued packets are expected
-/

namespace GrAta

theorem one_le_packetsPerFrame_of_span {a : Args} {u : Unset} {c : Config}
    (h : construct a u = .ok c) (hv : a.headerType = SNAP_PACKETTYPE_VOLTAGE)
    (hspan : c.dStartingChannel + 255 ≤ c.dEndingChannel) : 1 ≤ c.packetsPerFrame := by
  have hf := (construct_voltage h hv).2
  rw [voltageFormat] at hf
  simp only at hf
  split_ifs at hf with hmod
  rw [← Except.ok.inj hf] at hspan ⊢
  simp only at hspan ⊢
  rw [Int.tdiv_eq_ediv_of_nonneg (by omega)]
  omega

/-- A voltage configuration that spans at least one packet is a voltage block. -/
def VoltageBlock.ofSpan {a : Args} {u : Unset} {c : Config} (h : construct a u = .ok c)
    (hv : a.headerType = SNAP_PACKETTYPE_VOLTAGE)
    (hspan : c.dStartingChannel + 255 ≤ c.dEndingChannel) : VoltageBlock where
  args := a
  unset := u
  cfg := c
  constructed := h
  isVoltage := hv
  one_le_packetsPerFrame := one_le_packetsPerFrame_of_span h hv hspan

namespace VoltageBlock

variable (B : VoltageBlock)

theorem totalPacketSize_eq : B.cfg.totalPacketSize = 8208 := B.cfg_spec.2.2.2.1

/-- The receiving side of the block. -/
def ingress (env : Environment) (events : List IngressEvent) : Ingress :=
  ingressRun formatTest B.cfg env events

/-- All packets of a batch that are examined from the starting channel on have an
expected channel. -/
def Expected (r : Receiver) (datagrams : List Packet) : Prop :=
  ∀ p ∈ fromStart true B.cfg r.dFoundStartChannel (examined B.cfg r.bufs datagrams), B.InRange p

/-- Every index that the copy of a packet names lies in the frame buffer. -/
def IndexInBounds (p : Packet) : Prop :=
  ∀ t < 16, ∀ sample < 256, ∀ pol < 2,
    0 ≤ vectorStart B.cfg (getVoltageHeader (pointer p)) t + (2 * sample + pol : ℕ) ∧
      vectorStart B.cfg (getVoltageHeader (pointer p)) t + (2 * sample + pol : ℕ) <
        B.cfg.vectorBufferSize

theorem indexInBounds_of_inRange {p : Packet} (h : B.InRange p) : B.IndexInBounds p := by
  intro t ht sample hsample pol hpol
  have hcol := B.column_add_le h.1 h.2
  have hcell := B.cell_lt ht
    (show B.column (voltageChan (pointer p)) + (2 * sample + pol) < B.cfg.dVeclen by omega)
  have hsize : B.cfg.vectorBufferSize = (16 * B.cfg.dVeclen : ℕ) := by
    rw [B.vectorBufferSize_eq, B.dVeclen_eq]
    push_cast
    ring
  rw [B.vectorStart_eq h.1 h.2 ht, getVoltageHeader_channelId, hsize]
  omega

theorem expected_iff {p : Packet} : expected true B.cfg p = true ↔ B.InRange p := by
  rw [expected, decide_eq_true_iff, unexpectedChannel, not_or, not_lt, not_lt]
  rfl

theorem eight_le_totalPacketSize : 8 ≤ B.cfg.totalPacketSize := by
  rw [B.totalPacketSize_eq]
  decide

/-- The packets that one event queues. -/
theorem ingressStep_placed (capture : List Record) (s : Ingress) (e : IngressEvent) :
    ∃ new, (ingressStep formatTest B.cfg capture s e).placed = s.placed ++ new ∧
      ((∀ p ∈ new, B.InRange p) ↔
        ∀ datagrams, e = .mmsgReceive datagrams → B.Expected s.recv datagrams) := by
  cases e with
  | mmsgReceive datagrams =>
    have h := (mmsgReceive_handled true B.eight_le_totalPacketSize datagrams s).placed
    rw [filter_unfiltered] at h
    exact ⟨_, h, fun hnew _ he => by cases he; exact hnew, fun hnew => hnew datagrams rfl⟩
  | queuePcapData minPcapQueueSize =>
    obtain ⟨read, rest, hreads, -⟩ := queuePcapData_handled true B.eight_le_totalPacketSize
      capture minPcapQueueSize s
    refine ⟨_, hreads.handled.placed, iff_of_true (fun p hp => ?_) (fun _ h => by cases h)⟩
    exact B.expected_iff.mp (List.mem_filter.mp hp).2
  | fillLocalBuffer =>
    exact ⟨[], (List.append_nil _).symm, iff_of_true (by simp) (fun _ h => by cases h)⟩
  | stop => exact ⟨[], (List.append_nil _).symm, iff_of_true (by simp) (fun _ h => by cases h)⟩

theorem ingress_concat (env : Environment) (events : List IngressEvent) (e : IngressEvent) :
    B.ingress env (events ++ [e]) =
      ingressStep formatTest B.cfg env.capture (B.ingress env events) e := by
  rw [ingress, ingressRun, List.foldl_append]
  rfl

/-- All batches of a run are without unexpected channels. -/
def AllExpected (env : Environment) (events : List IngressEvent) : Prop :=
  ∀ before datagrams after, events = before ++ .mmsgReceive datagrams :: after →
    B.Expected (B.ingress env before).recv datagrams

/-- All queued packets are expected exactly when all batches were. -/
theorem placed_iff (env : Environment) (events : List IngressEvent) :
    (∀ p ∈ (B.ingress env events).placed, B.InRange p) ↔ B.AllExpected env events := by
  rw [AllExpected]
  induction events using List.reverseRecOn with
  | nil => simp [ingress, ingressRun]
  | append_singleton events e ih =>
    obtain ⟨new, hnew, hexpected⟩ := B.ingressStep_placed env.capture (B.ingress env events) e
    rw [B.ingress_concat, hnew, List.forall_mem_append, ih, hexpected]
    constructor
    · rintro ⟨hbefore, hlast⟩ before datagrams after hsplit
      rcases List.eq_nil_or_concat after with rfl | ⟨after, e', rfl⟩
      · obtain ⟨rfl, he⟩ := List.append_inj' hsplit rfl
        exact hlast datagrams (List.cons.inj he).1
      · rw [List.concat_eq_append, ← List.cons_append, ← List.append_assoc] at hsplit
        exact hbefore before datagrams after (List.append_inj' hsplit rfl).1
    · intro h
      refine ⟨fun before datagrams after hsplit => ?_, fun datagrams he => ?_⟩
      · exact h before datagrams (after ++ [e])
          (by rw [hsplit, List.append_assoc, List.cons_append])
      · exact h events datagrams [] (by rw [he])

-- ════════════════════════════════════════════════════════════════════════
-- The two paths
-- ════════════════════════════════════════════════════════════════════════

/-- A run of the network path: the capture is never read. -/
def FromNetwork (events : List IngressEvent) : Prop :=
  ∀ e ∈ events, ∀ minPcapQueueSize, e ≠ .queuePcapData minPcapQueueSize

/-- A run of the capture path: no datagrams are received. -/
def FromCapture (events : List IngressEvent) : Prop :=
  ∀ e ∈ events, ∀ datagrams, e ≠ .mmsgReceive datagrams

/-- Runs whose events all use one filter. -/
theorem ingress_handled (filter : Packet → Bool) {env : Environment}
    {events : List IngressEvent}
    (hstep : ∀ e ∈ events, ∀ s, ∃ ps,
      Handled true B.cfg filter ps s (ingressStep formatTest B.cfg env.capture s e)) :
    (B.ingress env events).placed =
      (fromStart true B.cfg false (B.ingress env events).delivered).filter filter := by
  have hrun : ∃ ps, Handled true B.cfg filter ps ⟨initialReceiver env, [], []⟩
      (B.ingress env events) := by
    induction events using List.reverseRecOn with
    | nil => exact ⟨[], .refl _⟩
    | append_singleton events e ih =>
      obtain ⟨ps, hps⟩ := ih fun e he => hstep e (List.mem_append_left _ he)
      obtain ⟨qs, hqs⟩ := hstep e (by simp) (B.ingress env events)
      exact ⟨ps ++ qs, B.ingress_concat env events e ▸ hps.trans hqs⟩
  obtain ⟨ps, hps⟩ := hrun
  rw [hps.placed, hps.delivered]
  rfl

/-- The network path queues everything from the starting channel on. -/
theorem network_placed (env : Environment) {events : List IngressEvent}
    (h : FromNetwork events) :
    (B.ingress env events).placed =
      fromStart true B.cfg false (B.ingress env events).delivered := by
  rw [B.ingress_handled unfiltered, filter_unfiltered]
  intro e he s
  cases e with
  | mmsgReceive datagrams =>
    exact ⟨_, mmsgReceive_handled true B.eight_le_totalPacketSize datagrams s⟩
  | queuePcapData minPcapQueueSize => exact absurd rfl (h _ he minPcapQueueSize)
  | fillLocalBuffer => exact ⟨[], .of_same rfl rfl rfl⟩
  | stop => exact ⟨[], .of_same rfl rfl rfl⟩

/-- The capture path queues the packets in range from the starting channel on. -/
theorem capture_placed (env : Environment) {events : List IngressEvent}
    (h : FromCapture events) :
    (B.ingress env events).placed =
      (fromStart true B.cfg false (B.ingress env events).delivered).filter
        (expected true B.cfg) := by
  refine B.ingress_handled (expected true B.cfg) fun e he s => ?_
  cases e with
  | mmsgReceive datagrams => exact absurd rfl (h _ he datagrams)
  | queuePcapData minPcapQueueSize =>
    obtain ⟨read, rest, hreads, -⟩ := queuePcapData_handled true B.eight_le_totalPacketSize
      env.capture minPcapQueueSize s
    exact ⟨read, hreads.handled⟩
  | fillLocalBuffer => exact ⟨[], .of_same rfl rfl rfl⟩
  | stop => exact ⟨[], .of_same rfl rfl rfl⟩

/-- The datagrams that an event brings. -/
def received : IngressEvent → List Packet
  | .mmsgReceive datagrams => datagrams
  | _ => []

/-- Datagrams of the size of a packet are examined as they come. -/
theorem network_delivered (env : Environment) {events : List IngressEvent}
    (h : FromNetwork events)
    (hfull : ∀ datagrams, .mmsgReceive datagrams ∈ events → datagrams.length ≤ MMSG_LENGTH ∧
      ∀ p ∈ datagrams, p.length = B.cfg.totalPacketSize) :
    (B.ingress env events).delivered = events.flatMap received := by
  induction events using List.reverseRecOn with
  | nil => rfl
  | append_singleton events e ih =>
    have ih := ih (fun e he => h e (List.mem_append_left _ he))
      fun datagrams hd => hfull datagrams (List.mem_append_left _ hd)
    rw [B.ingress_concat, List.flatMap_append, List.flatMap_singleton, ← ih]
    cases e with
    | mmsgReceive datagrams =>
      obtain ⟨hbatch, hsize⟩ := hfull datagrams (by simp)
      have := (mmsgReceive_handled true B.eight_le_totalPacketSize datagrams
        (B.ingress env events)).delivered
      rwa [examined_of_fullSize hsize hbatch] at this
    | queuePcapData minPcapQueueSize => exact absurd rfl (h _ (by simp) minPcapQueueSize)
    | fillLocalBuffer => exact (List.append_nil _).symm
    | stop => exact (List.append_nil _).symm

/-- While a capture is read once and not stopped, it is examined in order. -/
theorem capture_progress (env : Environment) {events : List IngressEvent}
    (h : FromCapture events) (hstop : .stop ∉ events) (hrepeat : B.cfg.dRepeatFile = false) :
    (B.ingress env events).delivered ++ payloads B.cfg (B.ingress env events).recv.pcapFile =
        payloads B.cfg env.capture ∧
      (B.ingress env events).recv.stopThread = false ∧
      ((B.ingress env events).recv.pcapFileDone = true →
        (B.ingress env events).recv.pcapFile = []) := by
  induction events using List.reverseRecOn with
  | nil => exact ⟨rfl, rfl, Bool.noConfusion⟩
  | append_singleton events e ih =>
    obtain ⟨hpayloads, hrunning, hdone⟩ := ih (fun e he => h e (List.mem_append_left _ he))
      fun he => hstop (List.mem_append_left _ he)
    rw [B.ingress_concat]
    cases e with
    | mmsgReceive datagrams => exact absurd rfl (h _ (by simp) datagrams)
    | queuePcapData minPcapQueueSize =>
      obtain ⟨read, rest, hreads, honce⟩ := queuePcapData_handled true
        B.eight_le_totalPacketSize env.capture minPcapQueueSize (B.ingress env events)
      obtain ⟨hfile, hend⟩ := honce hrepeat
      have hcomplete := hreads.complete hrunning
      rw [ingressStep]
      refine ⟨?_, hreads.kept.trans hrunning, fun hd => ?_⟩
      · rw [show formatTest = true from rfl, hfile, hreads.handled.delivered, List.append_assoc,
          ← hcomplete, hpayloads]
      · rw [show formatTest = true from rfl, hfile]
        rcases hend hd with hbefore | hnow
        · exact List.suffix_nil.mp (hdone hbefore ▸ hreads.suffix)
        · exact hnow
    | fillLocalBuffer => exact ⟨hpayloads, hrunning, hdone⟩
    | stop => exact absurd (by simp) hstop

/-- A capture that has been read to its end was examined as a whole. -/
theorem capture_delivered (env : Environment) {events : List IngressEvent}
    (h : FromCapture events) (hstop : .stop ∉ events) (hrepeat : B.cfg.dRepeatFile = false)
    (hdone : (B.ingress env events).recv.pcapFileDone = true) :
    (B.ingress env events).delivered = payloads B.cfg env.capture := by
  obtain ⟨hpayloads, -, hend⟩ := B.capture_progress env h hstop hrepeat
  rwa [hend hdone, show payloads B.cfg [] = [] from rfl, List.append_nil] at hpayloads

/-- **The range of queued channels.** In any run all queued packets are in range,
and all indices of their copies in bounds, exactly when every batch of datagrams
was without unexpected channels. This is also when the network path keeps the same
packets as the capture path. -/
theorem placed_inRange_iff (env : Environment) (events : List IngressEvent) :
    ((∀ p ∈ (B.ingress env events).placed, B.InRange p ∧ B.IndexInBounds p) ↔
      B.AllExpected env events) ∧
    ∀ (env' : Environment) (capture : List IngressEvent),
      FromNetwork events → FromCapture capture →
      (B.ingress env events).delivered = (B.ingress env' capture).delivered →
      ((B.ingress env events).placed = (B.ingress env' capture).placed ↔
        B.AllExpected env events) := by
  have hindices : (∀ p ∈ (B.ingress env events).placed, B.InRange p ∧ B.IndexInBounds p) ↔
      ∀ p ∈ (B.ingress env events).placed, B.InRange p :=
    forall₂_congr fun p _ => and_iff_left_of_imp B.indexInBounds_of_inRange
  refine ⟨hindices.trans (B.placed_iff env events), fun env' capture hnet hcap hsame => ?_⟩
  rw [B.capture_placed env' hcap, ← hsame, ← B.network_placed env hnet, ← B.placed_iff,
    eq_comm, List.filter_eq_self]
  exact forall₂_congr fun p _ => B.expected_iff

/-- A block of one packet a frame, with channel 0 alone in range. -/
def single : VoltageBlock := ofWidth 1 le_rfl (by decide) false

/-- A batch that starts with the starting channel is queued as it is. -/
theorem single_placed {p : Packet} {ps : List Packet} (hbatch : (p :: ps).length ≤ MMSG_LENGTH)
    (hsize : ∀ q ∈ p :: ps, q.length = 8208) (hp : channel p = 0) :
    (single.ingress ⟨[], fun _ _ => 0⟩ [.mmsgReceive (p :: ps)]).placed = p :: ps := by
  have hnet : FromNetwork [.mmsgReceive (p :: ps)] := by simp [FromNetwork]
  have hskips : ¬Skips true single.cfg false p := fun h => h.2 hp
  rw [network_placed _ _ hnet, network_delivered _ _ hnet, List.flatMap_singleton, received,
    fromStart_cons_of_not hskips]
  intro datagrams hd
  cases List.mem_singleton.mp hd
  exact ⟨hbatch, hsize⟩

theorem single_not_inRange {p : Packet} (hp : channel p = 4096) :
    ¬single.InRange p ∧ ¬single.IndexInBounds p := by
  refine ⟨fun h => ?_, fun h => ?_⟩
  · have := h.2
    rw [show voltageChan (pointer p) = 4096 from hp] at this
    exact absurd this (by decide)
  · have := (h 0 (by decide) 0 (by decide) 0 (by decide)).2
    rw [vectorStart, getVoltageHeader_channelId, show voltageChan (pointer p) = 4096 from hp]
      at this
    exact absurd this (by decide)

/-- A capture of one packet is read to its end. -/
theorem single_pcapFileDone {p : Packet} (hp : p.length = 8208) :
    (single.ingress ⟨[capturedFrame 10000 p], fun _ _ => 0⟩
      [.queuePcapData 16]).recv.pcapFileDone = true := by
  obtain ⟨pData, hpayload, -⟩ := udpPayload_capturedFrame (c := single.cfg) (p := p)
    (show single.cfg.dPort = (10000 : ℕ) from rfl) (by decide) hp (by decide)
  have hreload : reloadSize single.cfg = 64 := rfl
  simp [ingress, ingressRun, ingressStep, queuePcapData, initialReceiver, pcapLoop, hpayload,
    hreload, show single.cfg.dRepeatFile = false from rfl]

/-- A packet of another channel is queued behind one of the starting channel, and
its copy leaves the frame buffer. -/
theorem placed_outside :
    ∃ p ∈ (single.ingress ⟨[], fun _ _ => 0⟩
        [.mmsgReceive [plainPacket 0 16, plainPacket 4096 16]]).placed,
      ¬single.InRange p ∧ ¬single.IndexInBounds p := by
  refine ⟨plainPacket 4096 16, ?_, single_not_inRange (channel_plainPacket (by decide) 16)⟩
  rw [single_placed (by decide) (by simp [plainPacket_length])
    (channel_plainPacket (by decide) 16)]
  simp

/-- One packet over the network and from a capture. -/
theorem placed_inRange_iff_both_paths :
    (single.ingress ⟨[], fun _ _ => 0⟩ [.mmsgReceive [plainPacket 0 16]]).placed =
      (single.ingress ⟨[capturedFrame 10000 (plainPacket 0 16)], fun _ _ => 0⟩
        [.queuePcapData 16]).placed := by
  have hsize := plainPacket_length 0 16
  have hnet : FromNetwork [.mmsgReceive [plainPacket 0 16]] := by simp [FromNetwork]
  have hcap : FromCapture [.queuePcapData 16] := by simp [FromCapture]
  have hpayloads : payloads single.cfg [capturedFrame 10000 (plainPacket 0 16)] =
      [plainPacket 0 16] := by
    have hall : ∀ p ∈ [plainPacket 0 16], p.length = single.cfg.totalPacketSize :=
      List.forall_mem_singleton.mpr hsize
    have hport : single.cfg.dPort = (10000 : ℕ) := rfl
    have := payloads_capturedFrame hport (by decide) (by decide) hall
    rwa [List.map_singleton] at this
  have hdelivered : (single.ingress ⟨[], fun _ _ => 0⟩
      [.mmsgReceive [plainPacket 0 16]]).delivered = [plainPacket 0 16] := by
    refine single.network_delivered _ hnet fun datagrams hd => ?_
    cases List.mem_singleton.mp hd
    exact ⟨by decide, List.forall_mem_singleton.mpr hsize⟩
  have hcaptured := single.capture_delivered _ hcap (by simp) rfl (single_pcapFileDone hsize)
  obtain ⟨hrange, hpaths⟩ := single.placed_inRange_iff ⟨[], fun _ _ => 0⟩
    [.mmsgReceive [plainPacket 0 16]]
  refine (hpaths _ _ hnet hcap (hdelivered.trans (hpayloads.symm.trans hcaptured.symm))).mpr
    (hrange.mp ?_)
  have hin : single.InRange (plainPacket 0 16) := ofWidth_inRange le_rfl _ false one_pos 16
  rw [single_placed (by decide) (List.forall_mem_singleton.mpr hsize)
    (channel_plainPacket (by decide) 16), List.forall_mem_singleton]
  exact ⟨hin, single.indexInBounds_of_inRange hin⟩

end VoltageBlock

end GrAta
