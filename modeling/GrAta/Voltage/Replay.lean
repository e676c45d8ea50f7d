import GrAta.Snap.CaptureCheck
import GrAta.Voltage.Playback

/-!
# Replayed captures

`replay_pcap_to_udp.py` and `replay_pcap_to_mcast.py` send the UDP payloads of a capture to
a network address. A block that receives them there outputs what a block of the same
channels outputs that reads the capture itself. How the two divide their work into batches,
refills and calls does not matter.

The tools read a capture with scapy, which is a parameter: the UDP layer of a frame, if it
has one and scapy finds raw data in it.

## Main definitions

- `replayPcap`: the datagrams that the tools send
- `PlainFrame`: the frames on which scapy and `queue_pcap_data` read the same fields
- `SameFormat`: blocks that cut the same frames into the same vectors

## Main results

- `VoltageBlock.replay_plays`: a receiving block beside a block that reads the capture
-/

namespace GrAta

structure ReplayArgs where
  port : ℤ
  numPackets : ℤ

/-- The loop over the packets of a capture. -/
def replayLoop (a : ReplayArgs) : ℕ → List (Option UdpPacket) → List Packet
  | _, [] => []
  | i, none :: packets => replayLoop a i packets
  | i, some curPacket :: packets =>
    if (curPacket.dport : ℤ) ≠ a.port then replayLoop a i packets
    else
      curPacket.payload ::
        if a.numPackets > 0 ∧ ((i + 1 : ℕ) : ℤ) ≥ a.numPackets then []
        else replayLoop a (i + 1) packets

/-- The datagrams that the replay of a capture sends. -/
def replayPcap (a : ReplayArgs) (udpLayer : Record → Option UdpPacket) (capture : List Record) :
    List Packet :=
  replayLoop a 0 (capture.map udpLayer)

/-- The payloads for a port. -/
def forPort (port : ℤ) (packets : List (Option UdpPacket)) : List Packet :=
  packets.filterMap fun curPacket => curPacket.bind fun p =>
    if (p.dport : ℤ) = port then some p.payload else none

theorem replayLoop_eq (a : ReplayArgs) (packets : List (Option UdpPacket)) (i : ℕ)
    (hi : 0 < a.numPackets → (i : ℤ) < a.numPackets) :
    replayLoop a i packets =
      if 0 < a.numPackets then (forPort a.port packets).take (a.numPackets - i).toNat
      else forPort a.port packets := by
  induction packets generalizing i with
  | nil => split <;> simp [replayLoop, forPort]
  | cons curPacket packets ih =>
    cases curPacket with
    | none => exact ih i hi
    | some p =>
      rw [replayLoop]
      by_cases hport : (p.dport : ℤ) = a.port
      · have hfirst : forPort a.port (some p :: packets) = p.payload :: forPort a.port packets := by
          simp [forPort, hport]
        rw [if_neg (not_not.mpr hport), hfirst]
        by_cases hlimit : 0 < a.numPackets
        · rw [if_pos hlimit]
          have hbelow := hi hlimit
          by_cases hlast : ((i + 1 : ℕ) : ℤ) ≥ a.numPackets
          · have hone : (a.numPackets - i).toNat = 1 := by omega
            rw [if_pos ⟨hlimit, hlast⟩, hone]
            rfl
          · have hmore : (a.numPackets - i).toNat = (a.numPackets - (i + 1 : ℕ)).toNat + 1 := by
              omega
            rw [if_neg fun h => hlast h.2, ih (i + 1) fun _ => by omega, if_pos hlimit, hmore,
              List.take_succ_cons]
        · rw [if_neg hlimit, if_neg fun h => hlimit h.1,
            ih (i + 1) fun h => absurd h hlimit, if_neg hlimit]
      · have hskip : forPort a.port (some p :: packets) = forPort a.port packets := by
          simp [forPort, hport]
        rw [if_pos hport, hskip]
        exact ih i hi

section Replay

variable {a : ReplayArgs} {udpLayer : Record → Option UdpPacket} {capture : List Record}

/-- What is sent are the first payloads for the port. -/
theorem replayPcap_prefix :
    replayPcap a udpLayer capture <+: forPort a.port (capture.map udpLayer) := by
  rw [replayPcap, replayLoop_eq a _ 0 id]
  split
  · exact List.take_prefix _ _
  · exact List.prefix_rfl

/-- Without a number of packets all of them are sent. -/
theorem replayPcap_all (h : a.numPackets ≤ 0) :
    replayPcap a udpLayer capture = forPort a.port (capture.map udpLayer) := by
  rw [replayPcap, replayLoop_eq a _ 0 id, if_neg (by omega)]

end Replay

-- ════════════════════════════════════════════════════════════════════════
-- Plain frames
-- ════════════════════════════════════════════════════════════════════════

def ETHERTYPE_ARP : ℕ := 0x0806
def IPPROTO_IGMP : ℕ := 2
def IPPROTO_TCP : ℕ := 6

/-- A datagram with data in one IPv4 frame, whose lengths agree. The total length of a
frame that was captured before its segmentation is zero. -/
structure WholeUdp (r : Record) : Prop where
  isUdp : IsUdp r
  unfragmented : ¬IsFragment r
  header : 20 ≤ ipHeaderLength r
  total : be16toh r.byte (ipOffset r + 2) = 0 ∨
    be16toh r.byte (ipOffset r + 2) = ipHeaderLength r + udpLength r
  data : 8 < udpLength r
  inside : udpOffset r + udpLength r ≤ r.caplen

/-- A frame of another protocol. -/
def OtherFrame (r : Record) : Prop :=
  etherType r = ETHERTYPE_ARP ∨ etherType r = ETHERTYPE_IP ∧ ipVersion r = 4 ∧
    (ipProtocol r = IPPROTO_IGMP ∨ ipProtocol r = IPPROTO_TCP)

/-- A record that holds a whole frame of the network. -/
structure PlainFrame (r : Record) : Prop where
  whole : r.len = r.caplen
  protocol : WholeUdp r ∨ OtherFrame r

theorem OtherFrame.not_isUdp {r : Record} (h : OtherFrame r) : ¬IsUdp r := by
  rintro ⟨htype, -, hprotocol⟩
  rcases h with harp | ⟨-, -, hother⟩
  · rw [harp] at htype
    exact absurd htype (by decide)
  · rw [hprotocol] at hother
    exact absurd hother (by decide)

/-- What scapy finds in the plain frames of a capture: the UDP layer of a datagram, with
raw data for a port that no other protocol has. -/
structure FindsUdp (udpLayer : Record → Option UdpPacket) (port : ℤ) (capture : List Record) :
    Prop where
  data : ∀ r ∈ capture, WholeUdp r → (udpDestPort r : ℤ) = port →
    udpLayer r = some ⟨udpDestPort r, udpData r⟩
  dport : ∀ r ∈ capture, WholeUdp r → ∀ p, udpLayer r = some p → p.dport = udpDestPort r
  other : ∀ r ∈ capture, OtherFrame r → udpLayer r = none

/-- A capture of plain frames, in which the datagrams for the port are packets. -/
structure Recorded (c : Config) (capture : List Record) : Prop where
  plain : ∀ r ∈ capture, PlainFrame r
  packets : ∀ r ∈ capture, IsUdp r → (udpDestPort r : ℤ) = c.dPort →
    (udpData r).length = c.totalPacketSize

namespace VoltageBlock

variable {B : VoltageBlock} {udpLayer : Record → Option UdpPacket} {capture : List Record}

/-- The tools send what `queue_pcap_data` examines. -/
theorem forPort_eq_payloads (hfinds : FindsUdp udpLayer B.cfg.dPort capture)
    (hrecorded : Recorded B.cfg capture) :
    forPort B.cfg.dPort (capture.map udpLayer) = payloads B.cfg capture := by
  rw [B.payloads_eq]
  obtain ⟨hdata, hdport, hother⟩ := hfinds
  obtain ⟨hplain, hpackets⟩ := hrecorded
  induction capture with
  | nil => rfl
  | cons r capture ih =>
    rw [List.forall_mem_cons] at hdata hdport hother hplain hpackets
    have ih := ih hdata.2 hdport.2 hother.2 hplain.2 hpackets.2
    have hcons : forPort B.cfg.dPort ((r :: capture).map udpLayer) =
        forPort B.cfg.dPort [udpLayer r] ++ forPort B.cfg.dPort (capture.map udpLayer) :=
      List.filterMap_append (l := [udpLayer r])
    rw [hcons, ih]
    by_cases hwanted : Wanted B.cfg r
    · have hudp : WholeUdp r :=
        hplain.1.protocol.resolve_right fun h => h.not_isUdp hwanted.2.1
      have hport := hwanted.2.2.1
      rw [List.filter_cons_of_pos (by simpa using hwanted), List.map_cons,
        hdata.1 hudp hport]
      simp [forPort, hport]
    · have hnone : forPort B.cfg.dPort [udpLayer r] = [] := by
        rcases hplain.1.protocol with hudp | hframe
        · cases hlayer : udpLayer r with
          | none => rfl
          | some p =>
            have hport : (p.dport : ℤ) ≠ B.cfg.dPort := by
              rw [hdport.1 hudp p hlayer]
              exact fun hport => hwanted
                ⟨hplain.1.whole, hudp.isUdp, hport, hpackets.1 hudp.isUdp hport⟩
            simp [forPort, hport]
        · rw [hother.1 hframe]
          rfl
      rw [hnone, List.nil_append, List.filter_cons_of_neg (by simpa using hwanted)]

-- ════════════════════════════════════════════════════════════════════════
-- Blocks of one format
-- ════════════════════════════════════════════════════════════════════════

/-- The same channels and the same kind of output. -/
structure SameFormat (B B' : VoltageBlock) : Prop where
  firstChannel : B.firstChannel = B'.firstChannel
  packets : B.packets = B'.packets
  packed : B.cfg.dPackedOutput = B'.cfg.dPackedOutput

namespace SameFormat

variable {B' : VoltageBlock} (h : B.SameFormat B')

include h

theorem dVeclen : B.cfg.dVeclen = B'.cfg.dVeclen := by
  rw [B.dVeclen_eq, B'.dVeclen_eq, h.packets]

theorem bOnePacket : B.cfg.bOnePacket = B'.cfg.bOnePacket := by
  rw [B.bOnePacket_eq, B'.bOnePacket_eq, h.packets]

theorem inRange_iff (p : Packet) : B.InRange p ↔ B'.InRange p := by
  have hlast : B.cfg.dEndingChannelPacketChannelId = B'.cfg.dEndingChannelPacketChannelId := by
    have hB := B.lastChannel_eq
    have hB' := B'.lastChannel_eq
    rw [h.firstChannel, h.packets] at hB
    omega
  have hfirst : B.cfg.dStartingChannel = B'.cfg.dStartingChannel := h.firstChannel
  rw [InRange, InRange, hlast, hfirst]

theorem fromStart_eq (found : Bool) (ps : List Packet) :
    fromStart true B.cfg found ps = fromStart true B'.cfg found ps := by
  have hfirst : B.cfg.dStartingChannel = B'.cfg.dStartingChannel := h.firstChannel
  rw [fromStart, fromStart, hfirst]

/-- A packet fills the same cells. -/
theorem overlayPacket_eq (port : Port) : B.overlayPacket port = B'.overlayPacket port := by
  have hdata (p : Packet) : vpData B.cfg p = vpData B'.cfg p := by
    unfold vpData
    rw [B.dHeaderSize_eq, B'.dHeaderSize_eq]
  have hsamples (p : Packet) : B.samples port p = B'.samples port p := by
    rw [samples, samples, hdata, h.packed]
  funext cell p i
  have hcolumn : B.column (channel p) = B'.column (channel p) := by
    rw [column, column, h.firstChannel]
  have hcovers : B.Covers (channel p) i ↔ B'.Covers (channel p) i := by
    rw [Covers, Covers, hcolumn, h.dVeclen]
  by_cases hi : B'.Covers (channel p) i
  · rw [B.overlayPacket_of_covers (hcovers.mpr hi), B'.overlayPacket_of_covers hi, turned, turned,
      hcolumn, hsamples, h.dVeclen]
  · rw [B.overlayPacket_of_not_covers (fun h' => hi (hcovers.mp h')),
      B'.overlayPacket_of_not_covers hi]

/-- A frame is cut into the same vectors. -/
theorem queuedItems_eq : B.queuedItems = B'.queuedItems := by
  have hcell (port : Port) : B.frameCell port = B'.frameCell port := by
    funext origin
    cases origin with
    | received packets => rw [frameCell, frameCell, render, render, h.overlayPacket_eq]
    | missed timestamp => rfl
  have hrow (port : Port) : B.rowData port = B'.rowData port := by
    funext origin t
    rw [rowData, rowData, hcell, h.dVeclen]
  funext f
  rw [queuedItems, queuedItems]
  refine List.map_congr_left fun t _ => ?_
  rw [queuedRow, queuedRow, hrow, hrow, h.packed]

/-- Packets make up the same rows. -/
theorem rows_eq (ps : List Packet) : B.rows ps = B'.rows ps := by
  rw [rows, rows, h.bOnePacket, h.queuedItems_eq]

end SameFormat

-- ════════════════════════════════════════════════════════════════════════
-- A receiving block
-- ════════════════════════════════════════════════════════════════════════

end VoltageBlock

/-- The datagrams that an event brings. -/
def BlockEvent.datagrams : BlockEvent → List Packet
  | .mmsgReceive datagrams => datagrams
  | _ => []

/-- The steps of a block at the network: batches of datagrams, and calls of the work
function. -/
def BlockEvent.OfNetwork : BlockEvent → Prop
  | .mmsgReceive datagrams => datagrams.length ≤ MMSG_LENGTH
  | .work noutputItems _ => 0 < noutputItems ∧ 16 ∣ noutputItems
  | _ => False

namespace VoltageBlock

variable {B : VoltageBlock}

/-- A block that has received some packets. -/
structure Receiving (B : VoltageBlock) (env : Environment) (arrived : List Packet) (b : Block) :
    Prop where
  handled : Handled true B.cfg unfiltered arrived ⟨initialReceiver env, [], []⟩ b.ingress
  delivers : ∃ taken delivered queue, B.Delivers b taken delivered queue

namespace Receiving

variable {env : Environment} {arrived : List Packet} {b : Block}

theorem placed (h : B.Receiving env arrived b) :
    b.ingress.placed = fromStart true B.cfg false arrived := by
  rw [h.handled.placed, filter_unfiltered]
  rfl

/-- Not more packets are queued than have arrived. -/
theorem placed_length_le {s : Ingress}
    (h : Handled true B.cfg unfiltered arrived ⟨initialReceiver env, [], []⟩ s) :
    s.placed.length ≤ arrived.length := by
  rw [h.placed, filter_unfiltered, List.nil_append]
  exact (B.fromStart_sublist arrived).length_le

/-- A batch of whole packets. -/
theorem receive (h : B.Receiving env arrived b) {datagrams : List Packet}
    (hbatch : datagrams.length ≤ MMSG_LENGTH)
    (hfull : ∀ d ∈ datagrams, d.length = B.cfg.totalPacketSize)
    (hfits : Fits b.ingress (mmsgReceive true B.cfg datagrams b.ingress)) :
    B.Receiving env (arrived ++ datagrams)
      { b with ingress := mmsgReceive true B.cfg datagrams b.ingress } := by
  have hhandled := mmsgReceive_handled true B.eight_le_totalPacketSize datagrams b.ingress
  rw [examined_of_fullSize hfull hbatch] at hhandled
  obtain ⟨taken, delivered, queue, hdelivers⟩ := h.delivers
  obtain ⟨more, sync, hplaced, hreceives⟩ := collects_mmsgReceive B.cfg datagrams b.ingress
  refine ⟨h.handled.trans hhandled, taken, delivered, queue,
    { hdelivers with consumed := ?_, outputs := hdelivers.outputs }⟩
  rw [hplaced, (hreceives hfits).queue, hdelivers.consumed, List.append_assoc]

/-- A call of the work function returns. -/
theorem work (h : B.Receiving env arrived b) (hnet : B.cfg.dUsePcap = false)
    (hprocesses : B.Processes b.ingress.placed) (noutputItems ports : ℕ) :
    ∃ b', blockStep formatTest B.cfg env.capture b (.work noutputItems ports) = .ok b' ∧
      B.Receiving env arrived b' := by
  obtain ⟨taken, delivered, queue, hdelivers⟩ := h.delivers
  obtain ⟨more, result, s', send, hstep, hserves, hrecv⟩ := hdelivers.work hprocesses
    (fun hpcap => Bool.noConfusion (hnet.symm.trans hpcap)) env.capture noutputItems ports
  have hfound : s'.recv.dFoundStartChannel = b.ingress.recv.dFoundStartChannel := by rw [hrecv]
  exact ⟨_, hstep, ⟨⟨h.handled.delivered, h.handled.placed, hfound.trans h.handled.found⟩,
    _, _, _, hdelivers.after hserves⟩⟩

end Receiving

/-- The ring of a block has room in every step of a run. -/
def HasRoom (B : VoltageBlock) (env : Environment) (events : List BlockEvent) : Prop :=
  ∀ before e, before ++ [e] <+: events → ∀ b b', B.blockRun env before = .ok b →
    B.blockRun env (before ++ [e]) = .ok b' → Fits b.ingress b'.ingress

/-- **A receiving block.** It returns from every call, and has received the datagrams of
its batches. -/
theorem run_receiving (hnet : B.cfg.dUsePcap = false) {env : Environment}
    {events : List BlockEvent} (hevents : ∀ e ∈ events, e.OfNetwork)
    (hfull : ∀ d ∈ events.flatMap BlockEvent.datagrams, d.length = B.cfg.totalPacketSize)
    (hprocesses :
      B.Processes (fromStart true B.cfg false (events.flatMap BlockEvent.datagrams)))
    (hroom : B.HasRoom env events) :
    ∃ b, B.blockRun env events = .ok b ∧
      B.Receiving env (events.flatMap BlockEvent.datagrams) b := by
  induction events using List.reverseRecOn with
  | nil =>
    obtain ⟨s, hs, hquiet, htracks⟩ := B.start_tracks env
    refine ⟨⟨⟨s.recv, [], []⟩, s.volt, s.spect, []⟩, ?_, ?_, [], [], [], ?_⟩
    · rw [blockRun, GrAta.blockRun, hs]
      rfl
    · rw [start_recv hs]
      exact .refl _
    · exact ⟨htracks.consumed, htracks.shows, rfl, rfl, hquiet⟩
  | append_singleton events e ih =>
    rw [List.flatMap_append, List.flatMap_singleton] at hfull hprocesses ⊢
    rw [fromStart_append] at hprocesses
    obtain ⟨b, hb, h⟩ := ih (fun e' he' => hevents e' (List.mem_append_left _ he'))
      (fun d hd => hfull d (List.mem_append_left _ hd))
      (fun p hp => hprocesses p (List.mem_append_left _ hp))
      fun before e' hbefore => hroom before e' (hbefore.trans (List.prefix_append _ _))
    have hstep := blockRun_concat hb e
    have he := hevents e (List.mem_append_right _ (List.mem_singleton_self e))
    cases e with
    | mmsgReceive datagrams =>
      have hfits := hroom events _ List.prefix_rfl _ _ hb hstep
      exact ⟨_, hstep, h.receive he (fun d hd => hfull d (List.mem_append_right _ hd)) hfits⟩
    | work noutputItems ports =>
      have hplaced : B.Processes b.ingress.placed := fun p hp =>
        hprocesses p (List.mem_append_left _ (h.placed ▸ hp))
      obtain ⟨b', hb', h'⟩ := h.work hnet hplaced noutputItems ports
      refine ⟨b', hstep.trans hb', ?_⟩
      have hnone : (BlockEvent.work noutputItems ports).datagrams = [] := rfl
      rw [hnone, List.append_nil]
      exact h'
    | queuePcapData minPcapQueueSize => exact he.elim
    | handleSyncMsg msg => exact he.elim
    | workTest noutputItems ports => exact he.elim
    | stop => exact he.elim

/-- A ring that holds all packets that have been queued has room. -/
theorem Receiving.fits {env : Environment} {arrived : List Packet} {b : Block}
    (h : B.Receiving env arrived b) {s : Ingress} (hfew : s.placed.length ≤ MAX_NET_CIRC_BUFFER) :
    Fits b.ingress s := by
  obtain ⟨taken, delivered, queue, hdelivers⟩ := h.delivers
  have hconsumed := congrArg List.length hdelivers.consumed
  rw [List.length_append] at hconsumed
  rw [Fits]
  omega

/-- The ring has room for a replay that is not longer than the ring. -/
theorem hasRoom_of_few (hnet : B.cfg.dUsePcap = false) {env : Environment}
    {events : List BlockEvent} (hevents : ∀ e ∈ events, e.OfNetwork)
    (hfull : ∀ d ∈ events.flatMap BlockEvent.datagrams, d.length = B.cfg.totalPacketSize)
    (hprocesses :
      B.Processes (fromStart true B.cfg false (events.flatMap BlockEvent.datagrams)))
    (hfew : (events.flatMap BlockEvent.datagrams).length ≤ MAX_NET_CIRC_BUFFER) :
    B.HasRoom env events := by
  induction events using List.reverseRecOn with
  | nil => exact fun before e hbefore => absurd (List.prefix_nil.mp hbefore) (by simp)
  | append_singleton events e ih =>
    rw [List.flatMap_append, List.flatMap_singleton] at hfull hprocesses hfew
    rw [fromStart_append] at hprocesses
    have hearlier := fun e' he' => hevents e' (List.mem_append_left [e] he')
    have hroom := ih hearlier (fun d hd => hfull d (List.mem_append_left _ hd))
      (fun p hp => hprocesses p (List.mem_append_left _ hp))
      ((List.prefix_append _ _).length_le.trans hfew)
    intro before e' hbefore b b' hb hb'
    rcases List.prefix_concat_iff.mp hbefore with hlast | hinside
    · obtain ⟨rfl, he⟩ := List.append_inj' hlast rfl
      obtain rfl := List.singleton_inj.mp he
      obtain ⟨b₁, hb₁, h⟩ := run_receiving hnet hearlier
        (fun d hd => hfull d (List.mem_append_left _ hd))
        (fun p hp => hprocesses p (List.mem_append_left _ hp)) hroom
      obtain rfl := Except.ok.inj (hb.symm.trans hb₁)
      have hstep := (blockRun_concat hb e').symm.trans hb'
      have he := hevents e' (List.mem_append_right _ (List.mem_singleton_self e'))
      refine h.fits (le_trans ?_ hfew)
      cases e' with
      | mmsgReceive datagrams =>
        obtain rfl := Except.ok.inj hstep
        have hhandled := mmsgReceive_handled true B.eight_le_totalPacketSize datagrams b.ingress
        have hwhole : ∀ d ∈ datagrams, d.length = B.cfg.totalPacketSize := fun d hd =>
          hfull d (List.mem_append_right _ hd)
        rw [examined_of_fullSize hwhole he] at hhandled
        exact Receiving.placed_length_le (h.handled.trans hhandled)
      | work noutputItems ports =>
        have hplaced : B.Processes b.ingress.placed := fun p hp =>
          hprocesses p (List.mem_append_left _ (h.placed ▸ hp))
        obtain ⟨b'', hb'', h''⟩ := h.work hnet hplaced noutputItems ports
        obtain rfl := Except.ok.inj (hstep.symm.trans hb'')
        rw [List.length_append]
        exact (Receiving.placed_length_le h''.handled).trans (Nat.le_add_right _ _)
      | queuePcapData minPcapQueueSize => exact he.elim
      | handleSyncMsg msg => exact he.elim
      | workTest noutputItems ports => exact he.elim
      | stop => exact he.elim
    · exact hroom before e' hinside b b' hb hb'

-- ════════════════════════════════════════════════════════════════════════
-- The two blocks
-- ════════════════════════════════════════════════════════════════════════

section Replayed

variable {live player : VoltageBlock} {env env' : Environment} {a : ReplayArgs}
  {udpLayer : Record → Option UdpPacket} {b b' : Block}

/-- What the capture holds for the player are all of its packets from the first one of the
starting channel on. -/
theorem captured_of_processes
    (hprocesses : B.Processes (fromStart true B.cfg false (payloads B.cfg env.capture))) :
    captured B env.capture = fromStart true B.cfg false (payloads B.cfg env.capture) := by
  rw [← B.captured_eq]
  exact List.filter_eq_self.mpr fun p hp => B.expected_iff.mpr (hprocesses p hp).1

/-- The tools send the first packets of the capture. -/
theorem replayPcap_payloads (hport : a.port = player.cfg.dPort)
    (hfinds : FindsUdp udpLayer a.port env.capture) (hrecorded : Recorded player.cfg env.capture) :
    replayPcap a udpLayer env.capture <+: payloads player.cfg env.capture ∧
      (a.numPackets ≤ 0 →
        replayPcap a udpLayer env.capture = payloads player.cfg env.capture) := by
  have hpayloads : forPort a.port (env.capture.map udpLayer) =
      payloads player.cfg env.capture := by
    rw [hport] at hfinds ⊢
    exact forPort_eq_payloads hfinds hrecorded
  exact ⟨hpayloads ▸ replayPcap_prefix, fun hall => (replayPcap_all hall).trans hpayloads⟩

/-- Packets of the capture that arrive at a block of the same format. -/
theorem SameFormat.arrived (hsame : live.SameFormat player)
    (hprocesses :
      player.Processes (fromStart true player.cfg false (payloads player.cfg env.capture)))
    {arrived : List Packet} (harrived : arrived <+: payloads player.cfg env.capture) :
    (∀ d ∈ arrived, d.length = live.cfg.totalPacketSize) ∧
      live.Processes (fromStart true live.cfg false arrived) ∧
      fromStart true live.cfg false arrived <+: captured player env.capture := by
  have hinitial : fromStart true live.cfg false arrived <+:
      fromStart true player.cfg false (payloads player.cfg env.capture) := by
    obtain ⟨rest, hrest⟩ := harrived
    rw [hsame.fromStart_eq, ← hrest, fromStart_append]
    exact List.prefix_append _ _
  refine ⟨fun d hd => ?_, fun p hp => ?_, captured_of_processes hprocesses ▸ hinitial⟩
  · obtain ⟨pData, -, rfl⟩ := List.mem_map.mp (harrived.subset hd)
    rw [dataVector, List.length_map, List.length_range, live.totalPacketSize_eq,
      player.totalPacketSize_eq]
  · exact (hprocesses p (hinitial.subset hp)).imp_left (hsame.inRange_iff p).mpr

/-- **A replayed capture plays.** One block receives the datagrams of a replay in their
order, up to some point, another one of the same format reads the capture. The first one
returns from every call, and at any time the one has output what the other one has, or the
beginning of it. When both are through and nothing waits they have output the same. -/
theorem replay_plays (hsame : live.SameFormat player) (hnet : live.cfg.dUsePcap = false)
    (hpcap : player.cfg.dUsePcap = true) (hrepeat : player.cfg.dRepeatFile = false)
    (hport : a.port = player.cfg.dPort) (hfinds : FindsUdp udpLayer a.port env.capture)
    (hrecorded : Recorded player.cfg env.capture)
    (hprocesses :
      player.Processes (fromStart true player.cfg false (payloads player.cfg env.capture)))
    {events : List BlockEvent} (hevents : ∀ e ∈ events, e.OfNetwork)
    (harrived : events.flatMap BlockEvent.datagrams <+: replayPcap a udpLayer env.capture)
    (hroom : live.HasRoom env' events) :
    ∃ b, live.blockRun env' events = .ok b ∧
      ∀ played b', (∀ e ∈ played, player.OfCapture e) → player.blockRun env played = .ok b' →
        (outputs b <+: outputs b' ∨ outputs b' <+: outputs b) ∧
        (a.numPackets ≤ 0 →
          events.flatMap BlockEvent.datagrams = replayPcap a udpLayer env.capture →
          b.ingress.recv.dLocalqueue = [] → b.volt.xVectorQueue = [] →
          AtEnd b' → b'.volt.xVectorQueue = [] → outputs b = outputs b') := by
  obtain ⟨hsent, hall⟩ := replayPcap_payloads hport hfinds hrecorded
  obtain ⟨hfull, hlive, hfirst⟩ := hsame.arrived hprocesses (harrived.trans hsent)
  obtain ⟨b, hb, h⟩ := run_receiving hnet hevents hfull hlive hroom
  refine ⟨b, hb, fun played b' hplayed hb' => ?_⟩
  have htimes : ∀ p ∈ captured player env.capture, timestamp p < 2 ^ 64 - 16 := fun p hp =>
    (hprocesses p (captured_of_processes hprocesses ▸ hp)).2
  have hplaying := run_playing hpcap hrepeat htimes hplayed hb'
  obtain ⟨taken, delivered, queue, hdelivers⟩ := h.delivers
  obtain ⟨taken', delivered', queue', hdelivers'⟩ := hplaying.delivers
  constructor
  · have houtputs := hdelivers.outputs_initial (h.placed ▸ hfirst)
    rw [hsame.rows_eq] at houtputs
    exact List.prefix_or_prefix_of_prefix houtputs
      (hdelivers'.outputs_initial hplaying.placed_initial)
  · intro hnumber hdatagrams hlocal hqueue hend hqueue'
    have hwhole : b.ingress.placed = captured player env.capture := by
      rw [h.placed, hsame.fromStart_eq, hdatagrams, hall hnumber,
        captured_of_processes hprocesses]
    rw [hdelivers.outputs_all hlocal hqueue, hdelivers'.outputs_all hend.2 hqueue', hwhole,
      hplaying.placed_all hend.1, hsame.rows_eq]

end Replayed

-- ════════════════════════════════════════════════════════════════════════
-- A replay of one packet
-- ════════════════════════════════════════════════════════════════════════

/-- The UDP layer of a frame with data. -/
def rawUdp (r : Record) : Option UdpPacket :=
  if IsUdp r ∧ 8 < udpLength r then some ⟨udpDestPort r, udpData r⟩ else none

theorem rawUdp_findsUdp (port : ℤ) (capture : List Record) : FindsUdp rawUdp port capture where
  data := fun _ _ h _ => if_pos ⟨h.isUdp, h.data⟩
  dport := by
    intro r _ h p hp
    rw [rawUdp, if_pos ⟨h.isUdp, h.data⟩] at hp
    rw [← Option.some.inj hp]
  other := fun _ _ h => if_neg fun hudp => h.not_isUdp hudp.1

/-- A captured frame is plain. -/
theorem plainFrame_capturedFrame {port : ℕ} {p : Packet} (hsize : p.length = 8208) :
    PlainFrame (capturedFrame port p) := by
  have hlength : udpLength (capturedFrame port p) = p.length + 8 :=
    capturedFrame_length (by omega)
  -- the upper bytes of the length and of the offset
  have h16 : (capturedFrame port p).byte 16 = 0 := rfl
  have h17 : (capturedFrame port p).byte 17 = 0 := rfl
  have h20 : (capturedFrame port p).byte 20 = 0 := rfl
  have h21 : (capturedFrame port p).byte 21 = 0 := rfl
  refine ⟨rfl, .inl
    { isUdp := capturedFrame_isUdp.1, unfragmented := ?_, header := ?_, total := .inl ?_,
      data := by omega, inside := ?_ }⟩
  · rw [IsFragment, capturedFrame_ipOffset]
    simp [be16toh, beToHost, h20, h21]
  · rw [ipHeaderLength, capturedFrame_ipOffset, show (capturedFrame port p).byte 14 = 0x45 from rfl]
    decide
  · rw [capturedFrame_ipOffset]
    simp [be16toh, beToHost, h16, h17]
  · rw [capturedFrame_isUdp.2, hlength]
    change 34 + (p.length + 8) ≤ 42 + p.length
    omega

/-- One batch of one packet, and a call that takes it. -/
def oneBatch (p : Packet) : List BlockEvent := [.mmsgReceive [p], .work 16 1]

/-- The capture of one packet is replayed to a block, and read by another one. -/
theorem replay_plays_single :
    ∃ b, single.blockRun (captureOf (plainPacket 0 16)) (oneBatch (plainPacket 0 16)) = .ok b ∧
      ∀ played b', (∀ e ∈ played, single.fromCapture.OfCapture e) →
        single.fromCapture.blockRun (captureOf (plainPacket 0 16)) played = .ok b' →
        (outputs b <+: outputs b' ∨ outputs b' <+: outputs b) ∧
        ((0 : ℤ) ≤ 0 →
          (oneBatch (plainPacket 0 16)).flatMap BlockEvent.datagrams =
            replayPcap ⟨10000, 0⟩ rawUdp (captureOf (plainPacket 0 16)).capture →
          b.ingress.recv.dLocalqueue = [] → b.volt.xVectorQueue = [] →
          AtEnd b' → b'.volt.xVectorQueue = [] → outputs b = outputs b') := by
  have hsize : (plainPacket 0 16).length = 8208 := plainPacket_length 0 16
  have hpayloads : payloads single.fromCapture.cfg (captureOf (plainPacket 0 16)).capture =
      [plainPacket 0 16] := payloads_captureOf rfl hsize
  have hrecorded : Recorded single.fromCapture.cfg (captureOf (plainPacket 0 16)).capture := by
    refine ⟨List.forall_mem_singleton.mpr (plainFrame_capturedFrame hsize),
      List.forall_mem_singleton.mpr fun _ _ => ?_⟩
    rw [udpData, dataVector, List.length_map, List.length_range,
      capturedFrame_length (by rw [hsize]; decide), hsize]
    rfl
  have hprocesses : ∀ ps, ps <+: [plainPacket 0 16] → single.fromCapture.Processes ps := by
    intro ps hps p hp
    rw [List.mem_singleton.mp (hps.subset hp)]
    refine ⟨ofWidth_inRange le_rfl (by decide) false one_pos 16, ?_⟩
    rw [timestamp_plainPacket 0 (by decide)]
    decide
  have hsent : replayPcap ⟨10000, 0⟩ rawUdp (captureOf (plainPacket 0 16)).capture =
      [plainPacket 0 16] :=
    ((replayPcap_payloads rfl (rawUdp_findsUdp _ _) hrecorded).2 le_rfl).trans hpayloads
  have hevents : ∀ e ∈ oneBatch (plainPacket 0 16), e.OfNetwork :=
    List.forall_mem_cons.mpr
      ⟨show 1 ≤ MMSG_LENGTH by decide, List.forall_mem_singleton.mpr ⟨by decide, dvd_rfl⟩⟩
  have hstart : fromStart true single.fromCapture.cfg false [plainPacket 0 16] =
      [plainPacket 0 16] := by
    have hfirst : ¬Skips true single.fromCapture.cfg false (plainPacket 0 16) := fun hskips =>
      hskips.2 (channel_plainPacket (by decide) 16)
    exact fromStart_cons_of_not hfirst []
  have hsame : single.SameFormat single.fromCapture := ⟨rfl, rfl, rfl⟩
  have hport : (ReplayArgs.mk 10000 0).port = single.fromCapture.cfg.dPort := rfl
  refine replay_plays hsame rfl rfl rfl hport (rawUdp_findsUdp _ _) hrecorded ?_ hevents ?_ ?_
  · rw [hpayloads, hstart]
    exact hprocesses _ List.prefix_rfl
  · rw [hsent]
    exact List.prefix_rfl
  · refine hasRoom_of_few rfl hevents (List.forall_mem_singleton.mpr hsize) ?_ (by decide)
    exact hstart ▸ hprocesses _ List.prefix_rfl

end VoltageBlock

end GrAta
