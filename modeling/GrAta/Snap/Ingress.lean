import GrAta.Snap.Source

/-!
# The receiving side

The receive thread takes datagrams from the network in batches, or records from a
capture, looks for the first packet of the starting channel, and queues packets
for the work function. The same source text serves both packet formats: which
format is meant is an argument of the functions below.

The log is left out, except for what it says about the control flow. All payloads
that were examined and all packets that were ever queued are recorded, as ghost
state.

## Main definitions

- `voltageSynchronize`, `spectSynchronize`: the search for the starting channel
- `mmsgReceive`: one batch of datagrams
- `udpPayload`: the payload of a captured frame
- `queuePcapData`: one refill from the capture
- `ingressRun`: the receiving side under any order of events
- `Handled`: what becomes of a list of payloads

## Main results

- `mmsgReceive_handled`: the network path queues everything from the starting
  channel on
- `queuePcapData_handled`: the capture path queues the expected channels of it
-/

namespace GrAta

/-- The receiving side, with a record of all payloads that were examined and all
packets that were ever queued. -/
structure Ingress where
  recv : Receiver
  delivered : List Packet
  placed : List Packet

/-- The condition by which the receive and work functions choose between the two
formats. -/
def formatTest : Bool := decide (SNAP_PACKETTYPE_VOLTAGE ≠ 0)

variable (isVoltage : Bool) (c : Config)

/-- `voltage_synchronize`: nothing, when the packet does not start at the starting
channel. -/
def voltageSynchronize (pBuff : Pointer) (r : Receiver) : Option Receiver :=
  if voltageChan pBuff = c.dStartingChannel then
    some { r with
      dFoundStartChannel := true
      asyncVoltSyncHdr := getVoltageHeader pBuff
      dSendSyncPmt := true }
  else none

/-- `spect_synchronize`. -/
def spectSynchronize (pBuff : Pointer) (r : Receiver) : Option Receiver :=
  if spectChan (be64toh pBuff 0) = c.dStartingChannel then
    some { r with
      dFoundStartChannel := true
      asyncSpectSyncHdr := getSpectHeader r.asyncSpectSyncHdr pBuff
      dSendSyncPmt := true }
  else none

/-- The receiver that a packet finds or makes synchronized. -/
def synchronize (pBuff : Pointer) (r : Receiver) : Option Receiver :=
  if r.dFoundStartChannel then some r
  else if isVoltage then voltageSynchronize c pBuff r
  else spectSynchronize c pBuff r

/-- The channel in the header of a packet. -/
def headerChannel (pBuff : Pointer) : ℕ :=
  if isVoltage then voltageChan pBuff else spectChan (be64toh pBuff 0)

def unexpectedChannel (channelId : ℕ) : Prop :=
  channelId < c.dStartingChannel ∨ channelId > c.dEndingChannelPacketChannelId

instance (channelId : ℕ) : Decidable (unexpectedChannel c channelId) :=
  inferInstanceAs (Decidable (_ ∨ _))

/-- `push_back` of a circular buffer: a full one overwrites its oldest element. -/
def pushBack (queue : List Packet) (p : Packet) : List Packet :=
  if queue.length < MAX_NET_CIRC_BUFFER then queue ++ [p] else queue.tail ++ [p]

theorem pushBack_ne_nil (queue : List Packet) (p : Packet) : pushBack queue p ≠ [] := by
  rw [pushBack]
  split <;> simp

/-- A `data_vector` made of the bytes at an address. -/
def dataVector (pBuff : Pointer) (size : ℕ) : Packet := (List.range size).map pBuff

/-- A payload is examined. -/
def deliver (p : Packet) (s : Ingress) : Ingress := { s with delivered := s.delivered ++ [p] }

def queuePacket (p : Packet) (s : Ingress) : Ingress where
  recv := { s.recv with dLocalqueue := pushBack s.recv.dLocalqueue p }
  delivered := s.delivered
  placed := s.placed ++ [p]

-- ════════════════════════════════════════════════════════════════════════
-- The network
-- ════════════════════════════════════════════════════════════════════════

/-- The loop body of `mmsg_receive`. An unexpected channel is reported as skipped,
and then queued like any other. -/
def mmsgPacket (s : Ingress) (curPkt : Pointer) : Ingress :=
  let s := deliver (dataVector curPkt c.totalPacketSize) s
  match synchronize isVoltage c curPkt s.recv with
  | none => s
  | some r => queuePacket (dataVector curPkt c.totalPacketSize) { s with recv := r }

/-- A receive buffer after a datagram: at most a packet is stored, and the bytes
behind a shorter datagram stay. -/
def receiveInto (datagram : Packet) (buf : Pointer) (k : ℕ) : UInt8 :=
  if k < min datagram.length c.totalPacketSize then datagram.getD k 0 else buf k

/-- The receive buffers after `recvmmsg`. -/
def recvmmsg (batch : List Packet) (bufs : ℕ → Pointer) (i : ℕ) : Pointer :=
  match batch[i]? with
  | some datagram => receiveInto c datagram (bufs i)
  | none => bufs i

/-- `mmsg_receive`, with the datagrams that wait on the socket. -/
def mmsgReceive (datagrams : List Packet) (s : Ingress) : Ingress :=
  let batch := datagrams.take MMSG_LENGTH
  let bufs := recvmmsg c batch s.recv.bufs
  ((List.range batch.length).map bufs).foldl (mmsgPacket isVoltage c)
    { s with recv := { s.recv with bufs := bufs } }

-- ════════════════════════════════════════════════════════════════════════
-- Captures
-- ════════════════════════════════════════════════════════════════════════

def ETHERTYPE_IP : ℕ := 0x0800
def ETHERTYPE_VLAN : ℕ := 0x8100
def IPPROTO_UDP : ℕ := 17

/-- The address `n` bytes further on. -/
def advance (p : Pointer) (n : ℕ) : Pointer := fun k => p (n + k)

/-- The UDP payload of a captured frame, if the record is complete, the frame is
an IPv4 datagram for the port of the block, and the payload has the size of a
packet. A VLAN tag is skipped. -/
def udpPayload (record : Record) : Option Pointer :=
  if record.len ≠ record.caplen then none
  else
    let p := if be16toh record.byte 12 = ETHERTYPE_VLAN then advance record.byte 4
      else record.byte
    if be16toh p 12 ≠ ETHERTYPE_IP then none
    else if (p 14 >>> 4).toNat ≠ 4 then none
    else if (p 23).toNat ≠ IPPROTO_UDP then none
    else
      -- the header length field counts words of 32 bits
      let etherIPHeaderSize := 14 + (p 14 &&& 0x0F).toNat * 4
      let destPort := be16toh p (etherIPHeaderSize + 2)
      let len := toSizeT ((be16toh p (etherIPHeaderSize + 4) : ℤ) - 8)
      if (destPort : ℤ) = c.dPort ∧ len = c.totalPacketSize then
        some (advance p (etherIPHeaderSize + 8))
      else none

/-- What happens to a payload of the right size. -/
def pcapPacket (s : Ingress) (pData : Pointer) : Ingress :=
  let s := deliver (dataVector pData c.totalPacketSize) s
  match synchronize isVoltage c pData s.recv with
  | none => s
  | some r =>
    if unexpectedChannel c (headerChannel isVoltage pData) then { s with recv := r }
    else queuePacket (dataVector pData c.totalPacketSize) { s with recv := r }

/-- `min_pcap_queue_size` as `start` sets it. -/
def startMinPcapQueueSize : ℤ :=
  let size := c.dChannelDiff.tdiv c.channelsPerPacket * 16
  if size = 0 then 16 else size

/-- `reload_size`, which is positive for a block that can start. -/
def reloadSize : ℤ := startMinPcapQueueSize c * 4

/-- The loop over the records, and whether it has reached the end of the file. The
record that is read when the thread stops is lost. -/
def pcapLoop : List Record → ℤ → Ingress → Bool × Ingress
  | [], matchingPackets, s =>
    (decide (matchingPackets < reloadSize c), { s with recv := { s.recv with pcapFile := [] } })
  | record :: rest, matchingPackets, s =>
    if matchingPackets < reloadSize c then
      if s.recv.stopThread then (false, { s with recv := { s.recv with pcapFile := rest } })
      else
        match udpPayload c record with
        | none => pcapLoop rest matchingPackets s
        | some pData => pcapLoop rest (matchingPackets + 1) (pcapPacket isVoltage c s pData)
    else (false, { s with recv := { s.recv with pcapFile := record :: rest } })

/-- `queue_pcap_data`. A capture that is repeated is opened again. The test hook
`set_test_case_min_queue_length` can change `min_pcap_queue_size`. -/
def queuePcapData (capture : List Record) (minPcapQueueSize : ℤ) (s : Ingress) : Ingress :=
  if (s.recv.dLocalqueue.length : ℤ) < minPcapQueueSize then
    let (ended, s) := pcapLoop isVoltage c s.recv.pcapFile 0 s
    if ended then
      if c.dRepeatFile then { s with recv := { s.recv with pcapFile := capture } }
      else { s with recv := { s.recv with pcapFileDone := true } }
    else s
  else s

-- ════════════════════════════════════════════════════════════════════════
-- Runs
-- ════════════════════════════════════════════════════════════════════════

/-- What happens on the receiving side: the thread takes a batch or refills from
the capture, the work function takes a packet, or the block is stopped. -/
inductive IngressEvent where
  | mmsgReceive (datagrams : List Packet)
  | queuePcapData (minPcapQueueSize : ℤ)
  | fillLocalBuffer
  | stop

def ingressStep (capture : List Record) (s : Ingress) : IngressEvent → Ingress
  | .mmsgReceive datagrams => mmsgReceive isVoltage c datagrams s
  | .queuePcapData minPcapQueueSize => queuePcapData isVoltage c capture minPcapQueueSize s
  | .fillLocalBuffer =>
    { s with recv := { s.recv with dLocalqueue := s.recv.dLocalqueue.tail } }
  | .stop => { s with recv := { s.recv with stopThread := true } }

def ingressRun (env : Environment) (events : List IngressEvent) : Ingress :=
  events.foldl (ingressStep isVoltage c env.capture) ⟨initialReceiver env, [], []⟩

variable {isVoltage c} {r : Receiver} {p : Pointer} {s s' s'' : Ingress}

/-- The packets that come from the first one of the starting channel on. -/
def fromStart (isVoltage : Bool) (c : Config) (found : Bool) (ps : List Packet) : List Packet :=
  if found then ps
  else ps.dropWhile fun p => headerChannel isVoltage (pointer p) ≠ c.dStartingChannel

/-- Whether the starting channel has been found after some packets. -/
def startSeen (isVoltage : Bool) (c : Config) (found : Bool) (ps : List Packet) : Bool :=
  found || ps.any fun p => headerChannel isVoltage (pointer p) = c.dStartingChannel

/-- A packet that comes before the first one of the starting channel. -/
def Skips (isVoltage : Bool) (c : Config) (found : Bool) (p : Packet) : Prop :=
  found = false ∧ headerChannel isVoltage (pointer p) ≠ c.dStartingChannel

@[simp] theorem fromStart_found (ps : List Packet) : fromStart isVoltage c true ps = ps := rfl

@[simp] theorem fromStart_nil (found : Bool) : fromStart isVoltage c found [] = [] := by
  cases found <;> rfl

@[simp] theorem startSeen_nil (found : Bool) : startSeen isVoltage c found [] = found := by
  cases found <;> rfl

theorem fromStart_cons_skips {found : Bool} {q : Packet} (h : Skips isVoltage c found q)
    (ps : List Packet) :
    fromStart isVoltage c found (q :: ps) = fromStart isVoltage c found ps := by
  simp [fromStart, h.1, h.2]

theorem startSeen_cons_skips {found : Bool} {q : Packet} (h : Skips isVoltage c found q)
    (ps : List Packet) :
    startSeen isVoltage c found (q :: ps) = startSeen isVoltage c found ps := by
  simp [startSeen, h.2]

theorem fromStart_cons_of_not {found : Bool} {q : Packet} (h : ¬ Skips isVoltage c found q)
    (ps : List Packet) : fromStart isVoltage c found (q :: ps) = q :: ps := by
  cases found with
  | true => rfl
  | false =>
    have hstart := not_not.mp (not_and.mp h rfl)
    simp [fromStart, hstart]

theorem startSeen_cons_of_not {found : Bool} {q : Packet} (h : ¬ Skips isVoltage c found q)
    (ps : List Packet) : startSeen isVoltage c found (q :: ps) = true := by
  cases found with
  | true => rfl
  | false =>
    have hstart := not_not.mp (not_and.mp h rfl)
    simp [startSeen, hstart]

/-- Packets that come in two parts. -/
theorem fromStart_append (found : Bool) (ps qs : List Packet) :
    fromStart isVoltage c found (ps ++ qs) =
      fromStart isVoltage c found ps ++
        fromStart isVoltage c (startSeen isVoltage c found ps) qs := by
  induction ps with
  | nil => simp
  | cons p ps ih =>
    by_cases h : Skips isVoltage c found p
    · rw [List.cons_append, fromStart_cons_skips h, fromStart_cons_skips h,
        startSeen_cons_skips h, ih]
    · rw [List.cons_append, fromStart_cons_of_not h, fromStart_cons_of_not h,
        startSeen_cons_of_not h, fromStart_found, List.cons_append]

theorem startSeen_append (found : Bool) (ps qs : List Packet) :
    startSeen isVoltage c found (ps ++ qs) =
      startSeen isVoltage c (startSeen isVoltage c found ps) qs := by
  rw [startSeen, List.any_append, startSeen, startSeen, Bool.or_assoc]

/-- A packet keeps the bytes that were at the address. -/
theorem pointer_dataVector {k size : ℕ} (h : k < size) (p : Pointer) :
    pointer (dataVector p size) k = p k := by
  rw [pointer, dataVector, List.getD_eq_getElem?_getD, List.getElem?_map,
    List.getElem?_range h]
  rfl

/-- A copy of the bytes at an address has the same channel. -/
theorem headerChannel_dataVector {size : ℕ} (h : 8 ≤ size) (isVoltage : Bool) (p : Pointer) :
    headerChannel isVoltage (pointer (dataVector p size)) = headerChannel isVoltage p := by
  have hword : be64toh (pointer (dataVector p size)) 0 = be64toh p 0 :=
    beToHost_congr fun k hk => pointer_dataVector (by omega) p
  have hchan : voltageChan (pointer (dataVector p size)) = voltageChan p :=
    beToHost_congr fun k hk => pointer_dataVector (by omega) p
  rw [headerChannel, headerChannel, hword, hchan]

/-- What a synchronized receiver shares with the one before. -/
structure Synchronized (r r' : Receiver) : Prop where
  found : r'.dFoundStartChannel = true
  stopThread : r'.stopThread = r.stopThread
  pcapFileDone : r'.pcapFileDone = r.pcapFileDone

/-- A packet is skipped before the first one of the starting channel. Every other
packet finds or makes the receiver synchronized. -/
theorem synchronize_cases (isVoltage : Bool) {c : Config} (hsize : 8 ≤ c.totalPacketSize)
    (p : Pointer) (r : Receiver) :
    (synchronize isVoltage c p r = none ∧
      Skips isVoltage c r.dFoundStartChannel (dataVector p c.totalPacketSize)) ∨
    ∃ r', synchronize isVoltage c p r = some r' ∧ Synchronized r r' ∧
      ¬ Skips isVoltage c r.dFoundStartChannel (dataVector p c.totalPacketSize) := by
  have hchan := headerChannel_dataVector hsize isVoltage p
  rw [Skips, hchan]
  cases hfound : r.dFoundStartChannel with
  | true => exact Or.inr ⟨r, if_pos hfound, ⟨hfound, rfl, rfl⟩, fun h => by cases h.1⟩
  | false =>
    rw [synchronize, hfound, if_neg Bool.false_ne_true]
    by_cases hstart : headerChannel isVoltage p = c.dStartingChannel
    · right
      cases isVoltage with
      | true => exact ⟨_, if_pos hstart, ⟨rfl, rfl, rfl⟩, fun h => h.2 hstart⟩
      | false => exact ⟨_, if_pos hstart, ⟨rfl, rfl, rfl⟩, fun h => h.2 hstart⟩
    · left
      cases isVoltage with
      | true => exact ⟨if_neg hstart, rfl, hstart⟩
      | false => exact ⟨if_neg hstart, rfl, hstart⟩

-- ════════════════════════════════════════════════════════════════════════
-- The packets that are queued
-- ════════════════════════════════════════════════════════════════════════

/-- What becomes of a list of payloads: from the starting channel on, those that
pass a filter are queued. -/
structure Handled (isVoltage : Bool) (c : Config) (filter : Packet → Bool) (ps : List Packet)
    (s s' : Ingress) : Prop where
  delivered : s'.delivered = s.delivered ++ ps
  placed : s'.placed =
    s.placed ++ (fromStart isVoltage c s.recv.dFoundStartChannel ps).filter filter
  found : s'.recv.dFoundStartChannel = startSeen isVoltage c s.recv.dFoundStartChannel ps

variable {filter : Packet → Bool}

/-- A step that examines nothing. -/
theorem Handled.of_same (hdelivered : s'.delivered = s.delivered) (hplaced : s'.placed = s.placed)
    (hfound : s'.recv.dFoundStartChannel = s.recv.dFoundStartChannel) :
    Handled isVoltage c filter [] s s' := by
  constructor <;> simp [hdelivered, hplaced, hfound]

theorem Handled.refl (s : Ingress) : Handled isVoltage c filter [] s s := .of_same rfl rfl rfl

theorem Handled.trans {ps qs : List Packet} (h : Handled isVoltage c filter ps s s')
    (h' : Handled isVoltage c filter qs s' s'') : Handled isVoltage c filter (ps ++ qs) s s'' where
  delivered := by rw [h'.delivered, h.delivered, List.append_assoc]
  placed := by
    rw [h'.placed, h.placed, h.found, fromStart_append, List.filter_append, List.append_assoc]
  found := by rw [h'.found, h.found, startSeen_append]

/-- A step that handles one payload at a time handles a list of them. -/
theorem Handled.foldl {step : Ingress → Pointer → Ingress}
    (hstep : ∀ s p, Handled isVoltage c filter [dataVector p c.totalPacketSize] s (step s p))
    (ps : List Pointer) (s : Ingress) :
    Handled isVoltage c filter (ps.map (dataVector · c.totalPacketSize)) s
      (ps.foldl step s) := by
  induction ps generalizing s with
  | nil => exact .refl s
  | cons p ps ih => exact (hstep s p).trans (ih (step s p))

/-- The network path has no filter. -/
def unfiltered (_ : Packet) : Bool := true

/-- The capture path keeps the expected channels. -/
def expected (isVoltage : Bool) (c : Config) (p : Packet) : Bool :=
  ¬ unexpectedChannel c (headerChannel isVoltage (pointer p))

@[simp] theorem filter_unfiltered (ps : List Packet) : ps.filter unfiltered = ps :=
  List.filter_true ps

variable (isVoltage) in
theorem mmsgPacket_handled (hsize : 8 ≤ c.totalPacketSize) (s : Ingress) (p : Pointer) :
    Handled isVoltage c unfiltered [dataVector p c.totalPacketSize] s
      (mmsgPacket isVoltage c s p) := by
  rw [mmsgPacket]
  rcases synchronize_cases isVoltage hsize p s.recv with
    ⟨hsync, hskips⟩ | ⟨r', hsync, hr', hskips⟩
  · simp only [deliver, hsync]
    constructor <;> simp [fromStart_cons_skips hskips, startSeen_cons_skips hskips]
  · simp only [deliver, hsync]
    constructor <;>
      simp [queuePacket, fromStart_cons_of_not hskips, startSeen_cons_of_not hskips, hr'.found]

variable (isVoltage) in
theorem pcapPacket_handled (hsize : 8 ≤ c.totalPacketSize) (s : Ingress) (p : Pointer) :
    Handled isVoltage c (expected isVoltage c) [dataVector p c.totalPacketSize] s
      (pcapPacket isVoltage c s p) := by
  have hchan := headerChannel_dataVector hsize isVoltage p
  rw [pcapPacket]
  rcases synchronize_cases isVoltage hsize p s.recv with
    ⟨hsync, hskips⟩ | ⟨r', hsync, hr', hskips⟩
  · simp only [deliver, hsync]
    constructor <;> simp [fromStart_cons_skips hskips, startSeen_cons_skips hskips]
  · simp only [deliver, hsync]
    by_cases hbad : unexpectedChannel c (headerChannel isVoltage p)
    · rw [if_pos hbad]
      constructor <;> simp [fromStart_cons_of_not hskips, startSeen_cons_of_not hskips,
        hr'.found, expected, hchan, hbad]
    · rw [if_neg hbad]
      constructor <;> simp [queuePacket, fromStart_cons_of_not hskips,
        startSeen_cons_of_not hskips, hr'.found, expected, hchan, hbad]

/-- The packets that a batch of datagrams leaves in the receive buffers. -/
def examined (c : Config) (bufs : ℕ → Pointer) (datagrams : List Packet) : List Packet :=
  let batch := datagrams.take MMSG_LENGTH
  (List.range batch.length).map fun i => dataVector (recvmmsg c batch bufs i) c.totalPacketSize

variable (isVoltage) in
/-- The network path queues every packet from the starting channel on. -/
theorem mmsgReceive_handled (hsize : 8 ≤ c.totalPacketSize) (datagrams : List Packet)
    (s : Ingress) :
    Handled isVoltage c unfiltered (examined c s.recv.bufs datagrams) s
      (mmsgReceive isVoltage c datagrams s) := by
  have h := Handled.foldl (mmsgPacket_handled isVoltage hsize)
    ((List.range (datagrams.take MMSG_LENGTH).length).map
      (recvmmsg c (datagrams.take MMSG_LENGTH) s.recv.bufs))
    { s with recv := { s.recv with
      bufs := recvmmsg c (datagrams.take MMSG_LENGTH) s.recv.bufs } }
  rw [List.map_map] at h
  exact ⟨h.delivered, h.placed, h.found⟩

/-- A datagram of the size of a packet overwrites what its buffer held. -/
theorem dataVector_receiveInto {d : Packet} (hd : d.length = c.totalPacketSize) (buf : Pointer) :
    dataVector (receiveInto c d buf) c.totalPacketSize = d := by
  apply List.ext_getElem
  · rw [dataVector, List.length_map, List.length_range, hd]
  · intro k hk hk'
    simp only [dataVector, List.getElem_map, List.getElem_range]
    rw [receiveInto, if_pos (by omega), List.getD_eq_getElem _ _ hk']

/-- The packet that is examined for a datagram. -/
theorem examined_getElem? (bufs : ℕ → Pointer) {datagrams : List Packet} {i : ℕ} {d : Packet}
    (hd : (datagrams.take MMSG_LENGTH)[i]? = some d) :
    (examined c bufs datagrams)[i]? =
      some (dataVector (receiveInto c d (bufs i)) c.totalPacketSize) := by
  have hlt : i < (datagrams.take MMSG_LENGTH).length := (List.getElem?_eq_some_iff.mp hd).1
  have hbuf : recvmmsg c (datagrams.take MMSG_LENGTH) bufs i = receiveInto c d (bufs i) := by
    rw [recvmmsg, hd]
  rw [examined, List.getElem?_map, List.getElem?_range hlt, Option.map_some, hbuf]

/-- Datagrams of the size of a packet are examined as they are. -/
theorem examined_of_fullSize {bufs : ℕ → Pointer} {datagrams : List Packet}
    (hfull : ∀ d ∈ datagrams, d.length = c.totalPacketSize)
    (hbatch : datagrams.length ≤ MMSG_LENGTH) : examined c bufs datagrams = datagrams := by
  have htake := List.take_of_length_le hbatch
  apply List.ext_getElem
  · rw [examined, List.length_map, List.length_range, htake]
  · intro i hi hi'
    have hd : (datagrams.take MMSG_LENGTH)[i]? = some datagrams[i] := by
      rw [htake, List.getElem?_eq_getElem hi']
    have hexamined := examined_getElem? (c := c) bufs hd
    rw [dataVector_receiveInto (hfull _ (List.getElem_mem hi'))] at hexamined
    exact (List.getElem?_eq_some_iff.mp hexamined).2

variable (isVoltage) in
/-- What a packet from a capture leaves alone. -/
theorem pcapPacket_kept (hsize : 8 ≤ c.totalPacketSize) (s : Ingress) (p : Pointer) :
    (pcapPacket isVoltage c s p).recv.stopThread = s.recv.stopThread ∧
      (pcapPacket isVoltage c s p).recv.pcapFileDone = s.recv.pcapFileDone := by
  rw [pcapPacket]
  rcases synchronize_cases isVoltage hsize p s.recv with ⟨hsync, -⟩ | ⟨r', hsync, hr', -⟩
  · simp only [deliver, hsync, and_self]
  · simp only [deliver, hsync]
    by_cases hbad : unexpectedChannel c (headerChannel isVoltage p)
    · simp [hbad, hr'.stopThread, hr'.pcapFileDone]
    · simp [hbad, queuePacket, hr'.stopThread, hr'.pcapFileDone]

/-- The payloads of a capture. -/
def payloads (c : Config) (records : List Record) : List Packet :=
  (records.filterMap (udpPayload c)).map (dataVector · c.totalPacketSize)

/-- What a refill does with the payloads that it reads. -/
structure Reads (isVoltage : Bool) (c : Config) (records : List Record) (read : List Packet)
    (rest : List Record) (s s' : Ingress) : Prop where
  handled : Handled isVoltage c (expected isVoltage c) read s s'
  kept : s'.recv.stopThread = s.recv.stopThread
  suffix : rest <:+ records
  complete : s.recv.stopThread = false → payloads c records = read ++ payloads c rest

variable (isVoltage) in
/-- The loop over the records handles the payloads it reads, in order. -/
theorem pcapLoop_reads (hsize : 8 ≤ c.totalPacketSize) (records : List Record)
    (matchingPackets : ℤ) (s : Ingress) :
    ∃ read rest ended s', pcapLoop isVoltage c records matchingPackets s = (ended, s') ∧
      Reads isVoltage c records read rest s s' ∧ s'.recv.pcapFile = rest ∧
      s'.recv.pcapFileDone = s.recv.pcapFileDone ∧ (ended = true → rest = []) := by
  induction records generalizing matchingPackets s with
  | nil =>
    exact ⟨[], [], _, _, rfl, ⟨.of_same rfl rfl rfl, rfl, List.suffix_rfl, fun _ => rfl⟩, rfl, rfl,
      fun _ => rfl⟩
  | cons record rest ih =>
    rw [pcapLoop]
    by_cases hmore : matchingPackets < reloadSize c
    · rw [if_pos hmore]
      cases hstop : s.recv.stopThread with
      | true =>
        refine ⟨[], rest, false, _, rfl,
          ⟨.of_same rfl rfl rfl, rfl, List.suffix_cons _ _, ?_⟩, rfl, rfl, Bool.noConfusion⟩
        exact fun h => Bool.noConfusion (hstop.symm.trans h)
      | false =>
        rw [if_neg Bool.false_ne_true]
        cases hpayload : udpPayload c record with
        | none =>
          obtain ⟨read, rest', ended, s', hloop, hreads, hfile, hdone, hended⟩ :=
            ih matchingPackets s
          refine ⟨read, rest', ended, s', hloop, ⟨hreads.handled, hreads.kept,
            hreads.suffix.trans (List.suffix_cons _ _), fun _ => ?_⟩, hfile, hdone, hended⟩
          rw [payloads, List.filterMap_cons, hpayload]
          exact hreads.complete hstop
        | some pData =>
          obtain ⟨hstop', hdone'⟩ := pcapPacket_kept isVoltage hsize s pData
          obtain ⟨read, rest', ended, s', hloop, hreads, hfile, hdone, hended⟩ :=
            ih (matchingPackets + 1) (pcapPacket isVoltage c s pData)
          refine ⟨dataVector pData c.totalPacketSize :: read, rest', ended, s', hloop,
            ⟨(pcapPacket_handled isVoltage hsize s pData).trans hreads.handled,
              hreads.kept.trans hstop', hreads.suffix.trans (List.suffix_cons _ _),
              fun _ => ?_⟩, hfile, hdone.trans hdone', hended⟩
          rw [payloads, List.filterMap_cons, hpayload, List.map_cons, List.cons_append]
          exact congrArg (_ :: ·) (hreads.complete (hstop'.trans hstop))
    · rw [if_neg hmore]
      exact ⟨[], record :: rest, false, _, rfl,
        ⟨.of_same rfl rfl rfl, rfl, List.suffix_rfl, fun _ => rfl⟩, rfl, rfl, Bool.noConfusion⟩

/-- A loop that has read enough packets does not look for the end of the file. -/
theorem pcapLoop_enough {first rest : List Record} {matchingPackets : ℤ} {s : Ingress}
    (hfirst : ∀ r ∈ first, (udpPayload c r).isSome = true)
    (henough : reloadSize c ≤ matchingPackets + first.length) (hrest : rest ≠ []) :
    (pcapLoop isVoltage c (first ++ rest) matchingPackets s).1 = false := by
  induction first generalizing matchingPackets s with
  | nil =>
    obtain ⟨record, rest, rfl⟩ := List.exists_cons_of_ne_nil hrest
    rw [List.length_nil, Int.natCast_zero, add_zero] at henough
    rw [List.nil_append, pcapLoop, if_neg (not_lt.mpr henough)]
  | cons record first ih =>
    obtain ⟨hrecord, hfirst⟩ := List.forall_mem_cons.mp hfirst
    rw [List.length_cons] at henough
    rw [List.cons_append, pcapLoop]
    by_cases hmore : matchingPackets < reloadSize c
    · rw [if_pos hmore]
      by_cases hstop : s.recv.stopThread = true
      · rw [if_pos hstop]
      · rw [if_neg hstop]
        obtain ⟨pData, hpayload⟩ := Option.isSome_iff_exists.mp hrecord
        rw [hpayload]
        exact ih hfirst (by omega)
    · rw [if_neg hmore]

variable (isVoltage) in
/-- The capture path queues the packets of expected channels from the starting
channel on. A capture that is not repeated is read once. -/
theorem queuePcapData_handled (hsize : 8 ≤ c.totalPacketSize) (capture : List Record)
    (minPcapQueueSize : ℤ) (s : Ingress) :
    ∃ read rest, Reads isVoltage c s.recv.pcapFile read rest s
        (queuePcapData isVoltage c capture minPcapQueueSize s) ∧
      (c.dRepeatFile = false →
        (queuePcapData isVoltage c capture minPcapQueueSize s).recv.pcapFile = rest ∧
        ((queuePcapData isVoltage c capture minPcapQueueSize s).recv.pcapFileDone = true →
          s.recv.pcapFileDone = true ∨ rest = [])) := by
  rw [queuePcapData]
  by_cases hmin : (s.recv.dLocalqueue.length : ℤ) < minPcapQueueSize
  · obtain ⟨read, rest, ended, s', hloop, hreads, hfile, hdone, hended⟩ :=
      pcapLoop_reads isVoltage hsize s.recv.pcapFile 0 s
    obtain ⟨hhandled, hkept, hsuffix, hcomplete⟩ := hreads
    refine ⟨read, rest, ?_⟩
    rw [if_pos hmin, hloop]
    cases ended with
    | true =>
      cases hrepeat : c.dRepeatFile with
      | true =>
        exact ⟨⟨⟨hhandled.delivered, hhandled.placed, hhandled.found⟩, hkept,
          hsuffix, hcomplete⟩,
          Bool.noConfusion⟩
      | false =>
        exact ⟨⟨⟨hhandled.delivered, hhandled.placed, hhandled.found⟩, hkept,
          hsuffix, hcomplete⟩,
          fun _ => ⟨hfile, fun _ => Or.inr (hended rfl)⟩⟩
    | false =>
      exact ⟨⟨hhandled, hkept, hsuffix, hcomplete⟩,
        fun _ => ⟨hfile, fun h => Or.inl (hdone.symm.trans h)⟩⟩
  · rw [if_neg hmin]
    exact ⟨[], s.recv.pcapFile, ⟨.refl s, rfl, List.suffix_rfl, fun _ => rfl⟩,
      fun _ => ⟨rfl, Or.inl⟩⟩

end GrAta
