import GrAta.Snap.Encoding
import GrAta.Snap.Ingress

/-!
# Captured frames

The layout of a captured Ethernet frame: addresses, at most one VLAN tag, a type,
an IPv4 header of variable length and a UDP header. `queue_pcap_data` finds the
payload at positions that it computes from fields of the frame. The one length it
checks is that the record was not truncated.

## Main definitions

- `IsUdp`, `udpOffset`, `udpData`: the fields of a frame by position
- `bytesRead`: the positions that `queue_pcap_data` reads, in program order, `payloadRead` among
  them
- `LongEnough`, `HoldsPacket`: the records that have all of these bytes

## Main results

- `udpPayload_eq`: which records are accepted, and where their payload is
- `pcapRecord_congr`: nothing but the bytes of `bytesRead` decides what is queued
- `staysInside_iff`: when the reads stay inside the record
-/

namespace GrAta

variable (c : Config) (r : Record)

/-- The bytes of a VLAN tag, if there is one in front of the type. -/
def vlanBytes : ℕ := if be16toh r.byte 12 = ETHERTYPE_VLAN then 4 else 0

/-- The type of the frame, behind the addresses and the tag. -/
def etherType : ℕ := be16toh r.byte (12 + vlanBytes r)

/-- The first byte of the IP header. -/
def ipOffset : ℕ := 14 + vlanBytes r

def ipVersion : ℕ := (r.byte (ipOffset r) >>> 4).toNat

def ipProtocol : ℕ := (r.byte (ipOffset r + 9)).toNat

/-- The length of the IP header, which is given in words of four bytes. -/
def ipHeaderLength : ℕ := (r.byte (ipOffset r) &&& 0x0F).toNat * 4

/-- The first byte of the UDP header. -/
def udpOffset : ℕ := ipOffset r + ipHeaderLength r

def udpDestPort : ℕ := be16toh r.byte (udpOffset r + 2)

/-- The length field of the UDP header, which counts the eight bytes of the header. -/
def udpLength : ℕ := be16toh r.byte (udpOffset r + 4)

/-- The payload that the UDP header announces. -/
def udpData : Packet := dataVector (advance r.byte (udpOffset r + 8)) (udpLength r - 8)

/-- An IPv4 frame that carries UDP. -/
def IsUdp : Prop := etherType r = ETHERTYPE_IP ∧ ipVersion r = 4 ∧ ipProtocol r = IPPROTO_UDP

instance : Decidable (IsUdp r) := inferInstanceAs (Decidable (_ ∧ _))

/-- One of several fragments of a datagram: more fragments follow, or the offset of
the fragment is not zero. -/
def IsFragment : Prop := be16toh r.byte (ipOffset r + 6) % 2 ^ 14 ≠ 0

instance : Decidable (IsFragment r) := inferInstanceAs (Decidable (_ ≠ _))

/-- A datagram for the port of the block, with the length of a packet. -/
def ForBlock : Prop :=
  (udpDestPort r : ℤ) = c.dPort ∧ toSizeT ((udpLength r : ℤ) - 8) = c.totalPacketSize

instance : Decidable (ForBlock c r) := inferInstanceAs (Decidable (_ ∧ _))

/-- A record whose payload is taken. -/
def Accepted : Prop := r.len = r.caplen ∧ IsUdp r ∧ ForBlock c r

instance : Decidable (Accepted c r) := inferInstanceAs (Decidable (_ ∧ _))

theorem be16toh_advance (p : Pointer) (n start : ℕ) :
    be16toh (advance p n) start = be16toh p (n + start) := by
  simp only [be16toh, beToHost, advance, Nat.add_assoc]

theorem advance_advance (p : Pointer) (m n : ℕ) :
    advance (advance p m) n = advance p (m + n) := by
  funext k
  simp only [advance, Nat.add_assoc]

theorem advance_zero (p : Pointer) : advance p 0 = p := by
  funext k
  simp only [advance, Nat.zero_add]

/-- **The accepted records**, and the payload of one. -/
theorem udpPayload_eq :
    udpPayload c r =
      if Accepted c r then some (advance r.byte (udpOffset r + 8)) else none := by
  have hp : (if be16toh r.byte 12 = ETHERTYPE_VLAN then advance r.byte 4 else r.byte) =
      advance r.byte (vlanBytes r) := by
    rw [vlanBytes]
    split
    · rfl
    · exact (advance_zero r.byte).symm
  have hbyte (k : ℕ) : advance r.byte (vlanBytes r) (14 + k) = r.byte (ipOffset r + k) := by
    rw [advance, ipOffset]
    congr 1
    omega
  have hudp (k : ℕ) : vlanBytes r + (14 + ipHeaderLength r + k) = udpOffset r + k := by
    rw [udpOffset, ipOffset]
    omega
  have hprotocol : advance r.byte (vlanBytes r) 23 = r.byte (ipOffset r + 9) := hbyte 9
  have hversion : advance r.byte (vlanBytes r) 14 = r.byte (ipOffset r) := hbyte 0
  have htype : be16toh (advance r.byte (vlanBytes r)) 12 = etherType r := by
    rw [be16toh_advance, Nat.add_comm, etherType]
  rw [udpPayload]
  by_cases hlen : r.len = r.caplen
  · rw [if_neg (not_not_intro hlen)]
    simp only [hp, htype, hversion, hprotocol]
    rw [← ipVersion, ← ipProtocol, ← ipHeaderLength, be16toh_advance, be16toh_advance, hudp,
      hudp, ← udpDestPort, ← udpLength, advance_advance, hudp]
    by_cases hudp : IsUdp r
    · rw [if_neg (not_not_intro hudp.1), if_neg (not_not_intro hudp.2.1),
        if_neg (not_not_intro hudp.2.2)]
      exact if_congr ⟨fun h => ⟨hlen, hudp, h⟩, fun h => h.2.2⟩ rfl rfl
    · rw [if_neg fun h : Accepted c r => hudp h.2.1]
      split_ifs with htype hversion hprotocol
      · rfl
      · rfl
      · rfl
      · exact absurd ⟨not_not.mp htype, not_not.mp hversion, not_not.mp hprotocol⟩ hudp
      · rfl
  · rw [if_pos hlen, if_neg fun h => hlen h.1]

-- ════════════════════════════════════════════════════════════════════════
-- The bytes that are read
-- ════════════════════════════════════════════════════════════════════════

variable (isVoltage : Bool) (recv : Receiver) (pData : Pointer)

/-- The bytes of a packet that hold its channel. -/
def channelBytes : List ℕ := if isVoltage then [4, 5] else List.range 8

/-- The bytes that `get_voltage_header` and `get_spect_header` read. -/
def headerBytes : List ℕ :=
  if isVoltage then [6, 7, 4, 5, 0] ++ List.range' 8 8 ++ [1] else List.range 8

/-- The packet on which the receiver synchronizes. -/
def Starts : Prop :=
  recv.dFoundStartChannel = false ∧ headerChannel isVoltage pData = c.dStartingChannel

instance : Decidable (Starts c isVoltage recv pData) := inferInstanceAs (Decidable (_ ∧ _))

/-- A packet that passes both `continue` in front of the copy. -/
def Keeps : Prop :=
  (recv.dFoundStartChannel ∨ headerChannel isVoltage pData = c.dStartingChannel) ∧
    ¬unexpectedChannel c (headerChannel isVoltage pData)

instance : Decidable (Keeps c isVoltage recv pData) := inferInstanceAs (Decidable (_ ∧ _))

/-- The positions in a payload of the right size that are read, in program order: the
search for the starting channel, the test of the channel, and the copy. -/
def payloadRead : List ℕ :=
  let search :=
    if recv.dFoundStartChannel then []
    else if headerChannel isVoltage pData = c.dStartingChannel then
      channelBytes isVoltage ++ headerBytes isVoltage
    else channelBytes isVoltage
  match synchronize isVoltage c pData recv with
  | none => search
  | some _ =>
    let tested := search ++ channelBytes isVoltage
    if unexpectedChannel c (headerChannel isVoltage pData) then tested
    else tested ++ List.range c.totalPacketSize

/-- The positions in the record that `queue_pcap_data` reads, in program order: the
type, that of a tagged frame, version and header length, protocol, port and length
of the datagram, and those of its payload. -/
def bytesRead : List ℕ :=
  if r.len ≠ r.caplen then []
  else
    let vlan := be16toh r.byte 12 = ETHERTYPE_VLAN
    let p := if vlan then 4 else 0
    let byte := advance r.byte p
    let ether := if vlan then [12, 13, 16, 17] else [12, 13]
    if be16toh byte 12 ≠ ETHERTYPE_IP then ether
    else if (byte 14 >>> 4).toNat ≠ 4 then ether ++ [p + 14]
    else if (byte 23).toNat ≠ IPPROTO_UDP then ether ++ [p + 14, p + 23]
    else
      let udp := p + (14 + (byte 14 &&& 0x0F).toNat * 4)
      let headers := ether ++ [p + 14, p + 23] ++ [udp + 2, udp + 3, udp + 4, udp + 5]
      match udpPayload c r with
      | none => headers
      | some pData => headers ++ (payloadRead c isVoltage recv pData).map (udp + 8 + ·)

/-- The step of the loop of `queue_pcap_data`, for one record. -/
def pcapRecord (s : Ingress) : Ingress :=
  match udpPayload c r with
  | none => s
  | some pData => pcapPacket isVoltage c s pData

/-- The loop examines one record after the other. -/
theorem pcapLoop_cons {matchingPackets : ℤ} {s : Ingress} (hmore : matchingPackets < reloadSize c)
    (hrunning : s.recv.stopThread = false) (rest : List Record) :
    ∃ matchingPackets', pcapLoop isVoltage c (r :: rest) matchingPackets s =
      pcapLoop isVoltage c rest matchingPackets' (pcapRecord c r isVoltage s) := by
  rw [pcapLoop, if_pos hmore, hrunning, if_neg Bool.false_ne_true, pcapRecord]
  cases udpPayload c r with
  | none => exact ⟨_, rfl⟩
  | some pData => exact ⟨_, rfl⟩

variable {c isVoltage recv pData} in
theorem synchronize_eq_none_iff :
    synchronize isVoltage c pData recv = none ↔
      ¬(recv.dFoundStartChannel = true ∨ headerChannel isVoltage pData = c.dStartingChannel) := by
  rw [synchronize, voltageSynchronize, spectSynchronize, headerChannel]
  cases recv.dFoundStartChannel <;> cases isVoltage <;> simp

/-- The bytes that are read of a payload. -/
theorem mem_payloadRead {k : ℕ} :
    k ∈ payloadRead c isVoltage recv pData ↔ k ∈ channelBytes isVoltage ∨
      (Starts c isVoltage recv pData ∧ k ∈ headerBytes isVoltage) ∨
      (Keeps c isVoltage recv pData ∧ k < c.totalPacketSize) := by
  rw [payloadRead, Starts, Keeps]
  cases hsync : synchronize isVoltage c pData recv with
  | none =>
    obtain ⟨hfound, hstart⟩ := not_or.mp (synchronize_eq_none_iff.mp hsync)
    simp [hfound, hstart]
  | some recv' =>
    have hsome : recv.dFoundStartChannel = true ∨
        headerChannel isVoltage pData = c.dStartingChannel := by
      by_contra hnone
      rw [synchronize_eq_none_iff.mpr hnone] at hsync
      cases hsync
    by_cases hbad : unexpectedChannel c (headerChannel isVoltage pData)
    · simp only [hbad, if_true, not_true_eq_false, and_false, false_and, or_false]
      cases hfound : recv.dFoundStartChannel with
      | true => simp
      | false =>
        have hstart := hsome.resolve_left (hfound ▸ Bool.false_ne_true)
        rw [if_neg Bool.false_ne_true, if_pos hstart, List.mem_append, List.mem_append]
        tauto
    · simp only [hbad, if_false, not_false_eq_true, and_true, List.mem_append, List.mem_range]
      cases hfound : recv.dFoundStartChannel with
      | true => simp
      | false =>
        have hstart := hsome.resolve_left (hfound ▸ Bool.false_ne_true)
        rw [if_neg Bool.false_ne_true, if_pos hstart, List.mem_append]
        tauto

/-- The positions of the type fields. -/
def etherBytes : List ℕ :=
  if be16toh r.byte 12 = ETHERTYPE_VLAN then [12, 13, 16, 17] else [12, 13]

/-- The address of the payload. -/
def payload : Pointer := advance r.byte (udpOffset r + 8)

/-- The reads in terms of the fields of the frame. -/
theorem bytesRead_eq :
    bytesRead c r isVoltage recv =
      if r.len ≠ r.caplen then []
      else if etherType r ≠ ETHERTYPE_IP then etherBytes r
      else if ipVersion r ≠ 4 then etherBytes r ++ [ipOffset r]
      else if ipProtocol r ≠ IPPROTO_UDP then etherBytes r ++ [ipOffset r, ipOffset r + 9]
      else etherBytes r ++ [ipOffset r, ipOffset r + 9] ++
        [udpOffset r + 2, udpOffset r + 3, udpOffset r + 4, udpOffset r + 5] ++
        if Accepted c r then (payloadRead c isVoltage recv (payload r)).map (udpOffset r + 8 + ·)
        else [] := by
  have hoffset : vlanBytes r + 14 = ipOffset r := Nat.add_comm _ _
  have hoffset9 : vlanBytes r + 23 = ipOffset r + 9 := by
    rw [← hoffset]
  have hversion : advance r.byte (vlanBytes r) 14 = r.byte (ipOffset r) := by
    rw [advance, hoffset]
  have hprotocol : advance r.byte (vlanBytes r) 23 = r.byte (ipOffset r + 9) := by
    rw [advance, hoffset9]
  have hudp : vlanBytes r + (14 + ipHeaderLength r) = udpOffset r := by
    rw [udpOffset, ← hoffset, Nat.add_assoc]
  rw [bytesRead]
  simp only
  rw [← vlanBytes, ← etherBytes, hversion, hprotocol, be16toh_advance,
    Nat.add_comm (vlanBytes r) 12, ← etherType, ← ipVersion, ← ipProtocol, ← ipHeaderLength, hudp,
    hoffset, hoffset9]
  split
  · rfl
  · split
    · rfl
    · split
      · rfl
      · split
        · rfl
        · rw [udpPayload_eq]
          by_cases haccepted : Accepted c r
          · rw [if_pos haccepted, if_pos haccepted]
            rfl
          · rw [if_neg haccepted, if_neg haccepted, List.append_nil]

variable {c r isVoltage recv}

theorem be16toh_congr {p q : Pointer} {start : ℕ} (h : p start = q start)
    (h' : p (start + 1) = q (start + 1)) : be16toh p start = be16toh q start := by
  refine beToHost_congr fun k hk => ?_
  obtain rfl | rfl : k = 0 ∨ k = 1 := by omega
  · exact h
  · exact h'

/-- The two bytes of the type. -/
theorem mem_etherBytes :
    12 ∈ etherBytes r ∧ 13 ∈ etherBytes r ∧
      12 + vlanBytes r ∈ etherBytes r ∧ 12 + vlanBytes r + 1 ∈ etherBytes r := by
  rw [etherBytes, vlanBytes]
  split <;> simp

theorem etherBytes_subset (h : r.len = r.caplen) :
    etherBytes r ⊆ bytesRead c r isVoltage recv := by
  rw [bytesRead_eq, if_neg (not_not_intro h)]
  split_ifs <;> simp

theorem ipOffset_mem (h : r.len = r.caplen) (htype : etherType r = ETHERTYPE_IP) :
    ipOffset r ∈ bytesRead c r isVoltage recv := by
  rw [bytesRead_eq, if_neg (not_not_intro h), if_neg (not_not_intro htype)]
  split_ifs <;> simp

theorem ipProtocol_mem (h : r.len = r.caplen) (htype : etherType r = ETHERTYPE_IP)
    (hversion : ipVersion r = 4) : ipOffset r + 9 ∈ bytesRead c r isVoltage recv := by
  rw [bytesRead_eq, if_neg (not_not_intro h), if_neg (not_not_intro htype),
    if_neg (not_not_intro hversion)]
  split_ifs <;> simp

/-- What is read of a UDP frame. -/
theorem mem_bytesRead_udp (h : r.len = r.caplen) (hudp : IsUdp r) {k : ℕ} :
    k ∈ bytesRead c r isVoltage recv ↔
      k ∈ etherBytes r ∨ k = ipOffset r ∨ k = ipOffset r + 9 ∨
      (udpOffset r + 2 ≤ k ∧ k ≤ udpOffset r + 5) ∨
      (Accepted c r ∧ ∃ i ∈ payloadRead c isVoltage recv (payload r), udpOffset r + 8 + i = k) := by
  rw [bytesRead_eq, if_neg (not_not_intro h), if_neg (not_not_intro hudp.1),
    if_neg (not_not_intro hudp.2.1), if_neg (not_not_intro hudp.2.2)]
  have hheader : k ∈ [udpOffset r + 2, udpOffset r + 3, udpOffset r + 4, udpOffset r + 5] ↔
      udpOffset r + 2 ≤ k ∧ k ≤ udpOffset r + 5 := by
    simp only [List.mem_cons, List.not_mem_nil, or_false]
    omega
  have hpayload : (k ∈ if Accepted c r then
        (payloadRead c isVoltage recv (payload r)).map (udpOffset r + 8 + ·) else []) ↔
      Accepted c r ∧ ∃ i ∈ payloadRead c isVoltage recv (payload r), udpOffset r + 8 + i = k := by
    split
    next haccepted => simp only [List.mem_map, haccepted, true_and]
    next haccepted => simp [haccepted]
  rw [List.mem_append, hpayload, List.mem_append, hheader, List.mem_append]
  simp only [List.mem_cons, List.not_mem_nil, or_false, or_assoc]

/-- What is read of the payload of an accepted record. -/
theorem payload_mem (haccepted : Accepted c r) {i : ℕ}
    (hi : i ∈ payloadRead c isVoltage recv (payload r)) :
    udpOffset r + 8 + i ∈ bytesRead c r isVoltage recv :=
  (mem_bytesRead_udp haccepted.1 haccepted.2.1).mpr
    (.inr (.inr (.inr (.inr ⟨haccepted, i, hi, rfl⟩))))

/-- The type field and the tag before it say where the datagram starts. -/
theorem etherType_congr {r' : Record} (h : ∀ k ∈ etherBytes r, r.byte k = r'.byte k) :
    etherType r = etherType r' ∧ ipOffset r = ipOffset r' := by
  obtain ⟨h12, h13, htype, htype'⟩ := mem_etherBytes (r := r)
  have hvlan : vlanBytes r = vlanBytes r' := by
    rw [vlanBytes, vlanBytes, be16toh_congr (h 12 h12) (h 13 h13)]
  constructor
  · rw [etherType, etherType, ← hvlan, be16toh_congr (h _ htype) (h _ htype')]
  · rw [ipOffset, ipOffset, hvlan]

/-- Two records that agree on the bytes that are read both hold a datagram, at the same
position, or none of them does. -/
theorem isUdp_congr {r' : Record} (hwhole : r.len = r.caplen)
    (h : ∀ k ∈ bytesRead c r isVoltage recv, r.byte k = r'.byte k) (hor : IsUdp r ∨ IsUdp r') :
    IsUdp r ∧ IsUdp r' ∧ udpOffset r = udpOffset r' := by
  obtain ⟨hether, hip⟩ := etherType_congr fun k hk => h k (etherBytes_subset hwhole hk)
  have hip4 : etherType r = ETHERTYPE_IP := by
    rcases hor with hor | hor
    · exact hor.1
    · exact hether.trans hor.1
  have hfirst := h _ (ipOffset_mem hwhole hip4)
  have hversion : ipVersion r = ipVersion r' := by
    rw [ipVersion, ipVersion, hfirst, hip]
  have hversion4 : ipVersion r = 4 := by
    rcases hor with hor | hor
    · exact hor.2.1
    · exact hversion.trans hor.2.1
  have hprotocol : ipProtocol r = ipProtocol r' := by
    rw [ipProtocol, ipProtocol, h _ (ipProtocol_mem hwhole hip4 hversion4), hip]
  have hihl : ipHeaderLength r = ipHeaderLength r' := by
    rw [ipHeaderLength, ipHeaderLength, hfirst, hip]
  refine ⟨?_, ?_, by rw [udpOffset, udpOffset, hip, hihl]⟩
  · rcases hor with hor | hor
    · exact hor
    · exact ⟨hip4, hversion4, hprotocol.trans hor.2.2⟩
  · rcases hor with hor | hor
    · exact ⟨hether ▸ hip4, hversion ▸ hversion4, hprotocol ▸ hor.2.2⟩
    · exact hor

/-- The fields of the datagram's header. -/
theorem forBlock_congr {r' : Record} (hwhole : r.len = r.caplen) (hudp : IsUdp r)
    (h : ∀ k ∈ bytesRead c r isVoltage recv, r.byte k = r'.byte k)
    (hoffset : udpOffset r = udpOffset r') :
    ForBlock c r ↔ ForBlock c r' := by
  have hheader (i : ℕ) (hi : 2 ≤ i ∧ i ≤ 5) :
      r.byte (udpOffset r + i) = r'.byte (udpOffset r + i) :=
    h _ ((mem_bytesRead_udp hwhole hudp).mpr (by omega))
  have hport : udpDestPort r = udpDestPort r' := by
    rw [udpDestPort, udpDestPort, ← hoffset,
      be16toh_congr (hheader 2 (by omega)) (hheader 3 (by omega))]
  have hlength : udpLength r = udpLength r' := by
    rw [udpLength, udpLength, ← hoffset,
      be16toh_congr (hheader 4 (by omega)) (hheader 5 (by omega))]
  rw [ForBlock, ForBlock, hport, hlength]

theorem headerChannel_congr {p q : Pointer} (h : ∀ i ∈ channelBytes isVoltage, p i = q i) :
    headerChannel isVoltage p = headerChannel isVoltage q := by
  cases isVoltage with
  | true => exact be16toh_congr (h 4 (by decide)) (h 5 (by decide))
  | false =>
    have hword : be64toh p 0 = be64toh q 0 := beToHost_congr fun k hk =>
      h _ (List.mem_range.mpr (by omega))
    exact congrArg spectChan hword

theorem getVoltageHeader_congr {p q : Pointer} (h : ∀ i ∈ headerBytes true, p i = q i) :
    getVoltageHeader p = getVoltageHeader q := by
  have hmem {i : ℕ} (hi : i < 16) (h' : i ≠ 2 ∧ i ≠ 3) : p i = q i := by
    refine h i ?_
    simp [headerBytes]
    omega
  have htimestamp : be64toh p 8 = be64toh q 8 := beToHost_congr fun k hk =>
    hmem (by omega) (by omega)
  rw [getVoltageHeader, getVoltageHeader, voltageChan, voltageChan, htimestamp,
    be16toh_congr (hmem (by decide) (by decide)) (hmem (by decide) (by decide)),
    be16toh_congr (hmem (by decide) (by decide)) (hmem (by decide) (by decide)),
    hmem (i := 0) (by decide) (by decide), hmem (i := 1) (by decide) (by decide)]

theorem synchronize_congr {p q : Pointer}
    (hchannel : headerChannel isVoltage p = headerChannel isVoltage q)
    (h : Starts c isVoltage recv p → ∀ i ∈ headerBytes isVoltage, p i = q i) :
    synchronize isVoltage c p recv = synchronize isVoltage c q recv := by
  by_cases hfound : recv.dFoundStartChannel = true
  · rw [synchronize, if_pos hfound, synchronize, if_pos hfound]
  · rw [synchronize, if_neg hfound, synchronize, if_neg hfound]
    by_cases hstart : headerChannel isVoltage p = c.dStartingChannel
    · have hheader := h ⟨Bool.eq_false_iff.mpr hfound, hstart⟩
      cases isVoltage with
      | true =>
        simp only [if_true, voltageSynchronize, getVoltageHeader_congr hheader,
          show voltageChan p = voltageChan q from hchannel]
      | false =>
        have hword : be64toh p 0 = be64toh q 0 := beToHost_congr fun k hk =>
          hheader _ (List.mem_range.mpr (by omega))
        simp only [Bool.false_eq_true, if_false, spectSynchronize, getSpectHeader, hword]
    · have hstart' : ¬headerChannel isVoltage q = c.dStartingChannel := hchannel ▸ hstart
      cases isVoltage with
      | true => exact (if_neg hstart).trans (if_neg hstart').symm
      | false => exact (if_neg hstart).trans (if_neg hstart').symm

/-- Two packets that agree on the bytes that are read of one of them. -/
theorem pcapPacket_congr {s : Ingress} {p q : Pointer}
    (h : ∀ i ∈ payloadRead c isVoltage s.recv p, p i = q i) :
    (pcapPacket isVoltage c s p).recv = (pcapPacket isVoltage c s q).recv ∧
      (pcapPacket isVoltage c s p).placed = (pcapPacket isVoltage c s q).placed := by
  have hchannel : headerChannel isVoltage p = headerChannel isVoltage q :=
    headerChannel_congr fun i hi => h i ((mem_payloadRead c isVoltage s.recv p).mpr (.inl hi))
  have hsync : synchronize isVoltage c p s.recv = synchronize isVoltage c q s.recv :=
    synchronize_congr hchannel fun hstarts i hi =>
      h i ((mem_payloadRead c isVoltage s.recv p).mpr (.inr (.inl ⟨hstarts, hi⟩)))
  rw [pcapPacket, pcapPacket]
  simp only [deliver]
  rw [hchannel, hsync]
  cases hs : synchronize isVoltage c q s.recv with
  | none => exact ⟨rfl, rfl⟩
  | some recv' =>
    by_cases hbad : unexpectedChannel c (headerChannel isVoltage q)
    · simp only [if_pos hbad, and_self]
    · have hkeeps : Keeps c isVoltage s.recv p := by
        rw [Keeps, hchannel]
        refine ⟨?_, hbad⟩
        by_contra hnone
        rw [synchronize_eq_none_iff.mpr hnone] at hs
        cases hs
      have hdata : dataVector p c.totalPacketSize = dataVector q c.totalPacketSize :=
        List.map_congr_left fun i hi => h i ((mem_payloadRead c isVoltage s.recv p).mpr
          (.inr (.inr ⟨hkeeps, List.mem_range.mp hi⟩)))
      simp only [if_neg hbad, queuePacket, hdata, and_self]

/-- **The bytes that count.** Two records that agree on the bytes that are read of
one of them leave the same receiver behind, with the same packets queued. -/
theorem pcapRecord_congr {r' : Record} {s : Ingress} (hlen : r.len = r'.len)
    (hcaplen : r.caplen = r'.caplen)
    (h : ∀ k ∈ bytesRead c r isVoltage s.recv, r.byte k = r'.byte k) :
    (pcapRecord c r isVoltage s).recv = (pcapRecord c r' isVoltage s).recv ∧
      (pcapRecord c r isVoltage s).placed = (pcapRecord c r' isVoltage s).placed := by
  rw [pcapRecord, pcapRecord, udpPayload_eq, udpPayload_eq]
  by_cases hwhole : r.len = r.caplen
  swap
  · rw [if_neg fun ha : Accepted c r => hwhole ha.1,
      if_neg fun ha : Accepted c r' => hwhole (by rw [hlen, hcaplen, ha.1])]
    exact ⟨rfl, rfl⟩
  by_cases hudp : IsUdp r ∨ IsUdp r'
  swap
  · rw [if_neg fun ha : Accepted c r => hudp (Or.inl ha.2.1),
      if_neg fun ha : Accepted c r' => hudp (Or.inr ha.2.1)]
    exact ⟨rfl, rfl⟩
  obtain ⟨hudp, hudp', hoffset⟩ := isUdp_congr hwhole h hudp
  have hforBlock := forBlock_congr hwhole hudp h hoffset
  by_cases haccepted : Accepted c r
  · have haccepted' : Accepted c r' :=
      ⟨by rw [← hlen, ← hcaplen, hwhole], hudp', hforBlock.mp haccepted.2.2⟩
    rw [if_pos haccepted, if_pos haccepted', ← hoffset]
    exact pcapPacket_congr fun i hi => h _ (payload_mem haccepted hi)
  · rw [if_neg haccepted, if_neg fun h' => haccepted ⟨hwhole, hudp, hforBlock.mpr h'.2.2⟩]
    exact ⟨rfl, rfl⟩

-- ════════════════════════════════════════════════════════════════════════
-- Reads inside the record
-- ════════════════════════════════════════════════════════════════════════

variable (c r)

variable (isVoltage) in
/-- The reads stay inside the record, and nothing is queued from a record that does not hold
its headers, is a fragment, or claims more bytes than were captured. -/
structure StaysInside (s : Ingress) : Prop where
  reads : ∀ k ∈ bytesRead c r isVoltage s.recv, k < r.caplen
  headers : r.caplen < udpOffset r + 8 → (pcapRecord c r isVoltage s).placed = s.placed
  fragments : IsFragment r → (pcapRecord c r isVoltage s).placed = s.placed
  claims : r.caplen < udpOffset r + udpLength r →
    (pcapRecord c r isVoltage s).placed = s.placed

/-- The record has the bytes of the headers that it is examined for. -/
def LongEnough : Prop :=
  14 + vlanBytes r ≤ r.caplen ∧
    (etherType r = ETHERTYPE_IP → ipOffset r < r.caplen ∧
      (ipVersion r = 4 → ipOffset r + 9 < r.caplen ∧
        (ipProtocol r = IPPROTO_UDP → udpOffset r + 6 ≤ r.caplen)))

instance : Decidable (LongEnough r) := inferInstanceAs (Decidable (_ ∧ _))

variable (isVoltage recv) in
/-- The record has the bytes of the packet that are looked at: those of the channel, those of
the header if the receiver synchronizes on the packet, and the whole packet if it is kept. -/
structure HoldsPacket : Prop where
  channel : udpOffset r + 8 + (if isVoltage then 6 else 8) ≤ r.caplen
  header : Starts c isVoltage recv (payload r) →
    udpOffset r + 8 + (if isVoltage then 16 else 8) ≤ r.caplen
  packet : Keeps c isVoltage recv (payload r) → udpOffset r + 8 + c.totalPacketSize ≤ r.caplen

variable {c r}

theorem etherBytes_inBounds_iff :
    (∀ k ∈ etherBytes r, k < r.caplen) ↔ 14 + vlanBytes r ≤ r.caplen := by
  rw [etherBytes, vlanBytes]
  split <;> simp <;> omega

/-- The last of some positions decides. -/
theorem forall_add_lt_iff {l : List ℕ} {n : ℕ} (hn : n ∈ l) (hle : ∀ i ∈ l, i ≤ n)
    (start size : ℕ) : (∀ i ∈ l, start + i < size) ↔ start + (n + 1) ≤ size :=
  ⟨fun h => h n hn, fun h i hi => (Nat.add_le_add_left (hle i hi) start).trans_lt h⟩

/-- The bytes that are read of a packet. -/
theorem payload_inBounds_iff (hsize : 1 ≤ c.totalPacketSize) :
    (∀ i ∈ payloadRead c isVoltage recv (payload r), udpOffset r + 8 + i < r.caplen) ↔
      HoldsPacket c r isVoltage recv := by
  have hchannel : (∀ i ∈ channelBytes isVoltage, udpOffset r + 8 + i < r.caplen) ↔
      udpOffset r + 8 + (if isVoltage then 6 else 8) ≤ r.caplen := by
    cases isVoltage <;> exact forall_add_lt_iff (by decide) (by decide) _ _
  have hheader : (∀ i ∈ headerBytes isVoltage, udpOffset r + 8 + i < r.caplen) ↔
      udpOffset r + 8 + (if isVoltage then 16 else 8) ≤ r.caplen := by
    cases isVoltage <;> exact forall_add_lt_iff (by decide) (by decide) _ _
  have hpacket : (∀ i < c.totalPacketSize, udpOffset r + 8 + i < r.caplen) ↔
      udpOffset r + 8 + c.totalPacketSize ≤ r.caplen := by
    have hlast := forall_add_lt_iff (l := List.range c.totalPacketSize)
      (List.mem_range.mpr (Nat.sub_lt hsize one_pos))
      (fun i hi => Nat.le_sub_one_of_lt (List.mem_range.mp hi)) (udpOffset r + 8) r.caplen
    simpa only [Nat.sub_add_cancel hsize, List.mem_range] using hlast
  constructor
  · intro h
    refine ⟨hchannel.mp fun i hi => ?_, fun hstarts => hheader.mp fun i hi => ?_,
      fun hkeeps => hpacket.mp fun i hi => ?_⟩
    · exact h i ((mem_payloadRead c isVoltage recv _).mpr (.inl hi))
    · exact h i ((mem_payloadRead c isVoltage recv _).mpr (.inr (.inl ⟨hstarts, hi⟩)))
    · exact h i ((mem_payloadRead c isVoltage recv _).mpr (.inr (.inr ⟨hkeeps, hi⟩)))
  · intro h i hi
    rcases (mem_payloadRead c isVoltage recv _).mp hi with hi | ⟨hstarts, hi⟩ | ⟨hkeeps, hi⟩
    · exact hchannel.mpr h.channel i hi
    · exact hheader.mpr (h.header hstarts) i hi
    · exact hpacket.mpr (h.packet hkeeps) i hi

theorem reads_inBounds_iff (h : r.len = r.caplen) (hsize : 1 ≤ c.totalPacketSize) :
    (∀ k ∈ bytesRead c r isVoltage recv, k < r.caplen) ↔
      LongEnough r ∧ (Accepted c r → HoldsPacket c r isVoltage recv) := by
  rw [LongEnough, ← etherBytes_inBounds_iff]
  by_cases hudp : IsUdp r
  · have hmem := fun k => @mem_bytesRead_udp c r isVoltage recv h hudp k
    constructor
    · intro hreads
      refine ⟨⟨fun k hk => hreads k (etherBytes_subset h hk), fun htype => ⟨?_, fun hversion =>
        ⟨?_, fun _ => ?_⟩⟩⟩, fun haccepted => ?_⟩
      · exact hreads _ (ipOffset_mem h htype)
      · exact hreads _ (ipProtocol_mem h htype hversion)
      · have := hreads (udpOffset r + 5) ((hmem _).mpr (by omega))
        omega
      · exact (payload_inBounds_iff hsize).mp fun i hi => hreads _ (payload_mem haccepted hi)
    · rintro ⟨⟨hether, hip⟩, haccepted⟩ k hk
      obtain ⟨hfirst, hrest⟩ := hip hudp.1
      obtain ⟨hprotocol, hheader⟩ := hrest hudp.2.1
      have hheader := hheader hudp.2.2
      rcases (hmem k).mp hk with hk | rfl | rfl | hk | ⟨hacc, i, hi, rfl⟩
      · exact hether k hk
      · exact hfirst
      · exact hprotocol
      · omega
      · exact (payload_inBounds_iff hsize).mpr (haccepted hacc) i hi
  · -- no port is read, and the record is not accepted
    have hnot : ¬Accepted c r := fun haccepted => hudp haccepted.2.1
    rw [bytesRead_eq, if_neg (not_not_intro h)]
    by_cases htype : etherType r = ETHERTYPE_IP
    · rw [if_neg (not_not_intro htype)]
      by_cases hversion : ipVersion r = 4
      · have hprotocol : ipProtocol r ≠ IPPROTO_UDP := fun hp => hudp ⟨htype, hversion, hp⟩
        rw [if_neg (not_not_intro hversion), if_pos hprotocol, List.forall_mem_append]
        simp [htype, hversion, hprotocol, hnot]
      · rw [if_pos hversion, List.forall_mem_append]
        simp [htype, hversion, hnot]
    · rw [if_pos htype]
      simp [htype, hnot]

/-- The size of a packet is that of one of the two formats. -/
theorem totalPacketSize_of_construct {a : Args} {u : Unset} (h : construct a u = .ok c) :
    c.totalPacketSize = 8208 ∨ c.totalPacketSize = 8200 := by
  by_cases hv : a.headerType = SNAP_PACKETTYPE_VOLTAGE
  · left
    have hf := (construct_voltage h hv).2
    rw [voltageFormat] at hf
    simp only at hf
    split_ifs at hf
    rw [← Except.ok.inj hf]
  · right
    rw [construct] at h
    split_ifs at h
    rw [← Except.ok.inj h]
    rfl

/-- A record from which nothing is queued. -/
theorem pcapRecord_placed_iff (s : Ingress) :
    (pcapRecord c r isVoltage s).placed = s.placed ↔
      ¬(Accepted c r ∧ Keeps c isVoltage s.recv (payload r)) := by
  rw [pcapRecord, udpPayload_eq]
  by_cases haccepted : Accepted c r
  · rw [if_pos haccepted, ← payload, Keeps]
    simp only [pcapPacket, deliver, haccepted, true_and]
    cases hsync : synchronize isVoltage c (payload r) s.recv with
    | none => simp [synchronize_eq_none_iff.mp hsync]
    | some recv' =>
      have hsome : s.recv.dFoundStartChannel = true ∨
          headerChannel isVoltage (payload r) = c.dStartingChannel := by
        by_contra hnone
        rw [synchronize_eq_none_iff.mpr hnone] at hsync
        cases hsync
      by_cases hbad : unexpectedChannel c (headerChannel isVoltage (payload r))
      · simp [hbad]
      · simp [hbad, hsome, queuePacket]
  · simp [haccepted]

/-- **Reads of a capture.** Of a complete record only bytes of the record are read,
and nothing is queued from the records named above, exactly when the record holds the headers
that it is examined for and, if it is accepted, holds what is looked at of its packet, and is
no fragment if the packet is kept. -/
theorem staysInside_iff {a : Args} {u : Unset} (hc : construct a u = .ok c)
    (h : r.len = r.caplen) (s : Ingress) :
    StaysInside c r isVoltage s ↔ LongEnough r ∧
      (Accepted c r → HoldsPacket c r isVoltage s.recv ∧
        (Keeps c isVoltage s.recv (payload r) → ¬IsFragment r)) := by
  have hsize : 1 ≤ c.totalPacketSize := by
    have := totalPacketSize_of_construct hc
    omega
  have hreads := @reads_inBounds_iff c r isVoltage s.recv h hsize
  constructor
  · intro hinside
    obtain ⟨hlong, hholds⟩ := hreads.mp hinside.reads
    exact ⟨hlong, fun haccepted => ⟨hholds haccepted, fun hkeeps hfragment =>
      (pcapRecord_placed_iff s).mp (hinside.fragments hfragment) ⟨haccepted, hkeeps⟩⟩⟩
  · rintro ⟨hlong, haccepted⟩
    refine ⟨hreads.mpr ⟨hlong, fun ha => (haccepted ha).1⟩, fun hshort => ?_, fun hfragment => ?_,
      fun hclaims => ?_⟩
    · refine (pcapRecord_placed_iff s).mpr fun ⟨ha, _⟩ => ?_
      have hchannel := (haccepted ha).1.channel
      omega
    · exact (pcapRecord_placed_iff s).mpr fun ⟨ha, hkeeps⟩ => (haccepted ha).2 hkeeps hfragment
    · refine (pcapRecord_placed_iff s).mpr fun ⟨ha, hkeeps⟩ => ?_
      -- a length that is taken for that of a packet is the length of a packet
      have hinside := (haccepted ha).1.packet hkeeps
      have hlength := ha.2.2.2
      have hlt : udpLength r < 2 ^ 16 := be16toh_lt _ _
      rw [toSizeT] at hlength
      omega

-- ════════════════════════════════════════════════════════════════════════
-- Frames that carry a packet
-- ════════════════════════════════════════════════════════════════════════

/-- An Ethernet frame that carries a payload to a port. -/
def capturedFrame (port : ℕ) (p : Packet) : Record where
  caplen := 42 + p.length
  len := 42 + p.length
  byte := pointer (List.replicate 12 0 ++ beBytes ETHERTYPE_IP 2 ++ [0x45] ++
    List.replicate 8 0 ++ [17] ++ List.replicate 12 0 ++ beBytes port 2 ++
    beBytes (8 + p.length) 2 ++ [0, 0] ++ p)

variable {port : ℕ} {p : Packet}

theorem capturedFrame_etherType :
    vlanBytes (capturedFrame port p) = 0 ∧ etherType (capturedFrame port p) = ETHERTYPE_IP := by
  have hether : be16toh (capturedFrame port p).byte 12 = ETHERTYPE_IP := by
    have := beToHost_beBytes (List.replicate 12 0) ([0x45] ++ List.replicate 8 0 ++ [17] ++
      List.replicate 12 0 ++ beBytes port 2 ++ beBytes (8 + p.length) 2 ++ [0, 0] ++ p)
      ETHERTYPE_IP 2
    simpa [be16toh, capturedFrame, ETHERTYPE_IP] using this
  have hvlan : vlanBytes (capturedFrame port p) = 0 := by
    rw [vlanBytes, hether]
    rfl
  exact ⟨hvlan, by rw [etherType, hvlan]; exact hether⟩

theorem capturedFrame_ipOffset : ipOffset (capturedFrame port p) = 14 := by
  rw [ipOffset, capturedFrame_etherType.1]

theorem capturedFrame_isUdp :
    IsUdp (capturedFrame port p) ∧ udpOffset (capturedFrame port p) = 34 := by
  have hfirst : (capturedFrame port p).byte 14 = 0x45 := rfl
  refine ⟨⟨capturedFrame_etherType.2, ?_, ?_⟩, ?_⟩
  · rw [ipVersion, capturedFrame_ipOffset, hfirst]
    decide
  · rw [ipProtocol, capturedFrame_ipOffset]
    rfl
  · rw [udpOffset, ipHeaderLength, capturedFrame_ipOffset, hfirst]
    decide

theorem capturedFrame_destPort (hlt : port < 2 ^ 16) :
    udpDestPort (capturedFrame port p) = port := by
  have := beToHost_beBytes (List.replicate 12 0 ++ beBytes ETHERTYPE_IP 2 ++ [0x45] ++
    List.replicate 8 0 ++ [17] ++ List.replicate 12 0) (beBytes (8 + p.length) 2 ++ [0, 0] ++ p)
    port 2
  rw [Nat.mod_eq_of_lt (show port < 256 ^ 2 from hlt)] at this
  rw [udpDestPort, capturedFrame_isUdp.2]
  simpa [be16toh, capturedFrame] using this

theorem capturedFrame_length (hlt : p.length + 8 < 2 ^ 16) :
    udpLength (capturedFrame port p) = p.length + 8 := by
  have := beToHost_beBytes (List.replicate 12 0 ++ beBytes ETHERTYPE_IP 2 ++ [0x45] ++
    List.replicate 8 0 ++ [17] ++ List.replicate 12 0 ++ beBytes port 2) ([0, 0] ++ p)
    (8 + p.length) 2
  rw [Nat.mod_eq_of_lt (show 8 + p.length < 256 ^ 2 by omega)] at this
  rw [udpLength, capturedFrame_isUdp.2, Nat.add_comm p.length]
  simpa [be16toh, capturedFrame] using this

theorem capturedFrame_forBlock (hport : c.dPort = port) (hlt : port < 2 ^ 16)
    (hlen : p.length = c.totalPacketSize) (hsize : c.totalPacketSize + 8 < 2 ^ 16) :
    ForBlock c (capturedFrame port p) := by
  constructor
  · rw [capturedFrame_destPort hlt, hport]
  · rw [capturedFrame_length (by omega), toSizeT]
    omega

/-- The payload of a captured frame is found again. -/
theorem capturedFrame_payload : dataVector (payload (capturedFrame port p)) p.length = p := by
  have hbyte (k : ℕ) : (capturedFrame port p).byte (42 + k) = p.getD k 0 := by
    change List.getD (_ ++ p) (42 + k) 0 = _
    rw [List.getD_append_right _ _ _ _ (by simp)]
    simp
  have hpayload : payload (capturedFrame port p) = advance (capturedFrame port p).byte 42 := by
    rw [payload, capturedFrame_isUdp.2]
  rw [hpayload]
  refine List.ext_getElem (by simp [dataVector]) fun k hk hk' => ?_
  simp only [dataVector, List.getElem_map, List.getElem_range, advance, hbyte,
    List.getD_eq_getElem _ _ hk']

theorem udpPayload_capturedFrame (hport : c.dPort = port) (hlt : port < 2 ^ 16)
    (hlen : p.length = c.totalPacketSize) (hsize : c.totalPacketSize + 8 < 2 ^ 16) :
    ∃ pData, udpPayload c (capturedFrame port p) = some pData ∧
      dataVector pData c.totalPacketSize = p := by
  have haccepted : Accepted c (capturedFrame port p) :=
    ⟨rfl, capturedFrame_isUdp.1, capturedFrame_forBlock hport hlt hlen hsize⟩
  refine ⟨payload (capturedFrame port p), ?_, hlen ▸ capturedFrame_payload⟩
  rw [udpPayload_eq, if_pos haccepted, payload]

theorem payloads_capturedFrame (hport : c.dPort = port) (hlt : port < 2 ^ 16)
    (hsize : c.totalPacketSize + 8 < 2 ^ 16) {ps : List Packet}
    (hlen : ∀ p ∈ ps, p.length = c.totalPacketSize) :
    payloads c (ps.map (capturedFrame port)) = ps := by
  induction ps with
  | nil => rfl
  | cons p ps ih =>
    obtain ⟨pData, hpayload, hdata⟩ := udpPayload_capturedFrame hport hlt (hlen p (by simp)) hsize
    have ih := ih fun q hq => hlen q (by simp [hq])
    rw [payloads] at ih ⊢
    rw [List.map_cons, List.filterMap_cons, hpayload, List.map_cons, hdata, ih]

/-- The same frame, captured up to the end of its headers and the header of the packet: all
that the record says is that this is all of it. -/
def headersOnly (port : ℕ) (p : Packet) : Record :=
  { capturedFrame port p with caplen := 58, len := 58 }

/-- The fields of a frame depend on its bytes alone. -/
theorem fields_congr {r' : Record} (h : r.byte = r'.byte) :
    (IsUdp r ↔ IsUdp r') ∧ udpOffset r = udpOffset r' ∧ udpLength r = udpLength r' ∧
      (ForBlock c r ↔ ForBlock c r') ∧ payload r = payload r' := by
  cases r
  cases r'
  cases h
  exact ⟨Iff.rfl, rfl, rfl, Iff.rfl, rfl⟩

theorem headersOnly_accepted (hport : c.dPort = port) (hlt : port < 2 ^ 16)
    (hlen : p.length = c.totalPacketSize) (hsize : c.totalPacketSize + 8 < 2 ^ 16) :
    Accepted c (headersOnly port p) ∧ udpOffset (headersOnly port p) = 34 ∧
      udpLength (headersOnly port p) = p.length + 8 ∧
      payload (headersOnly port p) = payload (capturedFrame port p) := by
  obtain ⟨hudp, hoffset, hlength, hforBlock, hpayload⟩ :=
    @fields_congr c (headersOnly port p) (capturedFrame port p) rfl
  exact ⟨⟨rfl, hudp.mpr capturedFrame_isUdp.1,
      hforBlock.mpr (capturedFrame_forBlock hport hlt hlen hsize)⟩,
    hoffset.trans capturedFrame_isUdp.2, hlength.trans (capturedFrame_length (by omega)), hpayload⟩

/-- The packet of a frame is on the starting channel. -/
theorem capturedFrame_keeps {chan : ℕ} (hsize : 8 ≤ p.length) (hchannel : channel p = chan)
    (hstart : c.dStartingChannel = chan) (hend : chan ≤ c.dEndingChannelPacketChannelId)
    (recv : Receiver) : Keeps c true recv (payload (capturedFrame port p)) := by
  have hpayload : headerChannel true (payload (capturedFrame port p)) = chan := by
    rw [← headerChannel_dataVector hsize, capturedFrame_payload]
    exact hchannel
  rw [Keeps, hpayload, unexpectedChannel, hstart]
  exact ⟨.inr rfl, not_or.mpr ⟨lt_irrefl _, not_lt.mpr hend⟩⟩

/-- A frame whose length field claims a packet that the record does not hold is
accepted, and the packet is copied from behind the record. -/
theorem headersOnly_outside :
    construct (widthArgs 1 false) noUnset = .ok (widthConfig 1 false) ∧
      (headersOnly 10000 (plainPacket 0 16)).len = (headersOnly 10000 (plainPacket 0 16)).caplen ∧
      ¬StaysInside (widthConfig 1 false) (headersOnly 10000 (plainPacket 0 16)) formatTest
        ⟨initialReceiver ⟨[], fun _ _ => 0⟩, [], []⟩ := by
  refine ⟨construct_widthArgs le_rfl (by decide) false, rfl, fun hinside => ?_⟩
  obtain ⟨haccepted, hoffset, hlength, hpayload⟩ := @headersOnly_accepted (widthConfig 1 false)
    10000 (plainPacket 0 16) rfl (by decide) (plainPacket_length 0 16) (by decide)
  have hskipped := hinside.claims (by
    rw [hoffset, hlength, plainPacket_length, headersOnly]
    decide)
  refine (pcapRecord_placed_iff _).mp hskipped ⟨haccepted, ?_⟩
  rw [hpayload]
  exact capturedFrame_keeps (by rw [plainPacket_length]; decide)
    (channel_plainPacket (by decide) 16) rfl (Nat.zero_le _) _

/-- A frame that was captured with its payload, of a block that has not synchronized yet. -/
theorem staysInside_iff_capturedFrame :
    StaysInside (widthConfig 1 false) (capturedFrame 10000 (plainPacket 0 16)) formatTest
      ⟨initialReceiver ⟨[], fun _ _ => 0⟩, [], []⟩ := by
  have hcaplen : (capturedFrame 10000 (plainPacket 0 16)).caplen = 8250 := by
    rw [capturedFrame, plainPacket_length]
  have hoffset := (@capturedFrame_isUdp 10000 (plainPacket 0 16)).2
  refine (staysInside_iff (construct_widthArgs le_rfl (by decide) false) rfl _).mpr ⟨?_, ?_⟩
  · rw [LongEnough, capturedFrame_etherType.1, capturedFrame_ipOffset, hoffset, hcaplen]
    decide
  · refine fun _ => ⟨⟨?_, fun _ => ?_, fun _ => ?_⟩, fun _ => ?_⟩
    · rw [hoffset, hcaplen]
      decide
    · rw [hoffset, hcaplen]
      decide
    · rw [hoffset, hcaplen]
      decide
    · rw [IsFragment, capturedFrame_ipOffset]
      exact not_not_intro rfl

end GrAta
