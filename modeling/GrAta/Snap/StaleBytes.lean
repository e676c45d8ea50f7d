import GrAta.Snap.CaptureFormat
import GrAta.Snap.Encoding

/-!
# What is left in the receive buffers

`recvmmsg` stores a datagram over what its receive buffer held before, and `mmsg_receive`
queues the bytes of a whole packet from there, whatever the length of the datagram was. A
batch is free of stale bytes when what it makes the thread queue does not depend on the
buffers, and every queued packet is the datagram of its slot.

## Main definitions

- `NetHistory`: what the buffers held at first, and the batches received since
- `slotPushes`: what one pass of the loop of `mmsg_receive` queues
- `NoStaleBytes`: a batch is free of stale bytes, after any history
- `MayStart`: a datagram that can pass for one of the starting channel
- `SplitsAtStart`: a batch whose datagrams have the size of a packet from there on

## Main results

- `noStaleBytes_iff`: which batches are free of stale bytes
-/

namespace GrAta

/-- A history of the network side. The buffers are not initialized. -/
structure NetHistory where
  env : Environment
  batches : List (List Packet)

/-- The receiving side after a history. -/
def NetHistory.state (h : NetHistory) (c : Config) : Ingress :=
  ingressRun formatTest c h.env (h.batches.map .mmsgReceive)

/-- The state after the first `i` passes of the loop of `mmsg_receive`. -/
def mmsgPasses (c : Config) (datagrams : List Packet) (s : Ingress) (i : ℕ) : Ingress :=
  let batch := datagrams.take MMSG_LENGTH
  let bufs := recvmmsg c batch s.recv.bufs
  (((List.range batch.length).map bufs).take i).foldl (mmsgPacket formatTest c)
    { s with recv := { s.recv with bufs := bufs } }

theorem mmsgPasses_length (c : Config) (datagrams : List Packet) (s : Ingress) :
    mmsgPasses c datagrams s (datagrams.take MMSG_LENGTH).length =
      mmsgReceive formatTest c datagrams s := by
  have hall (bufs : ℕ → Pointer) (n : ℕ) :
      ((List.range n).map bufs).take n = (List.range n).map bufs :=
    List.take_of_length_le (by rw [List.length_map, List.length_range])
  rw [mmsgPasses, mmsgReceive, hall]

/-- The packets that the pass over slot `i` queues. -/
def slotPushes (c : Config) (datagrams : List Packet) (s : Ingress) (i : ℕ) : List Packet :=
  (mmsgPasses c datagrams s (i + 1)).placed.drop (mmsgPasses c datagrams s i).placed.length

/-- After every history that leaves the receiver synchronized or not, as given, a batch
makes the thread queue the same packets, and a slot queues its own datagram or nothing. Only
datagrams of the size of a packet are queued. -/
structure NoStaleBytes (c : Config) (found : Bool) (datagrams : List Packet) : Prop where
  same : ∃ pushed, ∀ h : NetHistory, (h.state c).recv.dFoundStartChannel = found →
    (mmsgReceive formatTest c datagrams (h.state c)).placed = (h.state c).placed ++ pushed
  own : ∀ h : NetHistory, (h.state c).recv.dFoundStartChannel = found →
    ∀ i d, (datagrams.take MMSG_LENGTH)[i]? = some d →
      slotPushes c datagrams (h.state c) i = [] ∨
        slotPushes c datagrams (h.state c) i = [d] ∧ d.length = c.totalPacketSize

/-- The bytes of the channel field that a datagram brings are those of the starting
channel. The others are those that its receive buffer held before. -/
def MayStart (c : Config) (d : Packet) : Prop :=
  (4 < d.length → d.getD 4 0 = UInt8.ofNat (c.dStartingChannel / 256)) ∧
    (5 < d.length → d.getD 5 0 = UInt8.ofNat c.dStartingChannel)

instance (c : Config) (d : Packet) : Decidable (MayStart c d) :=
  inferInstanceAs (Decidable (_ ∧ _))

/-- The channel field of a packet, byte by byte. -/
theorem voltageChan_eq_iff {p : Pointer} {n : ℕ} (hn : n < 2 ^ 16) :
    voltageChan p = n ↔ p 4 = UInt8.ofNat (n / 256) ∧ p 5 = UInt8.ofNat n := by
  have hchan : voltageChan p = 256 * (p 4).toNat + (p 5).toNat := by
    simp [voltageChan, be16toh, beToHost]
  have h4 : (p 4).toNat < 256 := (p 4).toNat_lt
  have h5 : (p 5).toNat < 256 := (p 5).toNat_lt
  rw [← UInt8.toNat_inj, ← UInt8.toNat_inj, UInt8.toNat_ofNat', UInt8.toNat_ofNat', hchan]
  omega

theorem startingChannel_lt {a : Args} {u : Unset} {c : Config} (h : construct a u = .ok c) :
    c.dStartingChannel < 2 ^ 16 := by
  by_cases hv : a.headerType = SNAP_PACKETTYPE_VOLTAGE
  · have hf := (construct_voltage h hv).2
    rw [voltageFormat] at hf
    simp only at hf
    split_ifs at hf
    rw [← Except.ok.inj hf]
    change (a.startingChannel % 2 ^ 16).toNat < 2 ^ 16
    omega
  · rw [construct] at h
    split_ifs at h
    rw [← Except.ok.inj h]
    exact Nat.two_pow_pos 16

section Buffers

variable {c : Config} {d : Packet}

/-- A datagram that cannot pass for one of the starting channel does not, whatever the
buffer held. -/
theorem not_start_of_not_mayStart (hstart : c.dStartingChannel < 2 ^ 16)
    (hsize : 8 ≤ c.totalPacketSize) (hd : ¬MayStart c d) (buf : Pointer) :
    voltageChan (receiveInto c d buf) ≠ c.dStartingChannel := by
  intro hchan
  obtain ⟨h4, h5⟩ := (voltageChan_eq_iff hstart).mp hchan
  refine hd ⟨fun hlen => ?_, fun hlen => ?_⟩
  · rwa [receiveInto, if_pos (by omega)] at h4
  · rwa [receiveInto, if_pos (by omega)] at h5

/-- A buffer that holds the starting channel. -/
def startBuffer (c : Config) (k : ℕ) : UInt8 :=
  if k = 4 then UInt8.ofNat (c.dStartingChannel / 256) else UInt8.ofNat c.dStartingChannel

/-- In such a buffer every datagram that can pass for one of the starting channel does. -/
theorem start_of_mayStart (hstart : c.dStartingChannel < 2 ^ 16) (hd : MayStart c d) :
    voltageChan (receiveInto c d (startBuffer c)) = c.dStartingChannel := by
  refine (voltageChan_eq_iff hstart).mpr ⟨?_, ?_⟩
  · rw [receiveInto]
    split
    · exact hd.1 (by omega)
    · rfl
  · rw [receiveInto]
    split
    · exact hd.2 (by omega)
    · rfl

end Buffers

-- ════════════════════════════════════════════════════════════════════════
-- The loop over the slots
-- ════════════════════════════════════════════════════════════════════════

variable {c : Config} {datagrams : List Packet} {s : Ingress} {i : ℕ}

/-- What is queued after some passes. -/
theorem mmsgPasses_placed (hsize : 8 ≤ c.totalPacketSize) (datagrams : List Packet)
    (s : Ingress) (i : ℕ) :
    (mmsgPasses c datagrams s i).placed =
      s.placed ++ fromStart true c s.recv.dFoundStartChannel
        ((examined c s.recv.bufs datagrams).take i) := by
  have h := Handled.foldl (mmsgPacket_handled true hsize)
    (((List.range (datagrams.take MMSG_LENGTH).length).map
      (recvmmsg c (datagrams.take MMSG_LENGTH) s.recv.bufs)).take i)
    { s with recv := { s.recv with
      bufs := recvmmsg c (datagrams.take MMSG_LENGTH) s.recv.bufs } }
  rw [List.map_take, List.map_map] at h
  have hplaced := h.placed
  rw [filter_unfiltered] at hplaced
  exact hplaced

/-- A slot queues its packet when the starting channel has been seen up to there. -/
theorem slotPushes_eq (hsize : 8 ≤ c.totalPacketSize) {p : Packet}
    (hp : (examined c s.recv.bufs datagrams)[i]? = some p) :
    slotPushes c datagrams s i =
      if startSeen true c s.recv.dFoundStartChannel
        ((examined c s.recv.bufs datagrams).take (i + 1)) then [p] else [] := by
  have htake : (examined c s.recv.bufs datagrams).take (i + 1) =
      (examined c s.recv.bufs datagrams).take i ++ [p] := by
    rw [List.take_add_one, hp]
    rfl
  rw [slotPushes, mmsgPasses_placed hsize, mmsgPasses_placed hsize, htake, fromStart_append,
    ← List.append_assoc, List.drop_left, startSeen_append]
  generalize startSeen true c s.recv.dFoundStartChannel _ = seen
  by_cases hskips : Skips true c seen p
  · rw [fromStart_cons_skips hskips, startSeen_cons_skips hskips, fromStart_nil, startSeen_nil,
      hskips.1, if_neg Bool.false_ne_true]
  · rw [fromStart_cons_of_not hskips, startSeen_cons_of_not hskips, if_pos rfl]

-- ════════════════════════════════════════════════════════════════════════
-- Which batches are free of stale bytes
-- ════════════════════════════════════════════════════════════════════════

/-- A batch of datagrams of which a first part cannot start the queueing and the others
have the size of a packet. -/
def SplitsAtStart (c : Config) (found : Bool) (datagrams : List Packet) : Prop :=
  ∃ early full, datagrams.take MMSG_LENGTH = early ++ full ∧
    (∀ d ∈ early, found = false ∧ ¬MayStart c d) ∧ ∀ d ∈ full, d.length = c.totalPacketSize

/-- The packets that are examined for such a batch. -/
theorem examined_of_splits (hstart : c.dStartingChannel < 2 ^ 16) (hsize : 8 ≤ c.totalPacketSize)
    {found : Bool} {early full : List Packet}
    (hbatch : datagrams.take MMSG_LENGTH = early ++ full)
    (hearly : ∀ d ∈ early, found = false ∧ ¬MayStart c d)
    (hfull : ∀ d ∈ full, d.length = c.totalPacketSize) (bufs : ℕ → Pointer) :
    ∃ skipped, examined c bufs datagrams = skipped ++ full ∧ skipped.length = early.length ∧
      ∀ p ∈ skipped, Skips true c found p := by
  have hlength : (examined c bufs datagrams).length = early.length + full.length := by
    rw [examined, List.length_map, List.length_range, hbatch, List.length_append]
  refine ⟨(examined c bufs datagrams).take early.length, ?_, ?_, ?_⟩
  · have hdrop : (examined c bufs datagrams).drop early.length = full := by
      refine List.ext_getElem? fun i => ?_
      have hget : (datagrams.take MMSG_LENGTH)[early.length + i]? = full[i]? := by
        rw [hbatch, List.getElem?_append_right (Nat.le_add_right _ _), Nat.add_sub_cancel_left]
      rw [List.getElem?_drop]
      cases hd : full[i]? with
      | none =>
        rw [List.getElem?_eq_none_iff] at hd ⊢
        omega
      | some d =>
        rw [examined_getElem? _ (hget.trans hd),
          dataVector_receiveInto (hfull d (List.mem_of_getElem? hd))]
    rw [← hdrop, List.take_append_drop]
  · rw [List.length_take]
    omega
  · intro p hp
    obtain ⟨i, hi⟩ := List.mem_iff_getElem?.mp hp
    rw [List.getElem?_take] at hi
    split at hi
    · rename_i hlt
      have hd : (datagrams.take MMSG_LENGTH)[i]? = some early[i] := by
        rw [hbatch, List.getElem?_append_left hlt, List.getElem?_eq_getElem hlt]
      rw [examined_getElem? _ hd] at hi
      obtain ⟨hfound, hnot⟩ := hearly _ (List.getElem_mem hlt)
      refine ⟨hfound, ?_⟩
      rw [← Option.some.inj hi, headerChannel_dataVector hsize]
      exact not_start_of_not_mayStart hstart hsize hnot _
    · cases hi

theorem fromStart_skips_append {found : Bool} {skipped : List Packet}
    (h : ∀ p ∈ skipped, Skips true c found p) (ps : List Packet) :
    fromStart true c found (skipped ++ ps) = fromStart true c found ps := by
  induction skipped with
  | nil => rfl
  | cons p skipped ih =>
    rw [List.cons_append, fromStart_cons_skips (h p List.mem_cons_self),
      ih fun q hq => h q (List.mem_cons_of_mem _ hq)]

theorem startSeen_skips {found : Bool} {skipped : List Packet}
    (h : ∀ p ∈ skipped, Skips true c found p) : startSeen true c found skipped = found := by
  induction skipped with
  | nil => rw [startSeen_nil]
  | cons p skipped ih =>
    rw [startSeen_cons_skips (h p List.mem_cons_self),
      ih fun q hq => h q (List.mem_cons_of_mem _ hq)]

theorem SplitsAtStart.noStaleBytes (hstart : c.dStartingChannel < 2 ^ 16)
    (hsize : 8 ≤ c.totalPacketSize) {found : Bool} (h : SplitsAtStart c found datagrams) :
    NoStaleBytes c found datagrams := by
  obtain ⟨early, full, hbatch, hearly, hfull⟩ := h
  constructor
  · refine ⟨fromStart true c found full, fun h hfound => ?_⟩
    obtain ⟨skipped, hexamined, -, hskips⟩ :=
      examined_of_splits hstart hsize hbatch hearly hfull (h.state c).recv.bufs
    have hplaced := (mmsgReceive_handled true hsize datagrams (h.state c)).placed
    rwa [filter_unfiltered, hfound, hexamined, fromStart_skips_append hskips] at hplaced
  · intro h hfound i d hd
    obtain ⟨skipped, hexamined, hlength, hskips⟩ :=
      examined_of_splits hstart hsize hbatch hearly hfull (h.state c).recv.bufs
    rw [slotPushes_eq hsize (examined_getElem? _ hd), hfound, hexamined]
    by_cases hlen : d.length = c.totalPacketSize
    · rw [dataVector_receiveInto hlen]
      split
      · exact Or.inr ⟨rfl, hlen⟩
      · exact Or.inl rfl
    · -- a datagram of another size lies in the first part, where nothing is queued
      have hi : i < early.length := by
        by_contra hge
        rw [hbatch, List.getElem?_append_right (not_lt.mp hge)] at hd
        exact hlen (hfull d (List.mem_of_getElem? hd))
      have hseen : startSeen true c found ((skipped ++ full).take (i + 1)) = found := by
        rw [List.take_append_of_le_length (by omega)]
        exact startSeen_skips fun p hp => hskips p (List.mem_of_mem_take hp)
      rw [hseen, (hearly _ (List.getElem_mem hi)).1, if_neg Bool.false_ne_true]
      exact Or.inl rfl

/-- A fresh receiver whose buffers hold the starting channel. -/
def startHistory (c : Config) (batches : List (List Packet)) : NetHistory :=
  ⟨⟨[], fun _ => startBuffer c⟩, batches⟩

theorem startSeen_of_mayStart (hstart : c.dStartingChannel < 2 ^ 16)
    (hsize : 8 ≤ c.totalPacketSize) (found : Bool) {k n : ℕ} {e : Packet}
    (he : (datagrams.take MMSG_LENGTH)[k]? = some e) (hmay : MayStart c e) (hk : k < n) :
    startSeen true c found ((examined c (fun _ => startBuffer c) datagrams).take n) = true := by
  have hmem := examined_getElem? (c := c) (fun _ => startBuffer c) he
  rw [← List.getElem?_take_of_lt hk] at hmem
  rw [startSeen, Bool.or_eq_true, List.any_eq_true]
  refine Or.inr ⟨_, List.mem_of_getElem? hmem, decide_eq_true ?_⟩
  rw [headerChannel_dataVector hsize]
  exact start_of_mayStart hstart hmay

/-- The receiver can be in either state of synchronization, with buffers that let a datagram
start the queueing whenever it can. -/
theorem exists_history_seen (hstart : c.dStartingChannel < 2 ^ 16)
    (hsize : 8 ≤ c.totalPacketSize) (found : Bool) {k : ℕ} {e : Packet}
    (he : (datagrams.take MMSG_LENGTH)[k]? = some e) (hmay : found = true ∨ MayStart c e) :
    ∃ h : NetHistory, (h.state c).recv.dFoundStartChannel = found ∧ ∀ n, k < n →
      startSeen true c found ((examined c (h.state c).recv.bufs datagrams).take n) = true := by
  cases found with
  | true =>
    -- an empty datagram is taken for one of the starting channel
    have hempty : MayStart c [] := ⟨fun h => absurd h (by decide), fun h => absurd h (by decide)⟩
    have hfirst := (mmsgReceive_handled true hsize [[]] ((startHistory c []).state c)).found
    have hseen : startSeen true c false ((examined c (fun _ => startBuffer c) [[]]).take 1) =
        true :=
      startSeen_of_mayStart hstart hsize false (k := 0) rfl hempty one_pos
    exact ⟨startHistory c [[[]]], hfirst.trans hseen, fun _ _ => rfl⟩
  | false =>
    exact ⟨startHistory c [], rfl, fun n hn => startSeen_of_mayStart hstart hsize false he
      (hmay.resolve_left Bool.false_ne_true) hn⟩

/-- From a datagram on that can start the queueing, every datagram of a batch without stale
bytes has the size of a packet. -/
theorem NoStaleBytes.full (hstart : c.dStartingChannel < 2 ^ 16) (hsize : 8 ≤ c.totalPacketSize)
    {found : Bool} (h : NoStaleBytes c found datagrams) {k : ℕ} {e d : Packet}
    (he : (datagrams.take MMSG_LENGTH)[k]? = some e) (hmay : found = true ∨ MayStart c e)
    (hk : k ≤ i) (hd : (datagrams.take MMSG_LENGTH)[i]? = some d) :
    d.length = c.totalPacketSize := by
  obtain ⟨history, hfound, hseen⟩ := exists_history_seen hstart hsize found he hmay
  have hpushes := slotPushes_eq hsize (s := history.state c)
    (examined_getElem? (history.state c).recv.bufs hd)
  rw [hfound, hseen (i + 1) (Nat.lt_succ_of_le hk), if_pos rfl] at hpushes
  obtain hnone | ⟨-, hlen⟩ := h.own history hfound i d hd
  · rw [hpushes] at hnone
    cases hnone
  · exact hlen

/-- A list splits at the first element without a property. -/
theorem exists_split (P : Packet → Prop) (ds : List Packet) :
    ∃ early rest, ds = early ++ rest ∧ (∀ d ∈ early, P d) ∧ ∀ e ∈ rest.head?, ¬P e := by
  induction ds with
  | nil => exact ⟨[], [], rfl, fun _ hd => absurd hd List.not_mem_nil, fun _ he => by simp at he⟩
  | cons d ds ih =>
    by_cases hd : P d
    · obtain ⟨early, rest, rfl, hearly, hrest⟩ := ih
      exact ⟨d :: early, rest, rfl, List.forall_mem_cons.mpr ⟨hd, hearly⟩, hrest⟩
    · refine ⟨[], d :: ds, rfl, fun _ hd' => absurd hd' List.not_mem_nil, fun e he => ?_⟩
      obtain rfl := Option.some.inj he
      exact hd

/-- A batch splits where the queueing can start. -/
theorem NoStaleBytes.splits (hstart : c.dStartingChannel < 2 ^ 16)
    (hsize : 8 ≤ c.totalPacketSize) {found : Bool} (h : NoStaleBytes c found datagrams) :
    SplitsAtStart c found datagrams := by
  obtain ⟨early, rest, hbatch, hearly, hrest⟩ :=
    exists_split (fun d => found = false ∧ ¬MayStart c d) (datagrams.take MMSG_LENGTH)
  refine ⟨early, rest, hbatch, hearly, fun d hd => ?_⟩
  have hget (j : ℕ) : (datagrams.take MMSG_LENGTH)[early.length + j]? = rest[j]? := by
    rw [hbatch, List.getElem?_append_right (Nat.le_add_right _ _), Nat.add_sub_cancel_left]
  cases rest with
  | nil => cases hd
  | cons e rest =>
    have hmay : found = true ∨ MayStart c e := by
      have hnot := hrest e rfl
      rw [not_and_or, not_not, Bool.not_eq_false] at hnot
      exact hnot
    obtain ⟨j, hj⟩ := List.mem_iff_getElem?.mp hd
    exact h.full hstart hsize (hget 0) hmay (Nat.le_add_right _ j) ((hget j).trans hj)

/-- **Which batches are free of stale bytes.** Those that split into datagrams that cannot
start the queueing and datagrams of the size of a packet; behind a synchronized receiver
every datagram has that size. -/
theorem noStaleBytes_iff {a : Args} {u : Unset} (hc : construct a u = .ok c) (found : Bool)
    (datagrams : List Packet) :
    NoStaleBytes c found datagrams ↔ SplitsAtStart c found datagrams := by
  have hstart := startingChannel_lt hc
  have hsize : 8 ≤ c.totalPacketSize := by
    have := totalPacketSize_of_construct hc
    omega
  exact ⟨fun h => h.splits hstart hsize, fun h => SplitsAtStart.noStaleBytes hstart hsize h⟩

/-- A batch of one full-size packet. -/
theorem noStaleBytes_iff_plainPacket :
    NoStaleBytes (widthConfig 2 true) true [plainPacket 0 16] :=
  (noStaleBytes_iff (construct_widthArgs width_two_pos width_two_le true) true _).mpr
    ⟨[], [plainPacket 0 16], rfl, fun _ hd => absurd hd List.not_mem_nil, fun d hd => by
      obtain rfl := List.mem_singleton.mp hd
      exact plainPacket_length 0 16⟩

/-- A datagram of one byte makes a synchronized receiver queue a packet. -/
theorem stale_after_short_datagram : ¬NoStaleBytes (widthConfig 2 true) true [[1]] := by
  intro h
  have hlen := h.full (by decide) (by decide) (k := 0) (i := 0) rfl (Or.inl rfl) le_rfl rfl
  exact absurd hlen (by decide)

end GrAta
