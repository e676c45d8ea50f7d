import GrAta.Library.Positions
import GrAta.Snap.PcapTool
import Mathlib.Algebra.BigOperators.Group.List.Basic

/-!
# The sequence check of the capture tool

`read_voltage_pcap_v2.py` follows the channels of the packets of a capture with a counter
for the next channel block. The counter goes on from the block that was expected, not from
the one that came, so that after a loss it stays behind for good, and every later packet is
reported again.

## Main definitions

- `captureTool`: the tool, with `toolPacket` as the body of its loop
- `KeptStream`: a stream of subpackets from which some have been deleted
- `KeptStream.CountsLosses`: the reports add up to the deletions
- `KeptStream.Recovers`: the losses after which the counter is right again

## Main results

- `KeptStream.output_reports`: what the tool reports for each packet of a stream
- `KeptStream.countsLosses_iff`: the streams whose losses are counted
- `loss_reported_twice`: one loss in front of two packets
-/

namespace GrAta

structure ToolArgs where
  port : ℤ
  numPackets : ℤ
  startChannel : ℤ
  numChannels : ℤ
  errorsOnly : Bool

namespace ToolArgs

variable (a : ToolArgs)

/-- The combinations of arguments with which the tool exits. -/
def rejected : Bool :=
  (a.errorsOnly && (a.startChannel == -1 || a.numChannels == -1)) ||
    (decide (0 ≤ a.startChannel) && a.numChannels == -1)

def channelValidation : Bool := 0 ≤ a.startChannel

variable {a} in
theorem channelValidation_of {start : ℕ} (h : a.startChannel = start) :
    a.channelValidation = true := by
  rw [channelValidation, h]
  exact decide_eq_true (Int.natCast_nonneg start)

def lastChannelBlock : ℤ :=
  if a.channelValidation then a.startChannel + a.numChannels - 256 else 0

end ToolArgs

/-- A UDP packet of the capture. Other packets are ignored. -/
structure UdpPacket where
  dport : ℕ
  payload : Packet

/-- A line that the tool prints. -/
inductive ToolLine where
  | missedFrames (delta lastSeqNum sampleNumber : ℤ)
  | missedForSequence (delta sampleNumber : ℤ)
  | missedGoing (delta lastSeqNum sampleNumber : ℤ)
  | packet (i dport : ℕ) (header : PcapHeader)
  | unhandled
  deriving DecidableEq, Repr

/-- The count of a line that reports missed subpackets. -/
def ToolLine.missed : ToolLine → Option ℤ
  | .missedForSequence delta _ | .missedGoing delta _ _ => some delta
  | _ => none

def ToolLine.IsError : ToolLine → Prop
  | .packet .. => False
  | _ => True

structure ToolState where
  i : ℕ
  lastSeqNum : ℤ
  foundStartChannel : Bool
  expectedNextChannelBlock : ℤ

def ToolState.initial : ToolState := ⟨0, 0, false, 0⟩

/-- The report about the channel of a packet. -/
def channelErrors (a : ToolArgs) (expected lastSeqNum channel sampleNumber : ℤ) :
    List ToolLine :=
  if channel ≠ expected then
    if channel > expected then [.missedForSequence ((channel - expected) / 256) sampleNumber]
    else [.missedGoing ((a.lastChannelBlock - expected + channel - a.startChannel) / 256 + 1)
      lastSeqNum sampleNumber]
  else []

/-- The next value of the counter. -/
def nextChannelBlock (a : ToolArgs) (expected : ℤ) : ℤ :=
  if expected + 256 > a.lastChannelBlock then a.startChannel else expected + 256

/-- The body of the loop, for a packet with a whole header. -/
def toolPacket (a : ToolArgs) (s : ToolState) (p : UdpPacket) : ToolState × List ToolLine :=
  let header := readPcapHeader p.payload
  let channel : ℤ := header.channel
  let sampleNumber : ℤ := header.sampleNumber
  let starts := a.channelValidation && !s.foundStartChannel && (channel == a.startChannel)
  let found := s.foundStartChannel || starts
  let expected := if starts then a.startChannel else s.expectedNextChannelBlock
  -- setup for the first iteration
  let lastSeqNum := if s.lastSeqNum = 0 then sampleNumber else s.lastSeqNum
  let delta := (sampleNumber - lastSeqNum) / 16
  let frameErrors := if delta > 1 then [.missedFrames delta lastSeqNum sampleNumber] else []
  let validates := a.channelValidation && found
  let subpacketErrors :=
    if validates then channelErrors a expected lastSeqNum channel sampleNumber else []
  let printed := if a.errorsOnly then [] else [.packet s.i p.dport header]
  (⟨s.i + 1, sampleNumber, found, if validates then nextChannelBlock a expected else expected⟩,
    frameErrors ++ subpacketErrors ++ printed)

/-- The loop over the packets of a capture: the lines printed for each packet that it
processes. A packet that is too short raises an exception. -/
def toolLoop (a : ToolArgs) : ToolState → List UdpPacket → List (List ToolLine)
  | _, [] => []
  | s, p :: ps =>
    if a.port > 0 ∧ (p.dport : ℤ) ≠ a.port then toolLoop a s ps
    else if p.payload.length < headerLen then [[.unhandled]]
    else
      (toolPacket a s p).2 ::
        if a.numPackets > 0 ∧ ((toolPacket a s p).1.i : ℤ) ≥ a.numPackets then []
        else toolLoop a (toolPacket a s p).1 ps

/-- The lines that the tool prints, unless it exits at once. -/
def captureTool (a : ToolArgs) (packets : List UdpPacket) : Option (List (List ToolLine)) :=
  if a.rejected then none else some (toolLoop a .initial packets)

-- ════════════════════════════════════════════════════════════════════════
-- Streams
-- ════════════════════════════════════════════════════════════════════════

/-- A stream of subpackets, in frames of `frame` subpackets that are sixteen samples apart,
and the positions of the packets that are kept: the first one starts a frame, and fewer
packets than a frame has are deleted in a row. -/
structure KeptStream where
  startChannel : ℕ
  frame : ℕ
  frame_pos : 0 < frame
  firstTimestamp : ℕ
  firstTimestamp_pos : 0 < firstTimestamp
  packet : ℕ → UdpPacket
  kept : List ℕ
  kept_ne_nil : kept ≠ []
  inOrder : kept.Pairwise (· < ·)
  fewDeleted : kept.IsChain fun k k' => k' ≤ k + frame
  synchronized : frame ∣ Positions.first kept
  header_whole : ∀ k ∈ kept, headerLen ≤ (packet k).payload.length
  channel_packet : ∀ k ∈ kept,
    (readPcapHeader (packet k).payload).channel = startChannel + 256 * (k % frame)
  sampleNumber_packet : ∀ k ∈ kept,
    (readPcapHeader (packet k).payload).sampleNumber = firstTimestamp + 16 * (k / frame)

namespace KeptStream

variable (S : KeptStream)

/-- The capture holds the packets kept, and the tool is asked for all of them. -/
structure CheckedBy (a : ToolArgs) : Prop where
  port : ∀ k ∈ S.kept, a.port ≤ 0 ∨ ((S.packet k).dport : ℤ) = a.port
  all : a.numPackets ≤ 0 ∨ (S.kept.length : ℤ) ≤ a.numPackets
  startChannel : a.startChannel = S.startChannel
  numChannels : a.numChannels = 256 * S.frame

/-- What the tool prints about the stream. -/
def output (a : ToolArgs) : List (List ToolLine) :=
  (captureTool a (S.kept.map S.packet)).getD []

/-- The counts of missed subpackets add up to the deleted packets, and no error is printed
for a packet whose predecessor has been kept. -/
structure CountsLosses (a : ToolArgs) : Prop where
  total : ((S.output a).flatten.filterMap ToolLine.missed).sum = Positions.missing S.kept
  quiet : ∀ (i k : ℕ) (lines : List ToolLine), S.kept[i]? = some k →
    S.kept[i + 1]? = some (k + 1) → (S.output a)[i + 1]? = some lines →
      ∀ line ∈ lines, ¬line.IsError

/-- What the deletions before each kept packet leave after whole frames. -/
def residues : List ℕ := (Positions.missingBefore S.kept).map (· % S.frame)

/-- Losses of which the counter recovers: whole frames are missing before a packet whose
predecessor has been kept, and the residues before the last packet add up to the whole
frames among all deletions. -/
structure Recovers : Prop where
  total : S.residues.dropLast.sum = S.frame * (Positions.missing S.kept / S.frame)
  quiet : ∀ i k : ℕ, S.kept[i]? = some k → S.kept[i + 1]? = some (k + 1) →
    S.residues[i + 1]? = some 0

end KeptStream

-- ════════════════════════════════════════════════════════════════════════
-- One packet
-- ════════════════════════════════════════════════════════════════════════

variable {a : ToolArgs} {s : ToolState}

/-- A packet that is validated, and whose frame follows closely. -/
theorem toolPacket_eq {p : UdpPacket} {e l : ℤ} (hval : a.channelValidation = true)
    (hexpected : (s.foundStartChannel = true ∧ s.expectedNextChannelBlock = e) ∨
      (s.foundStartChannel = false ∧ ((readPcapHeader p.payload).channel : ℤ) = a.startChannel ∧
        a.startChannel = e))
    (hlast : (if s.lastSeqNum = 0 then ((readPcapHeader p.payload).sampleNumber : ℤ)
      else s.lastSeqNum) = l)
    (hframe : ((readPcapHeader p.payload).sampleNumber - l) / 16 ≤ 1) :
    toolPacket a s p =
      (⟨s.i + 1, (readPcapHeader p.payload).sampleNumber, true, nextChannelBlock a e⟩,
        channelErrors a e l (readPcapHeader p.payload).channel
            (readPcapHeader p.payload).sampleNumber ++
          if a.errorsOnly then [] else [.packet s.i p.dport (readPcapHeader p.payload)]) := by
  have hnone : ¬((readPcapHeader p.payload).sampleNumber - l) / 16 > 1 := not_lt.mpr hframe
  rcases hexpected with ⟨hfound, rfl⟩ | ⟨hfound, hchannel, rfl⟩
  · simp only [toolPacket, hlast, if_neg hnone, hfound, hval, Bool.not_true, Bool.and_false,
      Bool.false_and, Bool.true_or, Bool.and_true, Bool.false_eq_true, if_false, if_true,
      List.nil_append]
  · simp only [toolPacket, hlast, if_neg hnone, hfound, hval, hchannel, beq_self_eq_true,
      Bool.not_false, Bool.and_true, Bool.false_or, if_true, List.nil_append]

/-- The sum of two residues is a residue, or it is one after a whole frame. -/
theorem add_mod_cases {m x r : ℕ} (hx : x < m) (hr : r < m) :
    (x + r < m ∧ (x + r) % m = x + r) ∨ (m ≤ x + r ∧ (x + r) % m + m = x + r) := by
  rcases Nat.lt_or_ge (x + r) m with hlt | hge
  · exact .inl ⟨hlt, Nat.mod_eq_of_lt hlt⟩
  · refine .inr ⟨hge, ?_⟩
    rw [Nat.mod_eq_sub_mod hge, Nat.mod_eq_of_lt (by omega)]
    omega

/-- A channel that is `r` blocks ahead of the counter is reported with this count, also
across the end of a frame. -/
theorem channelErrors_eq {start m x r : ℕ} (hstart : a.startChannel = start)
    (hnum : a.numChannels = 256 * m) (hx : x < m) (hr : r < m) (l sampleNumber : ℤ) :
    ∃ line : ToolLine, line.missed = some (r : ℤ) ∧ line.IsError ∧
      channelErrors a (start + 256 * x) l (start + 256 * ((x + r) % m : ℕ)) sampleNumber =
        if r = 0 then [] else [line] := by
  have hval := ToolArgs.channelValidation_of hstart
  have hlastBlock : a.lastChannelBlock = start + 256 * m - 256 := by
    rw [ToolArgs.lastChannelBlock, if_pos hval, hstart, hnum]
  rw [channelErrors, hlastBlock, hstart]
  rcases add_mod_cases hx hr with ⟨hlt, hmod⟩ | ⟨hge, hmod⟩
  · refine ⟨.missedForSequence r sampleNumber, rfl, trivial, ?_⟩
    rw [hmod]
    by_cases hzero : r = 0
    · rw [if_pos hzero, if_neg (by rw [hzero]; simp)]
    · rw [if_neg hzero, if_pos (by omega), if_pos (by omega)]
      congr 2
      omega
  · refine ⟨.missedGoing r l sampleNumber, rfl, trivial, ?_⟩
    rw [if_neg (show r ≠ 0 by omega), if_pos (by omega), if_neg (by omega)]
    congr 2
    omega

/-- The counter goes through the blocks of a frame. -/
theorem nextChannelBlock_eq {start m : ℕ} (hstart : a.startChannel = start)
    (hnum : a.numChannels = 256 * m) (hm : 0 < m) (i : ℕ) :
    nextChannelBlock a (start + 256 * (i % m : ℕ)) = start + 256 * ((i + 1) % m : ℕ) := by
  have hval := ToolArgs.channelValidation_of hstart
  have hi : i % m < m := Nat.mod_lt i hm
  rw [nextChannelBlock, ToolArgs.lastChannelBlock, if_pos hval, hstart, hnum, ← Nat.mod_add_mod]
  rcases Nat.lt_or_ge (i % m + 1) m with hlt | hge
  · rw [if_neg (by omega), Nat.mod_eq_of_lt hlt]
    omega
  · rw [if_pos (by omega), show i % m + 1 = m by omega, Nat.mod_self]
    omega

-- ════════════════════════════════════════════════════════════════════════
-- The loop
-- ════════════════════════════════════════════════════════════════════════

/-- The lines for a packet before which `r` subpackets are missed: one error with this
count, or none for zero. -/
def Reports (lines : List ToolLine) (r : ℕ) : Prop :=
  lines.filterMap ToolLine.missed = (if r = 0 then [] else [(r : ℤ)]) ∧
    (r = 0 ↔ ∀ line ∈ lines, ¬line.IsError)

/-- The lines of one packet. -/
theorem reports_append {line : ToolLine} {r : ℕ} (hmissed : line.missed = some (r : ℤ))
    (herror : line.IsError) (errorsOnly : Bool) (i dport : ℕ) (header : PcapHeader) :
    Reports ((if r = 0 then [] else [line]) ++
      if errorsOnly then [] else [.packet i dport header]) r := by
  have hprinted : ∀ l ∈ (if errorsOnly then [] else [.packet i dport header] : List ToolLine),
      l = .packet i dport header := by
    intro l hl
    cases errorsOnly
    · exact List.mem_singleton.mp hl
    · exact absurd hl List.not_mem_nil
  have hnone : (if errorsOnly then [] else [.packet i dport header] : List ToolLine).filterMap
      ToolLine.missed = [] := by
    rw [List.filterMap_eq_nil_iff]
    intro l hl
    rw [hprinted l hl]
    rfl
  constructor
  · rw [List.filterMap_append, hnone, List.append_nil]
    by_cases hzero : r = 0
    · rw [if_pos hzero, if_pos hzero, List.filterMap_nil]
    · rw [if_neg hzero, if_neg hzero, List.filterMap_cons_some hmissed, List.filterMap_nil]
  · constructor
    · intro hzero l hl
      rw [if_pos hzero, List.nil_append] at hl
      rw [hprinted l hl]
      exact id
    · intro hquiet
      by_contra hzero
      rw [if_neg hzero] at hquiet
      exact hquiet line (List.mem_append_left _ List.mem_cons_self) herror

namespace KeptStream

variable {S : KeptStream} {a : ToolArgs}

/-- The state before the packet with index `i`, at position `k`: the counter is at the block
that would come without losses, or the first packet is still to come. -/
structure Expects (S : KeptStream) (i k : ℕ) (s : ToolState) : Prop where
  index : s.i = i
  counter : (s.foundStartChannel = true ∧
      s.expectedNextChannelBlock = S.startChannel + 256 * (i % S.frame : ℕ)) ∨
    (s.foundStartChannel = false ∧ i = 0 ∧ S.frame ∣ k)
  lastSeqNum : s.lastSeqNum = 0 ∨ ∃ before, before < k ∧ k ≤ before + S.frame ∧
    s.lastSeqNum = S.firstTimestamp + 16 * (before / S.frame : ℕ)

/-- The position in the frame is that of the counter and what is missing. -/
theorem position_mod (S : KeptStream) {i k : ℕ} (hi : Positions.first S.kept + i ≤ k) :
    k % S.frame = (i % S.frame + (k - (Positions.first S.kept + i)) % S.frame) % S.frame := by
  obtain ⟨q, hq⟩ := S.synchronized
  rw [← Nat.add_mod, show i + (k - (Positions.first S.kept + i)) = k - S.frame * q by omega,
    Nat.sub_mul_mod (by omega)]

/-- The packet belongs to the frame of the one before it or to the next one. -/
theorem Expects.next_frame {i k : ℕ} {s : ToolState} (h : S.Expects i k s) {sample : ℤ}
    (hsample : sample = S.firstTimestamp + 16 * (k / S.frame : ℕ)) :
    (sample - if s.lastSeqNum = 0 then sample else s.lastSeqNum) / 16 ≤ 1 := by
  rcases h.lastSeqNum with hzero | ⟨before, -, hclose, hbefore⟩
  · rw [if_pos hzero, sub_self]
    decide
  · have hpos := S.firstTimestamp_pos
    have hquot : k / S.frame ≤ before / S.frame + 1 := by
      rw [← Nat.add_div_right _ S.frame_pos]
      exact Nat.div_le_div_right hclose
    rw [hsample, hbefore]
    generalize k / S.frame = frame at hquot
    generalize before / S.frame = frameBefore at hquot
    rw [if_neg (by omega)]
    omega

/-- **One packet** of a stream. -/
theorem Expects.packet {i k : ℕ} {s : ToolState} (h : S.Expects i k s) (hc : S.CheckedBy a)
    (hk : k ∈ S.kept) (hi : Positions.first S.kept + i ≤ k) :
    Reports (toolPacket a s (S.packet k)).2 ((k - (Positions.first S.kept + i)) % S.frame) ∧
      (toolPacket a s (S.packet k)).1 =
        ⟨i + 1, S.firstTimestamp + 16 * (k / S.frame : ℕ), true,
          S.startChannel + 256 * ((i + 1) % S.frame : ℕ)⟩ := by
  have hm := S.frame_pos
  have hval := ToolArgs.channelValidation_of hc.startChannel
  have hchannel : ((readPcapHeader (S.packet k).payload).channel : ℤ) =
      S.startChannel + 256 * (k % S.frame : ℕ) := by
    rw [S.channel_packet k hk]
    push_cast
    rfl
  have hsample : ((readPcapHeader (S.packet k).payload).sampleNumber : ℤ) =
      S.firstTimestamp + 16 * (k / S.frame : ℕ) := by
    rw [S.sampleNumber_packet k hk]
    push_cast
    rfl
  have hexpected : (s.foundStartChannel = true ∧ s.expectedNextChannelBlock =
        S.startChannel + 256 * (i % S.frame : ℕ)) ∨
      (s.foundStartChannel = false ∧
        ((readPcapHeader (S.packet k).payload).channel : ℤ) = a.startChannel ∧
          a.startChannel = S.startChannel + 256 * (i % S.frame : ℕ)) := by
    refine h.counter.imp_right fun ⟨hfound, hzero, hdvd⟩ => ⟨hfound, ?_, ?_⟩
    · rw [hchannel, hc.startChannel, Nat.mod_eq_zero_of_dvd hdvd]
      simp
    · rw [hc.startChannel, hzero, Nat.zero_mod]
      simp
  rw [toolPacket_eq hval hexpected rfl (h.next_frame hsample)]
  obtain ⟨line, hmissed, herror, herrors⟩ := channelErrors_eq (a := a) hc.startChannel
    hc.numChannels (Nat.mod_lt i hm) (Nat.mod_lt (k - (Positions.first S.kept + i)) hm)
    (if s.lastSeqNum = 0 then ((readPcapHeader (S.packet k).payload).sampleNumber : ℤ)
      else s.lastSeqNum)
    (readPcapHeader (S.packet k).payload).sampleNumber
  constructor
  · rw [hchannel, S.position_mod hi, herrors]
    exact reports_append hmissed herror ..
  · rw [hsample, nextChannelBlock_eq hc.startChannel hc.numChannels hm, h.index]

/-- The loop passes over no packet of the stream, and stops behind the last one at most. -/
theorem toolLoop_cons (hc : S.CheckedBy a) {k : ℕ} {ks : List ℕ} {s : ToolState}
    (hk : k ∈ S.kept) (hall : a.numPackets ≤ 0 ∨
      ((toolPacket a s (S.packet k)).1.i + ks.length : ℤ) ≤ a.numPackets) :
    toolLoop a s ((k :: ks).map S.packet) =
      (toolPacket a s (S.packet k)).2 ::
        toolLoop a (toolPacket a s (S.packet k)).1 (ks.map S.packet) := by
  have hport : ¬(a.port > 0 ∧ ((S.packet k).dport : ℤ) ≠ a.port) := by
    rcases hc.port k hk with hnone | hsame
    · exact fun h => absurd h.1 (not_lt.mpr hnone)
    · exact fun h => h.2 hsame
  rw [List.map_cons, toolLoop, if_neg hport, if_neg (not_lt.mpr (S.header_whole k hk))]
  congr 1
  cases ks with
  | nil => exact ite_self _
  | cons k' ks =>
    rw [if_neg]
    rw [List.length_cons] at hall
    omega

/-- **The reports about a stream.** For each packet one error is printed, with the residue
of what is missing before it, or none. -/
theorem Expects.loop {i k : ℕ} {ks : List ℕ} {s : ToolState} (h : S.Expects i k s)
    (hc : S.CheckedBy a) (hmem : ∀ k' ∈ k :: ks, k' ∈ S.kept)
    (hsorted : (k :: ks).Pairwise (· < ·))
    (hfew : (k :: ks).IsChain fun k k' => k' ≤ k + S.frame)
    (hi : Positions.first S.kept + i ≤ k)
    (hall : a.numPackets ≤ 0 ∨ (i + (k :: ks).length : ℤ) ≤ a.numPackets) :
    List.Forall₂ Reports (toolLoop a s ((k :: ks).map S.packet))
      ((Positions.missingFrom (Positions.first S.kept + i) (k :: ks)).map (· % S.frame)) := by
  induction ks generalizing i k s with
  | nil =>
    obtain ⟨hreports, hnext⟩ := h.packet hc (hmem k List.mem_cons_self) hi
    rw [toolLoop_cons hc (hmem k List.mem_cons_self)]
    · exact .cons hreports .nil
    · rw [hnext]
      exact hall
  | cons k' ks ih =>
    obtain ⟨hreports, hnext⟩ := h.packet hc (hmem k List.mem_cons_self) hi
    obtain ⟨hlt, hrest⟩ := List.pairwise_cons.mp hsorted
    obtain ⟨hle, hfew'⟩ := List.isChain_cons_cons.mp hfew
    have hk' := hlt k' List.mem_cons_self
    have hexpects : S.Expects (i + 1) k' (toolPacket a s (S.packet k)).1 := by
      rw [hnext]
      exact ⟨rfl, .inl ⟨rfl, rfl⟩, .inr ⟨k, hk', hle, rfl⟩⟩
    rw [toolLoop_cons hc (hmem k List.mem_cons_self)]
    · refine .cons hreports (ih hexpects (fun j hj => hmem j (List.mem_cons_of_mem _ hj)) hrest
        hfew' (by omega) ?_)
      simp only [List.length_cons] at hall ⊢
      push_cast at hall ⊢
      omega
    · simp only [hnext, List.length_cons] at hall ⊢
      push_cast at hall ⊢
      omega

/-- The tool does not exit. -/
theorem CheckedBy.rejected_eq (hc : S.CheckedBy a) : a.rejected = false := by
  have hstart : a.startChannel ≠ -1 := by
    rw [hc.startChannel]
    omega
  have hnum : a.numChannels ≠ -1 := by
    rw [hc.numChannels]
    omega
  simp [ToolArgs.rejected, hstart, hnum]

/-- For each packet of a stream one error is printed, or none. -/
theorem output_reports (hc : S.CheckedBy a) :
    List.Forall₂ Reports (S.output a) S.residues := by
  rw [output, captureTool, hc.rejected_eq, residues, Positions.missingBefore]
  change List.Forall₂ Reports (toolLoop a .initial _) _
  cases hkept : S.kept with
  | nil => exact .nil
  | cons k ks =>
    have hfirst : Positions.first (k :: ks) = k := rfl
    have hdvd : S.frame ∣ k := by
      have hsync := S.synchronized
      rwa [hkept] at hsync
    have hstart : S.Expects 0 k .initial := ⟨rfl, .inr ⟨rfl, rfl, hdvd⟩, .inl rfl⟩
    have hmem : ∀ j ∈ k :: ks, j ∈ S.kept := fun j hj => hkept ▸ hj
    have hloop := hstart.loop hc hmem (hkept ▸ S.inOrder)
      (hkept ▸ S.fewDeleted) (by rw [hkept, hfirst]; exact le_rfl) (by
        have hall := hc.all
        rw [hkept] at hall
        rwa [Int.natCast_zero, zero_add])
    rwa [hkept] at hloop

theorem sum_missed {outputs : List (List ToolLine)} {rs : List ℕ}
    (h : List.Forall₂ Reports outputs rs) :
    (outputs.flatten.filterMap ToolLine.missed).sum = (rs.sum : ℤ) := by
  induction h with
  | nil => rfl
  | @cons lines r outputs rs hreports _ ih =>
    have hcount : (lines.filterMap ToolLine.missed).sum = (r : ℤ) := by
      rw [hreports.1]
      split
      next hzero => rw [hzero]; rfl
      next => exact List.sum_singleton
    rw [List.flatten_cons, List.filterMap_append, List.sum_append, ih, hcount, List.sum_cons]
    push_cast
    rfl

/-- The residues add up to all deletions when those before the last packet add up to the
whole frames. -/
theorem sum_residues_iff (S : KeptStream) :
    S.residues.sum = Positions.missing S.kept ↔
      S.residues.dropLast.sum = S.frame * (Positions.missing S.kept / S.frame) := by
  have hbefore : Positions.missingBefore S.kept ≠ [] := by
    intro hnil
    have hlen := Positions.missingFrom_length (Positions.first S.kept) S.kept
    rw [show Positions.missingFrom (Positions.first S.kept) S.kept = [] from hnil] at hlen
    exact S.kept_ne_nil (List.eq_nil_of_length_eq_zero hlen.symm)
  have hlast : (Positions.missingBefore S.kept).getLast hbefore = Positions.missing S.kept := by
    rw [← Positions.missingBefore_getLast S.inOrder S.kept_ne_nil, Positions.last,
      List.getLast?_eq_some_getLast hbefore, Option.getD_some]
  have hsplit : S.residues = S.residues.dropLast ++ [Positions.missing S.kept % S.frame] := by
    rw [residues, ← List.map_dropLast, ← hlast, ← List.map_singleton (f := (· % S.frame)),
      ← List.map_append, List.dropLast_append_getLast]
  have hdiv := Nat.div_add_mod (Positions.missing S.kept) S.frame
  have hsum := congrArg List.sum hsplit
  rw [List.sum_append, List.sum_singleton] at hsum
  omega

/-- **Counting the losses.** The tool counts the losses of a stream exactly when its counter
recovers from them. -/
theorem countsLosses_iff (S : KeptStream) (a : ToolArgs) (hc : S.CheckedBy a) :
    S.CountsLosses a ↔ S.Recovers := by
  have hreports := output_reports hc
  have hlen := hreports.length_eq
  have hsum := sum_missed hreports
  have htotal : ((S.output a).flatten.filterMap ToolLine.missed).sum = Positions.missing S.kept ↔
      S.residues.dropLast.sum = S.frame * (Positions.missing S.kept / S.frame) := by
    rw [hsum, Nat.cast_inj]
    exact S.sum_residues_iff
  have hquiet : ∀ (i : ℕ) (lines : List ToolLine), (S.output a)[i]? = some lines →
      ((∀ line ∈ lines, ¬line.IsError) ↔ S.residues[i]? = some 0) := by
    intro i lines hlines
    obtain ⟨hi, hget⟩ := List.getElem?_eq_some_iff.mp hlines
    have hi' : i < S.residues.length := hlen ▸ hi
    have hreport := hreports.get hi hi'
    rw [List.get_eq_getElem, List.get_eq_getElem, hget] at hreport
    rw [List.getElem?_eq_getElem hi', Option.some.injEq]
    exact hreport.2.symm
  constructor
  · intro h
    refine ⟨htotal.mp h.total, fun i k hk hk' => ?_⟩
    have hi : i + 1 < (S.output a).length := by
      rw [hlen, residues, List.length_map, Positions.missingBefore, Positions.missingFrom_length]
      exact (List.getElem?_eq_some_iff.mp hk').1
    exact (hquiet (i + 1) _ (List.getElem?_eq_getElem hi)).mp
      (h.quiet i k _ hk hk' (List.getElem?_eq_getElem hi))
  · intro h
    exact ⟨htotal.mpr h.total, fun i k lines hk hk' hlines =>
      (hquiet (i + 1) lines hlines).mpr (h.quiet i k hk hk')⟩

end KeptStream

/-- A stream of headers, in frames of two. -/
def pairStream (kept : List ℕ) (hsome : kept ≠ []) (hsorted : kept.Pairwise (· < ·))
    (hfew : kept.IsChain fun k k' => k' ≤ k + 2) (hsync : 2 ∣ Positions.first kept)
    (hchannel : ∀ k ∈ kept, (readPcapHeader
      (voltagePacket ⟨1, 256 * (k % 2), 16 + 16 * (k / 2), 2, 0⟩ 256 [])).channel =
        0 + 256 * (k % 2))
    (hsample : ∀ k ∈ kept, (readPcapHeader
      (voltagePacket ⟨1, 256 * (k % 2), 16 + 16 * (k / 2), 2, 0⟩ 256 [])).sampleNumber =
        16 + 16 * (k / 2)) : KeptStream where
  startChannel := 0
  frame := 2
  frame_pos := two_pos
  firstTimestamp := 16
  firstTimestamp_pos := by decide
  packet k := ⟨10000, voltagePacket ⟨1, 256 * (k % 2), 16 + 16 * (k / 2), 2, 0⟩ 256 []⟩
  kept := kept
  kept_ne_nil := hsome
  inOrder := hsorted
  fewDeleted := hfew
  synchronized := hsync
  header_whole k _ := by
    rw [voltagePacket_length]
    exact Nat.le_add_right _ _
  channel_packet := hchannel
  sampleNumber_packet := hsample

/-- The arguments that validate two blocks from channel 0 on. -/
def pairArgs : ToolArgs where
  port := 0
  numPackets := 0
  startChannel := 0
  numChannels := 512
  errorsOnly := true

/-- The second of three subpackets has been deleted. -/
def lastLost : KeptStream :=
  pairStream [0, 2] (by decide) (by decide) (by decide) (by decide) (by decide) (by decide)

/-- The second of four subpackets has been deleted. -/
def earlyLost : KeptStream :=
  pairStream [0, 2, 3] (by decide) (by decide) (by decide) (by decide) (by decide) (by decide)

/-- A loss in front of the last packet is counted. -/
theorem countsLosses_iff_last : lastLost.CountsLosses pairArgs := by
  have hchecked : lastLost.CheckedBy pairArgs :=
    { port := fun _ _ => .inl le_rfl
      all := .inl le_rfl
      startChannel := rfl
      numChannels := rfl }
  refine (lastLost.countsLosses_iff pairArgs hchecked).mpr ⟨by decide, ?_⟩
  rintro (_ | i) k hk hk'
  · cases hk
    cases hk'
  · cases hk'

/-- A loss in front of two packets is reported twice. -/
theorem loss_reported_twice :
    Positions.missing earlyLost.kept = 1 ∧ ¬earlyLost.CountsLosses pairArgs := by
  refine ⟨by decide, fun h => ?_⟩
  exact absurd h.total (by decide)

end GrAta
