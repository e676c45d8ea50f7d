import GrAta.Library.Positions
import GrAta.Spectrometer.Unmixed
import Mathlib.Algebra.BigOperators.Group.List.Basic
import Mathlib.Data.Int.ModEq

/-!
# Counting lost packets in the spectrometer mode

The work function counts from the channels of two packets in a row how many packets are
missing in between. The member for the last channel is unsigned, so that its value before
the first packet, -1, counts as a channel, and the first packet takes 120 packets off.
All later packets add exactly what is missing before them.

## Main definitions

- `contributions`: what each packet of a list adds
- `SpectStream.lost`: the packets lost between the first and the last one received
- `SpectStream.FewLosses`: fewer than eight packets in a row are lost

## Main results

- `SpectStream.contributions_eq`: what the packets of a stream add
- `run_skippedPackets_modEq`: the counts of all calls, up to the width of the counter
- `skippedPackets_off`: no schedule on any such stream counts the lost packets
-/

namespace GrAta

/-- What each packet adds to the skipped packets, from the last channel before the first
one of them on. -/
def contributions (c : Config) : ℕ → List Packet → List ℤ
  | _, [] => []
  | last, p :: ps => skippedBlocks c last (spectChannel p) :: contributions c (spectChannel p) ps

/-- The sum of the counts of all calls. -/
def SpectRun.skippedPackets (w : SpectRun) : ℤ := (w.results.map SpectResult.skippedPackets).sum

namespace SpectStream

variable (S : SpectStream)

/-- The positions of the first and of the last packet received. -/
def first : ℕ := S.received.head?.getD 0

def last : ℕ := S.received.getLast?.getD 0

/-- The number of packets lost in between. -/
def lost : ℕ := (Finset.Icc S.first S.last \ S.received.toFinset).card

/-- Fewer than eight packets in a row are lost. -/
def FewLosses : Prop := S.received.IsChain fun k k' => k' ≤ k + 8

end SpectStream

-- ════════════════════════════════════════════════════════════════════════
-- What the packets of a stream add
-- ════════════════════════════════════════════════════════════════════════

variable {B : SpectBlock} {S : SpectStream}

theorem SpectBlock.skippedBlocks_eq (B : SpectBlock) (last channelId : ℕ) :
    skippedBlocks B.cfg last channelId =
      if channelId > last then ((channelId : ℤ) - last).tdiv 512 - 1
      else ((3584 : ℤ) - last).tdiv 512 + (channelId : ℤ).tdiv 512 := by
  change (if _ then _ else _ + ((channelId : ℤ) - (0 : ℕ)).tdiv 512) = _
  rw [Int.natCast_zero, sub_zero]
  rfl

/-- The first packet of a block takes 120 packets off. -/
theorem skippedBlocks_first : skippedBlocks B.cfg (toUint16 (-1)) 0 = -120 := by
  rw [B.skippedBlocks_eq]
  decide

/-- A later packet adds the packets missing before it. -/
theorem skippedBlocks_next {k k' : ℕ} (hlt : k < k') (hle : k' ≤ k + 8) :
    skippedBlocks B.cfg (512 * (k % 8)) (512 * (k' % 8)) = (k' : ℤ) - k - 1 := by
  rw [B.skippedBlocks_eq]
  split
  · rw [show ((512 * (k' % 8) : ℕ) : ℤ) - (512 * (k % 8) : ℕ) = 512 * ((k' % 8 : ℕ) - (k % 8 : ℕ))
      by push_cast; ring, Int.mul_tdiv_cancel_left _ (by decide)]
    omega
  · rw [show (3584 : ℤ) - (512 * (k % 8) : ℕ) = 512 * (7 - (k % 8 : ℕ)) by push_cast; ring,
      Nat.cast_mul, Nat.cast_ofNat, Int.mul_tdiv_cancel_left _ (by decide),
      Int.mul_tdiv_cancel_left _ (by decide)]
    omega

/-- From one packet received on, the packets after it add what is missing in between. -/
theorem contributions_positions {packet : ℕ → Packet} {k : ℕ} {ks : List ℕ}
    (hchan : ∀ k' ∈ ks, spectChannel (packet k') = 512 * (k' % 8))
    (hsorted : (k :: ks).Pairwise (· < ·)) (hfew : (k :: ks).IsChain fun k k' => k' ≤ k + 8) :
    (∀ x ∈ contributions B.cfg (512 * (k % 8)) (ks.map packet), 0 ≤ x) ∧
      (contributions B.cfg (512 * (k % 8)) (ks.map packet)).sum + (ks.length : ℤ) + k =
        ((k :: ks).getLast?.getD 0 : ℕ) := by
  induction ks generalizing k with
  | nil => exact ⟨fun x hx => absurd hx List.not_mem_nil, by simp [contributions]⟩
  | cons k' ks ih =>
    obtain ⟨hlt, hrest⟩ := List.pairwise_cons.mp hsorted
    obtain ⟨hle, hfew'⟩ := List.isChain_cons_cons.mp hfew
    obtain ⟨hnonneg, hsum⟩ := ih (fun k'' h => hchan k'' (List.mem_cons_of_mem _ h)) hrest hfew'
    have hk' := hlt k' List.mem_cons_self
    have hnext := skippedBlocks_next (B := B) hk' hle
    rw [List.map_cons, contributions, hchan k' List.mem_cons_self, hnext, List.sum_cons,
      List.length_cons, List.getLast?_cons_cons, ← hsum]
    constructor
    · intro x hx
      rcases List.mem_cons.mp hx with rfl | hx
      · omega
      · exact hnonneg x hx
    · push_cast
      ring

namespace SpectStream

/-- Every position between the first and the last one is received or lost. -/
theorem lost_add_length (S : SpectStream) (hsome : S.received ≠ []) :
    (S.lost : ℤ) + S.received.length = S.last - S.first + 1 :=
  Positions.missing_add_length S.inOrder hsome

/-- The first packet of a stream adds -120, the later ones what is lost, and none of these
adds less than nothing. -/
theorem contributions_eq (B : SpectBlock) (S : SpectStream) (hfew : S.FewLosses)
    (hsome : S.received ≠ []) :
    ∃ later, contributions B.cfg (toUint16 (-1)) S.packets = -120 :: later ∧
      (∀ x ∈ later, 0 ≤ x) ∧ later.sum = S.lost := by
  obtain ⟨k, ks, hk⟩ := List.exists_cons_of_ne_nil hsome
  have hchan : ∀ k' ∈ S.received, spectChannel (S.packet k') = 512 * (k' % 8) :=
    fun k' h => S.channel_packet k' (S.received_lt k' h)
  have hstart : k % 8 = 0 := S.synchronized k (by rw [hk]; rfl)
  have hcount := S.lost_add_length hsome
  have hsorted := S.inOrder
  have hlast : S.last = (k :: ks).getLast?.getD 0 := by rw [last, hk]
  have hfirst : S.first = k := by rw [first, hk]; rfl
  rw [FewLosses] at hfew
  rw [packets]
  rw [hk] at hchan hcount hsorted hfew ⊢
  obtain ⟨hnonneg, hsum⟩ := contributions_positions (B := B)
    (fun k' h => hchan k' (List.mem_cons_of_mem _ h)) hsorted hfew
  have hzero : spectChannel (S.packet k) = 0 := by
    rw [hchan k List.mem_cons_self, hstart]
  refine ⟨contributions B.cfg (512 * (k % 8)) (ks.map S.packet), ?_, hnonneg, ?_⟩
  · rw [List.map_cons, contributions, hzero, skippedBlocks_first, hstart]
  · rw [hlast, hfirst, List.length_cons] at hcount
    push_cast at hcount
    omega

end SpectStream

-- ════════════════════════════════════════════════════════════════════════
-- The counts of a run
-- ════════════════════════════════════════════════════════════════════════

/-- The channel that the member keeps after some packets. -/
def lastChannel (last : ℕ) (ps : List Packet) : ℕ := ps.foldl (fun _ p => spectChannel p) last

theorem contributions_append (c : Config) (last : ℕ) (ps qs : List Packet) :
    contributions c last (ps ++ qs) =
      contributions c last ps ++ contributions c (lastChannel last ps) qs := by
  induction ps generalizing last with
  | nil => rfl
  | cons p ps ih =>
    rw [List.cons_append, contributions, contributions, ih, List.cons_append]
    rfl

theorem toInt32_modEq (x : ℤ) : toInt32 x ≡ x [ZMOD 2 ^ 32] := Int.bmod_emod

/-- The packets that a call takes add their contributions, and the last channel is kept. -/
theorem run_packets_count {w w' : SpectWork} {ps : List Packet} (h : w.Spectral)
    (hrun : Execution.run (processSpectPacket B.cfg) w ps = .ok w') :
    w'.skippedPackets ≡
        w.skippedPackets + (contributions B.cfg w.spect.dLastChannelBlock ps).sum [ZMOD 2 ^ 32] ∧
      w'.spect.dLastChannelBlock = lastChannel w.spect.dLastChannelBlock ps := by
  induction ps generalizing w with
  | nil =>
    cases hrun
    exact ⟨by rw [contributions, List.sum_nil, add_zero], rfl⟩
  | cons p ps ih =>
    obtain ⟨w₁, hprocess, hw₁⟩ := processSpectPacket_ok (c := B.cfg) rfl h p
    rw [Execution.run_cons_ok hprocess] at hrun
    obtain ⟨hcount, hlast⟩ := ih hw₁ hrun
    have heq := (processSpectPacket_eq (c := B.cfg) rfl h p).symm.trans hprocess
    have hw₁ : w₁.skippedPackets = toInt32 (w.skippedPackets +
          skippedBlocks B.cfg w.spect.dLastChannelBlock (spectChannel p)) ∧
        w₁.spect.dLastChannelBlock = spectChannel p := by
      rw [← Except.ok.inj heq]
      split <;> exact ⟨rfl, rfl⟩
    rw [hw₁.1, hw₁.2] at hcount
    rw [hw₁.2] at hlast
    refine ⟨hcount.trans ?_, hlast⟩
    rw [contributions, List.sum_cons, ← add_assoc]
    exact (toInt32_modEq _).add_right _

/-- The counts agree with the packets that a run has taken. -/
structure SpectRun.Counts (B : SpectBlock) (taken : List Packet) (w : SpectRun) : Prop where
  skipped : w.skippedPackets ≡ (contributions B.cfg (toUint16 (-1)) taken).sum [ZMOD 2 ^ 32]
  last : w.source.spect.dLastChannelBlock = lastChannel (toUint16 (-1)) taken

theorem SpectRun.Counts.served {taken more rest : List Packet} {left waiting : List SpectSet}
    {w w' : SpectRun} {a : Assembly} {n : ℕ} {s : SnapSource} {result : SpectResult}
    {outputs : List SpectOutput} (h : w.Counts B taken)
    (hassembles : Assembles a left waiting ⟨w.source.spect, w.source.volt.seqNumQueue, 0⟩)
    (hspect : s.spect = w.source.spect) (hseq : s.volt.seqNumQueue = w.source.volt.seqNumQueue)
    (hresults : w'.results = w.results ++ [result])
    (hserved : Served B n a left s result outputs w'.source more rest) :
    w'.Counts B (taken ++ more) := by
  obtain ⟨sw, hrun, hresult, hlast⟩ := hserved.packets
  rw [hspect, hseq] at hrun
  obtain ⟨hcount, hchannel⟩ := run_packets_count hassembles.spectral hrun
  simp only [h.last, zero_add] at hcount hchannel
  refine ⟨?_, ?_⟩
  · rw [SpectRun.skippedPackets, hresults, List.map_append, List.sum_append, List.map_singleton,
      List.sum_singleton, hresult, contributions_append, List.sum_append]
    exact h.skipped.add hcount
  · rw [hlast, hchannel, lastChannel, lastChannel, lastChannel, List.foldl_append]

/-- The counts of all calls, up to the width of the counter. -/
theorem run_skippedPackets_modEq {env : Environment} {calls : List SpectCall} {w : SpectRun}
    (h : B.run env calls = .ok w) (hall : w.source.recv.dLocalqueue = []) :
    w.skippedPackets ≡
      (contributions B.cfg (toUint16 (-1)) (spectArrivals calls)).sum [ZMOD 2 ^ 32] := by
  rw [SpectBlock.run] at h
  obtain ⟨s, hstart, h⟩ := bind_eq_ok h
  rw [B.start_eq hstart] at h
  have hfinal := Execution.run_history_partial
    (fun calls w => ∃ taken left waiting,
      spectArrivals calls = taken ++ w.source.recv.dLocalqueue ∧ w.Follows B taken left waiting ∧
        w.Counts B taken)
    (fun _ => True) ?_ []
    ⟨[], [], [], rfl, SpectRun.start_follows env, .refl 0, rfl⟩ (fun _ _ => trivial) h
  · obtain ⟨taken, left, waiting, harrived, -, hcounts⟩ := hfinal
    rw [hall, List.append_nil] at harrived
    rw [List.nil_append] at harrived
    rw [harrived]
    exact hcounts.skipped
  · rintro calls w call w' ⟨taken, left, waiting, harrived, hfollows, hcounts⟩ - hcall
    obtain ⟨s, result, outputs, n, hspect, hseq, hresults, houtputs, hserved⟩ :=
      spectCall_served hfollows.assembles hcall
    obtain ⟨left', waiting', hw'⟩ := hfollows.served houtputs hserved
    refine ⟨_, left', waiting', ?_, hw',
      hcounts.served hfollows.assembles hspect hseq hresults hserved⟩
    rw [hserved.queue]
    exact spectArrivals_concat harrived n

/-- The counts of all calls on a stream are 120 below the number of lost packets, up to the
width of the counter. -/
theorem SpectStream.run_skippedPackets_below (hfew : S.FewLosses) (hsome : S.received ≠ [])
    {env : Environment} {calls : List SpectCall} {w : SpectRun}
    (harrived : spectArrivals calls = S.packets) (hrun : B.run env calls = .ok w)
    (hall : w.source.recv.dLocalqueue = []) :
    w.skippedPackets ≡ (S.lost : ℤ) - 120 [ZMOD 2 ^ 32] := by
  obtain ⟨later, hlater, -, hsum⟩ := S.contributions_eq B hfew hsome
  have hcount := run_skippedPackets_modEq hrun hall
  rwa [harrived, hlater, List.sum_cons, hsum, add_comm, ← sub_eq_add_neg] at hcount

theorem SpectStream.skippedPackets_ne_lost (hfew : S.FewLosses) (hsome : S.received ≠ [])
    {env : Environment} {calls : List SpectCall} {w : SpectRun}
    (harrived : spectArrivals calls = S.packets) (hrun : B.run env calls = .ok w)
    (hall : w.source.recv.dLocalqueue = []) : w.skippedPackets ≠ S.lost := by
  intro heq
  have hcount := S.run_skippedPackets_below hfew hsome harrived hrun hall
  rw [heq] at hcount
  have := hcount.dvd
  omega

/-- **No schedule counts the lost packets.** On every stream a packet adds less than nothing,
and the counts of all calls do not add up to the packets that are lost. -/
theorem skippedPackets_off (B : SpectBlock) {S : SpectStream} (hfew : S.FewLosses)
    (hsome : S.received ≠ []) {env : Environment} {calls : List SpectCall} {w : SpectRun}
    (harrived : spectArrivals calls = S.packets) (hrun : B.run env calls = .ok w)
    (hall : w.source.recv.dLocalqueue = []) :
    (∃ x ∈ contributions B.cfg (toUint16 (-1)) S.packets, x < 0) ∧ w.skippedPackets ≠ S.lost := by
  obtain ⟨later, hlater, -, -⟩ := S.contributions_eq B hfew hsome
  refine ⟨⟨-120, ?_, by decide⟩, S.skippedPackets_ne_lost hfew hsome harrived hrun hall⟩
  rw [hlater]
  exact List.mem_cons_self

/-- Six packets of a frame are lost. -/
theorem skippedPackets_off_bothEnds :
    ∃ w, SpectBlock.network.run ⟨[], fun _ _ => 0⟩ [bothEnds.call] = .ok w ∧
      (∃ x ∈ contributions SpectBlock.network.cfg (toUint16 (-1)) bothEnds.packets, x < 0) ∧
      w.skippedPackets ≠ bothEnds.lost := by
  obtain ⟨w, hrun, hall, -⟩ := bothEnds.run_call (List.cons_ne_nil _ _)
  have hfew : bothEnds.FewLosses := by
    unfold SpectStream.FewLosses
    decide
  exact ⟨w, hrun, skippedPackets_off SpectBlock.network hfew (List.cons_ne_nil _ _)
    (List.append_nil _) hrun hall⟩

/-- A frame of which no packet is lost. -/
def wholeFrame : SpectStream :=
  .ofReceived 1 onePayload [0, 1, 2, 3, 4, 5, 6, 7] one_frame_le (by decide) (by decide)
    (by decide)

/-- Nothing is lost, but the first packet takes 120 packets off, and the count is not zero. -/
theorem wholeFrame_counted_lost :
    wholeFrame.FewLosses ∧ wholeFrame.lost = 0 ∧
    ∃ w, SpectBlock.network.run ⟨[], fun _ _ => 0⟩ [wholeFrame.call] = .ok w ∧
      spectArrivals [wholeFrame.call] = wholeFrame.packets ∧ w.source.recv.dLocalqueue = [] ∧
      (contributions SpectBlock.network.cfg (toUint16 (-1)) wholeFrame.packets).head? =
        some (-120) ∧
      w.skippedPackets ≠ 0 := by
  have hfew : wholeFrame.FewLosses := by
    unfold SpectStream.FewLosses
    decide
  have hlost : wholeFrame.lost = 0 := by decide
  obtain ⟨w, hrun, hall, -⟩ := wholeFrame.run_call (List.cons_ne_nil _ _)
  obtain ⟨later, hlater, -, -⟩ := wholeFrame.contributions_eq SpectBlock.network hfew
    (List.cons_ne_nil _ _)
  have hne := wholeFrame.skippedPackets_ne_lost hfew (List.cons_ne_nil _ _) (List.append_nil _)
    hrun hall
  rw [hlost, Nat.cast_zero] at hne
  exact ⟨hfew, hlost, w, hrun, List.append_nil _, hall, by rw [hlater, List.head?_cons], hne⟩

end GrAta
