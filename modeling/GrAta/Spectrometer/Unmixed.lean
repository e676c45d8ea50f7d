import GrAta.Spectrometer.Assembly

/-!
# Spectra of one frame

The buffers keep the blocks of a frame until a packet of the first channels clears them,
and a packet of the last channels queues whatever they hold. A set of spectra belongs to
one frame when that frame has both packets. When only its last packet is received, it takes
over what the frames before it have left.

## Main definitions

- `SpectOutput.Unmixed`: each block shows a packet of the frame, or zeros
- `Opened`: a frame whose last packet is there has its first one, too
- `SpectStream.taken`: the packets of a stream that a run has taken

## Main results

- `SpectBlock.run_unmixed`: the outputs of any schedule on such a stream
- `stale_block_mixed`: a frame takes over a block of the frame before it
-/

namespace GrAta

-- ════════════════════════════════════════════════════════════════════════
-- Blocks
-- ════════════════════════════════════════════════════════════════════════

/-- Block `i` of a vector, which has 512 channels. -/
def BlockIs (v : List UInt32) (i : ℕ) (data : ℕ → UInt32) : Prop :=
  ∀ k < 512, v[512 * i + k]? = some (data k)

namespace SpectOutput

/-- Block `i` of the spectra that an item shows. The cross products have optional ports. -/
structure Block (o : SpectOutput) (i : ℕ) (data : Spectra) : Prop where
  xx : BlockIs o.item.xx i (data 0)
  yy : BlockIs o.item.yy i (data 1)
  xyReal : ∀ v ∈ o.item.xyReal, BlockIs v i (data 2)
  xyImag : ∀ v ∈ o.item.xyImag, BlockIs v i (data 3)

/-- Each block has the data of a received packet of the frame, or zeros. -/
def Unmixed (c : Config) (ps : List Packet) (o : SpectOutput) : Prop :=
  ∀ i < 8, (∃ p ∈ ps, spectNumber p = o.seqNum ∧ spectChannel p = 512 * i ∧
    o.Block i (spData c p)) ∨ o.Block i fun _ _ => 0

end SpectOutput

/-- A frame whose last packet is at one of the positions has its first one, too. -/
def Opened (ks : List ℕ) : Prop := ∀ k ∈ ks, k % 8 = 7 → k - 7 ∈ ks

instance (ks : List ℕ) : Decidable (Opened ks) := inferInstanceAs (Decidable (∀ k ∈ ks, _))

/-- The first packet of a frame comes before the last one. -/
theorem Opened.of_concat {ks : List ℕ} {q : ℕ} (h : Opened (ks ++ [q]))
    (hsorted : (ks ++ [q]).Pairwise (· < ·)) :
    Opened ks ∧ (q % 8 = 7 → q - 7 ∈ ks) := by
  have hbefore : ∀ k ∈ ks, k < q := fun k hk =>
    (List.pairwise_append.mp hsorted).2.2 k hk q (List.mem_singleton_self q)
  have hold : ∀ k ∈ ks ++ [q], k < q → k ∈ ks := fun k hk hlt =>
    (List.mem_append.mp hk).resolve_right fun hnew => hlt.ne (List.mem_singleton.mp hnew)
  refine ⟨fun k hk hlast => ?_, fun hlast => ?_⟩
  · have hlt := hbefore k hk
    exact hold _ (h k (List.mem_append_left _ hk) hlast) (by omega)
  · exact hold _ (h q (by simp) hlast) (by omega)

/-- The positions of the packets that a run has taken. -/
def SpectStream.taken (S : SpectStream) (w : SpectRun) : List ℕ :=
  S.received.take (S.received.length - w.source.recv.dLocalqueue.length)

theorem SpectStream.taken_prefix (S : SpectStream) (w : SpectRun) : S.taken w <+: S.received :=
  List.take_prefix _ _

/-- Block `i` of the buffers. -/
def Spectra.Block (s : Spectra) (i : ℕ) (data : Spectra) : Prop :=
  ∀ product, ∀ k < 512, s product (512 * i + k) = data product k

theorem SpectOutput.Renders.block {o : SpectOutput} {set : SpectSet} (h : o.Renders set) {i : ℕ}
    (hi : i < 8) {data : Spectra} (hblock : set.spectra.Block i data) : o.Block i data := by
  have hvector : ∀ product, BlockIs (set.vector product) i (data product) := by
    intro product k hk
    rw [SpectSet.vector, List.getElem?_map, List.getElem?_range (by omega), Option.map_some,
      hblock product k hk]
  refine ⟨?_, ?_, fun v hv => ?_, fun v hv => ?_⟩
  · rw [h.xx]
    exact hvector 0
  · rw [h.yy]
    exact hvector 1
  · rw [h.xyReal v hv]
    exact hvector 2
  · rw [h.xyImag v hv]
    exact hvector 3

variable {c : Config} {a : Assembly} {p : Packet} {i j : ℕ}

theorem Assembly.fill_block (hp : spectChannel p = 512 * i) :
    (a.fill c p).Block i (spData c p) := by
  intro product k hk
  rw [fill, spectOverlay, if_pos (by omega), hp, Nat.add_sub_cancel_left]

theorem Assembly.fill_block_cleared (hp : spectChannel p = 0) (hi : i ≠ 0) :
    (a.fill c p).Block i fun _ _ => 0 := by
  intro product k hk
  rw [fill, spectOverlay, if_neg (by omega), if_pos hp]

/-- A packet of other channels keeps a block. -/
theorem Assembly.fill_block_other (hp : spectChannel p = 512 * j) (hj : j ≠ 0) (hi : i ≠ j)
    {data : Spectra} (h : a.buffers.Block i data) : (a.fill c p).Block i data := by
  intro product k hk
  rw [fill, spectOverlay, if_neg (by omega), if_neg (by omega)]
  exact h product k hk

-- ════════════════════════════════════════════════════════════════════════
-- The buffers along a stream
-- ════════════════════════════════════════════════════════════════════════

namespace SpectStream

variable {S : SpectStream}

/-- Each block holds the data of its packet of a frame, or zeros. -/
def OfFrame (S : SpectStream) (c : Config) (ks : List ℕ) (frame : ℕ) (s : Spectra) : Prop :=
  ∀ i < 8, 8 * frame + i ∈ ks ∧ s.Block i (spData c (S.packet (8 * frame + i))) ∨
    s.Block i fun _ _ => 0

theorem OfFrame.mono {ks ks' : List ℕ} {frame : ℕ} {s : Spectra} (h : S.OfFrame c ks frame s)
    (hsub : ks ⊆ ks') : S.OfFrame c ks' frame s :=
  fun i hi => (h i hi).imp_left fun hpacket => ⟨hsub hpacket.1, hpacket.2⟩

/-- What holds after the packets at positions `ks`: the buffers hold one frame as long as
its first packet has been received, and each queued set is of one frame. -/
structure Apart (S : SpectStream) (c : Config) (ks : List ℕ) (a : Assembly) : Prop where
  buffers : ∀ z ∈ ks.getLast?, 8 * (z / 8) ∈ ks → S.OfFrame c ks (z / 8) a.buffers
  sets : ∀ set ∈ a.sets, ∃ frame, set.seqNum = S.number frame ∧ S.OfFrame c ks frame set.spectra

/-- The buffers after the packet at position `q`, which starts its frame or follows a packet
of it. -/
theorem OfFrame.fill {ks : List ℕ} {q : ℕ} (hq : q < 8 * S.frames)
    (h : q % 8 ≠ 0 → S.OfFrame c ks (q / 8) a.buffers) :
    S.OfFrame c (ks ++ [q]) (q / 8) (a.fill c (S.packet q)) := by
  have hchan := S.channel_packet q hq
  have hposition : 8 * (q / 8) + q % 8 = q := Nat.div_add_mod q 8
  intro i hi
  by_cases heq : i = q % 8
  · left
    rw [heq, hposition]
    exact ⟨List.mem_append_right _ (List.mem_singleton_self q), Assembly.fill_block hchan⟩
  · by_cases hzero : q % 8 = 0
    · right
      rw [hzero] at hchan heq
      exact Assembly.fill_block_cleared hchan heq
    · exact (h hzero i hi).imp
        (fun hold => ⟨List.mem_append_left _ hold.1,
          Assembly.fill_block_other hchan hzero heq hold.2⟩)
        (Assembly.fill_block_other hchan hzero heq)

/-- In ascending order, the positions of one frame follow one another. -/
theorem exists_last_of_frame {ks : List ℕ} {q : ℕ} (hsorted : (ks ++ [q]).Pairwise (· < ·))
    (hfirst : 8 * (q / 8) ∈ ks) : ∃ z ∈ ks.getLast?, z / 8 = q / 8 := by
  obtain ⟨init, z, rfl⟩ := (List.eq_nil_or_concat ks).resolve_left (List.ne_nil_of_mem hfirst)
  rw [List.concat_eq_append] at *
  obtain ⟨hks, -, hlast⟩ := List.pairwise_append.mp hsorted
  have hz : z < q := hlast z (by simp) q (List.mem_singleton_self q)
  have hle : 8 * (q / 8) ≤ z := by
    rcases List.mem_append.mp hfirst with hinit | heq
    · exact ((List.pairwise_append.mp hks).2.2 _ hinit z (List.mem_singleton_self z)).le
    · exact (List.mem_singleton.mp heq).le
  refine ⟨z, ?_, by omega⟩
  rw [List.getLast?_concat]
  rfl

/-- One more packet. -/
theorem Apart.packet {ks : List ℕ} {q : ℕ} (h : S.Apart c ks a)
    (hopened : q % 8 = 7 → q - 7 ∈ ks) (hinitial : ks ++ [q] <+: S.received) :
    S.Apart c (ks ++ [q]) (a.step c (S.packet q)) := by
  have hsorted := S.inOrder.sublist hinitial.sublist
  have hq := S.received_lt q (hinitial.subset (by simp))
  have hchan := S.channel_packet q hq
  have hfill : 8 * (q / 8) ∈ ks ++ [q] →
      S.OfFrame c (ks ++ [q]) (q / 8) (a.fill c (S.packet q)) := by
    intro hfirst
    apply OfFrame.fill hq
    intro hzero
    have hold : 8 * (q / 8) ∈ ks := by
      rcases List.mem_append.mp hfirst with hold | hnew
      · exact hold
      · have := List.mem_singleton.mp hnew
        omega
    obtain ⟨z, hz, hframe⟩ := exists_last_of_frame hsorted hold
    rw [← hframe] at hold ⊢
    exact h.buffers z hz hold
  refine ⟨fun z hz hfirst => ?_, fun set hset => ?_⟩
  · rw [List.getLast?_concat] at hz
    obtain rfl := Option.mem_some.mp hz
    exact hfill hfirst
  · have hmono := fun frame (h : S.OfFrame c ks frame set.spectra) =>
      h.mono (List.subset_append_left ks [q])
    rw [Assembly.step] at hset
    by_cases hend : spectChannel (S.packet q) = 3584
    · simp only [if_pos hend] at hset
      rcases List.mem_append.mp hset with hold | hnew
      · obtain ⟨frame, hnum, hframe⟩ := h.sets set hold
        exact ⟨frame, hnum, hmono frame hframe⟩
      · rw [List.mem_singleton.mp hnew]
        refine ⟨q / 8, S.number_packet q hq, hfill (List.mem_append_left _ ?_)⟩
        have hfirst := hopened (by omega)
        rwa [show q - 7 = 8 * (q / 8) by omega] at hfirst
    · simp only [if_neg hend] at hset
      obtain ⟨frame, hnum, hframe⟩ := h.sets set hset
      exact ⟨frame, hnum, hmono frame hframe⟩

/-- The assembly of an initial part of the packets received. -/
theorem apart (c : Config) (heap : ℕ → UInt32) {ks : List ℕ} (hopened : Opened ks)
    (hinitial : ks <+: S.received) : S.Apart c ks (Assembly.run c heap (ks.map S.packet)) := by
  induction ks using List.reverseRecOn with
  | nil =>
    exact ⟨fun z hz => absurd hz (Option.not_mem_none z), fun set hset =>
      absurd hset List.not_mem_nil⟩
  | append_singleton ks q ih =>
    obtain ⟨hold, hnew⟩ := hopened.of_concat (S.inOrder.sublist hinitial.sublist)
    rw [List.map_append, Assembly.run, List.foldl_append]
    exact (ih hold ((List.prefix_append ks [q]).trans hinitial)).packet hnew hinitial

theorem OfFrame.unmixed {ks : List ℕ} {frame : ℕ} {set : SpectSet} {o : SpectOutput}
    (h : S.OfFrame c ks frame set.spectra) (hks : ks ⊆ S.received)
    (hnum : set.seqNum = S.number frame) (ho : o.Renders set) : o.Unmixed c S.packets := by
  intro i hi
  refine (h i hi).imp (fun hpacket => ?_) (ho.block hi)
  have hk := hks hpacket.1
  have hlt := S.received_lt _ hk
  refine ⟨_, List.mem_map_of_mem hk, ?_, ?_, ho.block hi hpacket.2⟩
  · rw [S.number_packet _ hlt, ho.seqNum, hnum]
    congr 1
    omega
  · rw [S.channel_packet _ hlt]
    omega

end SpectStream

theorem exists_set_of_mem {outputs : List SpectOutput} {sets : List SpectSet}
    (h : outputs.Forall₂ SpectOutput.Renders sets) {o : SpectOutput} (ho : o ∈ outputs) :
    ∃ set ∈ sets, o.Renders set := by
  induction h with
  | nil => exact absurd ho List.not_mem_nil
  | cons hrenders _ ih =>
    rcases List.mem_cons.mp ho with rfl | hrest
    · exact ⟨_, List.mem_cons_self, hrenders⟩
    · obtain ⟨set, hset, hset'⟩ := ih hrest
      exact ⟨set, List.mem_cons_of_mem _ hset, hset'⟩

/-- What a run on a stream has taken, and its outputs. -/
theorem SpectBlock.run_follows {B : SpectBlock} {S : SpectStream} {env : Environment}
    {calls : List SpectCall} {w : SpectRun} (harrived : spectArrivals calls = S.packets)
    (hrun : B.run env calls = .ok w) :
    ∃ left waiting, w.Follows B ((S.taken w).map S.packet) left waiting := by
  obtain ⟨taken, left, waiting, hsplit, hfollows⟩ := run_assembles hrun
  have hpackets : S.received.map S.packet = taken ++ w.source.recv.dLocalqueue :=
    harrived.symm.trans hsplit
  have hlength := congrArg List.length hpackets
  rw [List.length_map, List.length_append] at hlength
  have htaken : (S.taken w).map S.packet = taken := by
    rw [SpectStream.taken, hlength, Nat.add_sub_cancel, List.map_take, hpackets, List.take_left]
  exact ⟨left, waiting, htaken ▸ hfollows⟩

/-- **Spectra of one frame.** When every frame whose last packet has been taken has its first
packet taken, too, each output set of each schedule shows packets of the frame with its
sequence number, and zeros. -/
theorem SpectBlock.run_unmixed (B : SpectBlock) {S : SpectStream} {env : Environment}
    {calls : List SpectCall} {w : SpectRun} (harrived : spectArrivals calls = S.packets)
    (hrun : B.run env calls = .ok w) (hopened : Opened (S.taken w)) :
    ∀ o ∈ w.outputs, o.Unmixed B.cfg S.packets := by
  obtain ⟨left, waiting, hfollows⟩ := run_follows harrived hrun
  have hinitial := S.taken_prefix w
  have happart := S.apart B.cfg B.unset.heap hopened hinitial
  intro o ho
  obtain ⟨set, hset, hrenders⟩ := exists_set_of_mem hfollows.outputs ho
  have hqueued : set ∈ (Assembly.run B.cfg B.unset.heap ((S.taken w).map S.packet)).sets := by
    rw [hfollows.assembles.sets]
    exact List.mem_append_left _ hset
  obtain ⟨frame, hnum, hframe⟩ := happart.sets set hqueued
  exact hframe.unmixed hinitial.subset hnum hrenders

-- ════════════════════════════════════════════════════════════════════════
-- Two short streams
-- ════════════════════════════════════════════════════════════════════════

/-- A call that takes all packets of a stream. -/
def SpectStream.call (S : SpectStream) : SpectCall :=
  { Call.taking S.packets (S.packets.length + 1) with ports := 4, liveWork := true }

/-- A call that takes all packets hands on all sets. -/
theorem SpectStream.run_call (S : SpectStream) (hsome : S.packets ≠ []) :
    ∃ w, SpectBlock.network.run ⟨[], fun _ _ => 0⟩ [S.call] = .ok w ∧
      w.source.recv.dLocalqueue = [] ∧ w.outputs.Forall₂ SpectOutput.Renders
        (Assembly.run SpectBlock.network.cfg SpectBlock.network.unset.heap S.packets).sets :=
  SpectBlock.run_single rfl rfl hsome (Nat.lt_succ_self _)

/-- The payload of a packet that starts with the bits of a small number. -/
def onePayload : List UInt8 := 1 :: 0 :: 0 :: 0 :: List.replicate 8188 0

theorem spData_onePayload (slot number : ℕ) :
    spData SpectBlock.network.cfg (spectPacket slot number onePayload) 0 0 = 1 := by
  have hbyte : ∀ k, pointer (spectPacket slot number onePayload) (8 + k) =
      onePayload.getD k 0 := by
    intro k
    rw [pointer, spectPacket, List.getD_append_right _ _ _ _ (by rw [beBytes_length]; omega),
      beBytes_length, Nat.add_sub_cancel_left]
  rw [spData]
  change floatBits (pointer (spectPacket slot number onePayload)) 8 = 1
  rw [floatBits, hbyte 1, hbyte 2, hbyte 3, show (8 : ℕ) = 8 + 0 from rfl, hbyte 0]
  rfl

/-- The first and the last packet of a frame. -/
def bothEnds : SpectStream :=
  .ofReceived 1 onePayload [0, 7] one_frame_le (by decide) (by decide) (by decide)

/-- The first packet of a frame, and the last packet of the next one. -/
def splitEnds : SpectStream :=
  .ofReceived 2 onePayload [0, 15] (by decide) (by decide) (by decide) (by decide)

/-- The set that two packets make, the second of which is the last of a frame. -/
theorem Assembly.run_pair (heap : ℕ → UInt32) {q : Packet} (hp : spectChannel p ≠ 3584)
    (hq : spectChannel q = 3584) :
    (run c heap [p, q]).sets = [⟨(run c heap [p]).fill c q, spectNumber q⟩] := by
  have hfirst : (run c heap [p]).sets = [] := by
    change (step c ⟨fun _ => heap, []⟩ p).sets = []
    rw [step, if_neg hp]
  change (step c (run c heap [p]) q).sets = _
  rw [step, if_pos hq, hfirst, List.nil_append]

theorem run_unmixed_bothEnds :
    ∃ w, SpectBlock.network.run ⟨[], fun _ _ => 0⟩ [bothEnds.call] = .ok w ∧
      w.outputs ≠ [] ∧ ∀ o ∈ w.outputs, o.Unmixed SpectBlock.network.cfg bothEnds.packets := by
  obtain ⟨w, hrun, hall, houtputs⟩ := bothEnds.run_call (List.cons_ne_nil _ _)
  have hopened : Opened (bothEnds.taken w) := by
    rw [SpectStream.taken, hall]
    decide
  refine ⟨w, hrun, fun hnone => ?_,
    SpectBlock.network.run_unmixed (List.append_nil _) hrun hopened⟩
  have hfirst : spectChannel (spectPacket 0 0 onePayload) = 0 :=
    spectChannel_spectPacket _ (by decide) (by decide)
  have hlast : spectChannel (spectPacket 7 0 onePayload) = 3584 :=
    spectChannel_spectPacket _ (by decide) (by decide)
  change w.outputs.Forall₂ SpectOutput.Renders (Assembly.run SpectBlock.network.cfg
    SpectBlock.network.unset.heap [spectPacket 0 0 onePayload, spectPacket 7 0 onePayload]).sets
    at houtputs
  rw [Assembly.run_pair _ (by rw [hfirst]; decide) hlast, hnone] at houtputs
  cases houtputs

/-- Block 0 of the second frame holds the data of the first one. -/
theorem stale_block_mixed :
    ∃ w, SpectBlock.network.run ⟨[], fun _ _ => 0⟩ [splitEnds.call] = .ok w ∧
      spectArrivals [splitEnds.call] = splitEnds.packets ∧
      ¬∀ o ∈ w.outputs, o.Unmixed SpectBlock.network.cfg splitEnds.packets := by
  obtain ⟨w, hrun, -, houtputs⟩ := splitEnds.run_call (List.cons_ne_nil _ _)
  refine ⟨w, hrun, List.append_nil _, fun hunmixed => ?_⟩
  have hfirst : spectChannel (spectPacket 0 0 onePayload) = 0 :=
    spectChannel_spectPacket _ (by decide) (by decide)
  have hlast : spectChannel (spectPacket 7 1 onePayload) = 3584 :=
    spectChannel_spectPacket _ (by decide) (by decide)
  change w.outputs.Forall₂ SpectOutput.Renders (Assembly.run SpectBlock.network.cfg
    SpectBlock.network.unset.heap [spectPacket 0 0 onePayload, spectPacket 7 1 onePayload]).sets
    at houtputs
  rw [Assembly.run_pair _ (by rw [hfirst]; decide) hlast] at houtputs
  generalize hw : w.outputs = outputs at houtputs hunmixed
  cases houtputs with
  | @cons o _ rest _ hrenders hrest =>
  have hblock : o.Block 0 (spData SpectBlock.network.cfg (spectPacket 0 0 onePayload)) := by
    refine hrenders.block (by decide) ?_
    refine Assembly.fill_block_other (j := 7) hlast (by decide) (by decide) ?_
    exact Assembly.fill_block (i := 0) hfirst
  have hone := hblock.xx 0 (by decide)
  rw [spData_onePayload] at hone
  rcases hunmixed o List.mem_cons_self 0 (by decide) with ⟨p, hp, hnum, hchan, -⟩ | hzero
  · have hseq : o.seqNum = 1 :=
      hrenders.seqNum.trans (spectNumber_spectPacket _ (by decide) (by decide))
    have hpackets : p = spectPacket 0 0 onePayload ∨ p = spectPacket 7 1 onePayload := by
      rcases List.mem_cons.mp hp with h | h
      · exact .inl h
      · exact .inr (List.mem_singleton.mp h)
    obtain rfl | rfl := hpackets
    · rw [spectNumber_spectPacket _ (by decide) (by decide), hseq] at hnum
      cases hnum
    · rw [hlast] at hchan
      cases hchan
  · have := hone.symm.trans (hzero.xx 0 (by decide))
    exact absurd (Option.some.inj this) (by decide)

end GrAta
