import GrAta.Spectrometer.Unmixed

/-!
# What the spectra show

The exact outputs of the spectrometer mode, whatever packets are lost. Each frame whose last
packet is received makes one set. A block of the set shows the latest packet of its channels
that has come in since the latest packet of the first channels, which may belong to an
earlier frame, and zeros when there is none.

## Main definitions

- `latest`: the packet that a block of the buffers shows
- `SpectStream.closings`: the received packets that end a frame
- `SpectStream.Shows`: the item that such a packet makes

## Main results

- `SpectBlock.run_shows`: the outputs of any schedule on any stream
- `SpectStream.shown_opened`: the blocks of a frame that has its first packet
-/

namespace GrAta

-- ════════════════════════════════════════════════════════════════════════
-- The latest packets
-- ════════════════════════════════════════════════════════════════════════

/-- The position of the packet that block `i` of the buffers shows, after packets at the
given positions, the last one in front. -/
def latest (i : ℕ) : List ℕ → Option ℕ
  | [] => none
  | k :: ks => if k % 8 = i then some k else if k % 8 = 0 then none else latest i ks

/-- Once the first packet of a frame is there, a block shows its packet of the frame, or
none. -/
theorem latest_frame {frame i : ℕ} (hi : i < 8) {ks : List ℕ} (hsorted : ks.Pairwise (· > ·))
    (hfirst : 8 * frame ∈ ks) (hle : ∀ k ∈ ks, k < 8 * frame + 8) :
    latest i ks = if 8 * frame + i ∈ ks then some (8 * frame + i) else none := by
  induction ks with
  | nil => exact absurd hfirst List.not_mem_nil
  | cons k ks ih =>
    obtain ⟨hk, hks⟩ := List.pairwise_cons.mp hsorted
    have hlt := hle k List.mem_cons_self
    have hge : 8 * frame ≤ k := by
      rcases List.mem_cons.mp hfirst with heq | hrest
      · exact heq.le
      · exact (hk _ hrest).le
    rw [latest]
    by_cases hslot : k % 8 = i
    · obtain rfl : k = 8 * frame + i := by omega
      rw [if_pos hslot, if_pos List.mem_cons_self]
    · rw [if_neg hslot]
      have hne : 8 * frame + i ≠ k := by omega
      by_cases hzero : k % 8 = 0
      · -- the packets behind are of frames before
        have hnot : 8 * frame + i ∉ k :: ks := by
          intro hmem
          rcases List.mem_cons.mp hmem with heq | hrest
          · exact hne heq
          · have := hk _ hrest
            omega
        rw [if_pos hzero, if_neg hnot]
      · have hrest : 8 * frame ∈ ks := by
          rcases List.mem_cons.mp hfirst with heq | hrest
          · omega
          · exact hrest
        rw [if_neg hzero, ih hks hrest fun k' hk' => hle k' (List.mem_cons_of_mem _ hk')]
        simp only [List.mem_cons, hne, false_or]

namespace SpectStream

variable {S : SpectStream}

/-- The packet that block `i` shows when the one at position `q` has been received. -/
def shown (S : SpectStream) (q i : ℕ) : Option ℕ :=
  latest i (S.received.filter (· ≤ q)).reverse

/-- The spectra of a packet, or zeros. -/
def data (S : SpectStream) (c : Config) : Option ℕ → Spectra
  | some k => spData c (S.packet k)
  | none => fun _ _ => 0

/-- The received packets that end a frame. -/
def closings (S : SpectStream) : List ℕ := S.received.filter (· % 8 = 7)

/-- The item that the last packet of a frame makes, at position `q`. -/
structure Shows (S : SpectStream) (c : Config) (o : SpectOutput) (q : ℕ) : Prop where
  seqNum : o.seqNum = S.number (q / 8)
  block : ∀ i < 8, o.Block i (S.data c (S.shown q i))

/-- With its first packet received, a frame shows its own packets only. -/
theorem shown_opened (hopened : Opened S.received) {q i : ℕ} (hq : q ∈ S.received)
    (hlast : q % 8 = 7) (hi : i < 8) :
    S.shown q i = if q - 7 + i ∈ S.received then some (q - 7 + i) else none := by
  have hframe : 8 * (q / 8) = q - 7 := by omega
  have hmem : ∀ k ≤ q, k ∈ (S.received.filter (· ≤ q)).reverse ↔ k ∈ S.received := by
    intro k hk
    simp only [List.mem_reverse, List.mem_filter, hk, decide_true, and_true]
  have hall := latest_frame hi
    (List.pairwise_reverse.mpr (S.inOrder.filter (· ≤ q)))
    ((hmem _ (by omega)).mpr (hframe ▸ hopened q hq hlast)) fun k hk => by
      have := of_decide_eq_true (List.mem_filter.mp (List.mem_reverse.mp hk)).2
      omega
  rw [shown, hall, hframe]
  simp only [hmem (q - 7 + i) (by omega)]

-- ════════════════════════════════════════════════════════════════════════
-- The assembly
-- ════════════════════════════════════════════════════════════════════════

variable {c : Config} {a : Assembly} {ks : List ℕ} {q : ℕ}

/-- A set of spectra that the last packet of a frame queues. -/
structure Queues (S : SpectStream) (c : Config) (set : SpectSet) (q : ℕ) : Prop where
  seqNum : set.seqNum = S.number (q / 8)
  block : ∀ i < 8, set.spectra.Block i (S.data c (S.shown q i))

theorem Queues.shows {set : SpectSet} (h : S.Queues c set q) {o : SpectOutput}
    (ho : o.Renders set) : S.Shows c o q :=
  ⟨ho.seqNum.trans h.seqNum, fun i hi => ho.block hi (h.block i hi)⟩

/-- What holds after the packets at positions `ks`. -/
structure Built (S : SpectStream) (c : Config) (ks : List ℕ) (a : Assembly) : Prop where
  buffers : ks ≠ [] → ∀ i < 8, a.buffers.Block i (S.data c (latest i ks.reverse))
  sets : a.sets.Forall₂ (S.Queues c) (ks.filter (· % 8 = 7))

/-- The packets received up to a position of an initial part. -/
theorem filter_le_of_prefix (hinitial : ks ++ [q] <+: S.received) :
    S.received.filter (· ≤ q) = ks ++ [q] := by
  obtain ⟨rest, hrest⟩ := hinitial
  have hsorted := S.inOrder
  rw [← hrest] at hsorted ⊢
  obtain ⟨hfront, -, hbehind⟩ := List.pairwise_append.mp hsorted
  have hq : q ∈ ks ++ [q] := List.mem_append_right _ (List.mem_singleton_self q)
  rw [List.filter_append, List.filter_eq_self.mpr, List.filter_eq_nil_iff.mpr, List.append_nil]
  · intro k hk
    exact fun h => (hbehind q hq k hk).not_ge (of_decide_eq_true h)
  · intro k hk
    rcases List.mem_append.mp hk with hk | hk
    · exact decide_eq_true ((List.pairwise_append.mp hfront).2.2 k hk q (by simp)).le
    · exact decide_eq_true (List.mem_singleton.mp hk).le

/-- The buffers after one more packet. -/
theorem Built.fill (h : S.Built c ks a) (hinitial : ks ++ [q] <+: S.received) :
    ∀ i < 8, (a.fill c (S.packet q)).Block i (S.data c (S.shown q i)) := by
  intro i hi
  have hchan := S.channel_packet q (S.received_lt q (hinitial.subset (by simp)))
  rw [shown, filter_le_of_prefix hinitial, List.reverse_append, List.reverse_singleton,
    List.singleton_append, latest]
  by_cases hslot : q % 8 = i
  · rw [if_pos hslot]
    exact Assembly.fill_block (hslot ▸ hchan)
  · rw [if_neg hslot]
    by_cases hzero : q % 8 = 0
    · rw [if_pos hzero]
      rw [hzero] at hchan
      exact Assembly.fill_block_cleared hchan fun h => hslot (hzero.trans h.symm)
    · rw [if_neg hzero]
      -- the first packet of all clears the buffers
      have hsome : ks ≠ [] := by
        rintro rfl
        obtain ⟨rest, hrest⟩ := hinitial
        refine hzero (S.synchronized q ?_)
        rw [← hrest]
        rfl
      exact Assembly.fill_block_other hchan hzero (fun h => hslot h.symm) (h.buffers hsome i hi)

/-- One more packet. -/
theorem Built.packet (h : S.Built c ks a) (hinitial : ks ++ [q] <+: S.received) :
    S.Built c (ks ++ [q]) (a.step c (S.packet q)) := by
  have hlt := S.received_lt q (hinitial.subset (by simp))
  have hfill := h.fill hinitial
  refine ⟨fun _ i hi => ?_, ?_⟩
  · rw [← filter_le_of_prefix hinitial]
    exact hfill i hi
  · rw [Assembly.step, S.channel_packet q hlt, List.filter_append]
    by_cases hend : q % 8 = 7
    · have hnew : [q].filter (· % 8 = 7) = [q] := List.filter_cons_of_pos (by simpa using hend)
      rw [if_pos (by omega), hnew]
      exact List.rel_append h.sets (.cons ⟨S.number_packet q hlt, hfill⟩ .nil)
    · have hnone : [q].filter (· % 8 = 7) = [] := List.filter_cons_of_neg (by simpa using hend)
      rw [if_neg (by omega), hnone, List.append_nil]
      exact h.sets

/-- The assembly of an initial part of the packets received. -/
theorem built (S : SpectStream) (c : Config) (heap : ℕ → UInt32) (hinitial : ks <+: S.received) :
    S.Built c ks (Assembly.run c heap (ks.map S.packet)) := by
  induction ks using List.reverseRecOn with
  | nil => exact ⟨fun h => absurd rfl h, .nil⟩
  | append_singleton ks q ih =>
    rw [List.map_append, Assembly.run, List.foldl_append]
    exact (ih ((List.prefix_append ks [q]).trans hinitial)).packet hinitial

end SpectStream

-- ════════════════════════════════════════════════════════════════════════
-- Runs
-- ════════════════════════════════════════════════════════════════════════

theorem forall₂_trans {α β γ : Type} {R : α → β → Prop} {T : β → γ → Prop} {U : α → γ → Prop}
    (hU : ∀ a b c, R a b → T b c → U a c) {as : List α} {bs : List β} {cs : List γ}
    (hR : as.Forall₂ R bs) (hT : bs.Forall₂ T cs) : as.Forall₂ U cs := by
  induction hR generalizing cs with
  | nil =>
    cases hT
    exact .nil
  | cons hab _ ih =>
    cases hT with
    | cons hbc hrest => exact .cons (hU _ _ _ hab hbc) (ih hrest)

/-- **What the spectra show.** In every run, the outputs show in their order the frames whose
last packets have been received, up to what waits in the queues. -/
theorem SpectBlock.run_shows (B : SpectBlock) (S : SpectStream) {env : Environment}
    {calls : List SpectCall} {w : SpectRun} (harrived : spectArrivals calls = S.packets)
    (hrun : B.run env calls = .ok w) :
    ∃ served, served <+: S.closings ∧ w.outputs.Forall₂ (S.Shows B.cfg) served ∧
      (w.source.recv.dLocalqueue = [] → w.source.spect.xxVectorQueue = [] →
        served = S.closings) := by
  obtain ⟨left, waiting, hfollows⟩ := run_follows harrived hrun
  have hinitial := S.taken_prefix w
  have hbuilt := S.built B.cfg B.unset.heap hinitial
  have hsets := hfollows.assembles.sets
  have hleft := List.forall₂_take left.length hbuilt.sets
  rw [hsets, List.take_left] at hleft
  refine ⟨_, (List.take_prefix ..).trans (hinitial.filter _), forall₂_trans
    (fun _ _ _ ho hset => hset.shows ho) hfollows.outputs hleft, fun hqueue hvectors => ?_⟩
  have hwaiting : waiting = [] := by
    rw [hfollows.assembles.xxQueue] at hvectors
    exact List.map_eq_nil_iff.mp hvectors
  rw [hwaiting, List.append_nil] at hsets
  have hall : S.taken w = S.received := by
    rw [SpectStream.taken, hqueue, List.length_nil, Nat.sub_zero, List.take_length]
  rw [← hsets, hbuilt.sets.length_eq, List.take_length, hall]
  rfl

/-- The last packet of a frame that shows the first packet of the frame before it. -/
theorem run_shows_splitEnds :
    (∃ w served, SpectBlock.network.run ⟨[], fun _ _ => 0⟩ [splitEnds.call] = .ok w ∧
      served <+: splitEnds.closings ∧
      w.outputs.Forall₂ (splitEnds.Shows SpectBlock.network.cfg) served) ∧
    splitEnds.closings = [15] ∧ splitEnds.shown 15 0 = some 0 ∧
    splitEnds.shown 15 1 = none := by
  refine ⟨?_, by decide, by decide, by decide⟩
  obtain ⟨w, hrun, -⟩ := splitEnds.run_call (List.cons_ne_nil _ _)
  obtain ⟨served, hserved, houtputs, -⟩ :=
    SpectBlock.network.run_shows splitEnds (List.append_nil _) hrun
  exact ⟨w, served, hrun, hserved, houtputs⟩

end GrAta
