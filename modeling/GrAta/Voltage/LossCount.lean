import GrAta.Voltage.StreamFrames
import Mathlib.Algebra.BigOperators.Group.List.Basic

/-!
# Counting lost packets

The work function counts the packets that it misses. It counts the rest of a frame when
the next one begins, from the packets received so far, and the frames in between from
the difference of the timestamps. On in-order traffic the counts of all calls add up to
the number of packets that are missing before the last received timestamp.

## Main definitions

- `VoltageBlock.missingAt`, `VoltageBlock.missing`: the packets that a stream lacks
- `Tally`: the members that count, as one packet changes them
- `VoltageBlock.Counts`: a tally that agrees with a stream

## Main results

- `VoltageBlock.missing_concat`: what one more packet adds
- `processPacket_tally`: one packet is one step of the tally
- `VoltageBlock.run_skippedPackets`: the sum of the counts of a run
-/

namespace GrAta

namespace VoltageBlock

variable (B : VoltageBlock)

/-- How many packets of a timestamp were not received. -/
def missingAt (ps : List Packet) (t : ℕ) : ℕ := B.packets - (packetsAt ps t).length

/-- How many packets were not received of the frames from a timestamp on that lie before the
last received timestamp. -/
def missingFrom (ps : List Packet) (t : ℕ) : ℕ :=
  ((List.range ((lastTimestamp ps - t) / 16)).map fun j => B.missingAt ps (t + 16 * j)).sum

/-- How many packets were not received of the frames from the first received timestamp on
that lie before the last one. -/
def missing (ps : List Packet) : ℕ := B.missingFrom ps (firstTimestamp ps)

end VoltageBlock

namespace InOrderStream

variable {B : VoltageBlock} {first : ℕ} {ps : List Packet}

/-- A timestamp has no more packets than a frame. -/
theorem packetsAt_length_le (h : InOrderStream B first ps) (t : ℕ) :
    (packetsAt ps t).length ≤ B.packets := by
  have hslot : ∀ p ∈ packetsAt ps t, (channel p - B.firstChannel) / 256 ∈ List.range B.packets := by
    intro p hp
    obtain ⟨_, s, hs, _, hc⟩ := h.mem_spec (mem_packetsAt.mp hp).1
    rw [List.mem_range]
    omega
  have hdistinct : ((packetsAt ps t).map fun p => (channel p - B.firstChannel) / 256).Nodup := by
    rw [List.Nodup, List.pairwise_map]
    refine (h.pairwise.filter _).imp_of_mem fun {p q} hp hq hbefore => ?_
    obtain ⟨hp, hpt⟩ := mem_packetsAt.mp hp
    obtain ⟨hq, hqt⟩ := mem_packetsAt.mp hq
    obtain ⟨_, s, _, _, hs⟩ := h.mem_spec hp
    obtain ⟨_, s', _, _, hs'⟩ := h.mem_spec hq
    rw [SentBefore] at hbefore
    omega
  have hsub := List.subperm_of_subset hdistinct fun s hs => by
    obtain ⟨p, hp, rfl⟩ := List.mem_map.mp hs
    exact hslot p hp
  simpa using hsub.length_le

/-- What one more packet adds: the rest of the frame that ends, and the frames in between. -/
theorem missing_concat {z p : Packet} (h : InOrderStream B first (ps ++ [z] ++ [p])) {d : ℕ}
    (hd : timestamp p = timestamp z + 16 * d) :
    B.missing (ps ++ [z] ++ [p]) = B.missing (ps ++ [z]) +
      if d = 0 then 0 else B.missingAt (ps ++ [z]) (timestamp z) + (d - 1) * B.packets := by
  have hne : ps ++ [z] ≠ [] := by simp
  obtain ⟨a, ha⟩ := h.of_append.exists_frame (p := z) (by simp)
  have hfirst : firstTimestamp (ps ++ [z] ++ [p]) = firstTimestamp (ps ++ [z]) :=
    firstTimestamp_append hne
  -- a frame before that of the packet keeps its packets
  have hold : ∀ t < timestamp p,
      B.missingAt (ps ++ [z] ++ [p]) t = B.missingAt (ps ++ [z]) t := by
    intro t ht
    rw [VoltageBlock.missingAt, packetsAt_append, packetsAt_singleton, if_neg (by omega),
      List.append_nil, VoltageBlock.missingAt]
  have hnew : ∀ t, timestamp z < t → t < timestamp p →
      B.missingAt (ps ++ [z] ++ [p]) t = B.packets := by
    intro t hz hp
    rw [VoltageBlock.missingAt, h.packetsAt_gap hz hp, List.length_nil, Nat.sub_zero]
  rw [VoltageBlock.missing, VoltageBlock.missing, hfirst, VoltageBlock.missingFrom,
    VoltageBlock.missingFrom, lastTimestamp_concat, lastTimestamp_concat]
  generalize firstTimestamp (ps ++ [z]) = start at ha
  rw [show (timestamp p - start) / 16 = a + d by omega,
    show (timestamp z - start) / 16 = a by omega, List.range_add, List.map_append,
    List.sum_append]
  have hbefore : (List.range a).map (fun j => B.missingAt (ps ++ [z] ++ [p]) (start + 16 * j)) =
      (List.range a).map fun j => B.missingAt (ps ++ [z]) (start + 16 * j) := by
    refine List.map_congr_left fun j hj => hold _ ?_
    rw [List.mem_range] at hj
    omega
  rw [hbefore, List.map_map]
  congr 1
  cases d with
  | zero => rfl
  | succ d =>
    have hgap : (List.range d).map ((fun j => B.missingAt (ps ++ [z] ++ [p]) (start + 16 * j)) ∘
        (a + ·) ∘ Nat.succ) = List.replicate d B.packets := by
      rw [← List.length_range (n := d), ← List.map_const', List.length_range]
      refine List.map_congr_left fun k hk => ?_
      rw [List.mem_range] at hk
      exact hnew (start + 16 * (a + (k + 1))) (by omega) (by omega)
    rw [List.range_succ_eq_map, List.map_cons, List.map_map, Function.comp_assoc, hgap,
      List.sum_cons, List.sum_replicate_nat, if_neg (Nat.succ_ne_zero d), Nat.succ_sub_one]
    simp only [Function.comp, Nat.add_zero]
    rw [← ha, hold _ (by omega)]

/-- The frames that were sent before the first received one lack all their packets. -/
theorem missingFrom_first (h : InOrderStream B first ps) :
    B.missingFrom ps first =
      B.missing ps + (firstTimestamp ps - first) / 16 * B.packets := by
  cases ps with
  | nil =>
    have hpos : lastTimestamp ([] : List Packet) - first = 0 := Nat.zero_sub first
    have hpos' : firstTimestamp ([] : List Packet) - first = 0 := Nat.zero_sub first
    rw [VoltageBlock.missing, VoltageBlock.missingFrom, VoltageBlock.missingFrom, hpos, hpos']
    simp [lastTimestamp, firstTimestamp]
  | cons p ps =>
    obtain ⟨a, s, -, ha, -⟩ := h.mem_spec (p := p) List.mem_cons_self
    have hstart : firstTimestamp (p :: ps) = first + 16 * a := ha
    have hlater : ∀ q ∈ p :: ps, first + 16 * a ≤ timestamp q := by
      intro q hq
      rcases List.mem_cons.mp hq with rfl | hq
      · exact ha.ge
      · have hbefore : SentBefore p q := (List.pairwise_cons.mp h.pairwise).1 q hq
        rw [SentBefore] at hbefore
        omega
    have hlast : first + 16 * a ≤ lastTimestamp (p :: ps) := by
      rw [lastTimestamp, List.getLast?_eq_some_getLast (List.cons_ne_nil p ps)]
      exact hlater _ (List.getLast_mem _)
    have hnone : ∀ j < a, B.missingAt (p :: ps) (first + 16 * j) = B.packets := by
      intro j hj
      have hempty : packetsAt (p :: ps) (first + 16 * j) = [] := by
        rw [packetsAt, List.filter_eq_nil_iff]
        intro q hq
        have := hlater q hq
        simp only [decide_eq_true_eq]
        omega
      rw [VoltageBlock.missingAt, hempty, List.length_nil, Nat.sub_zero]
    have hframes : (lastTimestamp (p :: ps) - first) / 16 =
        a + (lastTimestamp (p :: ps) - (first + 16 * a)) / 16 := by
      omega
    rw [VoltageBlock.missing, VoltageBlock.missingFrom, VoltageBlock.missingFrom, hstart, hframes,
      List.range_add, List.map_append, List.sum_append,
      List.map_congr_left fun j hj => hnone j (List.mem_range.mp hj), List.map_const',
      List.length_range, List.sum_replicate_nat, List.map_map, Nat.add_comm]
    congr 1
    · refine congrArg List.sum (List.map_congr_left fun j _ => ?_)
      simp only [Function.comp]
      congr 1
      omega
    · congr 1
      omega

theorem missing_le {qs : List Packet} (h : InOrderStream B first (ps ++ qs)) :
    B.missing ps ≤ B.missing (ps ++ qs) := by
  induction qs using List.reverseRecOn with
  | nil => rw [List.append_nil]
  | append_singleton qs p ih =>
    rw [← List.append_assoc] at h ⊢
    refine (ih h.of_append).trans ?_
    rcases List.eq_nil_or_concat (ps ++ qs) with hnil | ⟨rs, z, hrs⟩
    · rw [hnil]
      exact Nat.zero_le _
    · rw [List.concat_eq_append] at hrs
      rw [hrs] at h ⊢
      obtain ⟨d, hd, -⟩ := h.next_spec
      rw [h.missing_concat hd]
      exact Nat.le_add_right _ _

end InOrderStream

-- ════════════════════════════════════════════════════════════════════════
-- The tally of the work function
-- ════════════════════════════════════════════════════════════════════════

/-- The members that count packets, and the count of the call. -/
structure Tally where
  last : ℕ
  ctr : ℤ
  skipped : ℤ
  deriving DecidableEq, Repr

def tally (v : VoltState) (skippedPackets : ℤ) : Tally :=
  ⟨v.dLastTimestamp, v.multipacketFramePktCtr, skippedPackets⟩

namespace Tally

variable (c : Config)

/-- The rest of the frame that ends. -/
def finish (t : Tally) : Tally :=
  if c.bOnePacket then t
  else { t with skipped := toInt32 (t.skipped + (c.packetsPerFrame - t.ctr)) }

/-- The frames between the last timestamp and `sample`. -/
def checkMissing (t : Tally) (sample : ℕ) : Tally :=
  if t.last > 0 ∧ sample > t.last ∧ missedSets t.last sample > 0 then
    { t with skipped := toInt32 (t.skipped + missedSets t.last sample * c.packetsPerFrame) }
  else t

/-- One packet. -/
def step (t : Tally) (sample : ℕ) : Tally :=
  if c.bOnePacket ∨ (t.last > 0 ∧ sample ≠ t.last) then
    { (t.finish c).checkMissing c sample with
      last := sample
      ctr := if c.bOnePacket then t.ctr else 1 }
  else { t with last := sample, ctr := t.ctr + 1 }

@[simp] theorem finish_ctr (t : Tally) : (t.finish c).ctr = t.ctr := by
  rw [finish]
  split <;> rfl

@[simp] theorem checkMissing_ctr (t : Tally) (sample : ℕ) :
    (t.checkMissing c sample).ctr = t.ctr := by
  rw [checkMissing]
  split <;> rfl

@[simp] theorem step_last (t : Tally) (sample : ℕ) : (t.step c sample).last = sample := by
  rw [step]
  split <;> rfl

end Tally

variable {c : Config} {hdr : SnapHeader} {p : Packet} {v v' : VoltState} {k : ℤ}

theorem copyVoltDataToVectorBuffer_tally (h : copyVoltDataToVectorBuffer c p hdr v = .ok v')
    (k : ℤ) : tally v' k = tally v k := by
  rw [copyVoltDataToVectorBuffer] at h
  split at h
  · obtain ⟨x, -, h⟩ := bind_eq_ok h
    cases h
    rfl
  · obtain ⟨x, -, h⟩ := bind_eq_ok h
    obtain ⟨y, -, h⟩ := bind_eq_ok h
    cases h
    rfl

theorem queueVoltageData_tally (h : queueVoltageData c hdr v = .ok v') (k : ℤ) :
    tally v' k = tally v k := by
  rw [queueVoltageData] at h
  obtain ⟨xs, -, h⟩ := bind_eq_ok h
  simp only at h
  split at h
  · cases h
    rfl
  · obtain ⟨ys, -, h⟩ := bind_eq_ok h
    cases h
    rfl

theorem foldl_queueMissedFrame_tally (missed : List ℕ) (v : VoltState) (k : ℤ) :
    tally (missed.foldl (queueMissedFrame c) v) k = tally v k := by
  induction missed generalizing v with
  | nil => rfl
  | cons m missed ih => exact ih (queueMissedFrame c v m)

theorem finishFrame_tally {acc : VoltState × ℤ} (h : finishFrame c hdr v k = .ok acc) :
    tally acc.1 acc.2 = (tally v k).finish c := by
  rw [finishFrame] at h
  rw [Tally.finish]
  split at h
  next hone =>
    cases h
    rw [if_pos hone]
  next hone =>
    obtain ⟨v', hqueue, h⟩ := bind_eq_ok h
    cases h
    have hctr := congrArg Tally.ctr (queueVoltageData_tally hqueue k)
    rw [if_neg hone, queueVoltageData_tally hqueue]
    simp only [tally] at hctr ⊢
    rw [hctr]

theorem checkMissingFrames_tally {acc : VoltState × ℤ}
    (h : checkMissingFrames c hdr v k = .ok acc) :
    tally acc.1 acc.2 = (tally v k).checkMissing c hdr.sampleNumber := by
  rw [checkMissingFrames] at h
  rw [Tally.checkMissing]
  simp only at h
  split_ifs at h with hlast hmissed hmax
  · obtain ⟨v', hfill, h⟩ := bind_eq_ok h
    cases h
    rw [fillGap] at hfill
    split at hfill
    · cases hfill
      rw [foldl_queueMissedFrame_tally]
      exact (if_pos ⟨hlast.1, hlast.2, hmissed⟩).symm
    · cases hfill
  · cases h
    exact (if_pos ⟨hlast.1, hlast.2, hmissed⟩).symm
  · cases h
    exact (if_neg fun hc => hmissed hc.2.2).symm
  · cases h
    exact (if_neg fun hc => hlast ⟨hc.1, hc.2.1⟩).symm

theorem startFrame_tally (h : startFrame c p hdr v = .ok v') (k : ℤ) :
    tally v' k =
      { tally v k with ctr := if c.bOnePacket then v.multipacketFramePktCtr else 1 } := by
  rw [startFrame] at h
  split at h
  next hone =>
    obtain ⟨v₁, hcopy, h⟩ := bind_eq_ok h
    rw [if_pos hone, queueVoltageData_tally h, copyVoltDataToVectorBuffer_tally hcopy]
    rfl
  next hone =>
    rw [if_neg hone, copyVoltDataToVectorBuffer_tally h]
    rfl

/-- **One packet is one step of the tally.** -/
theorem processPacket_tally {acc acc' : VoltState × ℤ} (h : processPacket c acc p = .ok acc') :
    tally acc'.1 acc'.2 = (tally acc.1 acc.2).step c (timestamp p) := by
  rw [processPacket] at h
  rw [Tally.step]
  simp only at h
  split at h
  next hnew =>
    obtain ⟨acc₁, hfinish, h⟩ := bind_eq_ok h
    obtain ⟨acc₂, hcheck, h⟩ := bind_eq_ok h
    obtain ⟨v₃, hstart, h⟩ := bind_eq_ok h
    cases h
    have hfinish := finishFrame_tally hfinish
    have hcheck := checkMissingFrames_tally hcheck
    rw [hfinish] at hcheck
    have hctr : v₃.multipacketFramePktCtr =
        if c.bOnePacket then acc.1.multipacketFramePktCtr else 1 := by
      have hacc₂ := congrArg Tally.ctr hcheck
      rw [Tally.checkMissing_ctr, Tally.finish_ctr] at hacc₂
      have hv₃ := congrArg Tally.ctr (startFrame_tally hstart 0)
      simp only [tally] at hacc₂ hv₃
      rw [hv₃, hacc₂]
    have hskipped := congrArg Tally.skipped hcheck
    simp only [tally] at hskipped
    rw [if_pos (show c.bOnePacket = true ∨ ((tally acc.1 acc.2).last > 0 ∧
      timestamp p ≠ (tally acc.1 acc.2).last) from hnew)]
    simp only [tally]
    rw [hctr, hskipped]
    rfl
  next hnew =>
    obtain ⟨v₁, hcopy, h⟩ := bind_eq_ok h
    cases h
    have hkeep := copyVoltDataToVectorBuffer_tally hcopy acc.2
    rw [if_neg (show ¬(c.bOnePacket = true ∨ ((tally acc.1 acc.2).last > 0 ∧
      timestamp p ≠ (tally acc.1 acc.2).last)) from hnew)]
    have hlast := congrArg Tally.last hkeep
    have hctr := congrArg Tally.ctr hkeep
    simp only [tally] at hlast hctr ⊢
    have htime : v₁.dLastTimestamp = timestamp p := by
      rw [hlast]
      split
      next => rfl
      next hseen =>
        by_contra hother
        exact hnew (.inr ⟨Nat.pos_of_ne_zero hseen, fun heq => hother heq.symm⟩)
    have hcount : v₁.multipacketFramePktCtr = acc.1.multipacketFramePktCtr := by
      rw [hctr]
      split <;> rfl
    rw [htime, hcount]

/-- The packet loop counts the packets that it takes. -/
theorem packetLoop_tally {noutputItems : ℕ} : ∀ {n : ℕ} {r : Receiver} {acc : VoltState × ℤ}
    {looped : Receiver × VoltState × ℤ},
    packetLoop c noutputItems n (r, acc) = .ok looped →
    ∃ taken, r.dLocalqueue = taken ++ looped.1.dLocalqueue ∧
      tally looped.2.1 looped.2.2 =
        (taken.map timestamp).foldl (Tally.step c) (tally acc.1 acc.2) := by
  intro n
  induction n with
  | zero =>
    intro r acc looped h
    cases h
    exact ⟨[], rfl, rfl⟩
  | succ n ih =>
    intro r acc looped h
    rw [packetLoop] at h
    split at h
    · obtain ⟨⟨p, r'⟩, hfill, h⟩ := bind_eq_ok h
      obtain ⟨acc', hpacket, h⟩ := bind_eq_ok h
      obtain ⟨taken, hqueue, htally⟩ := ih h
      rw [fillLocalBuffer] at hfill
      split at hfill
      · cases hfill
      next _ rest hfront =>
        cases hfill
        refine ⟨p :: taken, by rw [hfront, List.cons_append, ← hqueue], ?_⟩
        rw [htally, processPacket_tally hpacket, List.map_cons, List.foldl_cons]
    · cases h
      exact ⟨[], rfl, rfl⟩

theorem emitItems_tally {live : Bool} (k : ℤ) : ∀ {n : ℕ} {v : VoltState}
    {emitted : List OutItem × VoltState},
    emitItems c live n v = .ok emitted → tally emitted.2 k = tally v k := by
  intro n
  induction n with
  | zero =>
    intro v emitted h
    cases h
    rfl
  | succ n ih =>
    intro v emitted h
    rw [emitItems] at h
    obtain ⟨one, hone, h⟩ := bind_eq_ok h
    obtain ⟨rest, hrest, h⟩ := bind_eq_ok h
    cases h
    rw [ih hrest]
    rw [emitItem] at hone
    obtain ⟨x, -, hone⟩ := bind_eq_ok hone
    obtain ⟨y, -, hone⟩ := bind_eq_ok hone
    obtain ⟨tag, -, hone⟩ := bind_eq_ok hone
    cases hone
    rfl

/-- **One call.** Its count starts at zero. -/
theorem workVoltMode_tally {noutputItems : ℕ} {live : Bool} {s s' : SnapSource}
    {result : WorkResult} (h : workVoltMode c noutputItems live s = .ok (result, s')) :
    ∃ taken, s.recv.dLocalqueue = taken ++ s'.recv.dLocalqueue ∧
      tally s'.volt result.skippedPackets =
        (taken.map timestamp).foldl (Tally.step c) (tally s.volt 0) := by
  rw [workVoltMode] at h
  simp only at h
  split at h
  · cases h
    exact ⟨[], rfl, rfl⟩
  · obtain ⟨looped, hloop, h⟩ := bind_eq_ok h
    obtain ⟨emitted, hemit, h⟩ := bind_eq_ok h
    cases h
    obtain ⟨taken, hqueue, htally⟩ := packetLoop_tally hloop
    exact ⟨taken, hqueue, (emitItems_tally _ hemit).trans htally⟩

-- ════════════════════════════════════════════════════════════════════════
-- In-order streams
-- ════════════════════════════════════════════════════════════════════════

/-- Numbers in the range of an `int`. -/
theorem toInt32_of_lt {x : ℤ} (h0 : 0 ≤ x) (h : x < 2 ^ 31) : toInt32 x = x := by
  rw [toInt32, Int.bmod_eq_of_le] <;> omega

/-- A tally that agrees with the packets taken so far. The earlier calls have counted
`earlier` missing packets. -/
structure VoltageBlock.Counts (B : VoltageBlock) (earlier : ℤ) (ps : List Packet) (t : Tally) :
    Prop where
  last : t.last = lastTimestamp ps
  ctr : B.cfg.bOnePacket = false → t.ctr = (packetsAt ps (lastTimestamp ps)).length
  total : earlier + t.skipped = B.missing ps
  earlier_nonneg : 0 ≤ earlier
  skipped_nonneg : 0 ≤ t.skipped

namespace VoltageBlock.Counts

variable {B : VoltageBlock} {earlier : ℤ} {first : ℕ} {ps : List Packet} {p z : Packet} {t : Tally}

theorem missing_singleton (B : VoltageBlock) (p : Packet) : B.missing [p] = 0 := by
  rw [missing, missingFrom, show lastTimestamp [p] = timestamp p from rfl,
    show firstTimestamp [p] = timestamp p from rfl, Nat.sub_self]
  rfl

/-- The first packet. -/
theorem singleton (h : B.Counts earlier [] t) (p : Packet) :
    B.Counts earlier [p] (t.step B.cfg (timestamp p)) := by
  have hlast : t.last = 0 := h.last
  have hctr : B.cfg.bOnePacket = false → t.ctr = 0 := h.ctr
  have htotal : earlier + t.skipped = 0 := h.total
  have hskipped : (t.step B.cfg (timestamp p)).skipped = t.skipped := by
    rw [Tally.step, Tally.finish, Tally.checkMissing]
    split_ifs with hnew hone hgap <;> simp_all
  refine ⟨?_, fun hmulti => ?_, ?_, h.earlier_nonneg, hskipped ▸ h.skipped_nonneg⟩
  · rw [Tally.step]
    split <;> rfl
  · have hat : packetsAt [p] (timestamp p) = [p] := by rw [packetsAt_singleton, if_pos rfl]
    rw [show lastTimestamp [p] = timestamp p from rfl, hat, Tally.step, hmulti, hlast]
    simp [hctr hmulti]
  · rw [hskipped, missing_singleton]
    exact htotal

/-- In a block of one packet a frame, no frame has two packets. -/
theorem new_of_onePacket (hs : InOrderStream B first (ps ++ [z] ++ [p]))
    (hsame : timestamp p = timestamp z) : B.cfg.bOnePacket = false := by
  obtain ⟨d, hd, hchan⟩ := hs.next_spec
  obtain ⟨_, s, hs₁, _, hc₁⟩ := hs.mem_spec (p := z) (by simp)
  obtain ⟨_, s', hs₂, _, hc₂⟩ := hs.mem_spec (p := p) (by simp)
  have hlt := hchan (by omega)
  rw [B.bOnePacket_eq, decide_eq_false_iff_not]
  omega

/-- The rest of the frame that ends. -/
theorem finish_skipped (h : B.Counts earlier (ps ++ [z]) t)
    (hs : InOrderStream B first (ps ++ [z]))
    (hlt : t.skipped + B.missingAt (ps ++ [z]) (timestamp z) < 2 ^ 31) :
    (t.finish B.cfg).skipped = t.skipped + B.missingAt (ps ++ [z]) (timestamp z) := by
  have hmost := hs.packetsAt_length_le (timestamp z)
  have hz : z ∈ packetsAt (ps ++ [z]) (timestamp z) := mem_packetsAt.mpr ⟨by simp, rfl⟩
  have hpos := List.length_pos_of_mem hz
  rw [Tally.finish, missingAt] at *
  split
  next hone =>
    rw [B.bOnePacket_eq, decide_eq_true_eq] at hone
    omega
  next hmulti =>
    have hctr := h.ctr (Bool.eq_false_iff.mpr hmulti)
    rw [lastTimestamp_concat] at hctr
    have := h.skipped_nonneg
    simp only
    rw [hctr, B.packetsPerFrame_eq, toInt32_of_lt (by omega) (by omega)]
    omega

/-- The frames in between. -/
theorem checkMissing_skipped {t : Tally} {d : ℕ} (hlast : 0 < t.last) (hd : 0 < d)
    (hmax : t.last + 16 * d < 2 ^ 64) (h0 : 0 ≤ t.skipped)
    (hlt : t.skipped + ((d - 1) * B.packets : ℕ) < 2 ^ 31) :
    (t.checkMissing B.cfg (t.last + 16 * d)).skipped =
      t.skipped + ((d - 1) * B.packets : ℕ) := by
  have hsets : missedSets t.last (t.last + 16 * d) = d - 1 := by
    unfold missedSets
    omega
  rw [Tally.checkMissing, hsets, B.packetsPerFrame_eq]
  split
  next =>
    rw [← Nat.cast_mul, toInt32_of_lt (by omega) hlt]
  next hnone =>
    have : d - 1 = 0 := by
      by_contra hpos
      exact hnone ⟨hlast, by omega, Nat.pos_of_ne_zero hpos⟩
    simp [this]

/-- **One more packet of a stream.** -/
theorem step (h : B.Counts earlier ps t) (hs : InOrderStream B first (ps ++ [p]))
    (hlt : B.missing (ps ++ [p]) < 2 ^ 31) :
    B.Counts earlier (ps ++ [p]) (t.step B.cfg (timestamp p)) := by
  rcases List.eq_nil_or_concat ps with rfl | ⟨ps, z, rfl⟩
  · exact h.singleton p
  rw [List.concat_eq_append] at *
  obtain ⟨d, hd, -⟩ := hs.next_spec
  have hlast : t.last = timestamp z := h.last.trans (lastTimestamp_concat ..)
  have hpos : 0 < timestamp z := hs.timestamp_pos (by simp)
  have hmissing := hs.missing_concat hd
  have htotal := h.total
  have hnonneg := h.skipped_nonneg
  have hearlier := h.earlier_nonneg
  rcases Nat.eq_zero_or_pos d with rfl | hdpos
  · -- another packet of the same frame
    have hsame : timestamp p = timestamp z := by omega
    have hmulti := new_of_onePacket hs hsame
    have hstep : t.step B.cfg (timestamp p) = ⟨timestamp p, t.ctr + 1, t.skipped⟩ := by
      rw [Tally.step, if_neg (by simp [hmulti, hlast, hsame])]
    rw [hstep]
    refine ⟨(lastTimestamp_concat ..).symm, fun _ => ?_, ?_, hearlier, hnonneg⟩
    · have hctr := h.ctr hmulti
      rw [lastTimestamp_concat] at hctr
      rw [lastTimestamp_concat, hsame, packetsAt_append, packetsAt_singleton, if_pos hsame,
        List.length_append, List.length_singleton, Nat.cast_add, Nat.cast_one]
      exact congrArg (· + 1) hctr
    · rw [hmissing, if_pos rfl, Nat.add_zero]
      exact htotal
  · -- a new frame
    rw [if_neg (by omega)] at hmissing
    have hnew : B.cfg.bOnePacket = true ∨ (t.last > 0 ∧ timestamp p ≠ t.last) :=
      .inr ⟨by omega, by omega⟩
    have hfinish := h.finish_skipped hs.of_append (by omega)
    have hkeep : (t.finish B.cfg).last = t.last := by
      rw [Tally.finish]
      split <;> rfl
    have hcheck := checkMissing_skipped (B := B) (t := t.finish B.cfg) (d := d) (by omega) hdpos
      (by have := timestamp_lt p; omega) (by omega) (by omega)
    rw [hkeep, hlast, ← hd, hfinish] at hcheck
    rw [Tally.step, if_pos hnew]
    refine ⟨(lastTimestamp_concat ..).symm, fun hmulti => ?_, ?_, hearlier, ?_⟩
    · rw [lastTimestamp_concat, packetsAt_append, packetsAt_singleton, if_pos rfl,
        hs.of_append.packetsAt_later (by omega), hmulti]
      rfl
    · simp only [hcheck]
      omega
    · simp only [hcheck]
      omega

/-- Several more packets. -/
theorem foldl_step (h : B.Counts earlier ps t) {more : List Packet}
    (hs : InOrderStream B first (ps ++ more)) (hlt : B.missing (ps ++ more) < 2 ^ 31) :
    B.Counts earlier (ps ++ more) ((more.map timestamp).foldl (Tally.step B.cfg) t) := by
  induction more using List.reverseRecOn with
  | nil => rwa [List.append_nil]
  | append_singleton more p ih =>
    rw [← List.append_assoc] at hs hlt ⊢
    rw [List.map_append, List.foldl_append]
    exact (ih hs.of_append (hs.missing_le.trans_lt hlt)).step hs hlt

/-- The end of a call. -/
theorem close {v : VoltState} {k : ℤ} (h : B.Counts earlier ps (tally v k)) :
    B.Counts (earlier + k) ps (tally v 0) where
  last := h.last
  ctr := h.ctr
  total := (add_zero _).trans h.total
  earlier_nonneg := add_nonneg h.earlier_nonneg h.skipped_nonneg
  skipped_nonneg := le_rfl

end VoltageBlock.Counts

/-- A message changes no count. -/
theorem handleMessages_tally {messages : List Pmt} (h : handleMessages v messages = .ok v')
    (k : ℤ) : tally v' k = tally v k := by
  refine Execution.run_history_partial (fun _ w => tally w k = tally v k) (fun _ => True) ?_ []
    rfl (fun _ _ => trivial) h
  intro _ w m w' hw _ hstep
  rw [← hw]
  rw [handleSyncMsg] at hstep
  cases hm : m.cdr with
  | error f =>
    rw [hm] at hstep
    cases hstep
  | ok data =>
    rw [hm] at hstep
    cases hstep
    simp only
    split <;> rfl

namespace VoltageBlock

variable {B : VoltageBlock} {first : ℕ}

/-- The sum of the counts of all calls. -/
def skippedPackets (w : WorkRun) : ℤ := (w.results.map WorkResult.skippedPackets).sum

/-- **One call of a run.** -/
theorem Counts.call {arrived taken : List Packet} {w w' : WorkRun} {call : Call}
    (h : B.Counts (skippedPackets w) taken (tally w.source.volt 0))
    (hconsumed : arrived = taken ++ w.source.recv.dLocalqueue)
    (hcall : workCall B.cfg w call = .ok w')
    (hs : InOrderStream B first (arrived ++ call.arrived))
    (hlt : B.missing (arrived ++ call.arrived) < 2 ^ 31) :
    ∃ taken', arrived ++ call.arrived = taken' ++ w'.source.recv.dLocalqueue ∧
      B.Counts (skippedPackets w') taken' (tally w'.source.volt 0) := by
  rw [workCall] at hcall
  obtain ⟨volt, hmsgs, hcall⟩ := bind_eq_ok hcall
  obtain ⟨⟨result, s'⟩, hwork, hcall⟩ := bind_eq_ok hcall
  cases hcall
  obtain ⟨more, hqueue, htally⟩ := workVoltMode_tally hwork
  have hqueue : w.source.recv.dLocalqueue ++ call.arrived = more ++ s'.recv.dLocalqueue := hqueue
  have hall : arrived ++ call.arrived = taken ++ more ++ s'.recv.dLocalqueue := by
    rw [hconsumed, List.append_assoc, hqueue, List.append_assoc]
  refine ⟨taken ++ more, hall, ?_⟩
  rw [hall] at hs hlt
  have hcounts := h.foldl_step hs.of_append (hs.missing_le.trans_lt hlt)
  rw [← handleMessages_tally hmsgs 0, ← htally] at hcounts
  rw [skippedPackets, List.map_append, List.sum_append, List.map_singleton, List.sum_singleton]
  exact hcounts.close

theorem start_tally {c : Config} {u : Unset} {env : Environment} {s : SnapSource}
    (h : start c u env = .ok s) (k : ℤ) : tally s.volt k = ⟨0, 0, k⟩ := by
  rw [start] at h
  split_ifs at h
  all_goals
    cases h
    rfl

variable (B) in
/-- The counts of the calls of a run that has taken all packets. -/
theorem run_counts (env : Environment) {calls : List Call}
    (hs : InOrderStream B first (arrivals calls))
    (hlt : B.missing (arrivals calls) < 2 ^ 31) {w : WorkRun} (hw : B.run env calls = .ok w)
    (hall : w.source.recv.dLocalqueue = []) :
    skippedPackets w = B.missing (arrivals calls) := by
  suffices hcounts : ∃ taken, arrivals calls = taken ++ w.source.recv.dLocalqueue ∧
      B.Counts (skippedPackets w) taken (tally w.source.volt 0) by
    obtain ⟨taken, hconsumed, hcounts⟩ := hcounts
    rw [hall, List.append_nil] at hconsumed
    rw [hconsumed, ← hcounts.total]
    exact (add_zero _).symm
  obtain ⟨s, hstart, -, htracks⟩ := B.start_tracks env
  have hqueue : s.recv.dLocalqueue = [] := htracks.consumed.symm
  have hbegin : B.Counts 0 [] (tally s.volt 0) := by
    rw [start_tally hstart]
    exact ⟨rfl, fun _ => rfl, rfl, le_rfl, le_rfl⟩
  rw [run, workRun, hstart, ok_bind] at hw
  -- the invariant says nothing once the packets are not those of a stream
  let Inv : List Call → WorkRun → Prop := fun past w =>
    InOrderStream B first (arrivals past) → B.missing (arrivals past) < 2 ^ 31 →
      ∃ taken, arrivals past = taken ++ w.source.recv.dLocalqueue ∧
        B.Counts (skippedPackets w) taken (tally w.source.volt 0)
  have hstep : ∀ past w call w', Inv past w → True → workCall B.cfg w call = .ok w' →
      Inv (past ++ [call]) w' := by
    intro past w call w' hinv _ hcall hs hlt
    rw [arrivals_concat] at hs hlt ⊢
    obtain ⟨taken, hconsumed, hcounts⟩ := hinv hs.of_append (hs.missing_le.trans_lt hlt)
    exact hcounts.call hconsumed hcall hs hlt
  have hfirst : Inv [] ⟨s, []⟩ := fun _ _ => ⟨[], by rw [hqueue]; rfl, hbegin⟩
  exact Execution.run_history_partial Inv (fun _ => True) hstep [] hfirst (fun _ _ => trivial) hw
    hs hlt

variable (B) in
/-- **Loss accounting.** On an in-order stream with gaps of any size, the counts of all
calls of a run that has taken all packets add up to the packets that are missing from the
first received timestamp on. The frames that were sent before it are not counted. -/
theorem run_skippedPackets (env : Environment) {calls : List Call}
    (hcalls : ∀ call ∈ calls, call.Valid) (hs : InOrderStream B first (arrivals calls))
    (hlt : B.missing (arrivals calls) < 2 ^ 31) :
    ∃ w, B.run env calls = .ok w ∧
      (w.source.recv.dLocalqueue = [] →
        (w.results.map WorkResult.skippedPackets).sum = B.missing (arrivals calls) ∧
        B.missingFrom (arrivals calls) first =
          (w.results.map WorkResult.skippedPackets).sum +
            ((firstTimestamp (arrivals calls) - first) / 16 * B.packets : ℕ)) := by
  obtain ⟨w, -, -, -, hw, -⟩ := B.run_tracks env calls hcalls hs.admissible
  refine ⟨w, hw, fun hall => ?_⟩
  have hcount : (w.results.map WorkResult.skippedPackets).sum = B.missing (arrivals calls) :=
    B.run_counts env hs hlt hw hall
  refine ⟨hcount, ?_⟩
  rw [hcount, hs.missingFrom_first, Nat.cast_add]

/-- Three frames of two packets. The first frame and the second packets of the others are
lost, and the one before the last received timestamp is counted. -/
theorem run_skippedPackets_lost_packets :
    let B := ofWidth 2 (by decide) (by decide) true
    let calls := [Call.taking [plainPacket 0 32, plainPacket 0 48] 32]
    ∃ w, B.run ⟨[], fun _ _ => 0⟩ calls = .ok w ∧ w.source.recv.dLocalqueue = [] ∧
      (w.results.map WorkResult.skippedPackets).sum = 1 ∧
      B.missingFrom (arrivals calls) 16 = 3 := by
  intro B calls
  have h32 := timestamp_plainPacket 0 (show 32 < 2 ^ 64 by decide)
  have h48 := timestamp_plainPacket 0 (show 48 < 2 ^ 64 by decide)
  have hcalls : ∀ call ∈ calls, call.Valid := by
    intro call hcall
    rw [List.mem_singleton.mp hcall]
    exact Call.taking_valid _ (by decide) (by decide)
  have harrivals : arrivals calls = [] ++ [plainPacket 0 32] ++ [plainPacket 0 48] := rfl
  have hs : InOrderStream B 16 (arrivals calls) :=
    { delivered := ⟨FullStream.plain B 16 3 (by decide), .cons _ (.cons _ (.cons_cons _ (.cons _
        (.cons_cons _ (List.nil_sublist _)))))⟩
      first_pos := by decide }
  have hmissing : B.missing (arrivals calls) = 1 := by
    have hone := (harrivals ▸ hs).missing_concat (d := 1) (by rw [h32, h48])
    have hfirst : B.missing ([] ++ [plainPacket 0 32]) = 0 := Counts.missing_singleton B _
    have hpackets : B.packets = 2 := rfl
    have hat : B.missingAt ([] ++ [plainPacket 0 32]) (timestamp (plainPacket 0 32)) = 1 := by
      simp [missingAt, packetsAt, hpackets]
    rw [harrivals, hone, hfirst, hat, if_neg one_ne_zero, Nat.sub_self, Nat.zero_mul]
  obtain ⟨w, hw, hcounts⟩ := run_skippedPackets B ⟨[], fun _ _ => 0⟩ hcalls hs
    (by rw [hmissing]; decide)
  have hframes : (frameLog B.cfg.bOnePacket (arrivals calls)).pushed.length = 1 := by
    have hnoGap : gapPushes 32 48 = [] := rfl
    rw [harrivals]
    simp [frameLog, FrameLog.step, FrameLog.newFrames, FrameLog.empty, h32, h48, hnoGap, B,
      ofWidth, widthConfig]
  -- the call asks for more than the one frame that is ready
  have hall : w.source.recv.dLocalqueue = [] :=
    run_takes_all hcalls hs.admissible (List.forall_mem_singleton.mpr le_rfl)
      (by rw [hframes]; decide) hw
  obtain ⟨hcount, hfrom⟩ := hcounts hall
  have hfirst : firstTimestamp (arrivals calls) = 32 := h32
  rw [hcount, hmissing, hfirst] at hfrom
  refine ⟨w, hw, hall, hcount.trans (by rw [hmissing]; rfl), ?_⟩
  exact_mod_cast hfrom

/-- Three frames of two packets, of which only the first packet of the last one is received.
The four packets before it are missing, and none is counted. -/
theorem early_frames_uncounted :
    let B := ofWidth 2 (by decide) (by decide) true
    let calls := [Call.taking [plainPacket 0 48] 16]
    (∀ call ∈ calls, call.Valid) ∧ LossyStream B 16 (arrivals calls) ∧
      ∃ w, B.run ⟨[], fun _ _ => 0⟩ calls = .ok w ∧ w.source.recv.dLocalqueue = [] ∧
        (w.results.map WorkResult.skippedPackets).sum = 0 ∧
        B.missingFrom (arrivals calls) 16 = 4 := by
  intro B calls
  have h48 := timestamp_plainPacket 0 (show 48 < 2 ^ 64 by decide)
  have hcalls : ∀ call ∈ calls, call.Valid := by
    intro call hcall
    rw [List.mem_singleton.mp hcall]
    exact Call.taking_valid _ (by decide) (by decide)
  have hsub : [plainPacket 0 48].Sublist (FullStream.plain B 16 3 (by decide)).sent :=
    List.singleton_sublist.mpr (List.mem_flatMap.mpr ⟨2, by decide, List.mem_map.mpr
      ⟨0, by decide, rfl⟩⟩)
  have hs : LossyStream B 16 (arrivals calls) :=
    { delivered := ⟨_, hsub⟩
      first_pos := by decide
      synchronized := fun p hp => by
        rw [← Option.some.inj hp]
        exact channel_plainPacket (by decide) _
      losses := List.isChain_singleton _ }
  have hmissing : B.missing (arrivals calls) = 0 := Counts.missing_singleton B _
  obtain ⟨w, _, _, _, hw, -⟩ := B.run_tracks ⟨[], fun _ _ => 0⟩ calls hcalls hs.admissible
  have hnone : (frameLog B.cfg.bOnePacket (arrivals calls)).pushed = [] := by
    rw [show arrivals calls = [plainPacket 0 48] from rfl]
    simp [frameLog, FrameLog.step, FrameLog.newFrames, FrameLog.empty, h48, B, ofWidth,
      widthConfig]
  have hall : w.source.recv.dLocalqueue = [] :=
    run_takes_all hcalls hs.admissible (List.forall_mem_singleton.mpr le_rfl)
      (by rw [hnone]; decide) hw
  have hcount := B.run_counts _ hs.toInOrderStream (by rw [hmissing]; decide) hw hall
  refine ⟨hcalls, hs, w, hw, hall, ?_, ?_⟩
  · rw [← Nat.cast_zero, ← hmissing]
    exact hcount
  · have hfirst : firstTimestamp (arrivals calls) = 48 := h48
    rw [hs.toInOrderStream.missingFrom_first, hmissing, hfirst]
    rfl

end VoltageBlock

end GrAta
