import GrAta.Snap.Encoding
import GrAta.Voltage.Refinement
import Mathlib.Data.Set.Card
import Mathlib.Order.Interval.Finset.Nat

/-!
# The gap filling loop

Three quantities belong to a gap between two timestamps: the number of missed sets, a
division in 64-bit arithmetic, the loop that visits the missed timestamps, and the
amount added to the count of skipped packets. They agree only for timestamps that are a
multiple of 16 apart, and the loop ends only when its counter does not have to wrap.

## Main definitions

- `GapLoopEnds`: the loop ends within one iteration more than there are missed sets
- `VoltageBlock.GapAccounted`: count, loop and amount agree

## Main results

- `gapLoopEnds_iff`: when the loop ends
- `VoltageBlock.gapAccounted_iff`: when the three agree
-/

namespace GrAta

/-- The loop between two timestamps ends, after at most one iteration more than there
are missed sets. -/
def GapLoopEnds (last sample : ℕ) : Prop :=
  ∃ fuel missed, gapTimestamps sample fuel ((last + 16) % 2 ^ 64) = some missed ∧
    missed.length ≤ missedSets last sample + 1

/-- **When the gap filling loop ends.** The step divides the range of the counter, so the
loop ends if and only if some number with the residue of the last timestamp lies between
the sample number and the end of the range. -/
theorem gapLoopEnds_iff {last sample : ℕ} (h0 : 0 < last) (hlt : last < sample)
    (hs : sample < 2 ^ 64) (hpos : 0 < missedSets last sample)
    (hmax : missedSets last sample ≤ MAX_MISSED_SETS) :
    GapLoopEnds last sample ↔ sample ≤ 2 ^ 64 - 16 + last % 16 := by
  obtain ⟨hsets, hfar⟩ := missedSets_eq hs hpos hmax
  constructor
  · rintro ⟨fuel, missed, hloop, -⟩
    by_contra hbound
    have hnone := gapTimestamps_eq_none hlt hs (by omega) fuel
    rw [hloop] at hnone
    cases hnone
  · intro hbound
    have hends : FillEnds last sample := fun _ => by omega
    refine ⟨_, _, gapTimestamps_gapOf h0 hlt hs hends hpos hmax, ?_⟩
    rw [gapOf, if_pos ⟨h0, hlt, hpos, hmax⟩, List.length_map, List.length_range, hsets]
    omega

/-- One missed set between two frames at the end of the range. -/
theorem gapLoopEnds_iff_ends : GapLoopEnds 16 48 :=
  (gapLoopEnds_iff (by decide) (by decide) (by decide) (by decide) (by decide)).mpr (by decide)

/-- The last timestamp is two steps before the end of the range and the sample number is
the largest there is: the counter goes from the first to zero and on from there. -/
theorem gapLoop_endless :
    0 < 2 ^ 64 - 48 ∧ 2 ^ 64 - 48 < 2 ^ 64 - 1 ∧ missedSets (2 ^ 64 - 48) (2 ^ 64 - 1) = 1 ∧
      ¬GapLoopEnds (2 ^ 64 - 48) (2 ^ 64 - 1) := by
  refine ⟨by decide, by decide, by decide, ?_⟩
  rintro ⟨fuel, missed, hloop, -⟩
  rw [gapTimestamps_eq_none (by decide) (by decide) (by decide)] at hloop
  cases hloop

-- ════════════════════════════════════════════════════════════════════════
-- Count, loop and amount
-- ════════════════════════════════════════════════════════════════════════

/-- A queue grows by `n` zeroed vectors. -/
def AppendsZeros (c : Config) (n : ℕ) (queue queue' : List TimeVector) : Prop :=
  ∃ zeros, queue' = queue ++ zeros ∧ zeros.length = n ∧
    ∀ z ∈ zeros, z.data = List.replicate c.dVeclen 0

theorem AppendsZeros.refl (c : Config) (queue : List TimeVector) :
    AppendsZeros c 0 queue queue :=
  ⟨[], (List.append_nil _).symm, rfl, fun _ hz => by cases hz⟩

theorem AppendsZeros.trans {c : Config} {m n : ℕ} {q₁ q₂ q₃ : List TimeVector}
    (h : AppendsZeros c m q₁ q₂) (h' : AppendsZeros c n q₂ q₃) :
    AppendsZeros c (m + n) q₁ q₃ := by
  obtain ⟨zs, rfl, hlen, hz⟩ := h
  obtain ⟨zs', rfl, hlen', hz'⟩ := h'
  refine ⟨zs ++ zs', List.append_assoc .., by rw [List.length_append, hlen, hlen'], ?_⟩
  intro z hmem
  exact (List.mem_append.mp hmem).elim (hz z) (hz' z)

theorem appendsZeros_zeroVectors (c : Config) (queue : List TimeVector) (missed : ℕ) :
    AppendsZeros c 16 queue (queue ++ zeroVectors c missed) := by
  refine ⟨_, rfl, by simp [zeroVectors], ?_⟩
  intro z hz
  obtain ⟨t, _, rfl⟩ := List.mem_map.mp hz
  rfl

/-- The zeroed vectors that a list of missed timestamps puts on both ports. -/
theorem foldl_queueMissedFrame_appendsZeros (c : Config) (missed : List ℕ) (v : VoltState) :
    AppendsZeros c (16 * missed.length) v.xVectorQueue
        (missed.foldl (queueMissedFrame c) v).xVectorQueue ∧
      (c.dPackedOutput = false → AppendsZeros c (16 * missed.length) v.yVectorQueue
        (missed.foldl (queueMissedFrame c) v).yVectorQueue) := by
  induction missed generalizing v with
  | nil => exact ⟨.refl c _, fun _ => .refl c _⟩
  | cons m missed ih =>
    have hlen : 16 * (m :: missed).length = 16 + 16 * missed.length := by
      rw [List.length_cons]
      omega
    obtain ⟨hx, hy⟩ := ih (queueMissedFrame c v m)
    rw [hlen, List.foldl_cons]
    refine ⟨(appendsZeros_zeroVectors c _ m).trans hx, fun hp => ?_⟩
    have hym : AppendsZeros c 16 v.yVectorQueue (queueMissedFrame c v m).yVectorQueue := by
      rw [queueMissedFrame]
      simp only [hp, Bool.false_eq_true, if_false]
      exact appendsZeros_zeroVectors c _ m
    exact hym.trans (hy hp)

namespace VoltageBlock

variable (B : VoltageBlock)

/-- The accounts of a gap agree: the number of missed sets does not wrap and counts the
frame timestamps in between, the amount added to the skipped packets is this number times
the packets of a frame, as an `int`, and a gap that is not too long is filled with sixteen
zeroed vectors for each missed set. -/
structure GapAccounted (last sample : ℕ) : Prop where
  no_wrap : (missedSets last sample : ℤ) = ((sample - last) / 16 : ℕ) - 1
  count : missedSets last sample = {k | 1 ≤ k ∧ last + 16 * k < sample}.ncard
  amount : toInt32 (missedSets last sample * B.packets) = missedSets last sample * B.packets
  added : ∀ (v : VoltState) (hdr : SnapHeader) (skipped : ℤ), v.dLastTimestamp = last →
    hdr.sampleNumber = sample → toInt32 skipped = skipped →
    ∃ v', checkMissingFrames B.cfg hdr v skipped =
        .ok (v', toInt32 (skipped + missedSets last sample * B.packets)) ∧
      (missedSets last sample ≤ MAX_MISSED_SETS →
        AppendsZeros B.cfg (16 * missedSets last sample) v.xVectorQueue v'.xVectorQueue ∧
        (B.cfg.dPackedOutput = false →
          AppendsZeros B.cfg (16 * missedSets last sample) v.yVectorQueue v'.yVectorQueue))

end VoltageBlock

/-- The frame timestamps strictly between two timestamps. -/
theorem ncard_missedTimestamps {last sample : ℕ} (hlt : last < sample) :
    {k | 1 ≤ k ∧ last + 16 * k < sample}.ncard = (sample - last - 1) / 16 := by
  have hset : {k | 1 ≤ k ∧ last + 16 * k < sample} =
      (Finset.Icc 1 ((sample - last - 1) / 16) : Finset ℕ) := by
    ext k
    rw [Finset.coe_Icc, Set.mem_Icc, Set.mem_ofPred_eq]
    omega
  rw [hset, Set.ncard_coe_finset, Nat.card_Icc]
  omega

/-- The division counts the timestamps in between only for a whole number of steps. -/
theorem missedSets_eq_ncard_iff {last sample : ℕ} (hlt : last < sample) (hs : sample < 2 ^ 64) :
    missedSets last sample = {k | 1 ≤ k ∧ last + 16 * k < sample}.ncard ↔
      16 ∣ sample - last := by
  rw [ncard_missedTimestamps hlt, missedSets]
  omega

/-- A whole number of steps, at least one, is counted without a wrap. -/
theorem missedSets_of_dvd {last sample : ℕ} (hlt : last < sample) (hs : sample < 2 ^ 64)
    (hd : 16 ∣ sample - last) :
    missedSets last sample = (sample - last) / 16 - 1 ∧ 16 ≤ sample - last := by
  rw [missedSets]
  omega

theorem toInt32_natCast_eq_iff (n : ℕ) : toInt32 n = n ↔ n < 2 ^ 31 := by
  rw [toInt32, Int.bmod_def]
  split <;> omega

namespace VoltageBlock

variable (B : VoltageBlock)

/-- What the check for missing frames does with a whole number of steps. -/
theorem checkMissingFrames_of_dvd {last sample : ℕ} (h0 : 0 < last) (hlt : last < sample)
    (hs : sample < 2 ^ 64) (hd : 16 ∣ sample - last) {v : VoltState} {hdr : SnapHeader}
    {skipped : ℤ} (hv : v.dLastTimestamp = last) (hhdr : hdr.sampleNumber = sample)
    (hint : toInt32 skipped = skipped) :
    ∃ v', checkMissingFrames B.cfg hdr v skipped =
        .ok (v', toInt32 (skipped + missedSets last sample * B.packets)) ∧
      (missedSets last sample ≤ MAX_MISSED_SETS →
        AppendsZeros B.cfg (16 * missedSets last sample) v.xVectorQueue v'.xVectorQueue ∧
        (B.cfg.dPackedOutput = false →
          AppendsZeros B.cfg (16 * missedSets last sample) v.yVectorQueue v'.yVectorQueue)) := by
  obtain ⟨hsets, hfar⟩ := missedSets_of_dvd hlt hs hd
  rw [checkMissingFrames, hv, hhdr, if_pos ⟨h0, hlt⟩]
  by_cases hpos : missedSets last sample > 0
  · simp only [if_pos hpos, B.packetsPerFrame_eq]
    by_cases hmax : missedSets last sample ≤ MAX_MISSED_SETS
    · have hloop := gapTimestamps_gapOf h0 hlt hs (gapEnds_of_dvd hs hd).fillEnds hpos hmax
      have hcount : (gapOf last sample).length = missedSets last sample := by
        rw [gapOf, if_pos ⟨h0, hlt, hpos, hmax⟩, List.length_map, List.length_range, hsets]
        omega
      simp only [if_pos hmax, fillGap, hv, hloop, ok_bind]
      refine ⟨_, rfl, fun _ => ?_⟩
      rw [← hcount]
      exact foldl_queueMissedFrame_appendsZeros B.cfg _ v
    · simp only [if_neg hmax]
      exact ⟨v, rfl, fun hle => absurd hle hmax⟩
  · have hzero : missedSets last sample = 0 := by omega
    simp only [hzero, Nat.cast_zero, zero_mul, add_zero, hint]
    exact ⟨v, rfl, fun _ => ⟨.refl _ _, fun _ => .refl _ _⟩⟩

/-- **When the accounts of a gap agree.** The timestamps are a multiple of 16 apart, and
the packets of the missed sets can be counted in an `int`. -/
theorem gapAccounted_iff {last sample : ℕ} (h0 : 0 < last) (hlt : last < sample)
    (hs : sample < 2 ^ 64) :
    B.GapAccounted last sample ↔
      16 ∣ sample - last ∧ ((sample - last) / 16 - 1) * B.packets < 2 ^ 31 := by
  constructor
  · intro h
    have hd := (missedSets_eq_ncard_iff hlt hs).mp h.count
    refine ⟨hd, ?_⟩
    rw [← (missedSets_of_dvd hlt hs hd).1, ← toInt32_natCast_eq_iff]
    exact_mod_cast h.amount
  · rintro ⟨hd, hsmall⟩
    obtain ⟨hsets, hfar⟩ := missedSets_of_dvd hlt hs hd
    rw [← hsets, ← toInt32_natCast_eq_iff] at hsmall
    refine ⟨by omega, (missedSets_eq_ncard_iff hlt hs).mpr hd, by exact_mod_cast hsmall, ?_⟩
    intro v hdr skipped hv hhdr hint
    exact B.checkMissingFrames_of_dvd h0 hlt hs hd hv hhdr hint

/-- Two steps in a block of two packets a frame. -/
theorem gapAccounted_iff_two :
    (ofWidth 2 width_two_pos width_two_le true).GapAccounted 16 48 :=
  ((ofWidth 2 width_two_pos width_two_le true).gapAccounted_iff (by decide) (by decide)
    (by decide)).mpr ⟨by decide, by decide⟩

/-- Four ticks are less than a step: the count wraps. -/
theorem gap_below_step_not_accounted :
    missedSets 16 20 = 2 ^ 64 - 1 ∧
      ¬(ofWidth 2 width_two_pos width_two_le true).GapAccounted 16 20 := by
  refine ⟨by decide, fun h => ?_⟩
  exact absurd ((missedSets_eq_ncard_iff (by decide) (by decide)).mp h.count) (by decide)

end VoltageBlock

end GrAta
