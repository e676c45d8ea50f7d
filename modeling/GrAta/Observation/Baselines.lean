import GrAta.Observation.Visibilities

/-!
# Coordinates of baselines

The rows of the baseline vectors are meant for the pairs of antennas in their order, and the
coordinates of a data file repeat them for each block. As all passes write the same row, they
describe the pairs only when all antennas are at one place.

## Main definitions

- `Job.VectorsBelong`: every row describes its pair of antennas

## Main results

- `Job.vectorsBelong_iff`: when this is so
-/

namespace GrAta.Observation

variable {R : Type}

/-- Every row of the computed vectors is the difference of the antennas of its baseline, and
every row of the coordinates of a data file is the difference of the antennas of that row. -/
structure Job.VectorsBelong [Sub R] [Zero R] (job : Job R) (c : ℕ → Coordinates R) :
    Prop where
  vectors : ∃ vectors, job.baselineVectors = .ok vectors ∧
    vectors.shape = [Triangular.size job.metadata.antennaNames.length, 3] ∧
    ∀ i < job.metadata.antennaNames.length, ∀ j ≤ i, ∀ axis < 3,
      vectors.get? [i * (i + 1) / 2 + j, axis] = some (difference c (i, j) axis)
  rows : ∀ {B F p : ℕ}, job.Fits B F p → job.phases = false → job.metadata.hasUvwFile = false →
    ∀ {vectors : NdArray R}, job.baselineVectors = .ok vectors → ∀ file : List UInt8,
      ∃ result, job.processFile vectors file .initial = .ok result ∧
        ∀ r < result.uv.nblts, ∀ axis < 3, ∃ rows i j, result.uv.uvwArray = some rows ∧
          result.uv.ant1Array[r]? = some i ∧ result.uv.ant2Array[r]? = some j ∧
          rows.get? [r, axis] = some (difference c (i, j) axis)

theorem Job.hasAntennaDelays_of_not_phases {job : Job R} (h : job.phases = false) :
    job.metadata.hasAntennaDelays = false :=
  (Bool.or_eq_false_iff.mp h).1

section Differences

variable [Sub R] [Zero R] (hsub : ∀ x y : R, x - y = 0 ↔ x = y)
include hsub

theorem difference_eq_zero {c : ℕ → Coordinates R} {i j : ℕ} (h : c i = c j) (axis : ℕ) :
    difference c (i, j) axis = 0 := by
  rw [difference, h]
  exact (hsub _ _).mpr rfl

/-- Two antennas are at one place when no coordinate differs. -/
theorem eq_of_difference {c : ℕ → Coordinates R} {i j : ℕ}
    (h : ∀ axis < 3, difference c (i, j) axis = 0) : c i = c j := by
  have hx : (c i).x = (c j).x := (hsub _ _).mp (h 0 (by decide))
  have hy : (c i).y = (c j).y := (hsub _ _).mp (h 1 (by decide))
  have hz : (c i).z = (c j).z := (hsub _ _).mp (h 2 (by decide))
  cases hi : c i
  cases hj : c j
  simp only [hi, hj] at hx hy hz
  rw [hx, hy, hz]

end Differences

variable [Zero R] {job : Job R} {c : ℕ → Coordinates R} {B F p : ℕ} {vectors : NdArray R}

/-- The coordinates of a data file repeat the baseline vectors. -/
theorem Job.Fits.uvw_rows (hfits : job.Fits B F p) (hphases : job.phases = false)
    (huvw : job.metadata.hasUvwFile = false)
    (hshape : vectors.shape = [B, 3]) (file : List UInt8) :
    ∃ result, job.processFile vectors file .initial = .ok result ∧
      ∀ r < result.uv.nblts, ∃ rows i j, result.uv.uvwArray = some rows ∧
        i < job.metadata.antennaNames.length ∧ j ≤ i ∧
        result.uv.ant1Array[r]? = some i ∧ result.uv.ant2Array[r]? = some j ∧
        ∀ axis, rows.get? [r, axis] = vectors.get? [Triangular.size i + j, axis] := by
  obtain ⟨state, hfile, hstored, happended⟩ := hfits.processFile hphases
    (job.appended_zero vectors) (fun n u hu => hu.append hshape) file
  have hB := hfits.baselines_pos
  generalize file.length / job.obsMetadata.bytesPerBlock = T at hfile hstored happended
  refine ⟨_, hfile, fun r hr => ?_⟩
  have hr : r < T * B := by
    have hnblts : (job.addRows T .initial).nblts = T * job.obsMetadata.numBaselines :=
      Nat.zero_add _
    rw [hfits.numBaselines] at hnblts
    exact hnblts ▸ hr
  have ht : r / B < T := (Nat.div_lt_iff_lt_mul hB).mpr hr
  have hmod : r % B < Triangular.size job.metadata.antennaNames.length :=
    hfits.pairs ▸ Nat.mod_lt r hB
  obtain ⟨i, j, hj, hi, hb⟩ := Triangular.exists_pair hmod
  have hrow : r = r / B * B + (Triangular.size i + j) := by
    rw [hb, Nat.mul_comm]
    exact (Nat.div_add_mod r B).symm
  obtain ⟨rows, hrows, hrepeat⟩ := happended.exists_rows (Nat.zero_lt_of_lt ht) (by
    rw [huvw, Job.hasAntennaDelays_of_not_phases hphases]
    rfl)
  have hpair : ((List.range T).flatMap fun _ => antennaPairs job.metadata.antennaNames.length)[r]? =
      some (i, j) := by
    rw [hrow, hfits.pairs]
    exact antennaPairs_getElem? (hfits.pairs ▸ ht) hj hi
  refine ⟨rows, i, j, hrows, hi, hj, ?_, ?_, fun axis => ?_⟩
  · rw [Job.addRows_ant1Array, List.getElem?_map, hpair]
    rfl
  · rw [Job.addRows_ant2Array, List.getElem?_map, hpair]
    rfl
  · rw [hrow]
    exact hrepeat.get? hshape ht (hb ▸ hfits.pairs ▸ hmod) [axis]

/-- **Coordinates.** The rows describe their pairs of antennas exactly when all antennas are
at one place. Of the numbers only that equal ones, and no others, have the difference zero is
used. -/
theorem Job.vectorsBelong_iff [Sub R] (hsub : ∀ x y : R, x - y = 0 ↔ x = y)
    (hcomputed : job.metadata.baselineUvwVectors = none)
    (hknown : ∀ i < job.metadata.antennaNames.length, job.coordinates i = some (c i))
    (hrows : job.metadata.numBaselines = Triangular.size job.metadata.antennaNames.length) :
    job.VectorsBelong c ↔ ∀ i < job.metadata.antennaNames.length, ∀ j ≤ i, c i = c j := by
  obtain ⟨zeros, hzeros, hshape, hzero⟩ := Job.exists_baselineVectors
    (fun x => (hsub x x).mpr rfl) hcomputed hknown hrows
  constructor
  · intro h i hi j hj
    obtain ⟨vectors, hvectors, -, hrow⟩ := h.vectors
    obtain rfl : zeros = vectors := Except.ok.inj (hzeros.symm.trans hvectors)
    refine eq_of_difference hsub fun axis haxis => ?_
    have hrow := hrow i hi j hj axis haxis
    have hcell := hzero _ (Triangular.size_add_lt hj hi) axis haxis
    exact (Option.some.inj (hcell.symm.trans hrow)).symm
  · intro h
    refine ⟨⟨zeros, hzeros, hshape, fun i hi j hj axis haxis => ?_⟩, ?_⟩
    · rw [difference_eq_zero hsub (h i hi j hj)]
      exact hzero _ (Triangular.size_add_lt hj hi) axis haxis
    · intro B F p hfits hphases huvw vectors hvectors file
      obtain rfl : zeros = vectors := Except.ok.inj (hzeros.symm.trans hvectors)
      rw [← hfits.pairs] at hshape hzero
      obtain ⟨result, hfile, hall⟩ := hfits.uvw_rows hphases huvw hshape file
      refine ⟨result, hfile, fun r hr axis haxis => ?_⟩
      obtain ⟨rows, i, j, hsome, hi, hj, h1, h2, hrow⟩ := hall r hr
      refine ⟨rows, i, j, hsome, h1, h2, ?_⟩
      rw [hrow, difference_eq_zero hsub (h i hi j hj)]
      exact hzero _ (hfits.pairs ▸ Triangular.size_add_lt hj hi) axis haxis

theorem twoAntennas_coordinates : ∀ i < 2,
    (twoAntennas silent false none).coordinates i = some ⟨i, 0, 0⟩ := by
  decide +kernel

/-- The second baseline of two antennas at different places is not described. -/
theorem twoAntennas_not_belong :
    (∀ i < 2, (twoAntennas silent false none).coordinates i = some ⟨i, 0, 0⟩) ∧
      ¬(twoAntennas silent false none).VectorsBelong fun i => ⟨i, 0, 0⟩ := by
  have hcomputed : (twoAntennas silent false none).metadata.baselineUvwVectors = none := rfl
  obtain ⟨zeros, hzeros, -, hzero⟩ :=
    Job.exists_baselineVectors Int.sub_self hcomputed twoAntennas_coordinates size_two.symm
  refine ⟨twoAntennas_coordinates, fun h => ?_⟩
  obtain ⟨vectors, hvectors, -, hrow⟩ := h.vectors
  obtain rfl : zeros = vectors := Except.ok.inj (hzeros.symm.trans hvectors)
  have hcell := hzero 1 (by decide +kernel) 0 (by decide)
  have hrow := hrow 1 (by decide) 0 (by decide) 0 (by decide)
  have hone : (1 : ℤ) = 0 := Option.some.inj (hrow.symm.trans hcell)
  exact absurd hone one_ne_zero

/-- The condition for these antennas. -/
theorem vectorsBelong_iff_two :
    (twoAntennas silent false none).VectorsBelong (fun i => ⟨i, 0, 0⟩) ↔
      ∀ i < (2 : ℕ), ∀ j ≤ i, (⟨i, 0, 0⟩ : Coordinates ℤ) = ⟨j, 0, 0⟩ :=
  @Job.vectorsBelong_iff ℤ _ (twoAntennas silent false none) (fun i => ⟨i, 0, 0⟩) _
    (fun _ _ => Int.sub_eq_zero) rfl twoAntennas_coordinates size_two.symm

end GrAta.Observation
