import GrAta.Observation.Visibilities

/-!
# Integrations of a recording

The phasing branch cuts a data file to a multiple of `d_num_baselines * d_npol *
d_num_channels` numbers, but a block has `d_npol` times as many. The integrations of the
file are found when the number of multiples happens to be one of whole blocks.

## Main definitions

- `Job.CutsToBlocks`: the file is cut to its whole blocks

## Main results

- `Job.integrations_of_dvd`, `Job.integrations_of_not_dvd`: the two cases
- `Job.cutsToBlocks_iff`: when a file is cut to its whole blocks
-/

namespace GrAta.Observation

variable {R : Type} {job : Job R} {B F p : ℕ}

/-- The sizes of a recording, as far as the phasing branch depends on them. -/
structure Job.Sized (job : Job R) (B F p : ℕ) : Prop where
  numBaselines : job.obsMetadata.numBaselines = B
  channels : job.obsMetadata.channels = F
  polarizations : job.metadata.polarizations = p
  bytesPerBlock : job.obsMetadata.bytesPerBlock = 8 * B * F * p * p
  baselines_pos : 0 < B
  channels_pos : 0 < F
  polarizations_pos : 0 < p

/-- The file is cut to its whole blocks, and the coordinates fit the rows of these. -/
def Job.CutsToBlocks [Zero R] (job : Job R) (B F p : ℕ) (file : List UInt8) : Prop :=
  ∃ x, job.integrations file = .ok x ∧
    x.shape = [file.length / job.obsMetadata.bytesPerBlock, F, B, p ^ 2] ∧
    ∃ uvw, (NdArray.full [x.shape.headD 0, x.shape.getD 2 0, 3] (0 : R)).reshape
      [file.length / job.obsMetadata.bytesPerBlock * B, 3] = some uvw

/-- The integrations, by the numbers that the file is cut to. -/
theorem Job.Sized.integrations_eq (h : job.Sized B F p) (file : List UInt8) :
    job.integrations file =
      fitting ((NdArray.ofList ((samples file).take
        (file.length / 8 / (B * p * F) * (B * p * F)))).reshape
          [file.length / 8 / (B * p * F) * (B * p * F) / (F * B * p ^ 2), F, B, p ^ 2]) := by
  have hn : 0 < B * p * F := Nat.mul_pos (Nat.mul_pos h.baselines_pos h.polarizations_pos)
    h.channels_pos
  have hcells : F * B * p ^ 2 ≠ 0 := (Nat.mul_pos (Nat.mul_pos h.channels_pos h.baselines_pos)
    (Nat.pow_pos h.polarizations_pos)).ne'
  have hlen : ((samples file).take (file.length / 8 / (B * p * F) * (B * p * F))).length =
      file.length / 8 / (B * p * F) * (B * p * F) := by
    rw [List.length_take, samples_length]
    exact Nat.min_eq_left (Nat.div_mul_le_self _ _)
  rw [Job.integrations, h.numBaselines, h.channels, h.polarizations, samples_length,
    floorDiv_of_pos hn, ok_bind, if_neg hcells, hlen]

theorem Job.Sized.blocks_eq (h : job.Sized B F p) (file : List UInt8) :
    file.length / job.obsMetadata.bytesPerBlock = file.length / 8 / (B * p * F) / p := by
  rw [h.bytesPerBlock, Nat.div_div_eq_div_mul, Nat.div_div_eq_div_mul]
  congr 1
  ring

theorem cells_eq (B F p : ℕ) : F * B * p ^ 2 = B * p * F * p := by ring

theorem Job.Sized.multiple_pos (h : job.Sized B F p) : 0 < B * p * F :=
  Nat.mul_pos (Nat.mul_pos h.baselines_pos h.polarizations_pos) h.channels_pos

/-- A file with whole blocks among the numbers it is cut to. -/
theorem Job.Sized.integrations_of_dvd (h : job.Sized B F p) {file : List UInt8}
    (hdvd : p ∣ file.length / 8 / (B * p * F)) :
    ∃ x, job.integrations file = .ok x ∧
      x.shape = [file.length / job.obsMetadata.bytesPerBlock, F, B, p ^ 2] ∧
      x.data = (samples file).take
        (file.length / job.obsMetadata.bytesPerBlock * (F * B * p ^ 2)) := by
  rw [h.integrations_eq, h.blocks_eq, cells_eq]
  have hle := Nat.div_mul_le_self (file.length / 8) (B * p * F)
  have hn := h.multiple_pos
  have hp := h.polarizations_pos
  have hblock := cells_eq B F p
  generalize B * p * F = n at *
  obtain ⟨T, hT⟩ := hdvd
  rw [hT] at hle ⊢
  have hcells : p * T * n = T * (n * p) := by ring
  have hdata : ((samples file).take (T * (n * p))).length = T * (n * p) := by
    rw [List.length_take, samples_length, Nat.min_eq_left (hcells ▸ hle)]
  rw [hcells, Nat.mul_div_cancel _ (Nat.mul_pos hn hp), Nat.mul_div_cancel_left _ hp]
  have hsize : ((samples file).take (T * (n * p))).length = [T, F, B, p ^ 2].prod := by
    rw [hdata, ← hblock]
    simp only [List.prod_cons, List.prod_nil]
    ring
  refine ⟨⟨[T, F, B, p ^ 2], (samples file).take (T * (n * p)), hsize⟩, ?_, rfl, rfl⟩
  exact congrArg fitting (NdArray.reshape_of_eq hsize)

/-- Any other file ends the script. -/
theorem Job.Sized.integrations_of_not_dvd (h : job.Sized B F p) {file : List UInt8}
    (hdvd : ¬ p ∣ file.length / 8 / (B * p * F)) :
    job.integrations file = .error .valueError := by
  have hle := Nat.div_mul_le_self (file.length / 8) (B * p * F)
  have hn := h.multiple_pos
  rw [h.integrations_eq, NdArray.reshape_of_ne]
  · rfl
  · intro hsize
    have hlen : ((samples file).take (file.length / 8 / (B * p * F) * (B * p * F))).length =
        file.length / 8 / (B * p * F) * (B * p * F) := by
      rw [List.length_take, samples_length]
      exact Nat.min_eq_left hle
    rw [NdArray.ofList, hlen] at hsize
    apply hdvd
    have hblocks : B * p * F * p ∣ file.length / 8 / (B * p * F) * (B * p * F) := by
      rw [hsize, ← cells_eq]
      refine ⟨file.length / 8 / (B * p * F) * (B * p * F) / (F * B * p ^ 2), ?_⟩
      simp only [List.prod_cons, List.prod_nil]
      ring
    rw [Nat.mul_comm (file.length / 8 / (B * p * F))] at hblocks
    exact Nat.dvd_of_mul_dvd_mul_left hn hblocks

/-- **Integrations.** A file is cut to its whole blocks exactly when the multiples that it is
cut to are whole blocks. -/
theorem Job.cutsToBlocks_iff [Zero R] (h : job.Sized B F p) (file : List UInt8) :
    job.CutsToBlocks B F p file ↔ p ∣ file.length / 8 / (B * p * F) := by
  constructor
  · rintro ⟨x, hx, -⟩
    by_contra hdvd
    rw [h.integrations_of_not_dvd hdvd] at hx
    cases hx
  · intro hdvd
    obtain ⟨x, hx, hshape, -⟩ := h.integrations_of_dvd hdvd
    refine ⟨x, hx, hshape, _, NdArray.reshape_of_eq ?_⟩
    rw [hshape, NdArray.full, List.length_replicate]
    simp only [List.headD_cons, List.getD_cons_succ, List.getD_cons_zero, List.prod_cons,
      List.prod_nil]
    ring

/-- A recording that is cut off within a block can end the script, when it is phased. -/
theorem Job.Sized.processFile_error [Zero R] (h : job.Sized B F p) (hphases : job.phases = true)
    {file : List UInt8} (hdvd : ¬ p ∣ file.length / 8 / (B * p * F)) (vectors : NdArray R)
    (uv : UVData R) : job.processFile vectors file uv = .error .valueError := by
  have hpos : 0 < job.obsMetadata.bytesPerBlock := by
    rw [h.bytesPerBlock]
    have hcells : 8 * B * F * p * p = 8 * (B * p * F * p) := by ring
    rw [hcells]
    exact Nat.mul_pos (by omega) (Nat.mul_pos h.multiple_pos h.polarizations_pos)
  rw [Job.processFile, floorDiv_of_pos hpos, ok_bind, hphases, if_pos rfl, Job.phase,
    h.integrations_of_not_dvd hdvd]
  rfl

theorem twoAntennas_sized (stopBaseline : StopBaseline ℤ) (hasAntennaDelays : Bool)
    (baselineUvwVectors : Option (List (ℤ × ℤ × ℤ))) :
    (twoAntennas stopBaseline hasAntennaDelays baselineUvwVectors).Sized 3 1 2 :=
  ⟨rfl, rfl, rfl, rfl, three_pos, one_pos, two_pos⟩

/-- A file with half a block is not cut, it ends the script. -/
theorem half_block_not_cut :
    ¬(twoAntennas silent true none).CutsToBlocks 3 1 2 (List.replicate 48 0) := by
  have hodd : ¬ 2 ∣ (List.replicate 48 (0 : UInt8)).length / 8 / (3 * 2 * 1) := by
    rw [List.length_replicate]
    decide
  rintro ⟨x, hx, -⟩
  rw [(twoAntennas_sized silent true none).integrations_of_not_dvd hodd] at hx
  cases hx

/-- The condition for this recording. -/
theorem cutsToBlocks_iff_two :
    (twoAntennas silent true none).CutsToBlocks 3 1 2 (List.replicate 48 0) ↔
      2 ∣ (List.replicate 48 (0 : UInt8)).length / 8 / (3 * 2 * 1) :=
  Job.cutsToBlocks_iff (twoAntennas_sized silent true none) _

end GrAta.Observation
