import GrAta.Observation.Integrations

/-!
# Phasing

The phasing branch corrects the data of each cross-correlation and writes them to a file of
the same layout, which the loop through the blocks reads then. The coordinates that come with
the corrected data are dropped: the rows are zero, and the baseline vectors may follow them.

## Main definitions

- `Job.name`, `Job.cross`: the name and the data of a baseline
- `Job.KeepsUvw`: the coordinates and the corrected data of every baseline are kept

## Main results

- `exists_slice`, `exists_storeSlice`: the slices of a baseline
- `Job.Fits.phase`: what the phasing branch returns
- `Job.keepsUvw_iff`: when the coordinates are kept
-/

namespace GrAta.Observation

variable {R : Type}

-- ════════════════════════════════════════════════════════════════════════
-- Slices
-- ════════════════════════════════════════════════════════════════════════

theorem mem_sliceMoves {T F B P j : ℕ} {m : List ℕ × ℕ} :
    m ∈ sliceMoves T F B P j ↔ ∃ t < T, ∃ f < F, ∃ k < P,
      m = ([t, f, k], NdArray.offset [T, F, B, P] [t, f, j, k]) := by
  simp only [sliceMoves, List.mem_flatMap, List.mem_map, List.mem_range, NdArray.offset_four]
  constructor
  · rintro ⟨t, ht, f, hf, k, hk, rfl⟩
    exact ⟨t, ht, f, hf, k, hk, rfl⟩
  · rintro ⟨t, ht, f, hf, k, hk, rfl⟩
    exact ⟨t, ht, f, hf, k, hk, rfl⟩

theorem mem_storeMoves {T F P j : ℕ} {m : List ℕ × ℕ} :
    m ∈ storeMoves T F P j ↔ ∃ t < T, ∃ f < F, ∃ k < P,
      m = ([t, f, j, k], NdArray.offset [T, F, P] [t, f, k]) := by
  simp only [storeMoves, List.mem_flatMap, List.mem_map, List.mem_range, NdArray.offset_three]
  constructor
  · rintro ⟨t, ht, f, hf, k, hk, rfl⟩
    exact ⟨t, ht, f, hf, k, hk, rfl⟩
  · rintro ⟨t, ht, f, hf, k, hk, rfl⟩
    exact ⟨t, ht, f, hf, k, hk, rfl⟩

/-- The data of a baseline. -/
theorem exists_slice {x : NdArray Sample} {T F B P j : ℕ} (hx : x.shape = [T, F, B, P])
    (hj : j < B) :
    ∃ cross, slice x j = some cross ∧ cross.shape = [T, F, P] ∧
      ∀ t < T, ∀ f < F, ∀ k < P, cross.get? [t, f, k] = x.get? [t, f, j, k] := by
  have hwithin : ∀ {t f k : ℕ}, t < T → f < F → k < P →
      NdArray.Within [T, F, B, P] [t, f, j, k] := fun ht hf hk => ⟨ht, hf, hj, hk, trivial⟩
  have hmoves : NdArray.Moves [T, F, P] x.data.length (sliceMoves T F B P j) := by
    refine ⟨fun m hm => ?_, fun m hm => ?_, fun m hm m' hm' heq => ?_⟩
    · obtain ⟨t, ht, f, hf, k, hk, rfl⟩ := mem_sliceMoves.mp hm
      exact ⟨ht, hf, hk, trivial⟩
    · obtain ⟨t, ht, f, hf, k, hk, rfl⟩ := mem_sliceMoves.mp hm
      rw [x.size_eq, hx]
      exact NdArray.offset_lt (hwithin ht hf hk)
    · obtain ⟨t, ht, f, hf, k, hk, rfl⟩ := mem_sliceMoves.mp hm
      obtain ⟨t', ht', f', hf', k', hk', rfl⟩ := mem_sliceMoves.mp hm'
      injection heq with ht heq
      injection heq with hf heq
      injection heq with hk
      rw [ht, hf, hk]
  obtain ⟨cross, hcopy, hshape, hmoved, -⟩ :=
    NdArray.Moves.exists_copyAll (a := NdArray.full [T, F, P] 0) hmoves
  refine ⟨cross, ?_, hshape, fun t ht f hf k hk => ?_⟩
  · simp only [slice, hx, if_pos hj, hcopy]
  · have hcell := hmoved ([t, f, k], NdArray.offset [T, F, B, P] [t, f, j, k])
      (mem_sliceMoves.mpr ⟨t, ht, f, hf, k, hk, rfl⟩)
    rw [hcell, NdArray.get?, hx, if_pos (hwithin ht hf hk)]

/-- The data of a baseline are replaced. -/
theorem exists_storeSlice {x values : NdArray Sample} {T F B P j : ℕ}
    (hx : x.shape = [T, F, B, P]) (hvalues : values.shape = [T, F, P]) (hj : j < B) :
    ∃ x', storeSlice x j values = some x' ∧ x'.shape = [T, F, B, P] ∧
      (∀ t < T, ∀ f < F, ∀ k < P, x'.get? [t, f, j, k] = values.get? [t, f, k]) ∧
      ∀ j' ≠ j, ∀ t f k, x'.get? [t, f, j', k] = x.get? [t, f, j', k] := by
  have hwithin : ∀ {t f k : ℕ}, t < T → f < F → k < P →
      NdArray.Within [T, F, P] [t, f, k] := fun ht hf hk => ⟨ht, hf, hk, trivial⟩
  have hmoves : NdArray.Moves x.shape values.data.length (storeMoves T F P j) := by
    rw [hx]
    refine ⟨fun m hm => ?_, fun m hm => ?_, fun m hm m' hm' heq => ?_⟩
    · obtain ⟨t, ht, f, hf, k, hk, rfl⟩ := mem_storeMoves.mp hm
      exact ⟨ht, hf, hj, hk, trivial⟩
    · obtain ⟨t, ht, f, hf, k, hk, rfl⟩ := mem_storeMoves.mp hm
      rw [values.size_eq, hvalues]
      exact NdArray.offset_lt (hwithin ht hf hk)
    · obtain ⟨t, ht, f, hf, k, hk, rfl⟩ := mem_storeMoves.mp hm
      obtain ⟨t', ht', f', hf', k', hk', rfl⟩ := mem_storeMoves.mp hm'
      injection heq with ht heq
      injection heq with hf heq
      injection heq with _ heq
      injection heq with hk
      rw [ht, hf, hk]
  obtain ⟨x', hcopy, hshape, hmoved, hother⟩ := hmoves.exists_copyAll
  refine ⟨x', ?_, hshape.trans hx, fun t ht f hf k hk => ?_, fun j' hj' t f k => ?_⟩
  · simp only [storeSlice, hx, if_pos hj, hcopy]
  · have hcell := hmoved ([t, f, j, k], NdArray.offset [T, F, P] [t, f, k])
      (mem_storeMoves.mpr ⟨t, ht, f, hf, k, hk, rfl⟩)
    rw [hcell, NdArray.get?, hvalues, if_pos (hwithin ht hf hk)]
  · refine hother _ fun hmem => hj' ?_
    obtain ⟨m, hm, heq⟩ := List.mem_map.mp hmem
    obtain ⟨t', -, f', -, k', -, rfl⟩ := mem_storeMoves.mp hm
    injection heq with _ heq
    injection heq with _ heq
    injection heq with hj _
    exact hj.symm

-- ════════════════════════════════════════════════════════════════════════
-- Baselines
-- ════════════════════════════════════════════════════════════════════════

theorem zipIdx_eq (ants : List String) :
    ants.zipIdx = (List.range ants.length).map fun i => (ants.getD i "", i) := by
  apply List.ext_getElem?
  intro i
  rw [List.getElem?_zipIdx, List.getElem?_map]
  by_cases hi : i < ants.length
  · rw [List.getElem?_range hi, List.getElem?_eq_getElem hi, Option.map_some, Option.map_some,
      List.getD_eq_getElem?_getD, List.getElem?_eq_getElem hi, Option.getD_some, Nat.zero_add]
  · rw [List.getElem?_eq_none (Nat.le_of_not_lt hi),
      List.getElem?_eq_none (by rw [List.length_range]; exact Nat.le_of_not_lt hi)]
    rfl

theorem take_eq {ants : List String} {n : ℕ} (h : n ≤ ants.length) :
    ants.take n = (List.range n).map fun i => ants.getD i "" := by
  apply List.ext_getElem?
  intro i
  rw [List.getElem?_map]
  by_cases hi : i < n
  · rw [List.getElem?_take_of_lt hi, List.getElem?_range hi, Option.map_some,
      List.getD_eq_getElem?_getD, List.getElem?_eq_getElem (hi.trans_le h), Option.getD_some]
  · rw [List.getElem?_eq_none (by rw [List.length_take]; omega),
      List.getElem?_eq_none (by rw [List.length_range]; omega)]
    rfl

/-- The names are in the order of the baselines. -/
theorem baselineNames_eq (ants : List String) :
    baselineNames ants = (Triangular.pairs ants.length).map fun pair =>
      (ants.getD pair.1 "", ants.getD pair.2 "") := by
  rw [baselineNames, zipIdx_eq, List.flatMap_map, Triangular.pairs, List.map_flatMap]
  refine List.flatMap_congr fun i hi => ?_
  rw [take_eq (Nat.succ_le_of_lt (List.mem_range.mp hi)), List.map_map, List.map_map]
  rfl

/-- The name of the baseline of two antennas. -/
def Job.name (job : Job R) (i j : ℕ) : String :=
  baselineName (job.metadata.antennaNames.getD i "", job.metadata.antennaNames.getD j "")

theorem Job.names_getElem? (job : Job R) {i j : ℕ} (hj : j ≤ i)
    (hi : i < job.metadata.antennaNames.length) :
    ((baselineNames job.metadata.antennaNames).map baselineName)[Triangular.size i + j]? =
      some (job.name i j) := by
  rw [baselineNames_eq, List.map_map, List.getElem?_map, Triangular.pairs_getElem? hj hi]
  rfl

theorem Job.names_length (job : Job R) :
    ((baselineNames job.metadata.antennaNames).map baselineName).length =
      Triangular.size job.metadata.antennaNames.length := by
  rw [baselineNames_eq, List.length_map, List.length_map, Triangular.pairs_length]

/-- What the loop over the baselines stores for one of them. -/
def Job.stopped (job : Job R) (cross : NdArray Sample) (baseline : String) : NdArray Sample :=
  if isAutocorrelation baseline then cross else job.corrected cross baseline

theorem Job.stopped_shape (job : Job R) (cross : NdArray Sample) (baseline : String) :
    (job.stopped cross baseline).shape = cross.shape := by
  rw [stopped]
  split
  · rfl
  · exact job.stopBaseline.data_shape cross baseline

section Passes

variable (job : Job R) {x : NdArray Sample} {T F B P : ℕ}

/-- **One baseline.** -/
theorem Job.exists_stopPass {xStop : NdArray Sample} {j : ℕ} (hx : x.shape = [T, F, B, P])
    (hstop : xStop.shape = [T, F, B, P]) (hj : j < B) (baseline : String) :
    ∃ xStop' cross, job.stopPass x xStop j baseline = some xStop' ∧ xStop'.shape = [T, F, B, P] ∧
      slice x j = some cross ∧
      (∀ t < T, ∀ f < F, ∀ k < P,
        xStop'.get? [t, f, j, k] = (job.stopped cross baseline).get? [t, f, k]) ∧
      ∀ j' ≠ j, ∀ t f k, xStop'.get? [t, f, j', k] = xStop.get? [t, f, j', k] := by
  obtain ⟨cross, hcross, hshape, -⟩ := exists_slice hx hj
  obtain ⟨xStop', hstore, hshape', hcells, hother⟩ := exists_storeSlice hstop
    ((job.stopped_shape cross baseline).trans hshape) hj
  refine ⟨xStop', cross, ?_, hshape', hcross, hcells, hother⟩
  rw [Job.stopPass, hcross, Option.bind_eq_bind, Option.bind_some, ← hstore, Job.stopped]
  split <;> rfl

/-- **All baselines**, from number `n` on. -/
theorem Job.exists_stopPasses (hx : x.shape = [T, F, B, P]) (baselines : List String) :
    ∀ {n : ℕ} {xStop : NdArray Sample}, xStop.shape = [T, F, B, P] → n + baselines.length ≤ B →
      ∃ final, (baselines.zipIdx n).foldlM (fun xStop b => job.stopPass x xStop b.2 b.1) xStop =
          some final ∧ final.shape = [T, F, B, P] ∧
        (∀ j < n, ∀ t f k, final.get? [t, f, j, k] = xStop.get? [t, f, j, k]) ∧
        ∀ m baseline, baselines[m]? = some baseline → ∃ cross, slice x (n + m) = some cross ∧
          ∀ t < T, ∀ f < F, ∀ k < P,
            final.get? [t, f, n + m, k] = (job.stopped cross baseline).get? [t, f, k] := by
  induction baselines with
  | nil =>
    intro n xStop hstop _
    refine ⟨xStop, rfl, hstop, fun _ _ _ _ _ => rfl, fun m baseline hm => ?_⟩
    rw [List.getElem?_nil] at hm
    cases hm
  | cons baseline baselines ih =>
    intro n xStop hstop hle
    rw [List.length_cons] at hle
    obtain ⟨next, cross, hpass, hnext, hcross, hcells, hother⟩ :=
      job.exists_stopPass hx hstop (by omega : n < B) baseline
    obtain ⟨final, hfold, hfinal, hbefore, hafter⟩ := ih (n := n + 1) hnext (by omega)
    refine ⟨final, ?_, hfinal, fun j hj t f k => ?_, fun m name hm => ?_⟩
    · rw [List.zipIdx_cons, List.foldlM_cons, hpass]
      exact hfold
    · rw [hbefore j (Nat.lt_succ_of_lt hj), hother j hj.ne]
    · cases m with
      | zero =>
        rw [List.getElem?_cons_zero] at hm
        obtain rfl := Option.some.inj hm
        refine ⟨cross, hcross, fun t ht f hf k hk => ?_⟩
        rw [Nat.add_zero, hbefore n (Nat.lt_succ_self n), hcells t ht f hf k hk]
      | succ m =>
        rw [List.getElem?_cons_succ] at hm
        obtain ⟨cross', hcross', hcells'⟩ := hafter m name hm
        rw [Nat.add_assoc, Nat.add_comm 1 m] at hcross'
        refine ⟨cross', hcross', fun t ht f hf k hk => ?_⟩
        rw [← hcells' t ht f hf k hk, Nat.add_assoc, Nat.add_comm 1 m]

end Passes

-- ════════════════════════════════════════════════════════════════════════
-- Phased files
-- ════════════════════════════════════════════════════════════════════════

variable {job : Job R} {B F p T : ℕ} {file : List UInt8} {vectors : NdArray R}

theorem Job.Fits.sized (h : job.Fits B F p) : job.Sized B F p where
  numBaselines := h.numBaselines
  channels := h.channels
  polarizations := h.polarizations
  bytesPerBlock := by
    rw [h.bytesPerBlock]
    ring
  baselines_pos := h.baselines_pos
  channels_pos := h.channels_pos
  polarizations_pos := Nat.lt_of_lt_of_le two_pos h.two_le

/-- The integrations of a file of whole blocks. -/
theorem Job.Fits.exists_integrations (h : job.Fits B F p)
    (hfile : file.length = T * job.obsMetadata.bytesPerBlock) :
    ∃ x, job.integrations file = .ok x ∧ x.shape = [T, F, B, p * p] := by
  have hpos := h.bytesPerBlock_pos
  have hsized := h.sized
  have hlen : file.length / 8 / (B * p * F) = T * p := by
    rw [hfile, h.bytesPerBlock, Nat.div_div_eq_div_mul]
    have hcells : T * (8 * (F * B * (p * p))) = T * p * (8 * (B * p * F)) := by ring
    rw [hcells, Nat.mul_div_cancel _ (Nat.mul_pos (by omega) hsized.multiple_pos)]
  obtain ⟨x, hx, hshape, -⟩ := hsized.integrations_of_dvd (hlen ▸ Nat.dvd_mul_left p T)
  refine ⟨x, hx, ?_⟩
  rw [hshape, hfile, Nat.mul_div_cancel _ hpos, pow_two]

/-- The data of the baseline of two antennas in a file. -/
def Job.cross (job : Job R) (file : List UInt8) (i j : ℕ) : Option (NdArray Sample) :=
  match job.integrations file with
  | .ok x => slice x (Triangular.size i + j)
  | .error _ => none

/-- **The phasing branch.** It writes the data of all baselines, and the coordinates of a file
are zero. -/
theorem Job.Fits.phase [Zero R] (h : job.Fits B F p)
    (hfile : file.length = T * job.obsMetadata.bytesPerBlock) {uv : UVData R}
    (huv : uv.uvwArray = none) :
    ∃ xStop : NdArray Sample, xStop.shape = [T, F, B, p * p] ∧
      job.phase file (T * B) uv = .ok (tofile xStop.data,
        { uv with uvwArray := some (NdArray.full [T * B, 3] 0) }) ∧
      ∀ i < job.metadata.antennaNames.length, ∀ j ≤ i, ∃ cross, job.cross file i j = some cross ∧
        ∀ t < T, ∀ f < F, ∀ k < p * p, xStop.get? [t, f, Triangular.size i + j, k] =
          (job.stopped cross (job.name i j)).get? [t, f, k] := by
  obtain ⟨x, hx, hshape⟩ := h.exists_integrations hfile
  have hsize : (NdArray.full [T, B, 3] (0 : R)).data.length = [T * B, 3].prod := by
    rw [NdArray.full, List.length_replicate]
    simp only [List.prod_cons, List.prod_nil]
    ring
  have hreshape : (NdArray.full [T, B, 3] (0 : R)).reshape [T * B, 3] =
      some (NdArray.full [T * B, 3] 0) := by
    rw [NdArray.reshape_of_eq hsize]
    refine congrArg some (NdArray.ext rfl ?_)
    have hprod : [T, B, 3].prod = [T * B, 3].prod := by
      simp only [List.prod_cons, List.prod_nil]
      ring
    change List.replicate [T, B, 3].prod (0 : R) = List.replicate [T * B, 3].prod 0
    rw [hprod]
  have hnew : (job.emptyLike x).shape = [T, F, B, p * p] := hshape
  have hnames : 0 + ((baselineNames job.metadata.antennaNames).map baselineName).length ≤ B := by
    rw [job.names_length, ← h.pairs, Nat.zero_add]
  obtain ⟨xStop, hfold, hstop, -, hcells⟩ := job.exists_stopPasses hshape _ hnew hnames
  refine ⟨xStop, hstop, ?_, fun i hi j hj => ?_⟩
  · rw [Job.phase, hx, ok_bind]
    simp only [hfold, inRange_some, ok_bind, hshape, List.headD_cons, List.getD_cons_succ,
      List.getD_cons_zero, hreshape, fitting_some, huv]
  · obtain ⟨cross, hcross, hdata⟩ := hcells _ _ (job.names_getElem? hj hi)
    rw [Nat.zero_add] at hcross hdata
    refine ⟨cross, ?_, hdata⟩
    rw [Job.cross, hx]
    exact hcross

/-- The data of a baseline in a file of integrations. -/
theorem samples_tofile_getElem? {x : NdArray Sample} {P t f b k : ℕ}
    (hx : x.shape = [T, F, B, P]) (ht : t < T) (hf : f < F) (hb : b < B) (hk : k < P) :
    (samples (tofile x.data))[t * (F * B * P) + ((f * B + b) * P + k)]? = x.get? [t, f, b, k] := by
  have hwithin : NdArray.Within [T, F, B, P] [t, f, b, k] := ⟨ht, hf, hb, hk, trivial⟩
  rw [samples_tofile, NdArray.get?, hx, if_pos hwithin, NdArray.offset_four]
  congr 1
  ring

/-- A file with as many blocks as the recording has integrations. -/
theorem samples_tofile_blocks {x : NdArray Sample} {P : ℕ} (hx : x.shape = [T, F, B, P])
    (hpos : 0 < F * B * P) : (samples (tofile x.data)).length / (F * B * P) = T := by
  have hcells : T * (F * (B * (P * 1))) = T * (F * B * P) := by ring
  rw [samples_tofile, x.size_eq, hx, List.prod_cons, List.prod_cons, List.prod_cons,
    List.prod_cons, List.prod_nil, hcells, Nat.mul_div_cancel _ hpos]

/-- A data file that is phased, with an invariant `P` of the coordinates. -/
theorem Job.Fits.processFile_phased [Zero R] (h : job.Fits B F p) (vectors : NdArray R)
    (hphases : job.phases = true) (hfile : file.length = T * job.obsMetadata.bytesPerBlock)
    {P : ℕ → Option (NdArray R) → Prop} (hstart : P 0 (some (NdArray.full [T * B, 3] 0)))
    (hP : ∀ n < T, ∀ u, P n u → ∃ u', job.appendUvw vectors u = .ok u' ∧ P (n + 1) u') :
    ∃ result phased, job.processFile vectors file .initial = .ok result ∧
      P T result.uv.uvwArray ∧ result.phasedFile = some phased ∧
      ∀ i < job.metadata.antennaNames.length, ∀ j ≤ i, ∃ cross, job.cross file i j = some cross ∧
        ∀ t < T, ∀ f < F, ∀ k < p * p,
          (samples phased)[t * (F * B * (p * p)) +
              ((f * B + (Triangular.size i + j)) * (p * p) + k)]? =
            (job.stopped cross (job.name i j)).get? [t, f, k] := by
  obtain ⟨xStop, hshape, hphase, hcells⟩ := h.phase hfile
    (rfl : (job.addRows T .initial).uvwArray = none)
  have hblocks := samples_tofile_blocks hshape h.block_pos
  obtain ⟨state, hloop, -, hu⟩ := h.blocks (tofile xStop.data) (T * B) (hblocks ▸ hP)
    (hblocks ▸ le_rfl) hstart
  rw [hblocks] at hu
  have hT : file.length / job.obsMetadata.bytesPerBlock = T := by
    rw [hfile, Nat.mul_div_cancel _ h.bytesPerBlock_pos]
  refine ⟨⟨{ job.addRows T .initial with
      uvwArray := state.uvwArray
      dataArray := some state.tmpArray }, state.curBlock, some (tofile xStop.data),
    state.assigned⟩, tofile xStop.data, ?_, hu, rfl, fun i hi j hj => ?_⟩
  · rw [Job.processFile, floorDiv_of_pos h.bytesPerBlock_pos, ok_bind, hT, hphases, if_pos rfl,
      h.numBaselines, hphase, ok_bind]
    exact Job.storeFile_eq h rfl hloop
  · obtain ⟨cross, hcross, hdata⟩ := hcells i hi j hj
    refine ⟨cross, hcross, fun t ht f hf k hk => ?_⟩
    have hb : Triangular.size i + j < B := h.pairs ▸ Triangular.size_add_lt hj hi
    rw [samples_tofile_getElem? hshape ht hf hb hk, hdata t ht f hf k hk]

-- ════════════════════════════════════════════════════════════════════════
-- Coordinates
-- ════════════════════════════════════════════════════════════════════════

/-- The row of each baseline and integration has the coordinates that were returned for it, or
zeros for an antenna with itself, and the phased file has the corrected data, rounded to the
precision of the file. -/
def Job.KeepsUvw [Zero R] (job : Job R) (vectors : NdArray R) (B F p T : ℕ) (file : List UInt8) :
    Prop :=
  ∃ result rows phased, job.processFile vectors file .initial = .ok result ∧
    result.uv.uvwArray = some rows ∧ rows.shape = [T * B, 3] ∧ result.phasedFile = some phased ∧
    (∀ t < T, ∀ i < job.metadata.antennaNames.length, ∀ axis < 3,
      rows.get? [t * B + (Triangular.size i + i), axis] = some 0) ∧
    ∀ i < job.metadata.antennaNames.length, ∀ j < i, ∃ cross, job.cross file i j = some cross ∧
      (∀ t < T, ∀ axis < 3, rows.get? [t * B + (Triangular.size i + j), axis] =
        (job.stopBaseline.run cross (job.name i j)).2.get? [axis, t]) ∧
      ∀ t < T, ∀ f < F, ∀ k < p * p,
        (samples phased)[t * (F * B * (p * p)) +
            ((f * B + (Triangular.size i + j)) * (p * p) + k)]? =
          (job.corrected cross (job.name i j)).get? [t, f, k]

/-- All coordinates that are returned are zero, and baselines that are taken for an antenna
with itself need no correction that would be stored. -/
def Job.NothingDropped [Zero R] (job : Job R) (F p T : ℕ) (file : List UInt8) : Prop :=
  ∀ i < job.metadata.antennaNames.length, ∀ j < i, ∀ cross, job.cross file i j = some cross →
    (∀ t < T, ∀ axis < 3,
      (job.stopBaseline.run cross (job.name i j)).2.get? [axis, t] = some 0) ∧
    (isAutocorrelation (job.name i j) = true → ∀ t < T, ∀ f < F, ∀ k < p * p,
      (job.corrected cross (job.name i j)).get? [t, f, k] = cross.get? [t, f, k])

/-- Rows that stay as the phasing branch leaves them. -/
theorem Job.appendUvw_elsewhere
    (h : job.metadata.hasAntennaDelays = true ∨ job.metadata.hasUvwFile = true)
    (u : Option (NdArray R)) : job.appendUvw vectors u = .ok u := by
  have hown : (!job.metadata.hasUvwFile && !job.metadata.hasAntennaDelays) = false := by
    rcases h with h | h
    · rw [h, Bool.not_true, Bool.and_false]
    · rw [h, Bool.not_true, Bool.false_and]
  unfold Job.appendUvw
  rw [hown]
  exact if_neg Bool.false_ne_true

/-- A run whose coordinates stay zero keeps what the corrections return exactly when these
drop nothing. -/
theorem Job.Fits.keepsUvw_of_zero [Zero R] (h : job.Fits B F p) (hphases : job.phases = true)
    (hfile : file.length = T * job.obsMetadata.bytesPerBlock)
    (hzero : T = 0 ∨ job.metadata.hasAntennaDelays = true ∨ job.metadata.hasUvwFile = true) :
    job.KeepsUvw vectors B F p T file ↔ job.NothingDropped F p T file := by
  obtain ⟨result, phased, hrun, hu, hphased, hdata⟩ := h.processFile_phased vectors
    hphases hfile (P := fun _ u => u = some (NdArray.full [T * B, 3] 0)) rfl fun n hn u hu =>
      ⟨u, Job.appendUvw_elsewhere (hzero.resolve_left (Nat.zero_lt_of_lt hn).ne') u, hu⟩
  have hcell : ∀ t < T, ∀ b < B, ∀ axis < 3,
      (NdArray.full [T * B, 3] (0 : R)).get? [t * B + b, axis] = some 0 := by
    intro t ht b hb axis haxis
    have hle : (t + 1) * B ≤ T * B := Nat.mul_le_mul_right B ht
    rw [Nat.add_mul, Nat.one_mul] at hle
    exact NdArray.get?_full (NdArray.within_two (by omega) haxis) 0
  have hlt : ∀ {i j}, i < job.metadata.antennaNames.length → j ≤ i → Triangular.size i + j < B :=
    fun hi hj => h.pairs ▸ Triangular.size_add_lt hj hi
  constructor
  · rintro ⟨result', rows, phased', hrun', hrows, -, hphased', -, hkept⟩ i hi j hj cross hcross
    obtain rfl : result = result' := Except.ok.inj (hrun.symm.trans hrun')
    obtain rfl : NdArray.full [T * B, 3] 0 = rows := Option.some.inj (hu.symm.trans hrows)
    obtain rfl : phased = phased' := Option.some.inj (hphased.symm.trans hphased')
    obtain ⟨cross', hcross', huvw, hcorrected⟩ := hkept i hi j hj
    obtain rfl : cross = cross' := Option.some.inj (hcross.symm.trans hcross')
    refine ⟨fun t ht axis haxis => ?_, fun hauto t ht f hf k hk => ?_⟩
    · rw [← huvw t ht axis haxis]
      exact hcell t ht _ (hlt hi hj.le) axis haxis
    · obtain ⟨cross', hcross', hstopped⟩ := hdata i hi j hj.le
      obtain rfl : cross = cross' := Option.some.inj (hcross.symm.trans hcross')
      rw [← hcorrected t ht f hf k hk, hstopped t ht f hf k hk, Job.stopped, if_pos hauto]
  · intro hnothing
    refine ⟨result, _, phased, hrun, hu, rfl, hphased, fun t ht i hi axis haxis =>
      hcell t ht _ (hlt hi le_rfl) axis haxis, fun i hi j hj => ?_⟩
    obtain ⟨cross, hcross, hstopped⟩ := hdata i hi j hj.le
    obtain ⟨huvw, hauto⟩ := hnothing i hi j hj cross hcross
    refine ⟨cross, hcross, fun t ht axis haxis => ?_, fun t ht f hf k hk => ?_⟩
    · rw [huvw t ht axis haxis]
      exact hcell t ht _ (hlt hi hj.le) axis haxis
    · rw [hstopped t ht f hf k hk, Job.stopped]
      split
      · rename_i hname
        exact (hauto hname t ht f hf k hk).symm
      · rfl

-- ════════════════════════════════════════════════════════════════════════
-- Baseline vectors behind the coordinates
-- ════════════════════════════════════════════════════════════════════════

theorem Job.storeBlock_error (state : BlockState R) {e : ScriptError}
    (h : job.appendUvw vectors state.uvwArray = .error e) (ccDataVector : List Sample) :
    ∃ e', job.storeBlock vectors state ccDataVector = .error e' := by
  rw [Job.storeBlock]
  cases inRange (reorderFreqPerBaseline ccDataVector job.obsMetadata.channels
      job.obsMetadata.numBaselines job.metadata.polarizations) with
  | error e' => exact ⟨e', rfl⟩
  | ok reordered =>
    simp only [ok_bind]
    cases inRange (state.tmpArray.copyAll reordered (polMoves job.obsMetadata.numBaselines
        job.obsMetadata.channels (job.metadata.polarizations * job.metadata.polarizations)
        state.curBlock)) with
    | error e' => exact ⟨e', rfl⟩
    | ok tmpArray =>
      rw [ok_bind, h]
      exact ⟨e, rfl⟩

theorem Job.blockLoop_error {f : List UInt8} {size : ℕ} {state : BlockState R} {e : ScriptError}
    (fuel : ℕ) (hsize : job.obsMetadata.samplesPerBlock = size)
    (h : ¬(fromfile size f).1.length < size)
    (hblock : job.storeBlock vectors state (fromfile size f).1 = .error e) :
    job.blockLoop vectors (fuel + 1) f state = .error e := by
  have hread : job.storeBlock vectors state (samples (f.take (8 * size))) = .error e := hblock
  rw [Job.blockLoop, hsize]
  refine (if_neg h).trans ?_
  rw [hread, error_bind]

section Appended

variable (hown : job.metadata.hasAntennaDelays = false ∧ job.metadata.hasUvwFile = false)

include hown

theorem Job.appendUvw_some (rows : NdArray R) :
    job.appendUvw vectors (some rows) = (fitting (rows.concatenate vectors)).map some := by
  rw [Job.appendUvw, hown.1, hown.2]
  rfl

/-- Rows of coordinates make the array too long. -/
theorem Job.Fits.not_keepsUvw_of_rows [Zero R] (h : job.Fits B F p)
    (hphases : job.phases = true) (hfile : file.length = T * job.obsMetadata.bytesPerBlock)
    (hT : 0 < T) {m : ℕ} (hm : 0 < m) (hshape : vectors.shape = [m, 3]) :
    ¬job.KeepsUvw vectors B F p T file := by
  obtain ⟨result, phased, hrun, ⟨rows, hrows, hlong⟩, -⟩ := h.processFile_phased
    vectors hphases hfile
    (P := fun n u => ∃ rows, u = some rows ∧ rows.shape = [T * B + n * m, 3])
    ⟨_, rfl, by rw [Nat.zero_mul, Nat.add_zero]; rfl⟩ fun n _ u hu => by
      obtain ⟨rows, rfl, hrows⟩ := hu
      obtain ⟨rows', hcat, hrows', -⟩ := NdArray.exists_concatenate hrows hshape
      refine ⟨some rows', ?_, rows', rfl, ?_⟩
      · rw [Job.appendUvw_some hown, hcat]
        rfl
      · rw [hrows', Nat.add_mul, Nat.one_mul, Nat.add_assoc]
  rintro ⟨result', rows', phased', hrun', hrows', hexact, -⟩
  obtain rfl : result = result' := Except.ok.inj (hrun.symm.trans hrun')
  obtain rfl : rows = rows' := Option.some.inj (hrows.symm.trans hrows')
  rw [hlong] at hexact
  have hlen := (List.cons.inj hexact).1
  have hpos := Nat.mul_pos hT hm
  omega

/-- An empty list of baseline vectors ends the script. -/
theorem Job.Fits.processFile_error_of_empty [Zero R] (h : job.Fits B F p)
    (hphases : job.phases = true) (hfile : file.length = T * job.obsMetadata.bytesPerBlock)
    (hT : 0 < T) (hshape : vectors.shape = [0]) :
    ∃ e, job.processFile vectors file .initial = .error e := by
  obtain ⟨xStop, hxshape, hphase, -⟩ := h.phase hfile
    (rfl : (job.addRows T .initial).uvwArray = none)
  have hblocks := samples_tofile_blocks hxshape h.block_pos
  have hT' : file.length / job.obsMetadata.bytesPerBlock = T := by
    rw [hfile, Nat.mul_div_cancel _ h.bytesPerBlock_pos]
  have happend : job.appendUvw vectors (some (NdArray.full [T * B, 3] 0)) = .error .valueError := by
    have hzeros : (NdArray.full [T * B, 3] (0 : R)).shape = [T * B, 3] := rfl
    have hne : ([] : List ℕ) ≠ [3] := by decide
    rw [Job.appendUvw_some hown, NdArray.concatenate_of_ne hzeros hshape hne]
    rfl
  have hspb := h.samplesPerBlock
  have hread : ¬(fromfile (F * B * (p * p)) (tofile xStop.data)).1.length < F * B * (p * p) := by
    have hle : F * B * (p * p) ≤ (samples (tofile xStop.data)).length := by
      have hone := Nat.div_mul_le_self (samples (tofile xStop.data)).length (F * B * (p * p))
      rw [hblocks] at hone
      exact (Nat.le_mul_of_pos_left _ hT).trans hone
    have hfirst := fromfile_fst (F * B * (p * p)) (tofile xStop.data) 0
    rw [Nat.mul_zero, List.drop_zero, List.drop_zero] at hfirst
    rw [hfirst, List.length_take]
    omega
  obtain ⟨e, hblock⟩ := Job.storeBlock_error
    ⟨0, NdArray.full [T * B, 1, F, p * p] 0, some (NdArray.full [T * B, 3] 0), []⟩ happend
    (fromfile (F * B * (p * p)) (tofile xStop.data)).1
  refine ⟨e, ?_⟩
  rw [Job.processFile, floorDiv_of_pos h.bytesPerBlock_pos, ok_bind, hT', hphases, if_pos rfl,
    h.numBaselines, hphase, ok_bind]
  have hloop := Job.blockLoop_error (tofile xStop.data).length hspb hread hblock
  unfold Job.storeFile
  rw [h.polarizations, h.channels]
  simp only [Option.getD_some, hloop, error_bind]

end Appended

/-- **Coordinates of phased data.** They are kept exactly when there is nothing to keep and the
baseline vectors are not appended to them. -/
theorem Job.keepsUvw_iff [Sub R] [Zero R] (h : job.Fits B F p) (hphases : job.phases = true)
    (hvectors : job.baselineVectors = .ok vectors)
    (hfile : file.length = T * job.obsMetadata.bytesPerBlock) :
    job.KeepsUvw vectors B F p T file ↔
      (T = 0 ∨ job.metadata.hasAntennaDelays = true ∨ job.metadata.hasUvwFile = true) ∧
        job.NothingDropped F p T file := by
  by_cases hzero : T = 0 ∨ job.metadata.hasAntennaDelays = true ∨ job.metadata.hasUvwFile = true
  · rw [h.keepsUvw_of_zero hphases hfile hzero, and_iff_right hzero]
  · have hnot : ¬job.KeepsUvw vectors B F p T file := by
      rw [not_or, not_or, Bool.not_eq_true, Bool.not_eq_true] at hzero
      obtain ⟨hT, hown⟩ := hzero
      rcases Job.baselineVectors_cases hvectors h.antennas with hshape | ⟨m, hm, hshape⟩
      · rintro ⟨result, _, _, hrun, -⟩
        obtain ⟨e, herror⟩ := h.processFile_error_of_empty hown hphases hfile
          (Nat.pos_of_ne_zero hT) hshape
        rw [herror] at hrun
        cases hrun
      · exact h.not_keepsUvw_of_rows hown hphases hfile (Nat.pos_of_ne_zero hT) hm hshape
    exact iff_of_false hnot fun hboth => hzero hboth.1

-- ════════════════════════════════════════════════════════════════════════
-- Names
-- ════════════════════════════════════════════════════════════════════════

/-- Names without a hyphen are told apart. -/
theorem isAutocorrelation_iff {a b : String} (ha : '-' ∉ a.toList) (hb : '-' ∉ b.toList) :
    isAutocorrelation (baselineName (a, b)) = true ↔ a = b := by
  have hsplit : (baselineName (a, b)).toList.splitOn '-' = [a.toList, b.toList] := by
    have hlist : (baselineName (a, b)).toList = ['-'].intercalate [a.toList, b.toList] := by
      simp [baselineName]
    rw [hlist]
    refine List.splitOn_intercalate _ (fun l hl => ?_) (List.cons_ne_nil _ _)
    rcases List.mem_cons.mp hl with rfl | hl
    · exact ha
    · rwa [List.mem_singleton.mp hl]
  rw [isAutocorrelation, hsplit, decide_eq_true_eq]
  exact ⟨fun h => String.toList_injective (Option.some.inj h), fun h => by rw [h]; rfl⟩

/-- A correction with coordinates. -/
def moved : StopBaseline ℤ where
  run := fun cross _ => (NdArray.full cross.shape 0, NdArray.full [3, cross.shape.headD 0] 1)
  data_shape := fun _ _ => rfl
  uvw_shape := fun _ _ => rfl

/-- The coordinates of the second baseline of two antennas are dropped. -/
theorem twoAntennas_drops :
    ¬(twoAntennas moved true (some twoVectors)).KeepsUvw (asarray twoVectors) 3 1 2 1
      (List.replicate 96 0) := by
  have hfits := twoAntennas_fits moved true (some twoVectors)
  have hfile : (List.replicate 96 (0 : UInt8)).length =
      1 * (twoAntennas moved true (some twoVectors)).obsMetadata.bytesPerBlock :=
    List.length_replicate
  rw [hfits.keepsUvw_of_zero rfl hfile (.inr (.inl rfl))]
  intro h
  obtain ⟨_, -, -, hdata⟩ := hfits.phase hfile (rfl : (UVData.initial : UVData ℤ).uvwArray = none)
  obtain ⟨cross, hcross, -⟩ := hdata 1 (by decide) 0 (by decide)
  have hzero := (h 1 (by decide) 0 (by decide) cross hcross).1 0 (by decide) 0 (by decide)
  have hone : (NdArray.full [3, cross.shape.headD 0] (1 : ℤ)).get? [0, 0] = some 0 := hzero
  have hwithin : NdArray.Within [3, cross.shape.headD 0] [0, 0] := by
    by_contra hout
    rw [NdArray.get?_of_not_within hout] at hone
    cases hone
  rw [NdArray.get?_full hwithin] at hone
  exact absurd (Option.some.inj hone) one_ne_zero

/-- The condition for these antennas. -/
theorem keepsUvw_iff_two :
    (twoAntennas moved true (some twoVectors)).KeepsUvw (asarray twoVectors) 3 1 2 1
        (List.replicate 96 0) ↔
      (1 = 0 ∨ true = true ∨ false = true) ∧
        (twoAntennas moved true (some twoVectors)).NothingDropped 1 2 1 (List.replicate 96 0) :=
  Job.keepsUvw_iff (twoAntennas_fits moved true (some twoVectors)) rfl rfl List.length_replicate

end GrAta.Observation
