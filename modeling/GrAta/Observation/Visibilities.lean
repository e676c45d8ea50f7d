import GrAta.Observation.Blocks
import GrAta.Observation.Vectors

/-!
# Visibilities

The loop through the blocks stores every complete block of a data file to the rows of its
baselines.

## Main definitions

- `Job.Fits`: descriptors of a recording, as the correlator writes them
- `Stored`: the state of the loop after some blocks

## Main results

- `Stored.block`, `Stored.loop`: one block, all blocks
- `Job.processFile_stores`: the rows and the antennas of a recording
-/

namespace GrAta.Observation

variable {R : Type}

/-- The descriptors of a recording: baselines for all pairs of antennas, and blocks with the
products of each channel and baseline. -/
structure Job.Fits (job : Job R) (B F p : ℕ) : Prop where
  antennas : 0 < job.metadata.antennaNames.length
  numBaselines : job.obsMetadata.numBaselines = B
  pairs : B = Triangular.size job.metadata.antennaNames.length
  channels : job.obsMetadata.channels = F
  channels_pos : 0 < F
  polarizations : job.metadata.polarizations = p
  two_le : 2 ≤ p
  samplesPerBlock : job.obsMetadata.samplesPerBlock = F * B * (p * p)
  bytesPerBlock : job.obsMetadata.bytesPerBlock = 8 * (F * B * (p * p))

/-- The state of the loop after `n` blocks of a file with `s` products for each of `F` channels
and `B` baselines. -/
structure Stored (B F s : ℕ) (file : List UInt8) (rows n : ℕ) (state : BlockState R) : Prop where
  curBlock : state.curBlock = n
  shape : state.tmpArray.shape = [rows, 1, F, s]
  cells : ∀ t < n, ∀ b < B, ∀ f < F, ∀ k < 4, state.tmpArray.get? [t * B + b, 0, f, k] =
    (samples file)[t * (F * B * s) + ((f * B + b) * s + polIndex k)]?
  assigned : state.assigned =
    (List.range n).flatMap fun t => (polMoves B F s t).map Prod.fst

variable {job : Job R} {B F p : ℕ}

theorem Job.Fits.baselines_pos (h : job.Fits B F p) : 0 < B := by
  rw [h.pairs]
  exact Triangular.size_pos h.antennas

theorem Job.Fits.four_le (h : job.Fits B F p) : 4 ≤ p * p := Nat.mul_le_mul h.two_le h.two_le

theorem Job.Fits.block_pos (h : job.Fits B F p) : 0 < F * B * (p * p) :=
  Nat.mul_pos (Nat.mul_pos h.channels_pos h.baselines_pos) (Nat.zero_lt_of_lt h.four_le)

variable {file : List UInt8} {rows n : ℕ} {state : BlockState R} {vectors : NdArray R}

/-- **One block.** -/
theorem Stored.block (h : Stored B F (p * p) file rows n state) (hfits : job.Fits B F p)
    (hrows : (n + 1) * B ≤ rows) (hwhole : (n + 1) * (F * B * (p * p)) ≤ (samples file).length)
    {uvw : Option (NdArray R)} (huvw : job.appendUvw vectors state.uvwArray = .ok uvw) :
    ∃ state', job.storeBlock vectors state
        (((samples file).drop (n * (F * B * (p * p)))).take (F * B * (p * p))) = .ok state' ∧
      Stored B F (p * p) file rows (n + 1) state' ∧ state'.uvwArray = uvw := by
  obtain ⟨hcur, hshape, hcells, hassigned⟩ := h
  rw [Nat.add_mul, Nat.one_mul] at hwhole
  have hlen : (((samples file).drop (n * (F * B * (p * p)))).take (F * B * (p * p))).length =
      F * B * (p * p) := by
    rw [List.length_take, List.length_drop]
    omega
  obtain ⟨l, hl, hllen, hget⟩ := exists_reorderFreqPerBaseline hlen
  have hmoves : NdArray.Moves state.tmpArray.shape l.length (polMoves B F (p * p) n) := by
    rw [hshape, hllen, hlen]
    exact polMovesFit hfits.four_le hrows
  obtain ⟨a, ha, hashape, hmoved, hother⟩ := hmoves.exists_copyAll
  refine ⟨⟨n + 1, a, uvw, state.assigned ++ (polMoves B F (p * p) n).map Prod.fst⟩, ?_,
    ⟨rfl, hashape.trans hshape, ?_, ?_⟩, rfl⟩
  · rw [Job.storeBlock, hfits.polarizations, hfits.channels, hfits.numBaselines, hl, hcur]
    simp only [inRange_some, ok_bind, ha, huvw]
  · intro t ht b hb f hf k hk
    rcases Nat.lt_succ_iff_lt_or_eq.mp ht with hlt | rfl
    · rw [← hcells t hlt b hb f hf k hk]
      refine hother _ fun hmem => ?_
      obtain ⟨m, hm, heq⟩ := List.mem_map.mp hmem
      obtain ⟨b', hb', f', hf', k', hk', rfl⟩ := mem_polMoves.mp hm
      have hrow : n * B + b' = t * B + b := (List.cons.inj heq).1
      have hle : (t + 1) * B ≤ n * B := Nat.mul_le_mul_right B hlt
      rw [Nat.add_mul, Nat.one_mul] at hle
      omega
    · have hmem := polMove_mem (p * p) t hb hf hk
      have hpol : polIndex k < p * p := (polIndex_lt k).trans_le hfits.four_le
      have hplace := NdArray.offset_three_lt hf hb hpol
      rw [hmoved _ hmem, NdArray.offset_three, hget b hb f hf _ hpol,
        List.getElem?_take_of_lt hplace, List.getElem?_drop]
  · rw [hassigned, List.range_succ, List.flatMap_append, List.flatMap_singleton]

theorem Job.blockLoop_last {f : List UInt8} {size : ℕ}
    (hsize : job.obsMetadata.samplesPerBlock = size) (fuel : ℕ) (state : BlockState R)
    (h : (fromfile size f).1.length < size) :
    job.blockLoop vectors (fuel + 1) f state = .ok state := by
  rw [Job.blockLoop, hsize]
  exact if_pos h

theorem Job.blockLoop_next {f : List UInt8} {fuel size : ℕ} {state state' : BlockState R}
    (hsize : job.obsMetadata.samplesPerBlock = size) (h : ¬(fromfile size f).1.length < size)
    (hblock : job.storeBlock vectors state (fromfile size f).1 = .ok state') :
    job.blockLoop vectors (fuel + 1) f state =
      job.blockLoop vectors fuel (fromfile size f).2 state' := by
  have hread : job.storeBlock vectors state (samples (f.take (8 * size))) = .ok state' := hblock
  rw [Job.blockLoop, hsize]
  refine (if_neg h).trans ?_
  rw [hread, ok_bind, fromfile]

/-- **All blocks** of a file, with an invariant `P` of the coordinates. The loop returns when
fewer numbers are left than a block has. -/
theorem Stored.loop (hfits : job.Fits B F p) {P : ℕ → Option (NdArray R) → Prop}
    (hP : ∀ n < (samples file).length / (F * B * (p * p)), ∀ u, P n u →
      ∃ u', job.appendUvw vectors u = .ok u' ∧ P (n + 1) u')
    (hrows : (samples file).length / (F * B * (p * p)) * B ≤ rows) :
    ∀ (m n fuel : ℕ) (state : BlockState R),
      n + m = (samples file).length / (F * B * (p * p)) → m < fuel →
      Stored B F (p * p) file rows n state → P n state.uvwArray →
      ∃ state', job.blockLoop vectors fuel (file.drop (8 * (n * (F * B * (p * p))))) state =
          .ok state' ∧
        Stored B F (p * p) file rows ((samples file).length / (F * B * (p * p))) state' ∧
        P ((samples file).length / (F * B * (p * p))) state'.uvwArray := by
  have hpos := hfits.block_pos
  intro m
  induction m with
  | zero =>
    intro n fuel state hn hfuel h hu
    obtain ⟨fuel, rfl⟩ := Nat.exists_eq_succ_of_ne_zero hfuel.ne'
    have hless : (samples file).length - n * (F * B * (p * p)) < F * B * (p * p) := by
      rw [Nat.add_zero] at hn
      rw [hn]
      have := Nat.div_add_mod (samples file).length (F * B * (p * p))
      have := Nat.mod_lt (samples file).length hpos
      rw [Nat.mul_comm]
      omega
    refine ⟨state, Job.blockLoop_last hfits.samplesPerBlock fuel state ?_, hn ▸ h, hn ▸ hu⟩
    rw [fromfile_fst, List.length_take, List.length_drop]
    omega
  | succ m ih =>
    intro n fuel state hn hfuel h hu
    obtain ⟨fuel, rfl⟩ := Nat.exists_eq_succ_of_ne_zero (Nat.zero_lt_of_lt hfuel).ne'
    have hlt : n < (samples file).length / (F * B * (p * p)) := by omega
    have hwhole : (n + 1) * (F * B * (p * p)) ≤ (samples file).length :=
      (Nat.le_div_iff_mul_le hpos).mp hlt
    obtain ⟨u', huvw, hu'⟩ := hP n hlt _ hu
    obtain ⟨state', hblock, hstored, rfl⟩ := h.block hfits
      ((Nat.mul_le_mul_right B hlt).trans hrows) hwhole huvw
    obtain ⟨final, hloop, hfinal⟩ := ih (n + 1) fuel state' (by omega) (by omega) hstored hu'
    have hread := fromfile_fst (F * B * (p * p)) file (n * (F * B * (p * p)))
    have hrest : (fromfile (F * B * (p * p)) (file.drop (8 * (n * (F * B * (p * p)))))).2 =
        file.drop (8 * ((n + 1) * (F * B * (p * p)))) := by
      rw [fromfile, List.drop_drop, Nat.add_mul, Nat.one_mul, Nat.mul_add]
    have hlen : ¬ (fromfile (F * B * (p * p)) (file.drop (8 * (n * (F * B * (p * p)))))).1.length <
        F * B * (p * p) := by
      rw [hread, List.length_take, List.length_drop]
      rw [Nat.add_mul, Nat.one_mul] at hwhole
      omega
    refine ⟨final, ?_, hfinal⟩
    rw [← hread] at hblock
    rw [Job.blockLoop_next hfits.samplesPerBlock hlen hblock, hrest, hloop]

/-- The loop over a whole file. -/
theorem Job.Fits.blocks (hfits : job.Fits B F p) (file : List UInt8) (rows : ℕ)
    {P : ℕ → Option (NdArray R) → Prop}
    (hP : ∀ n < (samples file).length / (F * B * (p * p)), ∀ u, P n u →
      ∃ u', job.appendUvw vectors u = .ok u' ∧ P (n + 1) u')
    (hrows : (samples file).length / (F * B * (p * p)) * B ≤ rows) {u : Option (NdArray R)}
    (hu : P 0 u) :
    ∃ state, job.blockLoop vectors (file.length + 1) file
        ⟨0, NdArray.full [rows, 1, F, p * p] 0, u, []⟩ = .ok state ∧
      Stored B F (p * p) file rows ((samples file).length / (F * B * (p * p))) state ∧
      P ((samples file).length / (F * B * (p * p))) state.uvwArray := by
  have hstart : Stored B F (p * p) file rows 0
      (⟨0, NdArray.full [rows, 1, F, p * p] 0, u, []⟩ : BlockState R) :=
    ⟨rfl, rfl, fun t ht => absurd ht (Nat.not_lt_zero t), rfl⟩
  have hfuel : (samples file).length / (F * B * (p * p)) < file.length + 1 := by
    have := Nat.div_le_self (samples file).length (F * B * (p * p))
    rw [samples_length] at this ⊢
    omega
  have hloop := Stored.loop hfits hP hrows _ 0 (file.length + 1) _ (Nat.zero_add _) hfuel hstart hu
  rwa [Nat.zero_mul, Nat.mul_zero, List.drop_zero] at hloop

-- ════════════════════════════════════════════════════════════════════════
-- Antennas
-- ════════════════════════════════════════════════════════════════════════

theorem filter_range_le {a n : ℕ} (h : a < n) :
    (List.range n).filter (fun b => b ≤ a) = List.range (a + 1) := by
  obtain ⟨k, rfl⟩ := Nat.exists_eq_add_of_le (Nat.succ_le_of_lt h)
  rw [List.range_add, List.filter_append]
  have hle : (List.range (a + 1)).filter (fun b => b ≤ a) = List.range (a + 1) := by
    rw [List.filter_eq_self]
    intro b hb
    exact decide_eq_true (Nat.lt_succ_iff.mp (List.mem_range.mp hb))
  have hgt : ((List.range k).map (a + 1 + ·)).filter (fun b => b ≤ a) = [] := by
    rw [List.filter_eq_nil_iff]
    intro b hb
    obtain ⟨i, -, rfl⟩ := List.mem_map.mp hb
    simp only [decide_eq_true_eq]
    omega
  rw [Nat.succ_eq_add_one, hle, hgt, List.append_nil]

/-- The pairs of antennas are appended in the order of the baselines. -/
theorem antennaPairs_eq (n : ℕ) : antennaPairs n = Triangular.pairs n := by
  rw [antennaPairs, Triangular.pairs]
  refine List.flatMap_congr fun a ha => ?_
  rw [filter_range_le (List.mem_range.mp ha)]

/-- The pairs of antennas of a row. -/
theorem antennaPairs_getElem? {T n t i j : ℕ} (ht : t < T) (hj : j ≤ i) (hi : i < n) :
    ((List.range T).flatMap fun _ => antennaPairs n)[t * Triangular.size n +
      (Triangular.size i + j)]? = some (i, j) := by
  have hlt : Triangular.size i + j < (Triangular.pairs n).length := by
    rw [Triangular.pairs_length]
    exact Triangular.size_add_lt hj hi
  rw [antennaPairs_eq, List.flatMap_def, List.map_const', List.length_range,
    ← Triangular.pairs_length, NdArray.flatten_replicate_getElem? ht hlt]
  exact Triangular.pairs_getElem? hj hi

theorem Job.addRows_ant1Array (job : Job R) (T : ℕ) : (job.addRows T .initial).ant1Array =
    ((List.range T).flatMap fun _ => antennaPairs job.metadata.antennaNames.length).map Prod.fst :=
  List.nil_append _

theorem Job.addRows_ant2Array (job : Job R) (T : ℕ) : (job.addRows T .initial).ant2Array =
    ((List.range T).flatMap fun _ => antennaPairs job.metadata.antennaNames.length).map Prod.snd :=
  List.nil_append _

-- ════════════════════════════════════════════════════════════════════════
-- Data files
-- ════════════════════════════════════════════════════════════════════════

/-- What is left after the blocks of a file have been stored to an empty array. -/
theorem Job.storeFile_eq {uv : UVData R} {nblts : ℕ} {phasedFile : Option (List UInt8)}
    (hfits : job.Fits B F p) (hdata : uv.dataArray = none)
    (hloop : job.blockLoop vectors ((phasedFile.getD file).length + 1) (phasedFile.getD file)
      ⟨0, NdArray.full [nblts, 1, F, p * p] 0, uv.uvwArray, []⟩ = .ok state) :
    job.storeFile vectors nblts phasedFile file uv =
      .ok ⟨{ uv with uvwArray := state.uvwArray, dataArray := some state.tmpArray },
        state.curBlock, phasedFile, state.assigned⟩ := by
  rw [Job.storeFile, hfits.polarizations, hfits.channels]
  simp only [hloop, ok_bind, hdata]

theorem Job.Fits.blocks_eq (hfits : job.Fits B F p) (file : List UInt8) :
    file.length / job.obsMetadata.bytesPerBlock = (samples file).length / (F * B * (p * p)) := by
  rw [hfits.bytesPerBlock, samples_length, Nat.div_div_eq_div_mul]

theorem Job.Fits.bytesPerBlock_pos (hfits : job.Fits B F p) :
    0 < job.obsMetadata.bytesPerBlock := by
  rw [hfits.bytesPerBlock]
  exact Nat.mul_pos (by omega) hfits.block_pos

/-- A data file that is not phased. -/
theorem Job.Fits.processFile [Zero R] (hfits : job.Fits B F p) (hphases : job.phases = false)
    {P : ℕ → Option (NdArray R) → Prop} (hstart : P 0 none)
    (hP : ∀ n u, P n u → ∃ u', job.appendUvw vectors u = .ok u' ∧ P (n + 1) u')
    (file : List UInt8) :
    ∃ state : BlockState R, job.processFile vectors file .initial = .ok
        ⟨{ job.addRows (file.length / job.obsMetadata.bytesPerBlock) .initial with
            uvwArray := state.uvwArray
            dataArray := some state.tmpArray }, state.curBlock, none, state.assigned⟩ ∧
      Stored B F (p * p) file (file.length / job.obsMetadata.bytesPerBlock * B)
        (file.length / job.obsMetadata.bytesPerBlock) state ∧
      P (file.length / job.obsMetadata.bytesPerBlock) state.uvwArray := by
  have hblocks := hfits.blocks_eq file
  obtain ⟨state, hloop, hstored, hu⟩ := hfits.blocks file
    ((samples file).length / (F * B * (p * p)) * B) (fun n _ => hP n) le_rfl hstart
  rw [← hblocks] at hloop hstored hu
  refine ⟨state, ?_, hstored, hu⟩
  rw [Job.processFile, floorDiv_of_pos hfits.bytesPerBlock_pos, ok_bind, hphases, if_neg
    Bool.false_ne_true, hfits.numBaselines]
  exact Job.storeFile_eq hfits rfl hloop

/-- The coordinates after `n` blocks of a file that is not phased: the baseline vectors for
each block, unless they come from elsewhere. -/
inductive Job.Appended (job : Job R) (vectors : NdArray R) : ℕ → Option (NdArray R) → Prop
  | elsewhere (h : (!job.metadata.hasUvwFile && !job.metadata.hasAntennaDelays) = false) (n : ℕ) :
      job.Appended vectors n none
  | start (h : (!job.metadata.hasUvwFile && !job.metadata.hasAntennaDelays) = true) :
      job.Appended vectors 0 none
  | rows (h : (!job.metadata.hasUvwFile && !job.metadata.hasAntennaDelays) = true) {n : ℕ}
      {rows : NdArray R} (hrows : vectors.IsRepeat n rows) : job.Appended vectors n (some rows)

theorem Job.appended_zero (job : Job R) (vectors : NdArray R) : job.Appended vectors 0 none := by
  cases h : !job.metadata.hasUvwFile && !job.metadata.hasAntennaDelays with
  | false => exact .elsewhere h 0
  | true => exact .start h

theorem Job.Appended.append {m : ℕ} {dims : List ℕ} (hshape : vectors.shape = m :: dims)
    {u : Option (NdArray R)} (h : job.Appended vectors n u) :
    ∃ u', job.appendUvw vectors u = .ok u' ∧ job.Appended vectors (n + 1) u' := by
  cases h with
  | elsewhere h => exact ⟨none, by rw [Job.appendUvw, h]; rfl, .elsewhere h (n + 1)⟩
  | start h => exact ⟨some vectors, by rw [Job.appendUvw, h]; rfl, .rows h (.one hshape)⟩
  | rows h hrows =>
    obtain ⟨rows', hcat, hrepeat⟩ := hrows.concatenate
    exact ⟨some rows', by rw [Job.appendUvw, h, if_pos rfl, hcat]; rfl, .rows h hrepeat⟩

/-- The rows of the blocks, when they are not from elsewhere. -/
theorem Job.Appended.exists_rows {u : Option (NdArray R)} (h : job.Appended vectors n u)
    (hn : 0 < n) (hown : (!job.metadata.hasUvwFile && !job.metadata.hasAntennaDelays) = true) :
    ∃ rows, u = some rows ∧ vectors.IsRepeat n rows := by
  cases h with
  | elsewhere h => exact absurd (h.symm.trans hown) Bool.false_ne_true
  | start h => exact absurd hn (Nat.lt_irrefl 0)
  | rows h hrows => exact ⟨_, rfl, hrows⟩

-- ════════════════════════════════════════════════════════════════════════
-- Assignments
-- ════════════════════════════════════════════════════════════════════════

theorem Stored.assigned_nodup {s : ℕ} (h : Stored B F s file rows n state) (hB : 0 < B) :
    state.assigned.Nodup := by
  rw [h.assigned]
  refine NdArray.nodup_flatMap_range (fun ix => ix.getD 0 0 / B)
    (fun t _ => nodup_polMoves B F s t) fun t _ ix hix => ?_
  obtain ⟨m, hm, rfl⟩ := List.mem_map.mp hix
  obtain ⟨b, hb, f, hf, k, hk, rfl⟩ := mem_polMoves.mp hm
  change (t * B + b) / B = t
  rw [Nat.mul_comm, Nat.mul_add_div hB, Nat.div_eq_of_lt hb, Nat.add_zero]

/-- Every cell of every row is assigned. -/
theorem Stored.mem_assigned {s r f k : ℕ} (h : Stored B F s file rows n state) (hr : r < n * B)
    (hf : f < F) (hk : k < 4) : [r, 0, f, k] ∈ state.assigned := by
  have hB : 0 < B := Nat.pos_of_ne_zero fun h0 => by rw [h0] at hr; omega
  rw [h.assigned, List.mem_flatMap]
  refine ⟨r / B, List.mem_range.mpr ((Nat.div_lt_iff_lt_mul hB).mpr hr), List.mem_map.mpr
    ⟨_, polMove_mem s (r / B) (Nat.mod_lt r hB) hf hk, ?_⟩⟩
  rw [Nat.mul_comm, Nat.div_add_mod]

/-- The visibilities of a recording: the whole blocks of the file, each cell with its product,
every cell assigned once, and the antennas of a row those of its baseline. -/
structure FileResult.Stores (result : FileResult R) (job : Job R) (B F : ℕ)
    (file : List UInt8) : Prop where
  blocks : result.blocksRead = file.length / job.obsMetadata.bytesPerBlock
  cells : ∃ rows, result.uv.dataArray = some rows ∧ rows.shape = [result.blocksRead * B, 1, F, 4] ∧
    ∀ t < result.blocksRead, ∀ b < B, ∀ f < F, ∀ k < 4, ∃ z,
      (samples file)[t * job.obsMetadata.samplesPerBlock + f * B * 4 + b * 4 + polIndex k]? =
        some z ∧ rows.get? [t * B + b, 0, f, k] = some z
  once : ∀ r < result.blocksRead * B, ∀ f < F, ∀ k < 4, result.assigned.count [r, 0, f, k] = 1
  ant1Array : result.uv.ant1Array.length = result.blocksRead * B
  ant2Array : result.uv.ant2Array.length = result.blocksRead * B
  antennas : ∀ t < result.blocksRead, ∀ i < job.metadata.antennaNames.length, ∀ j ≤ i,
    result.uv.ant1Array[t * B + (i * (i + 1) / 2 + j)]? = some i ∧
    result.uv.ant2Array[t * B + (i * (i + 1) / 2 + j)]? = some j

/-- **Visibilities.** Without phasing, exactly the whole blocks of a data file are stored, and
each row belongs to its baseline. -/
theorem Job.processFile_stores [Sub R] [Zero R] (job : Job R) (hfits : job.Fits B F 2)
    (hphases : job.phases = false) (hvectors : job.baselineVectors = .ok vectors)
    (file : List UInt8) :
    ∃ result, job.processFile vectors file .initial = .ok result ∧
      result.Stores job B F file := by
  obtain ⟨m, dims, hshape⟩ := Job.baselineVectors_shape hvectors hfits.antennas
  obtain ⟨state, hfile, hstored, -⟩ := hfits.processFile hphases (job.appended_zero vectors)
    (fun n u hu => hu.append hshape) file
  have hB := hfits.baselines_pos
  generalize hT : file.length / job.obsMetadata.bytesPerBlock = T at hfile hstored
  have hlen : ((List.range T).flatMap fun _ =>
      antennaPairs job.metadata.antennaNames.length).length = T * B := by
    rw [List.length_flatMap, antennaPairs_eq, Triangular.pairs_length, ← hfits.pairs,
      List.map_const', List.sum_replicate_nat, List.length_range]
  have hpair : ∀ t < T, ∀ i < job.metadata.antennaNames.length, ∀ j ≤ i,
      ((List.range T).flatMap fun _ => antennaPairs job.metadata.antennaNames.length)[
        t * B + (i * (i + 1) / 2 + j)]? = some (i, j) := by
    intro t ht i hi j hj
    rw [hfits.pairs]
    exact antennaPairs_getElem? ht hj hi
  have hcur := hstored.curBlock
  refine ⟨_, hfile, ⟨hcur.trans hT.symm, ⟨state.tmpArray, rfl, ?_, ?_⟩, ?_, ?_, ?_, ?_⟩⟩
  all_goals rw [hcur]
  · exact hstored.shape
  · intro t ht b hb f hf k hk
    have hcell := hstored.cells t ht b hb f hf k hk
    have hwithin : NdArray.Within state.tmpArray.shape [t * B + b, 0, f, k] := by
      rw [hstored.shape]
      have hle : (t + 1) * B ≤ T * B := Nat.mul_le_mul_right B ht
      rw [Nat.add_mul, Nat.one_mul] at hle
      exact ⟨by omega, Nat.one_pos, hf, hk, trivial⟩
    obtain ⟨z, hz⟩ := Option.isSome_iff_exists.mp (NdArray.get?_isSome hwithin)
    refine ⟨z, ?_, hz⟩
    rw [← hz, hcell, hfits.samplesPerBlock]
    congr 1
    ring
  · intro r hr f hf k hk
    exact List.count_eq_one_of_mem (hstored.assigned_nodup hB) (hstored.mem_assigned hr hf hk)
  · rw [Job.addRows_ant1Array, List.length_map, hlen]
  · rw [Job.addRows_ant2Array, List.length_map, hlen]
  · intro t ht i hi j hj
    rw [Job.addRows_ant1Array, Job.addRows_ant2Array, List.getElem?_map, List.getElem?_map,
      hpair t ht i hi j hj]
    exact ⟨rfl, rfl⟩

/-- Without channels a block has no bytes, and the script divides by its size. -/
theorem Job.processFile_no_bytes [Zero R] (job : Job R) (h : job.obsMetadata.bytesPerBlock = 0)
    (vectors : NdArray R) (file : List UInt8) (uv : UVData R) :
    job.processFile vectors file uv = .error .zeroDivision := by
  rw [Job.processFile, floorDiv, if_pos h]
  rfl

/-- What becomes of data without a signal. -/
def silent : StopBaseline ℤ where
  run := fun cross _ => (NdArray.full cross.shape 0, NdArray.full [3, cross.shape.headD 0] 0)
  data_shape := fun _ _ => rfl
  uvw_shape := fun _ _ => rfl

theorem size_two : Triangular.size 2 = 3 := by decide

/-- A recording of two antennas with one channel. -/
def twoAntennas (stopBaseline : StopBaseline ℤ) (hasAntennaDelays : Bool)
    (baselineUvwVectors : Option (List (ℤ × ℤ × ℤ))) : Job ℤ where
  metadata :=
    { numBaselines := 3
      polarizations := 2
      antennaNames := ["2a", "2b"]
      telescopeName := "ATA"
      hasAntennaDelays := hasAntennaDelays
      hasUvwFile := false
      correctForDelay := none
      baselineUvwVectors := baselineUvwVectors }
  obsMetadata := { channels := 1, numBaselines := 3, samplesPerBlock := 12, bytesPerBlock := 96 }
  noDelayCorrect := false
  antennaDetails := fun name => some ⟨if name = "2A" then 0 else 1, 0, 0⟩
  stopBaseline := stopBaseline
  round := fun _ => 0
  memory := fun _ => 0

theorem twoAntennas_fits (stopBaseline : StopBaseline ℤ) (hasAntennaDelays : Bool)
    (baselineUvwVectors : Option (List (ℤ × ℤ × ℤ))) :
    (twoAntennas stopBaseline hasAntennaDelays baselineUvwVectors).Fits 3 1 2 :=
  ⟨two_pos, rfl, size_two.symm, rfl, one_pos, rfl, le_rfl, rfl, rfl⟩

/-- The differences of two antennas in the order of the baselines. -/
def twoVectors : List (ℤ × ℤ × ℤ) := [(0, 0, 0), (1, 0, 0), (0, 0, 0)]

/-- A file with two blocks and a part of a third one. -/
theorem processFile_stores_two :
    ∃ result, (twoAntennas silent false (some twoVectors)).processFile (asarray twoVectors)
        (List.replicate 200 7) .initial = .ok result ∧
      result.Stores (twoAntennas silent false (some twoVectors)) 3 1 (List.replicate 200 7) :=
  Job.processFile_stores _ (twoAntennas_fits _ _ _) rfl rfl _

end GrAta.Observation
