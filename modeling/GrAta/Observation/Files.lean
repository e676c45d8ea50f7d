import GrAta.Observation.Visibilities

/-!
# Observations of several files

The script goes through a list of data files and appends the rows of each one to the arrays of
the observation. A row belongs to a block of a file and to a baseline. For each row there are
the antennas, the number of the baseline, the time, the coordinates and the products, with
flags and sample counts for each product.

The dates of the blocks are parameters. Frequencies, sidereal times and what describes the
telescope and the source are left out.

## Main definitions

- `DataFile`, `Listed`: a data file with its descriptor, an entry of the list of descriptors
- `Tables`: the arrays with an entry for each row
- `Job.processListed`, `Job.processFiles`: one entry, the whole list

## Main results

- `Job.Fits.processFile_extends`: a data file appends its rows
-/

namespace GrAta.Observation

variable {R T : Type}

/-- The dates of blocks. `start` is the date that is computed before the loop over the blocks
of a file, `block` the one that is computed for a block. Both get the sequence number with
which the file begins. -/
structure Clock (T : Type) where
  integrationTimeSeconds : ℚ
  start : ℕ → T
  block : ℕ → ℕ → T
  block_zero : ∀ firstSeqNum, block firstSeqNum 0 = start firstSeqNum

/-- A data file with its descriptor. The correction of the baselines depends on the time at
which the file begins. -/
structure DataFile (R : Type) where
  obsMetadata : ObsMetadata
  firstSeqNum : ℕ
  ntime : ℕ
  stopBaseline : StopBaseline R
  contents : List UInt8

/-- An entry of the list of descriptors: it cannot be read or its data file is not there, which
is reported; it lacks a key; or there is a data file. -/
inductive Listed (R : Type) where
  | skipped
  | missingKey
  | dataFile (f : DataFile R)

/-- The arrays of the observation with an entry for each row. -/
structure Tables (R T : Type) where
  uv : UVData R
  nfreqs : ℕ
  integrationTime : Option (List ℚ)
  flagArray : Option (NdArray Bool)
  nsampleArray : Option (NdArray ℚ)
  timeArray : Option (List T)

def Tables.initial : Tables R T := ⟨.initial, 0, none, none, none, none⟩

/-- The conversion of the concatenation, which has numbers for `False` and `True`. -/
def boolToNumber (b : Bool) : ℚ := if b then 1 else 0

/-- `numpy.concatenate`, when there is an array already. -/
def appendRows {α : Type} (a : Option (NdArray α)) (b : NdArray α) :
    Except ScriptError (NdArray α) :=
  match a with
  | none => .ok b
  | some rows => fitting (rows.concatenate b)

def appendList {α : Type} (a : Option (List α)) (b : List α) : List α :=
  match a with
  | none => b
  | some l => l ++ b

/-- The sample counts. Behind the first file the flags, which have the rows of this file
already, stand in the place of the counts. -/
def appendCounts (nsampleArray : Option (NdArray ℚ)) (flagArray : NdArray Bool)
    (counts : NdArray ℚ) : Except ScriptError (NdArray ℚ) :=
  match nsampleArray with
  | none => .ok counts
  | some _ => fitting ((flagArray.map boolToNumber).concatenate counts)

/-- The dates of the rows of one block. -/
def Clock.appendTime (clock : Clock T) (numBaselines firstSeqNum : ℕ) (timeArray : Option (List T))
    (curBlock : ℕ) : Option (List T) :=
  match timeArray with
  | some times => some (times ++ List.replicate numBaselines (clock.block firstSeqNum curBlock))
  | none => some (List.replicate numBaselines (clock.start firstSeqNum))

/-- The script as it processes one data file. -/
def Job.forFile (job : Job R) (f : DataFile R) : Job R :=
  { job with obsMetadata := f.obsMetadata, stopBaseline := f.stopBaseline }

/-- The pass of the loop for an entry of the list. -/
def Job.processListed [Zero R] (job : Job R) (clock : Clock T) (vectors : NdArray R)
    (tables : Tables R T) : Listed R → Except ScriptError (Tables R T)
  | .skipped => .ok tables
  | .missingKey => .error (.exit 1)
  | .dataFile f => do
    let numBaselines := f.obsMetadata.numBaselines
    let npolSq := job.metadata.polarizations * job.metadata.polarizations
    let numTimeBlocks ← floorDiv f.contents.length f.obsMetadata.bytesPerBlock
    let nblts := numTimeBlocks * numBaselines
    let shape := [nblts, 1, f.obsMetadata.channels, npolSq]
    let integrationTime := appendList tables.integrationTime
      (List.replicate nblts clock.integrationTimeSeconds)
    let flagArray ← appendRows tables.flagArray (NdArray.full shape false)
    let nsampleArray ← appendCounts tables.nsampleArray flagArray (NdArray.full shape f.ntime)
    let result ← (job.forFile f).processFile vectors f.contents tables.uv
    .ok
      { uv := result.uv
        nfreqs := if tables.nfreqs = 0 then f.obsMetadata.channels else tables.nfreqs
        integrationTime := some integrationTime
        flagArray := some flagArray
        nsampleArray := some nsampleArray
        timeArray := (List.range result.blocksRead).foldl
          (clock.appendTime numBaselines f.firstSeqNum) tables.timeArray }

/-- The loop over the list of descriptors. -/
def Job.processFiles [Zero R] (job : Job R) (clock : Clock T) (vectors : NdArray R)
    (listed : List (Listed R)) : Except ScriptError (Tables R T) :=
  listed.foldlM (job.processListed clock vectors) .initial

-- ════════════════════════════════════════════════════════════════════════
-- Rows
-- ════════════════════════════════════════════════════════════════════════

def Listed.dataFile? : Listed R → Option (DataFile R)
  | .dataFile f => some f
  | _ => none

/-- The whole blocks of a data file. -/
def DataFile.numTimeBlocks (f : DataFile R) : ℕ := f.contents.length / f.obsMetadata.bytesPerBlock

/-- The blocks of all files, by file and number. -/
def blocksOf (files : List (DataFile R)) : List (DataFile R × ℕ) :=
  files.flatMap fun f => (List.range f.numTimeBlocks).map fun t => (f, t)

-- ════════════════════════════════════════════════════════════════════════
-- Coordinates
-- ════════════════════════════════════════════════════════════════════════

variable {job : Job R} {clock : Clock T} {vectors : NdArray R} {B F : ℕ}

/-- The coordinates after `n` blocks: the rows before them, and the baseline vectors `n` times. -/
structure Repeated (vectors : NdArray R) (B : ℕ) (before : Option (NdArray R)) (n : ℕ)
    (u : Option (NdArray R)) : Prop where
  shape : ∀ rows, u = some rows → rows.shape = [NdArray.rows u, 3]
  rows : NdArray.rows u = NdArray.rows before + n * B
  old : ∀ {ix v}, NdArray.at? before ix = some v → NdArray.at? u ix = some v
  new : ∀ {t b axis v}, t < n → b < B → vectors.get? [b, axis] = some v →
    NdArray.at? u [NdArray.rows before + (t * B + b), axis] = some v

theorem Repeated.zero {u : Option (NdArray R)}
    (h : ∀ rows, u = some rows → rows.shape = [NdArray.rows u, 3]) : Repeated vectors B u 0 u where
  shape := h
  rows := by rw [Nat.zero_mul, Nat.add_zero]
  old := id
  new ht := absurd ht (Nat.not_lt_zero _)

/-- The coordinates of one more block. -/
theorem Repeated.append {before u : Option (NdArray R)} {n : ℕ}
    (hvectors : vectors.shape = [B, 3])
    (hown : (!job.metadata.hasUvwFile && !job.metadata.hasAntennaDelays) = true)
    (h : Repeated vectors B before n u) :
    ∃ u', job.appendUvw vectors u = .ok u' ∧ Repeated vectors B before (n + 1) u' := by
  have hB : NdArray.rows (some vectors) = B := NdArray.rows_of_shape hvectors
  obtain ⟨c, hc, hextends⟩ : ∃ c, job.appendUvw vectors u = .ok (some c) ∧
      NdArray.Extends [3] u vectors c := by
    cases u with
    | none =>
      exact ⟨vectors, by rw [Job.appendUvw, hown]; rfl, .of_none (hB.symm ▸ hvectors)⟩
    | some rows =>
      obtain ⟨c, hcat, hextends⟩ := NdArray.exists_extends (h.shape rows rfl) (hB.symm ▸ hvectors)
      exact ⟨c, by rw [Job.appendUvw, hown, if_pos rfl, hcat]; rfl, hextends⟩
  have hrows := hextends.rows_eq
  refine ⟨some c, hc, ?_, ?_, ?_, ?_⟩
  · intro rows hc'
    rw [← Option.some.inj hc', hrows]
    exact hextends.shape
  · rw [hrows, h.rows, hB, Nat.add_mul, Nat.one_mul, Nat.add_assoc]
  · intro ix v hv
    exact hextends.get?_left (h.old hv)
  · intro t b axis v ht hb hv
    rcases Nat.lt_succ_iff_lt_or_eq.mp ht with hlt | rfl
    · exact hextends.get?_left (h.new hlt hb hv)
    · have hlast := hextends.get?_right hv
      rwa [h.rows, Nat.add_assoc] at hlast

-- ════════════════════════════════════════════════════════════════════════
-- One data file
-- ════════════════════════════════════════════════════════════════════════

/-- An array with new rows. -/
theorem exists_appendRows {α : Type} {dims : List ℕ} {a : Option (NdArray α)} {b : NdArray α}
    (ha : ∀ rows, a = some rows → rows.shape = NdArray.rows a :: dims)
    (hb : b.shape = NdArray.rows (some b) :: dims) :
    ∃ c, appendRows a b = .ok c ∧ NdArray.Extends dims a b c := by
  cases a with
  | none => exact ⟨b, rfl, .of_none hb⟩
  | some rows =>
    obtain ⟨c, hcat, hextends⟩ := NdArray.exists_extends (ha rows rfl) hb
    exact ⟨c, by rw [appendRows, hcat]; rfl, hextends⟩

theorem Job.storeFile_appendRows {nblts : ℕ} {uv : UVData R} {file : List UInt8}
    {state : BlockState R} (hfits : job.Fits B F 2)
    (hloop : job.blockLoop vectors (file.length + 1) file
      ⟨0, NdArray.full [nblts, 1, F, 2 * 2] 0, uv.uvwArray, []⟩ = .ok state) :
    job.storeFile vectors nblts none file uv =
      (appendRows uv.dataArray state.tmpArray).map fun c =>
        ⟨{ uv with uvwArray := state.uvwArray, dataArray := some c }, state.curBlock, none,
          state.assigned⟩ := by
  rw [Job.storeFile, hfits.polarizations, hfits.channels]
  simp only [Option.getD_none, hloop, ok_bind]
  cases hdata : uv.dataArray with
  | none => rfl
  | some rows =>
    change (fitting (rows.concatenate state.tmpArray) >>= _) = (fitting _).map _
    cases fitting (rows.concatenate state.tmpArray) <;> rfl

/-- The arrays of the observation, with the shapes that their rows have. -/
structure UVData.Shaped (uv : UVData R) (F : ℕ) : Prop where
  dataArray : ∀ rows, uv.dataArray = some rows →
    rows.shape = [NdArray.rows uv.dataArray, 1, F, 4]
  uvwArray : ∀ rows, uv.uvwArray = some rows → rows.shape = [NdArray.rows uv.uvwArray, 3]

/-- What a data file with `n` whole blocks adds to the arrays. -/
structure FileResult.ExtendsBy (result : FileResult R) (job : Job R) (vectors : NdArray R)
    (B F : ℕ) (file : List UInt8) (uv : UVData R) (n : ℕ) : Prop where
  blocks : result.blocksRead = n
  rows : { result.uv with uvwArray := uv.uvwArray, dataArray := uv.dataArray } = job.addRows n uv
  shaped : result.uv.Shaped F
  uvw : Repeated vectors B uv.uvwArray n result.uv.uvwArray
  dataRows : NdArray.rows result.uv.dataArray = NdArray.rows uv.dataArray + n * B
  old : ∀ {ix v}, NdArray.at? uv.dataArray ix = some v →
    NdArray.at? result.uv.dataArray ix = some v
  new : ∀ {t b c k}, t < n → b < B → c < F → k < 4 → ∃ z,
    (samples file)[t * job.obsMetadata.samplesPerBlock + c * B * 4 + b * 4 + polIndex k]? =
      some z ∧
    NdArray.at? result.uv.dataArray [NdArray.rows uv.dataArray + (t * B + b), 0, c, k] = some z

/-- **One data file.** It appends the rows of its whole blocks, whatever is there already. -/
theorem Job.Fits.processFile_extends [Zero R] (hfits : job.Fits B F 2)
    (hphases : job.phases = false) (huvw : job.metadata.hasUvwFile = false)
    (hvectors : vectors.shape = [B, 3]) {uv : UVData R} (huv : uv.Shaped F) (file : List UInt8) :
    ∃ result, job.processFile vectors file uv = .ok result ∧
      result.ExtendsBy job vectors B F file uv (file.length / job.obsMetadata.bytesPerBlock) := by
  have hblocks := hfits.blocks_eq file
  have hown : (!job.metadata.hasUvwFile && !job.metadata.hasAntennaDelays) = true := by
    rw [huvw, (Bool.or_eq_false_iff.mp hphases).1]
    rfl
  have hnext : ∀ n u, Repeated vectors B uv.uvwArray n u →
      ∃ u', job.appendUvw vectors u = .ok u' ∧ Repeated vectors B uv.uvwArray (n + 1) u' :=
    fun n u hu => hu.append hvectors hown
  obtain ⟨state, hloop, hstored, hrepeated⟩ := hfits.blocks file
    ((samples file).length / (F * B * (2 * 2)) * B) (fun n _ => hnext n) le_rfl
    (Repeated.zero huv.uvwArray)
  rw [← hblocks] at hloop hstored hrepeated
  generalize hT : file.length / job.obsMetadata.bytesPerBlock = n at hloop hstored hrepeated
  have htmp : NdArray.rows (some state.tmpArray) = n * B := NdArray.rows_of_shape hstored.shape
  have hshape : state.tmpArray.shape = [NdArray.rows (some state.tmpArray), 1, F, 4] :=
    htmp.symm ▸ hstored.shape
  obtain ⟨c, hc, hextends⟩ := exists_appendRows huv.dataArray hshape
  have hfile : job.processFile vectors file uv =
      .ok ⟨{ job.addRows n uv with uvwArray := state.uvwArray, dataArray := some c },
        state.curBlock, none, state.assigned⟩ := by
    have hstore : job.storeFile vectors (n * B) none file (job.addRows n uv) = _ :=
      Job.storeFile_appendRows hfits hloop
    have hdata : (job.addRows n uv).dataArray = uv.dataArray := rfl
    rw [hdata, hc] at hstore
    rw [Job.processFile, floorDiv_of_pos hfits.bytesPerBlock_pos, ok_bind, hphases,
      if_neg Bool.false_ne_true, hT, hfits.numBaselines, hstore]
    rfl
  refine ⟨_, hfile, hstored.curBlock, rfl, ⟨?_, hrepeated.shape⟩, hrepeated, ?_, ?_, ?_⟩
  · intro rows hc'
    rw [← Option.some.inj hc', hextends.rows_eq]
    exact hextends.shape
  · rw [hextends.rows_eq, htmp]
  · intro ix v hv
    exact hextends.get?_left hv
  · intro t b ch k ht hb hch hk
    have hcell := hstored.cells t ht b hb ch hch k hk
    have hle : (t + 1) * B ≤ n * B := Nat.mul_le_mul_right B ht
    rw [Nat.add_mul, Nat.one_mul] at hle
    have hwithin : NdArray.Within state.tmpArray.shape [t * B + b, 0, ch, k] := by
      rw [hstored.shape]
      exact ⟨by omega, Nat.one_pos, hch, hk, trivial⟩
    obtain ⟨z, hz⟩ := Option.isSome_iff_exists.mp (NdArray.get?_isSome hwithin)
    refine ⟨z, ?_, hextends.get?_right hz⟩
    rw [← hz, hcell, hfits.samplesPerBlock]
    congr 1
    ring

end GrAta.Observation
