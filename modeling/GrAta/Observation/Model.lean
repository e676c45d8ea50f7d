import GrAta.Library.NdArray
import GrAta.Library.Triangular

/-!
# The extraction of correlated data

The script that turns a recording of the correlator into the arrays of an observation
file. A recording holds integrated blocks: for each channel and baseline the products of
the polarizations. The script copies them to rows of baselines, and phases them before
when it has to. The correction of one baseline is a parameter, and the times of the blocks
are left out.

## Main definitions

- `Sample`, `samples`: a number of a data file, and the numbers that a file holds
- `DoubleSample`: a number of corrected data before it is stored
- `Job`: what one run of the script is given
- `Job.baselineVectors`: the computed coordinates of the baselines
- `reorderFreqPerBaseline`: from blocks of channels to blocks of baselines
- `Job.phase`: the phasing branch
- `Job.blockLoop`: the loop through the integrated blocks
- `Job.processFile`: one data file
-/

namespace GrAta.Observation

/-- How the script ends before it has written anything. -/
inductive ScriptError where
  | zeroDivision
  | indexError
  | valueError
  /-- A message and a call of `exit`. -/
  | exit (code : ℕ)
  /-- The loop through the blocks never ends. -/
  | endless
  deriving DecidableEq, Repr

theorem ok_bind {α β : Type} (a : α) (f : α → Except ScriptError β) :
    (Except.ok a >>= f) = f a := rfl

theorem error_bind {α β : Type} (e : ScriptError) (f : α → Except ScriptError β) :
    ((Except.error e : Except ScriptError α) >>= f) = .error e := rfl

/-- An access with an index outside of an array raises an exception. -/
def inRange {α : Type*} : Option α → Except ScriptError α
  | some a => .ok a
  | none => .error .indexError

@[simp] theorem inRange_some {α : Type*} (a : α) : inRange (some a) = .ok a := rfl

/-- Arrays whose shapes do not fit raise an exception. -/
def fitting {α : Type*} : Option α → Except ScriptError α
  | some a => .ok a
  | none => .error .valueError

@[simp] theorem fitting_some {α : Type*} (a : α) : fitting (some a) = .ok a := rfl

/-- `//` -/
def floorDiv (a b : ℕ) : Except ScriptError ℕ :=
  if b = 0 then .error .zeroDivision else .ok (a / b)

theorem floorDiv_of_pos {b : ℕ} (h : 0 < b) (a : ℕ) : floorDiv a b = .ok (a / b) :=
  if_neg h.ne'

/-- A `complex64`: the eight bytes of its real and its imaginary part. -/
structure Sample where
  bytes : Vector UInt8 8
  deriving DecidableEq, Repr

instance : Zero Sample := ⟨⟨Vector.replicate 8 0⟩⟩

/-- A `complex128`: the sixteen bytes of its two parts. -/
structure DoubleSample where
  bytes : Vector UInt8 16
  deriving DecidableEq, Repr

instance : Zero DoubleSample := ⟨⟨Vector.replicate 16 0⟩⟩

/-- `numpy.fromfile` of a whole file: a rest of fewer than eight bytes is left out. -/
def samples (file : List UInt8) : List Sample :=
  (List.range (file.length / 8)).map fun i => ⟨Vector.ofFn fun k => file.getD (8 * i + k) 0⟩

/-- `numpy.fromfile` with a count: at most that many numbers, and the file behind them. -/
def fromfile (count : ℕ) (file : List UInt8) : List Sample × List UInt8 :=
  (samples (file.take (8 * count)), file.drop (8 * count))

/-- `tofile` -/
def tofile (data : List Sample) : List UInt8 := data.flatMap fun z => z.bytes.toList

/-- The coordinates of an antenna. -/
structure Coordinates (R : Type) where
  x : R
  y : R
  z : R
  deriving DecidableEq

/-- The descriptor of the observation, as far as the data depend on it. -/
structure Descriptor (R : Type) where
  numBaselines : ℕ
  polarizations : ℕ
  antennaNames : List String
  telescopeName : String
  hasAntennaDelays : Bool
  hasUvwFile : Bool
  correctForDelay : Option Bool
  baselineUvwVectors : Option (List (R × R × R))

/-- The descriptor of a data file. -/
structure ObsMetadata where
  channels : ℕ
  numBaselines : ℕ
  samplesPerBlock : ℕ
  bytesPerBlock : ℕ

/-- `stop_baseline` for the source and the start of an observation: from the data of a
baseline and its name to the corrected data, in double precision, and the coordinates at each
integration. -/
structure StopBaseline (R : Type) where
  run : NdArray Sample → String → NdArray DoubleSample × NdArray R
  data_shape : ∀ cross baseline, (run cross baseline).1.shape = cross.shape
  uvw_shape : ∀ cross baseline, (run cross baseline).2.shape = [3, cross.shape.headD 0]

/-- What a run of the script is given. `round` is what becomes of a number that is stored in an
array of single precision, `memory` what a new array holds that has not been written. -/
structure Job (R : Type) where
  metadata : Descriptor R
  obsMetadata : ObsMetadata
  noDelayCorrect : Bool
  antennaDetails : String → Option (Coordinates R)
  stopBaseline : StopBaseline R
  round : DoubleSample → Sample
  memory : ℕ → Sample

/-- The arrays of the observation file, as the loops leave them. A `uvw_file` of the descriptor
replaces the coordinates before the file is written. -/
structure UVData (R : Type) where
  nblts : ℕ
  ant1Array : List ℕ
  ant2Array : List ℕ
  baselineArray : List ℕ
  uvwArray : Option (NdArray R)
  dataArray : Option (NdArray Sample)

def UVData.initial {R : Type} : UVData R := ⟨0, [], [], [], none, none⟩

-- ════════════════════════════════════════════════════════════════════════
-- Baseline vectors
-- ════════════════════════════════════════════════════════════════════════

section BaselineVectors

variable {R : Type}

/-- `numpy.asarray` of a list of rows. -/
def asarray (rows : List (R × R × R)) : NdArray R where
  shape := if rows = [] then [0] else [rows.length, 3]
  data := rows.flatMap fun r => [r.1, r.2.1, r.2.2]
  size_eq := by
    split
    · simp_all
    · simp [List.length_flatMap]

/-- One pass of the inner loop: the difference of two antennas is written to a row. -/
def vectorPass [Sub R] (coordinates : ℕ → Option (Coordinates R)) (currentIndex : ℕ)
    (vectors : NdArray R) (pair : ℕ × ℕ) : Option (NdArray R) := do
  let coord1 ← coordinates pair.1
  let coord2 ← coordinates pair.2
  let vectors ← vectors.set [currentIndex, 0] (coord1.x - coord2.x)
  let vectors ← vectors.set [currentIndex, 1] (coord1.y - coord2.y)
  vectors.set [currentIndex, 2] (coord1.z - coord2.z)

/-- `antenna_details[antenna_names[i].upper()]` -/
def Job.coordinates (job : Job R) (i : ℕ) : Option (Coordinates R) :=
  job.metadata.antennaNames[i]?.bind fun name => job.antennaDetails name.toUpper

/-- The rows of `baseline_vectors`. Any exception of the loops ends the script. -/
def Job.baselineVectors [Sub R] [Zero R] (job : Job R) : Except ScriptError (NdArray R) :=
  match job.metadata.baselineUvwVectors with
  | some rows => .ok (asarray rows)
  | none =>
    -- `current_index` is set before the loops, and no pass changes it
    let currentIndex := 0
    let num := job.metadata.antennaNames.length
    let pairs := (List.range num).flatMap fun i => (List.range (i + 1)).map fun j => (i, j)
    match pairs.foldlM (vectorPass job.coordinates currentIndex)
      (NdArray.full [job.metadata.numBaselines, 3] 0) with
    | some vectors => .ok vectors
    | none => .error (.exit 1)

end BaselineVectors

-- ════════════════════════════════════════════════════════════════════════
-- Reordering
-- ════════════════════════════════════════════════════════════════════════

/-- The two inner loops of the reordering: the moves of one baseline. -/
def reorderInnerLoop (numFrequencies numBaselines valuesPerSquare curBaseline : ℕ) :
    List (List ℕ × ℕ) :=
  (List.range numFrequencies).flatMap fun curFreq =>
    let reorderIndex :=
      numFrequencies * valuesPerSquare * curBaseline + curFreq * valuesPerSquare
    let originalIndex :=
      numBaselines * valuesPerSquare * curFreq + curBaseline * valuesPerSquare
    (List.range valuesPerSquare).map fun i => ([reorderIndex + i], originalIndex + i)

def reorderFreqPerBaseline (data : List Sample) (numFrequencies numBaselines npol : ℕ) :
    Option (List Sample) :=
  ((NdArray.full [data.length] 0).copyAll data
    ((List.range numBaselines).flatMap
      (reorderInnerLoop numFrequencies numBaselines (npol * npol)))).map NdArray.data

-- ════════════════════════════════════════════════════════════════════════
-- Phasing
-- ════════════════════════════════════════════════════════════════════════

variable {R : Type}

/-- The slice `x[:,:,j]` of an array with the axes time, channel, baseline, polarization:
the moves that read it. -/
def sliceMoves (times numFrequencies numBaselines pols j : ℕ) : List (List ℕ × ℕ) :=
  (List.range times).flatMap fun t => (List.range numFrequencies).flatMap fun f =>
    (List.range pols).map fun k =>
      ([t, f, k], ((t * numFrequencies + f) * numBaselines + j) * pols + k)

/-- The moves that write it. -/
def storeMoves (times numFrequencies pols j : ℕ) : List (List ℕ × ℕ) :=
  (List.range times).flatMap fun t => (List.range numFrequencies).flatMap fun f =>
    (List.range pols).map fun k => ([t, f, j, k], (t * numFrequencies + f) * pols + k)

/-- `x[:,:,j]` -/
def slice (x : NdArray Sample) (j : ℕ) : Option (NdArray Sample) :=
  match x.shape with
  | [times, numFrequencies, numBaselines, pols] =>
    if j < numBaselines then
      (NdArray.full [times, numFrequencies, pols] 0).copyAll x.data
        (sliceMoves times numFrequencies numBaselines pols j)
    else none
  | _ => none

/-- `x[:,:,j] = values` -/
def storeSlice (x : NdArray Sample) (j : ℕ) (values : NdArray Sample) :
    Option (NdArray Sample) :=
  match x.shape with
  | [times, numFrequencies, numBaselines, pols] =>
    if j < numBaselines then
      x.copyAll values.data (storeMoves times numFrequencies pols j)
    else none
  | _ => none

/-- The pairs of the list comprehension `for j,a in enumerate(ants) for b in ants[:j+1]`. -/
def baselineNames (ants : List String) : List (String × String) :=
  ants.zipIdx.flatMap fun a => (ants.take (a.2 + 1)).map fun b => (a.1, b)

/-- The name of a baseline, `f'{a}-{b}'`. -/
def baselineName (pair : String × String) : String := pair.1 ++ "-" ++ pair.2

/-- `baseline.split('-')[0] == baseline.split('-')[1]` -/
def isAutocorrelation (baseline : String) : Bool :=
  (baseline.toList.splitOn '-')[0]? = (baseline.toList.splitOn '-')[1]?

/-- The corrected data as they are stored, `stop[0]` in the precision of `x_stop`. -/
def Job.corrected (job : Job R) (cross : NdArray Sample) (baseline : String) : NdArray Sample :=
  (job.stopBaseline.run cross baseline).1.map job.round

/-- One pass of the loop over the baselines. -/
def Job.stopPass (job : Job R) (x xStop : NdArray Sample) (j : ℕ) (baseline : String) :
    Option (NdArray Sample) := do
  let cross ← slice x j
  if isAutocorrelation baseline then
    storeSlice xStop j cross
  else
    storeSlice xStop j (job.corrected cross baseline)

/-- `x[:x.size//n*n].reshape((-1, d_num_channels, d_num_baselines, d_npol**2))` -/
def Job.integrations (job : Job R) (file : List UInt8) : Except ScriptError (NdArray Sample) := do
  let npol := job.metadata.polarizations
  let channels := job.obsMetadata.channels
  let numBaselines := job.obsMetadata.numBaselines
  let n := numBaselines * npol * channels
  let x := samples file
  let whole := x.take ((← floorDiv x.length n) * n)
  -- the first dimension is what the others leave
  let cells := channels * numBaselines * (npol ^ 2)
  if cells = 0 then
    .error .valueError
  else
    fitting ((NdArray.ofList whole).reshape
      [whole.length / cells, channels, numBaselines, npol ^ 2])

/-- `numpy.empty_like(x)` -/
def Job.emptyLike (job : Job R) (x : NdArray Sample) : NdArray Sample where
  shape := x.shape
  data := (List.range x.data.length).map job.memory
  size_eq := by rw [List.length_map, List.length_range, x.size_eq]

/-- The phasing branch: the contents of the phased file, and the coordinates. -/
def Job.phase [Zero R] (job : Job R) (file : List UInt8) (nblts : ℕ) (uv : UVData R) :
    Except ScriptError (List UInt8 × UVData R) := do
  let x ← job.integrations file
  let uvw : NdArray R := NdArray.full [x.shape.headD 0, x.shape.getD 2 0, 3] 0
  let baselines := (baselineNames job.metadata.antennaNames).map baselineName
  let xStop ← inRange (baselines.zipIdx.foldlM
    (fun xStop b => job.stopPass x xStop b.2 b.1) (job.emptyLike x))
  let uvw ← fitting (uvw.reshape [nblts, 3])
  let uvwArray ← match uv.uvwArray with
    | none => .ok uvw
    | some rows => fitting (rows.concatenate uvw)
  .ok (tofile xStop.data, { uv with uvwArray := some uvwArray })

-- ════════════════════════════════════════════════════════════════════════
-- The loop through the blocks
-- ════════════════════════════════════════════════════════════════════════

/-- The assignments of a block to its rows. On disk the products are XX, XY, YX and YY, in
the array XX, YY, XY and YX. -/
def polMoves (numBaselines numFrequencies npolSq curBlock : ℕ) : List (List ℕ × ℕ) :=
  (List.range numBaselines).flatMap fun curBaseline =>
    (List.range numFrequencies).flatMap fun curFreq =>
      let row := curBlock * numBaselines + curBaseline
      let start := curBaseline * numFrequencies * npolSq + curFreq * npolSq
      [([row, 0, curFreq, 0], start + 0), ([row, 0, curFreq, 1], start + 3),
        ([row, 0, curFreq, 2], start + 1), ([row, 0, curFreq, 3], start + 2)]

/-- The state of the loop. `assigned` records the indices of `tmp_array` that have been
assigned, in their order. -/
structure BlockState (R : Type) where
  curBlock : ℕ
  tmpArray : NdArray Sample
  uvwArray : Option (NdArray R)
  assigned : List (List ℕ)

/-- The coordinates are appended for a block, unless they come from elsewhere. -/
def Job.appendUvw (job : Job R) (baselineVectors : NdArray R) (uvwArray : Option (NdArray R)) :
    Except ScriptError (Option (NdArray R)) :=
  if !job.metadata.hasUvwFile && !job.metadata.hasAntennaDelays then
    match uvwArray with
    | some rows => (fitting (rows.concatenate baselineVectors)).map some
    | none => .ok (some baselineVectors)
  else
    .ok uvwArray

/-- The body of the loop, for a block that was read completely. -/
def Job.storeBlock (job : Job R) (baselineVectors : NdArray R) (s : BlockState R)
    (ccDataVector : List Sample) : Except ScriptError (BlockState R) := do
  let npol := job.metadata.polarizations
  let channels := job.obsMetadata.channels
  let numBaselines := job.obsMetadata.numBaselines
  let reordered ← inRange (reorderFreqPerBaseline ccDataVector channels numBaselines npol)
  let moves := polMoves numBaselines channels (npol * npol) s.curBlock
  let tmpArray ← inRange (s.tmpArray.copyAll reordered moves)
  let uvwArray ← job.appendUvw baselineVectors s.uvwArray
  .ok ⟨s.curBlock + 1, tmpArray, uvwArray, s.assigned ++ moves.map Prod.fst⟩

/-- The loop, which ends with the first block that is not complete. -/
def Job.blockLoop (job : Job R) (baselineVectors : NdArray R) :
    ℕ → List UInt8 → BlockState R → Except ScriptError (BlockState R)
  | 0, _, _ => .error .endless
  | fuel + 1, f, s => do
    let (ccDataVector, rest) := fromfile job.obsMetadata.samplesPerBlock f
    if ccDataVector.length < job.obsMetadata.samplesPerBlock then
      .ok s
    else
      let s ← job.storeBlock baselineVectors s ccDataVector
      job.blockLoop baselineVectors fuel rest s

-- ════════════════════════════════════════════════════════════════════════
-- A data file
-- ════════════════════════════════════════════════════════════════════════

/-- The pairs of antennas in the order in which they are appended for a block. -/
def antennaPairs (numAntennas : ℕ) : List (ℕ × ℕ) :=
  (List.range numAntennas).flatMap fun a1 =>
    ((List.range numAntennas).filter fun a2 => a2 ≤ a1).map fun a2 => (a1, a2)

/-- The script phases the data itself. -/
def Job.phases (job : Job R) : Bool :=
  let correctForDelay := job.metadata.correctForDelay.getD (!job.noDelayCorrect)
  job.metadata.hasAntennaDelays ||
    (job.metadata.telescopeName == "ATA" && correctForDelay == false)

/-- What is left of a data file: the arrays, the number of blocks that is printed, and the
phased file. -/
structure FileResult (R : Type) where
  uv : UVData R
  blocksRead : ℕ
  phasedFile : Option (List UInt8)
  assigned : List (List ℕ)

/-- The rows of a file are announced: for each block all pairs of antennas and all baselines. -/
def Job.addRows (job : Job R) (numTimeBlocks : ℕ) (uv : UVData R) : UVData R :=
  let numBaselines := job.obsMetadata.numBaselines
  let pairs := (List.range numTimeBlocks).flatMap fun _ =>
    antennaPairs job.metadata.antennaNames.length
  { uv with
    nblts := uv.nblts + numTimeBlocks * numBaselines
    ant1Array := uv.ant1Array ++ pairs.map Prod.fst
    ant2Array := uv.ant2Array ++ pairs.map Prod.snd
    baselineArray := uv.baselineArray ++
      (List.range numTimeBlocks).flatMap fun _ => List.range numBaselines }

/-- The blocks of the file, or of the phased one, are stored and appended to the data. -/
def Job.storeFile (job : Job R) (baselineVectors : NdArray R) (nblts : ℕ)
    (phasedFile : Option (List UInt8)) (file : List UInt8) (uv : UVData R) :
    Except ScriptError (FileResult R) := do
  let npol := job.metadata.polarizations
  let tmpArray := NdArray.full [nblts, 1, job.obsMetadata.channels, npol * npol] 0
  let f := phasedFile.getD file
  let s ← job.blockLoop baselineVectors (f.length + 1) f ⟨0, tmpArray, uv.uvwArray, []⟩
  let dataArray ← match uv.dataArray with
    | none => .ok s.tmpArray
    | some rows => fitting (rows.concatenate s.tmpArray)
  .ok ⟨{ uv with uvwArray := s.uvwArray, dataArray := some dataArray }, s.curBlock, phasedFile,
    s.assigned⟩

/-- The pass of the loop over the data files for a file with given contents. -/
def Job.processFile [Zero R] (job : Job R) (baselineVectors : NdArray R) (file : List UInt8)
    (uv : UVData R) : Except ScriptError (FileResult R) := do
  let numTimeBlocks ← floorDiv file.length job.obsMetadata.bytesPerBlock
  let nblts := numTimeBlocks * job.obsMetadata.numBaselines
  let uv := job.addRows numTimeBlocks uv
  if job.phases then
    let (phasedFile, uv) ← job.phase file nblts uv
    job.storeFile baselineVectors nblts (some phasedFile) file uv
  else
    job.storeFile baselineVectors nblts none file uv

end GrAta.Observation
