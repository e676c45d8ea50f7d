import GrAta.Library.Blocks
import GrAta.Observation.Files
import Mathlib.Data.List.Induction

/-!
# Rows of an observation

The rows of all data files stand one behind the other, and each row describes its block and
its baseline. The sample counts of a second file are put behind the flags instead of the counts
so far. So the counts belong to their rows only while there is one data file.

## Main definitions

- `Tables.Describes`: what the arrays say about a row
- `Tables.Aligned`: the arrays have the same number of rows
- `Counted`: the sample counts belong to the rows
- `Tables.Holds`: the arrays after some data files

## Main results

- `Tables.Holds.append`: one more data file
- `Job.processFiles_describes`: every row, in any list of files
-/

namespace GrAta.Observation

variable {R T : Type}

/-- Row `r` describes baseline `(i, j)` in block `t` of a file. -/
structure Tables.Describes (tables : Tables R T) (clock : Clock T) (vectors : NdArray R)
    (B F r : ℕ) (f : DataFile R) (t i j : ℕ) : Prop where
  ant1Array : tables.uv.ant1Array[r]? = some i
  ant2Array : tables.uv.ant2Array[r]? = some j
  baselineArray : tables.uv.baselineArray[r]? = some (i * (i + 1) / 2 + j)
  timeArray : (tables.timeArray.bind fun times => times[r]?) = some (clock.block f.firstSeqNum t)
  integrationTime : (tables.integrationTime.bind fun times => times[r]?) =
    some clock.integrationTimeSeconds
  flagArray : ∀ c < F, ∀ k < 4, NdArray.at? tables.flagArray [r, 0, c, k] = some false
  dataArray : ∀ c < F, ∀ k < 4, ∃ z,
    (samples f.contents)[t * f.obsMetadata.samplesPerBlock + c * B * 4 +
      (i * (i + 1) / 2 + j) * 4 + polIndex k]? = some z ∧
      NdArray.at? tables.uv.dataArray [r, 0, c, k] = some z
  uvwArray : ∀ axis < 3, NdArray.at? tables.uv.uvwArray [r, axis] =
    vectors.get? [i * (i + 1) / 2 + j, axis]

/-- All arrays but the sample counts have the given number of rows. -/
structure Tables.Aligned (tables : Tables R T) (n : ℕ) : Prop where
  nblts : tables.uv.nblts = n
  ant1Array : tables.uv.ant1Array.length = n
  ant2Array : tables.uv.ant2Array.length = n
  baselineArray : tables.uv.baselineArray.length = n
  timeArray : (tables.timeArray.getD []).length = n
  integrationTime : (tables.integrationTime.getD []).length = n
  flagArray : NdArray.rows tables.flagArray = n
  dataArray : NdArray.rows tables.uv.dataArray = n
  uvwArray : NdArray.rows tables.uv.uvwArray = n

/-- There are sample counts for the given rows, and each of them is that of its file. -/
structure Counted (nsampleArray : Option (NdArray ℚ)) (B F : ℕ)
    (blocks : List (DataFile R × ℕ)) : Prop where
  rows : NdArray.rows nsampleArray = blocks.length * B
  cells : ∀ n f t, blocks[n]? = some (f, t) → ∀ b < B, ∀ c < F, ∀ k < 4,
    NdArray.at? nsampleArray [n * B + b, 0, c, k] = some (f.ntime : ℚ)

variable {job : Job R} {clock : Clock T} {vectors : NdArray R} {B F : ℕ}

-- ════════════════════════════════════════════════════════════════════════
-- All data files
-- ════════════════════════════════════════════════════════════════════════

/-- The sample counts after some files: none, those of one file, or behind the flags of all
rows once more those of the last file. -/
inductive Counts (B F : ℕ) : List (DataFile R) → Option (NdArray ℚ) → Prop
  | none : Counts B F [] none
  | one {f : DataFile R} {counts : NdArray ℚ}
      (hrows : NdArray.rows (some counts) = f.numTimeBlocks * B)
      (hcells : ∀ r < f.numTimeBlocks * B, ∀ c < F, ∀ k < 4,
        counts.get? [r, 0, c, k] = some (f.ntime : ℚ)) : Counts B F [f] (some counts)
  | more {files : List (DataFile R)} {f : DataFile R} {counts : NdArray ℚ} (hfiles : files ≠ [])
      (hrows : NdArray.rows (some counts) =
        (blocksOf (files ++ [f])).length * B + f.numTimeBlocks * B)
      (hcells : ∀ r < (blocksOf (files ++ [f])).length * B, ∀ c < F, ∀ k < 4,
        counts.get? [r, 0, c, k] = some 0) : Counts B F (files ++ [f]) (some counts)

/-- The arrays after some data files. -/
structure Tables.Holds (tables : Tables R T) (job : Job R) (clock : Clock T)
    (vectors : NdArray R) (B F : ℕ) (files : List (DataFile R)) : Prop where
  nfreqs : tables.nfreqs = if files = [] then 0 else F
  nblts : tables.uv.nblts = (blocksOf files).length * B
  ant1Array : tables.uv.ant1Array = (blocksOf files).flatMap fun _ =>
    (antennaPairs job.metadata.antennaNames.length).map Prod.fst
  ant2Array : tables.uv.ant2Array = (blocksOf files).flatMap fun _ =>
    (antennaPairs job.metadata.antennaNames.length).map Prod.snd
  baselineArray : tables.uv.baselineArray = (blocksOf files).flatMap fun _ => List.range B
  timeArray : tables.timeArray.getD [] = (blocksOf files).flatMap fun p =>
    List.replicate B (clock.block p.1.firstSeqNum p.2)
  integrationTime : tables.integrationTime.getD [] =
    List.replicate ((blocksOf files).length * B) clock.integrationTimeSeconds
  shaped : tables.uv.Shaped F
  flagShape : ∀ rows, tables.flagArray = some rows →
    rows.shape = [NdArray.rows tables.flagArray, 1, F, 4]
  flagRows : NdArray.rows tables.flagArray = (blocksOf files).length * B
  flags : ∀ r < (blocksOf files).length * B, ∀ c < F, ∀ k < 4,
    NdArray.at? tables.flagArray [r, 0, c, k] = some false
  dataRows : NdArray.rows tables.uv.dataArray = (blocksOf files).length * B
  data : ∀ n f t, (blocksOf files)[n]? = some (f, t) → ∀ b < B, ∀ c < F, ∀ k < 4, ∃ z,
    (samples f.contents)[t * f.obsMetadata.samplesPerBlock + c * B * 4 + b * 4 + polIndex k]? =
      some z ∧ NdArray.at? tables.uv.dataArray [n * B + b, 0, c, k] = some z
  uvwRows : NdArray.rows tables.uv.uvwArray = (blocksOf files).length * B
  uvw : ∀ n < (blocksOf files).length, ∀ b < B, ∀ axis v, vectors.get? [b, axis] = some v →
    NdArray.at? tables.uv.uvwArray [n * B + b, axis] = some v
  counts : Counts B F files tables.nsampleArray

theorem blocksOf_append (files : List (DataFile R)) (f : DataFile R) :
    blocksOf (files ++ [f]) =
      blocksOf files ++ (List.range f.numTimeBlocks).map fun t => (f, t) := by
  rw [blocksOf, List.flatMap_append, List.flatMap_singleton]
  rfl

theorem length_blocksOf_append (files : List (DataFile R)) (f : DataFile R) :
    (blocksOf (files ++ [f])).length = (blocksOf files).length + f.numTimeBlocks := by
  rw [blocksOf_append, List.length_append, List.length_map, List.length_range]

theorem getElem?_blocksOf_append {files : List (DataFile R)} {f f' : DataFile R} {n t : ℕ}
    (h : (blocksOf (files ++ [f]))[n]? = some (f', t)) :
    (blocksOf files)[n]? = some (f', t) ∨
      n = (blocksOf files).length + t ∧ t < f.numTimeBlocks ∧ f' = f := by
  rw [blocksOf_append] at h
  rcases Nat.lt_or_ge n (blocksOf files).length with hlt | hge
  · rw [List.getElem?_append_left hlt] at h
    exact .inl h
  · rw [List.getElem?_append_right hge, List.getElem?_map] at h
    obtain ⟨t', ht', heq⟩ := Option.map_eq_some_iff.mp h
    obtain ⟨rfl, rfl⟩ := Prod.mk.inj heq
    obtain ⟨hlt, hget⟩ := List.getElem?_eq_some_iff.mp ht'
    rw [List.getElem_range] at hget
    rw [List.length_range] at hlt
    exact .inr ⟨by omega, hget ▸ hlt, rfl⟩

theorem Clock.appendTime_eq {numBaselines firstSeqNum curBlock : ℕ} {timeArray : Option (List T)}
    (h : timeArray = none → curBlock = 0) :
    clock.appendTime numBaselines firstSeqNum timeArray curBlock = some (timeArray.getD [] ++
      List.replicate numBaselines (clock.block firstSeqNum curBlock)) := by
  cases timeArray with
  | some times => rfl
  | none => rw [h rfl, clock.block_zero]; rfl

/-- The dates of the blocks of a file. -/
theorem Clock.foldl_appendTime (numBaselines firstSeqNum : ℕ) (timeArray : Option (List T))
    (n : ℕ) :
    ((List.range n).foldl (clock.appendTime numBaselines firstSeqNum) timeArray).getD [] =
      timeArray.getD [] ++ (List.range n).flatMap fun t =>
        List.replicate numBaselines (clock.block firstSeqNum t) := by
  suffices h : ∃ times, (List.range n).foldl (clock.appendTime numBaselines firstSeqNum) timeArray =
      times ∧ (times = none → n = 0) ∧ times.getD [] = timeArray.getD [] ++
        (List.range n).flatMap fun t =>
          List.replicate numBaselines (clock.block firstSeqNum t) by
    obtain ⟨times, hfold, -, htimes⟩ := h
    rw [hfold, htimes]
  induction n with
  | zero => exact ⟨timeArray, rfl, fun _ => rfl, (List.append_nil _).symm⟩
  | succ n ih =>
    obtain ⟨times, hfold, hnone, htimes⟩ := ih
    refine ⟨_, rfl, ?_, ?_⟩
    all_goals
      rw [List.range_succ, List.foldl_append, hfold, List.foldl_cons, List.foldl_nil,
        Clock.appendTime_eq hnone]
    · exact fun h => nomatch h
    · rw [Option.getD_some, htimes, List.flatMap_append, List.flatMap_singleton,
        List.append_assoc]

variable {files : List (DataFile R)} {f : DataFile R} {tables : Tables R T}

/-- The counts of one more file. -/
theorem Counts.append {nsampleArray : Option (NdArray ℚ)} (h : Counts B F files nsampleArray)
    {flagArray : NdArray Bool}
    (hshape : flagArray.shape = [(blocksOf (files ++ [f])).length * B, 1, F, 4])
    (hflags : ∀ r < (blocksOf (files ++ [f])).length * B, ∀ c < F, ∀ k < 4,
      flagArray.get? [r, 0, c, k] = some false) :
    ∃ counts, appendCounts nsampleArray flagArray
        (NdArray.full [f.numTimeBlocks * B, 1, F, 2 * 2] (f.ntime : ℚ)) = .ok counts ∧
      Counts B F (files ++ [f]) (some counts) := by
  have hbehind : files ≠ [] → ∀ old, ∃ counts, appendCounts (some old) flagArray
      (NdArray.full [f.numTimeBlocks * B, 1, F, 2 * 2] (f.ntime : ℚ)) = .ok counts ∧
        Counts B F (files ++ [f]) (some counts) := by
    intro hfiles old
    have hnumbers : NdArray.rows (some (flagArray.map boolToNumber)) =
        (blocksOf (files ++ [f])).length * B := NdArray.rows_of_shape hshape
    have hmap : (flagArray.map boolToNumber).shape =
        [NdArray.rows (some (flagArray.map boolToNumber)), 1, F, 4] := by
      rw [hnumbers]
      exact hshape
    have hfull : (NdArray.full [f.numTimeBlocks * B, 1, F, 2 * 2] (f.ntime : ℚ)).shape =
        [NdArray.rows (some (NdArray.full [f.numTimeBlocks * B, 1, F, 2 * 2] (f.ntime : ℚ))),
          1, F, 4] := rfl
    obtain ⟨counts, hcat, hextends⟩ := NdArray.exists_extends hmap hfull
    refine ⟨counts, by rw [appendCounts, hcat]; rfl, .more hfiles ?_ fun r hr c hc k hk => ?_⟩
    · rw [hextends.rows_eq, hnumbers]
      rfl
    · refine hextends.get?_left ?_
      have hflag := hflags r hr c hc k hk
      exact NdArray.get?_map boolToNumber hflag
  cases h with
  | none =>
    refine ⟨_, rfl, .one rfl fun r hr c hc k hk => ?_⟩
    have hwithin : NdArray.Within [f.numTimeBlocks * B, 1, F, 2 * 2] [r, 0, c, k] :=
      ⟨hr, Nat.one_pos, hc, hk, trivial⟩
    exact NdArray.get?_full hwithin _
  | one => exact hbehind (List.cons_ne_nil _ _) _
  | more => exact hbehind (List.append_ne_nil_of_right_ne_nil _ (List.cons_ne_nil _ _)) _

/-- The arrays after a data file that fits. -/
theorem Job.processListed_eq [Zero R] (hfits : (job.forFile f).Fits B F 2)
    {flagArray : NdArray Bool} {counts : NdArray ℚ} {result : FileResult R}
    (hflags : appendRows tables.flagArray
      (NdArray.full [f.numTimeBlocks * B, 1, F, 2 * 2] false) = .ok flagArray)
    (hcounts : appendCounts tables.nsampleArray flagArray
      (NdArray.full [f.numTimeBlocks * B, 1, F, 2 * 2] (f.ntime : ℚ)) = .ok counts)
    (hresult : (job.forFile f).processFile vectors f.contents tables.uv = .ok result) :
    job.processListed clock vectors tables (.dataFile f) =
      .ok
        { uv := result.uv
          nfreqs := if tables.nfreqs = 0 then F else tables.nfreqs
          integrationTime := some (appendList tables.integrationTime
            (List.replicate (f.numTimeBlocks * B) clock.integrationTimeSeconds))
          flagArray := some flagArray
          nsampleArray := some counts
          timeArray := (List.range result.blocksRead).foldl
            (clock.appendTime B f.firstSeqNum) tables.timeArray } := by
  have hB : f.obsMetadata.numBaselines = B := hfits.numBaselines
  have hF : f.obsMetadata.channels = F := hfits.channels
  have hp : job.metadata.polarizations = 2 := hfits.polarizations
  have hpos : 0 < f.obsMetadata.bytesPerBlock := hfits.bytesPerBlock_pos
  rw [Job.processListed, floorDiv_of_pos hpos, ok_bind, hB, hF, hp, ← DataFile.numTimeBlocks]
  simp only [hflags, hcounts, hresult, ok_bind]

/-- **One more data file.** -/
theorem Tables.Holds.append [Zero R] (h : tables.Holds job clock vectors B F files)
    (hfits : (job.forFile f).Fits B F 2) (hphases : job.phases = false)
    (huvw : job.metadata.hasUvwFile = false) (hvectors : vectors.shape = [B, 3]) :
    ∃ tables', job.processListed clock vectors tables (.dataFile f) = .ok tables' ∧
      tables'.Holds job clock vectors B F (files ++ [f]) := by
  have hlen := length_blocksOf_append files f
  have hrows : (blocksOf (files ++ [f])).length * B =
      (blocksOf files).length * B + f.numTimeBlocks * B := by rw [hlen, Nat.add_mul]
  obtain ⟨result, hresult, hextends⟩ := hfits.processFile_extends hphases huvw hvectors h.shaped
    f.contents
  change FileResult.ExtendsBy result (job.forFile f) vectors B F f.contents tables.uv
    f.numTimeBlocks at hextends
  have hflagShape : (NdArray.full [f.numTimeBlocks * B, 1, F, 2 * 2] false).shape =
      [NdArray.rows (some (NdArray.full [f.numTimeBlocks * B, 1, F, 2 * 2] false)), 1, F, 4] := rfl
  obtain ⟨flagArray, hflagArray, hflags⟩ := exists_appendRows h.flagShape hflagShape
  have hflagRows : NdArray.rows (some flagArray) = (blocksOf (files ++ [f])).length * B := by
    rw [hflags.rows_eq, h.flagRows, hrows]
    rfl
  have hunflagged : ∀ r < (blocksOf (files ++ [f])).length * B, ∀ c < F, ∀ k < 4,
      flagArray.get? [r, 0, c, k] = some false := by
    intro r hr c hc k hk
    rcases Nat.lt_or_ge r ((blocksOf files).length * B) with hlt | hge
    · exact hflags.get?_left (h.flags r hlt c hc k hk)
    · obtain ⟨r', rfl⟩ := Nat.exists_eq_add_of_le hge
      rw [← h.flagRows]
      have hwithin : NdArray.Within [f.numTimeBlocks * B, 1, F, 2 * 2] [r', 0, c, k] :=
        ⟨by omega, Nat.one_pos, hc, hk, trivial⟩
      exact hflags.get?_right (NdArray.get?_full hwithin false)
  have hnewShape : flagArray.shape = [(blocksOf (files ++ [f])).length * B, 1, F, 4] := by
    rw [hflags.shape, ← hflags.rows_eq, hflagRows]
  obtain ⟨counts, hcounts, hcounts'⟩ := h.counts.append hnewShape hunflagged
  have huv := hextends.rows
  have hB : f.obsMetadata.numBaselines = B := hfits.numBaselines
  refine ⟨_, Job.processListed_eq hfits hflagArray hcounts hresult, ?_⟩
  exact
    { nfreqs := by
        rw [if_neg (List.append_ne_nil_of_right_ne_nil _ (List.cons_ne_nil _ _)), h.nfreqs]
        split <;> simp
      nblts := by
        have hnblts : result.uv.nblts =
            tables.uv.nblts + f.numTimeBlocks * f.obsMetadata.numBaselines :=
          congrArg UVData.nblts huv
        rw [hnblts, h.nblts, hB, hrows]
      ant1Array := by
        rw [blocksOf_append, List.flatMap_append, List.flatMap_map, ← h.ant1Array,
          ← List.map_flatMap]
        exact congrArg UVData.ant1Array huv
      ant2Array := by
        rw [blocksOf_append, List.flatMap_append, List.flatMap_map, ← h.ant2Array,
          ← List.map_flatMap]
        exact congrArg UVData.ant2Array huv
      baselineArray := by
        rw [blocksOf_append, List.flatMap_append, List.flatMap_map, ← h.baselineArray, ← hB]
        exact congrArg UVData.baselineArray huv
      timeArray := by
        rw [Clock.foldl_appendTime, h.timeArray, hextends.blocks, blocksOf_append,
          List.flatMap_append, List.flatMap_map]
      integrationTime := by
        have happend : (some (appendList tables.integrationTime
            (List.replicate (f.numTimeBlocks * B) clock.integrationTimeSeconds))).getD [] =
              tables.integrationTime.getD [] ++
                List.replicate (f.numTimeBlocks * B) clock.integrationTimeSeconds := by
          cases tables.integrationTime <;> rfl
        rw [happend, h.integrationTime, hrows, List.replicate_append_replicate]
      shaped := hextends.shaped
      flagShape := by
        intro rows heq
        rw [← Option.some.inj heq, hflagRows]
        exact hnewShape
      flagRows := hflagRows
      flags := hunflagged
      dataRows := by rw [hextends.dataRows, h.dataRows, hrows]
      data := by
        intro n f' t hn b hb c hc k hk
        rcases getElem?_blocksOf_append hn with hold | ⟨rfl, ht, rfl⟩
        · obtain ⟨z, hz, hcell⟩ := h.data n f' t hold b hb c hc k hk
          exact ⟨z, hz, hextends.old hcell⟩
        · obtain ⟨z, hz, hcell⟩ := hextends.new ht hb hc hk
          refine ⟨z, hz, ?_⟩
          rwa [h.dataRows, ← Nat.add_assoc, ← Nat.add_mul] at hcell
      uvwRows := by rw [hextends.uvw.rows, h.uvwRows, hrows]
      uvw := by
        intro n hn b hb axis v hv
        rcases Nat.lt_or_ge n (blocksOf files).length with hlt | hge
        · exact hextends.uvw.old (h.uvw n hlt b hb axis v hv)
        · obtain ⟨t, rfl⟩ := Nat.exists_eq_add_of_le hge
          have hcell := hextends.uvw.new (t := t) (by omega) hb hv
          rwa [h.uvwRows, ← Nat.add_assoc, ← Nat.add_mul] at hcell
      counts := hcounts' }

theorem Tables.holds_initial (job : Job R) (clock : Clock T) (vectors : NdArray R) (B F : ℕ) :
    (Tables.initial : Tables R T).Holds job clock vectors B F [] where
  nfreqs := rfl
  nblts := (Nat.zero_mul B).symm
  ant1Array := rfl
  ant2Array := rfl
  baselineArray := rfl
  timeArray := rfl
  integrationTime := by rw [blocksOf, List.flatMap_nil, List.length_nil, Nat.zero_mul]; rfl
  shaped := ⟨fun _ h => (nomatch h), fun _ h => nomatch h⟩
  flagShape := fun _ h => nomatch h
  flagRows := (Nat.zero_mul B).symm
  flags r hr := absurd ((Nat.zero_mul B).symm ▸ hr) (Nat.not_lt_zero r)
  dataRows := (Nat.zero_mul B).symm
  data n f t h := nomatch h
  uvwRows := (Nat.zero_mul B).symm
  uvw n hn := absurd hn (Nat.not_lt_zero n)
  counts := .none

/-- **All entries** of the list. -/
theorem Job.processFiles_holds [Zero R] (clock : Clock T) (hphases : job.phases = false)
    (huvw : job.metadata.hasUvwFile = false) (hvectors : vectors.shape = [B, 3])
    {listed : List (Listed R)} (hkeys : .missingKey ∉ listed)
    (hfits : ∀ f ∈ listed.filterMap Listed.dataFile?, (job.forFile f).Fits B F 2) :
    ∃ tables : Tables R T, job.processFiles clock vectors listed = .ok tables ∧
      tables.Holds job clock vectors B F (listed.filterMap Listed.dataFile?) := by
  induction listed using List.reverseRecOn with
  | nil => exact ⟨_, rfl, Tables.holds_initial job clock vectors B F⟩
  | append_singleton listed entry ih =>
    rw [List.mem_append, not_or, List.mem_singleton] at hkeys
    rw [List.filterMap_append] at hfits ⊢
    obtain ⟨tables, hlisted, hholds⟩ := ih hkeys.1 fun f hf => hfits f (List.mem_append_left _ hf)
    rw [Job.processFiles] at hlisted ⊢
    rw [List.foldlM_append, hlisted, ok_bind, List.foldlM_cons]
    cases entry with
    | missingKey => exact absurd rfl hkeys.2
    | skipped => exact ⟨tables, rfl, (List.append_nil _).symm ▸ hholds⟩
    | dataFile f =>
      obtain ⟨tables', hfile, hholds'⟩ := hholds.append
        (hfits f (List.mem_append_right _ (List.mem_singleton_self f))) hphases huvw hvectors
      exact ⟨tables', by rw [hfile]; rfl, hholds'⟩

/-- The rows of the arrays. -/
theorem Tables.Holds.aligned (h : tables.Holds job clock vectors B F files)
    (hpairs : files ≠ [] → B = Triangular.size job.metadata.antennaNames.length) :
    tables.Aligned ((blocksOf files).length * B) := by
  have hlength : ∀ g : ℕ × ℕ → ℕ, ((blocksOf files).flatMap fun _ =>
      (antennaPairs job.metadata.antennaNames.length).map g).length =
        (blocksOf files).length * B := by
    intro g
    by_cases hnil : files = []
    · rw [hnil]
      exact (Nat.zero_mul B).symm
    · refine Blocks.length_flatMap (fun _ => ?_) _
      rw [List.length_map, antennaPairs_eq, Triangular.pairs_length, ← hpairs hnil]
  exact
    { nblts := h.nblts
      ant1Array := by rw [h.ant1Array, hlength]
      ant2Array := by rw [h.ant2Array, hlength]
      baselineArray := by
        rw [h.baselineArray, Blocks.length_flatMap fun _ => List.length_range]
      timeArray := by
        rw [h.timeArray, Blocks.length_flatMap fun _ => List.length_replicate]
      integrationTime := by rw [h.integrationTime, List.length_replicate]
      flagArray := h.flagRows
      dataArray := h.dataRows
      uvwArray := h.uvwRows }

theorem bind_getElem? {α : Type} {l : Option (List α)} {r : ℕ} {x : α}
    (h : (l.getD [])[r]? = some x) : (l.bind fun l => l[r]?) = some x := by
  cases l with
  | none => cases h
  | some l => exact h

/-- What the arrays say about the rows. -/
theorem Tables.Holds.describes (h : tables.Holds job clock vectors B F files)
    (hpairs : B = Triangular.size job.metadata.antennaNames.length)
    (hvectors : vectors.shape = [B, 3]) {n t i j : ℕ}
    (hn : (blocksOf files)[n]? = some (f, t)) (hi : i < job.metadata.antennaNames.length)
    (hj : j ≤ i) :
    tables.Describes clock vectors B F (n * B + (i * (i + 1) / 2 + j)) f t i j := by
  have hb : i * (i + 1) / 2 + j < B := hpairs ▸ Triangular.size_add_lt hj hi
  have hlt : n < (blocksOf files).length := (List.getElem?_eq_some_iff.mp hn).1
  have hrow : n * B + (i * (i + 1) / 2 + j) < (blocksOf files).length * B := by
    have hle : (n + 1) * B ≤ (blocksOf files).length * B := Nat.mul_le_mul_right B hlt
    rw [Nat.add_mul, Nat.one_mul] at hle
    omega
  have hlength : ∀ g : ℕ × ℕ → ℕ,
      ((antennaPairs job.metadata.antennaNames.length).map g).length = B := by
    intro g
    rw [List.length_map, antennaPairs_eq, Triangular.pairs_length, hpairs]
  have hpair : (antennaPairs job.metadata.antennaNames.length)[i * (i + 1) / 2 + j]? =
      some (i, j) := by
    rw [antennaPairs_eq]
    exact Triangular.pairs_getElem? hj hi
  exact
    { ant1Array := by
        rw [h.ant1Array, Blocks.getElem?_flatMap (fun _ => hlength Prod.fst) hn hb,
          List.getElem?_map, hpair]
        rfl
      ant2Array := by
        rw [h.ant2Array, Blocks.getElem?_flatMap (fun _ => hlength Prod.snd) hn hb,
          List.getElem?_map, hpair]
        rfl
      baselineArray := by
        rw [h.baselineArray, Blocks.getElem?_flatMap (fun _ => List.length_range) hn hb,
          List.getElem?_range hb]
      timeArray := by
        refine bind_getElem? ?_
        rw [h.timeArray, Blocks.getElem?_flatMap (fun _ => List.length_replicate) hn hb,
          List.getElem?_replicate, if_pos hb]
      integrationTime := by
        refine bind_getElem? ?_
        rw [h.integrationTime, List.getElem?_replicate, if_pos hrow]
      flagArray := h.flags _ hrow
      dataArray := h.data n f t hn _ hb
      uvwArray := by
        intro axis haxis
        have hwithin : NdArray.Within vectors.shape [i * (i + 1) / 2 + j, axis] := by
          rw [hvectors]
          exact NdArray.within_two hb haxis
        obtain ⟨v, hv⟩ := Option.isSome_iff_exists.mp (NdArray.get?_isSome hwithin)
        rw [hv]
        exact h.uvw n hlt _ hb axis v hv }

/-- The sample counts belong to the rows while there is one data file. -/
theorem Counts.counted_iff {nsampleArray : Option (NdArray ℚ)}
    (h : Counts B F files nsampleArray) (hpos : files ≠ [] → 0 < B ∧ 0 < F) :
    Counted nsampleArray B F (blocksOf files) ↔ files.length ≤ 1 ∨
      (∃ last ∈ files.getLast?, last.numTimeBlocks = 0) ∧ ∀ p ∈ blocksOf files, p.1.ntime = 0 := by
  cases h with
  | none =>
    exact iff_of_true ⟨(Nat.zero_mul B).symm, fun n f t hn => nomatch hn⟩ (.inl (Nat.zero_le 1))
  | @one f counts hrows hcells =>
    have hlen : (blocksOf [f]).length = f.numTimeBlocks :=
      (length_blocksOf_append [] f).trans (Nat.zero_add _)
    refine iff_of_true ⟨hrows.trans (hlen ▸ rfl), fun n f' t hn b hb c hc k hk => ?_⟩
      (.inl le_rfl)
    have hn : (blocksOf ([] ++ [f]))[n]? = some (f', t) := hn
    rcases getElem?_blocksOf_append hn with hold | ⟨rfl, ht, rfl⟩
    · cases hold
    · refine hcells _ ?_ c hc k hk
      have hle : (t + 1) * B ≤ f'.numTimeBlocks * B := Nat.mul_le_mul_right B ht
      rw [Nat.add_mul, Nat.one_mul] at hle
      have hzero : (blocksOf ([] : List (DataFile R))).length = 0 := rfl
      rw [hzero, Nat.zero_add]
      omega
  | @more files f counts hfiles hrows hcells =>
    obtain ⟨hB, hF⟩ := hpos (List.append_ne_nil_of_right_ne_nil _ (List.cons_ne_nil _ _))
    have hmany : ¬(files ++ [f]).length ≤ 1 := by
      have := List.length_pos_of_ne_nil hfiles
      rw [List.length_append, List.length_singleton]
      omega
    rw [or_iff_right hmany, List.getLast?_append_of_ne_nil _ (List.cons_ne_nil _ _)]
    simp only [List.getLast?_singleton, Option.mem_some_iff, exists_eq_left']
    have hrow : ∀ n p, (blocksOf (files ++ [f]))[n]? = some p → ∀ b < B,
        n * B + b < (blocksOf (files ++ [f])).length * B := by
      intro n p hn b hb
      have hle : (n + 1) * B ≤ (blocksOf (files ++ [f])).length * B :=
        Nat.mul_le_mul_right B (List.getElem?_eq_some_iff.mp hn).1
      rw [Nat.add_mul, Nat.one_mul] at hle
      omega
    constructor
    · intro hcounted
      constructor
      · have hsame := hrows.symm.trans hcounted.rows
        have hnone : f.numTimeBlocks * B = 0 := by omega
        exact (Nat.mul_eq_zero.mp hnone).resolve_right hB.ne'
      · intro p hp
        obtain ⟨n, hn⟩ := List.mem_iff_getElem?.mp hp
        have hcell := hcounted.cells n p.1 p.2 hn 0 hB 0 hF 0 (by decide)
        have hzero := hcells _ (hrow n p hn 0 hB) 0 hF 0 (by decide)
        exact Nat.cast_eq_zero.mp (Option.some.inj (hcell.symm.trans hzero))
    · rintro ⟨hlast, hnone⟩
      refine ⟨by rw [hrows, hlast, Nat.zero_mul, Nat.add_zero], ?_⟩
      intro n f' t hn b hb c hc k hk
      rw [hnone _ (List.mem_of_getElem? hn), Nat.cast_zero]
      exact hcells _ (hrow n _ hn b hb) c hc k hk

/-- **Several files.** In any list of data files without phasing, every row of the arrays
describes its baseline in its block, and all arrays have the same number of rows. The sample
counts belong to the rows exactly when there is at most one data file, or none of the samples
has been counted. -/
theorem Job.processFiles_describes [Zero R] (job : Job R) (clock : Clock T)
    (hphases : job.phases = false) (huvw : job.metadata.hasUvwFile = false)
    (hvectors : vectors.shape = [B, 3]) {listed : List (Listed R)} (hkeys : .missingKey ∉ listed)
    (hfits : ∀ f ∈ listed.filterMap Listed.dataFile?, (job.forFile f).Fits B F 2) :
    let files := listed.filterMap Listed.dataFile?
    ∃ tables : Tables R T, job.processFiles clock vectors listed = .ok tables ∧
      tables.nfreqs = (if files = [] then 0 else F) ∧
      tables.Aligned ((blocksOf files).length * B) ∧
      (∀ n f t, (blocksOf files)[n]? = some (f, t) →
        ∀ i < job.metadata.antennaNames.length, ∀ j ≤ i,
          tables.Describes clock vectors B F (n * B + (i * (i + 1) / 2 + j)) f t i j) ∧
      (Counted tables.nsampleArray B F (blocksOf files) ↔ files.length ≤ 1 ∨
        (∃ last ∈ files.getLast?, last.numTimeBlocks = 0) ∧
          ∀ p ∈ blocksOf files, p.1.ntime = 0) := by
  intro files
  obtain ⟨tables, hlisted, hholds⟩ :=
    Job.processFiles_holds clock hphases huvw hvectors hkeys hfits
  have hpairs : files ≠ [] → B = Triangular.size job.metadata.antennaNames.length := by
    intro hne
    obtain ⟨f, hf⟩ := List.exists_mem_of_ne_nil files hne
    exact (hfits f hf).pairs
  have hpos : files ≠ [] → 0 < B ∧ 0 < F := by
    intro hne
    obtain ⟨f, hf⟩ := List.exists_mem_of_ne_nil files hne
    exact ⟨(hfits f hf).baselines_pos, (hfits f hf).channels_pos⟩
  refine ⟨tables, hlisted, hholds.nfreqs, hholds.aligned hpairs, ?_,
    hholds.counts.counted_iff hpos⟩
  intro n f t hn i hi j hj
  have hne : files ≠ [] := by
    rintro hnil
    rw [hnil] at hn
    cases hn
  exact hholds.describes (hpairs hne) hvectors hn hi hj

/-- The dates as pairs of the sequence number and the block. -/
def pairClock : Clock (ℕ × ℕ) where
  integrationTimeSeconds := 1
  start firstSeqNum := (firstSeqNum, 0)
  block firstSeqNum curBlock := (firstSeqNum, curBlock)
  block_zero _ := rfl

/-- A file of the two antennas. -/
def twoAntennasFile (firstSeqNum bytes : ℕ) : DataFile ℤ where
  obsMetadata := { channels := 1, numBaselines := 3, samplesPerBlock := 12, bytesPerBlock := 96 }
  firstSeqNum := firstSeqNum
  ntime := 16
  stopBaseline := silent
  contents := List.replicate bytes 7

/-- Two files, of which the second one has one block. The sample counts do not fit. -/
theorem processFiles_describes_two :
    ∃ tables : Tables ℤ (ℕ × ℕ), (twoAntennas silent false (some twoVectors)).processFiles
        pairClock (asarray twoVectors)
        [.dataFile (twoAntennasFile 0 200), .skipped, .dataFile (twoAntennasFile 64 100)] =
          .ok tables ∧
      tables.Aligned 9 ∧
      ¬Counted tables.nsampleArray 3 1
        (blocksOf [twoAntennasFile 0 200, twoAntennasFile 64 100]) := by
  have hfits : ∀ f ∈ [twoAntennasFile 0 200, twoAntennasFile 64 100],
      ((twoAntennas silent false (some twoVectors)).forFile f).Fits 3 1 2 := by
    intro f hf
    simp only [List.mem_cons, List.not_mem_nil, or_false] at hf
    rcases hf with rfl | rfl <;> exact twoAntennas_fits silent false (some twoVectors)
  have hvectors : (asarray twoVectors).shape = [3, 3] := rfl
  have hkeys : Listed.missingKey ∉ [.dataFile (twoAntennasFile 0 200), .skipped,
      .dataFile (twoAntennasFile 64 100)] := by simp
  have hblocks : ∀ start bytes, (twoAntennasFile start bytes).numTimeBlocks = bytes / 96 := by
    intro start bytes
    rw [DataFile.numTimeBlocks, twoAntennasFile, List.length_replicate]
  obtain ⟨tables, htables, -, haligned, -, hcounted⟩ := Job.processFiles_describes
    (twoAntennas silent false (some twoVectors)) pairClock rfl rfl hvectors hkeys hfits
  have hrows : (blocksOf [twoAntennasFile 0 200, twoAntennasFile 64 100]).length = 3 := by
    have hfirst := length_blocksOf_append [] (twoAntennasFile 0 200)
    have hsecond := length_blocksOf_append [twoAntennasFile 0 200] (twoAntennasFile 64 100)
    rw [List.nil_append, hblocks] at hfirst
    rw [List.singleton_append, hfirst, hblocks] at hsecond
    exact hsecond
  have hfiles : [.dataFile (twoAntennasFile 0 200), .skipped,
      .dataFile (twoAntennasFile 64 100)].filterMap Listed.dataFile? =
        [twoAntennasFile 0 200, twoAntennasFile 64 100] := rfl
  rw [hfiles] at hcounted haligned
  rw [hrows] at haligned
  refine ⟨tables, htables, haligned, fun h => ?_⟩
  rcases hcounted.mp h with hone | ⟨⟨last, hlast, hnone⟩, -⟩
  · exact absurd hone (by decide)
  · obtain rfl : twoAntennasFile 64 100 = last := Option.some.inj hlast
    rw [hblocks] at hnone
    exact absurd hnone (by decide)

end GrAta.Observation
