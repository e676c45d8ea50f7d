import GrAta.Observation.Model

/-!
# Baseline vectors

The loops over the pairs of antennas write the difference of each pair to the same row. The
last pair is an antenna with itself, so that all rows are zero in the end.

## Main definitions

- `Coordinates.along`: a coordinate by its column
- `Overwritten`: the rows after some pairs

## Main results

- `Overwritten.pass`: one pass of the loops
- `Job.exists_baselineVectors`: all rows are zero
- `Job.baselineVectors_cases`: the rows of any baseline vectors
-/

namespace GrAta.Observation

variable {R : Type}

/-- The coordinate in a column of `baseline_vectors`. -/
def Coordinates.along (c : Coordinates R) : ℕ → R
  | 0 => c.x
  | 1 => c.y
  | _ => c.z

/-- The difference of the antennas of a pair. -/
def difference [Sub R] (c : ℕ → Coordinates R) (pair : ℕ × ℕ) (axis : ℕ) : R :=
  (c pair.1).along axis - (c pair.2).along axis

/-- The rows after the passes for `pairs`: the first one has the difference of the last pair,
the others have not been written. -/
structure Overwritten [Sub R] [Zero R] (c : ℕ → Coordinates R) (n : ℕ) (pairs : List (ℕ × ℕ))
    (vectors : NdArray R) : Prop where
  shape : vectors.shape = [n, 3]
  first : ∀ axis < 3, 0 < n →
    vectors.get? [0, axis] = some (pairs.getLast?.elim 0 fun pair => difference c pair axis)
  rest : ∀ r < n, 0 < r → ∀ axis < 3, vectors.get? [r, axis] = some 0

theorem overwritten_nil [Sub R] [Zero R] (c : ℕ → Coordinates R) (n : ℕ) :
    Overwritten c n [] (NdArray.full [n, 3] 0) where
  shape := rfl
  first := fun _ haxis hn => NdArray.get?_full (NdArray.within_two hn haxis) 0
  rest := fun _ hr _ _ haxis => NdArray.get?_full (NdArray.within_two hr haxis) 0

/-- **One pass.** -/
theorem Overwritten.pass [Sub R] [Zero R] {c : ℕ → Coordinates R} {n : ℕ}
    {pairs : List (ℕ × ℕ)} {vectors : NdArray R} (h : Overwritten c n pairs vectors)
    (hn : 0 < n) {coordinates : ℕ → Option (Coordinates R)} {pair : ℕ × ℕ}
    (h1 : coordinates pair.1 = some (c pair.1)) (h2 : coordinates pair.2 = some (c pair.2)) :
    ∃ vectors', vectorPass coordinates 0 vectors pair = some vectors' ∧
      Overwritten c n (pairs ++ [pair]) vectors' := by
  have hwithin : ∀ {v : NdArray R} {axis : ℕ}, v.shape = [n, 3] → axis < 3 →
      NdArray.Within v.shape [0, axis] := fun hv haxis => hv ▸ NdArray.within_two hn haxis
  obtain ⟨v0, hset0, hshape0, hget0⟩ := NdArray.exists_set (hwithin h.shape (by decide : 0 < 3))
    ((c pair.1).x - (c pair.2).x)
  have hv0 := hshape0.trans h.shape
  obtain ⟨v1, hset1, hshape1, hget1⟩ := NdArray.exists_set (hwithin hv0 (by decide : 1 < 3))
    ((c pair.1).y - (c pair.2).y)
  have hv1 := hshape1.trans hv0
  obtain ⟨v2, hset2, hshape2, hget2⟩ := NdArray.exists_set (hwithin hv1 (by decide : 2 < 3))
    ((c pair.1).z - (c pair.2).z)
  refine ⟨v2, ?_, hshape2.trans hv1, ?_, ?_⟩
  · simp only [vectorPass, h1, h2, hset0, hset1, hset2, Option.bind_eq_bind, Option.bind_some]
  · intro axis haxis _
    rw [List.getLast?_concat, Option.elim_some, hget2, hget1, hget0]
    rcases axis with _ | _ | _ | axis
    · rfl
    · rfl
    · rfl
    · omega
  · intro r hr hpos axis haxis
    have hne : ∀ axis', [r, axis] ≠ [0, axis'] := fun axis' heq =>
      hpos.ne' (List.cons.inj heq).1
    rw [hget2, hget1, hget0, if_neg (hne 2), if_neg (hne 1), if_neg (hne 0)]
    exact h.rest r hr hpos axis haxis

theorem Overwritten.passes [Sub R] [Zero R] {c : ℕ → Coordinates R} {n : ℕ}
    {coordinates : ℕ → Option (Coordinates R)} (hn : 0 < n) {pairs : List (ℕ × ℕ)} :
    ∀ {past : List (ℕ × ℕ)} {vectors : NdArray R}, Overwritten c n past vectors →
    (∀ pair ∈ pairs, coordinates pair.1 = some (c pair.1) ∧ coordinates pair.2 = some (c pair.2)) →
    ∃ vectors', pairs.foldlM (vectorPass coordinates 0) vectors = some vectors' ∧
      Overwritten c n (past ++ pairs) vectors' := by
  induction pairs with
  | nil => exact fun h _ => ⟨_, rfl, by rwa [List.append_nil]⟩
  | cons pair pairs ih =>
    intro past vectors h hknown
    obtain ⟨⟨h1, h2⟩, hrest⟩ := List.forall_mem_cons.mp hknown
    obtain ⟨vectors', hpass, hnext⟩ := h.pass hn h1 h2
    obtain ⟨final, hfinal, hoverwritten⟩ := ih hnext hrest
    rw [List.append_assoc, List.singleton_append] at hoverwritten
    refine ⟨final, ?_, hoverwritten⟩
    rw [List.foldlM_cons, hpass]
    exact hfinal

/-- The last pair is the last antenna with itself. -/
theorem getLast?_pairs {n : ℕ} (h : 0 < n) :
    (Triangular.pairs n).getLast? = some (n - 1, n - 1) := by
  obtain ⟨n, rfl⟩ := Nat.exists_eq_succ_of_ne_zero h.ne'
  rw [Triangular.pairs_succ, List.range_succ, List.map_append, List.map_singleton,
    ← List.append_assoc, List.getLast?_concat]
  rfl

/-- The loops over the pairs of antennas. -/
theorem Job.baselineVectors_eq [Sub R] [Zero R] {job : Job R}
    (hcomputed : job.metadata.baselineUvwVectors = none) :
    job.baselineVectors =
      match (Triangular.pairs job.metadata.antennaNames.length).foldlM
        (vectorPass job.coordinates 0) (NdArray.full [job.metadata.numBaselines, 3] 0) with
      | some vectors => .ok vectors
      | none => .error (.exit 1) := by
  rw [Job.baselineVectors, hcomputed]
  rfl

/-- **All rows are zero.** -/
theorem Job.exists_baselineVectors [Sub R] [Zero R] (hself : ∀ x : R, x - x = 0) {job : Job R}
    {c : ℕ → Coordinates R} (hcomputed : job.metadata.baselineUvwVectors = none)
    (hknown : ∀ i < job.metadata.antennaNames.length, job.coordinates i = some (c i))
    (hrows : job.metadata.numBaselines = Triangular.size job.metadata.antennaNames.length) :
    ∃ vectors, job.baselineVectors = .ok vectors ∧
      vectors.shape = [Triangular.size job.metadata.antennaNames.length, 3] ∧
      ∀ r < Triangular.size job.metadata.antennaNames.length, ∀ axis < 3,
        vectors.get? [r, axis] = some 0 := by
  rcases Nat.eq_zero_or_pos job.metadata.antennaNames.length with hzero | hpos
  · refine ⟨NdArray.full [0, 3] 0, ?_, ?_, ?_⟩
    · rw [Job.baselineVectors_eq hcomputed, hrows, hzero]
      rfl
    · rw [hzero]
      rfl
    · rw [hzero]
      exact fun r hr => absurd hr (Nat.not_lt_zero r)
  · have hn := Triangular.size_pos hpos
    have hpairs : ∀ pair ∈ Triangular.pairs job.metadata.antennaNames.length,
        job.coordinates pair.1 = some (c pair.1) ∧ job.coordinates pair.2 = some (c pair.2) := by
      intro pair hpair
      obtain ⟨hle, hlt⟩ := Triangular.mem_pairs.mp hpair
      exact ⟨hknown _ hlt, hknown _ (hle.trans_lt hlt)⟩
    obtain ⟨vectors, hfold, hshape, hfirst, hrest⟩ := (overwritten_nil c
      (Triangular.size job.metadata.antennaNames.length)).passes hn hpairs
    refine ⟨vectors, ?_, hshape, fun r hr axis haxis => ?_⟩
    · rw [Job.baselineVectors_eq hcomputed, hrows, hfold]
    · rcases Nat.eq_zero_or_pos r with rfl | hr0
      · rw [hfirst axis haxis hn, List.nil_append, getLast?_pairs hpos, Option.elim_some,
          difference, hself]
      · exact hrest r hr hr0 axis haxis

theorem shape_of_vectorPass [Sub R] {coordinates : ℕ → Option (Coordinates R)} {i : ℕ}
    {a b : NdArray R} {pair : ℕ × ℕ} (h : vectorPass coordinates i a pair = some b) :
    b.shape = a.shape := by
  simp only [vectorPass, Option.bind_eq_bind, Option.bind_eq_some_iff] at h
  obtain ⟨_, -, _, -, v0, h0, v1, h1, h2⟩ := h
  rw [NdArray.shape_of_set h2, NdArray.shape_of_set h1, NdArray.shape_of_set h0]

theorem shape_of_foldlM [Sub R] {coordinates : ℕ → Option (Coordinates R)} {i : ℕ}
    {pairs : List (ℕ × ℕ)} {a b : NdArray R}
    (h : pairs.foldlM (vectorPass coordinates i) a = some b) : b.shape = a.shape := by
  induction pairs generalizing a with
  | nil => rw [← Option.some.inj h]
  | cons pair pairs ih =>
    rw [List.foldlM_cons] at h
    obtain ⟨a', hpass, hrest⟩ := Option.bind_eq_some_iff.mp h
    rw [ih hrest, shape_of_vectorPass hpass]

theorem rows_pos_of_vectorPass [Sub R] {coordinates : ℕ → Option (Coordinates R)} {n : ℕ}
    {a b : NdArray R} {pair : ℕ × ℕ} (ha : a.shape = [n, 3])
    (h : vectorPass coordinates 0 a pair = some b) : 0 < n := by
  simp only [vectorPass, Option.bind_eq_bind, Option.bind_eq_some_iff] at h
  obtain ⟨_, -, _, -, v0, h0, -⟩ := h
  have hwithin := NdArray.within_of_set h0
  rw [ha] at hwithin
  exact hwithin.1

/-- The baseline vectors of some antennas have rows of three coordinates, unless they are
given as an empty list. -/
theorem Job.baselineVectors_cases [Sub R] [Zero R] {job : Job R} {vectors : NdArray R}
    (h : job.baselineVectors = .ok vectors) (hsome : 0 < job.metadata.antennaNames.length) :
    vectors.shape = [0] ∨ ∃ m, 0 < m ∧ vectors.shape = [m, 3] := by
  cases hrows : job.metadata.baselineUvwVectors with
  | some rows =>
    rw [Job.baselineVectors, hrows] at h
    rw [← Except.ok.inj h, asarray]
    by_cases hnil : rows = []
    · exact .inl (if_pos hnil)
    · exact .inr ⟨rows.length, List.length_pos_of_ne_nil hnil, if_neg hnil⟩
  | none =>
    rw [Job.baselineVectors_eq hrows] at h
    split at h
    · rename_i hfold
      rw [← Except.ok.inj h]
      refine .inr ⟨job.metadata.numBaselines, ?_, shape_of_foldlM hfold⟩
      obtain ⟨pair, pairs, hpairs⟩ := List.exists_cons_of_ne_nil (List.ne_nil_of_mem
        (Triangular.mem_pairs.mpr ⟨Nat.zero_le 0, hsome⟩ :
          (0, 0) ∈ Triangular.pairs job.metadata.antennaNames.length))
      rw [hpairs, List.foldlM_cons] at hfold
      obtain ⟨next, hpass, -⟩ := Option.bind_eq_some_iff.mp hfold
      exact rows_pos_of_vectorPass rfl hpass
    · cases h

/-- Baseline vectors have rows. -/
theorem Job.baselineVectors_shape [Sub R] [Zero R] {job : Job R} {vectors : NdArray R}
    (h : job.baselineVectors = .ok vectors) (hsome : 0 < job.metadata.antennaNames.length) :
    ∃ m dims, vectors.shape = m :: dims := by
  rcases Job.baselineVectors_cases h hsome with hshape | ⟨m, -, hshape⟩
  · exact ⟨0, [], hshape⟩
  · exact ⟨m, [3], hshape⟩

end GrAta.Observation
