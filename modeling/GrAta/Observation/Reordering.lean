import GrAta.Observation.Blocks

/-!
# The reordering as a transpose

The reordering takes the numbers of a block from channels of baselines to baselines of
channels. Its loops reach every place of the new order once, so that the passes for the
baselines can be made in any order, and the reordering with the two sizes exchanged takes
the numbers back.

## Main definitions

- `reorderBaselines`: the passes for the baselines, one by one
- `Reordered`: what the loops read and write, and what comes out

## Main results

- `exists_reordered`: the reordering of a block
-/

namespace GrAta.Observation

/-- `reorderInnerLoop` for one baseline after the other, on the same matrix. -/
def reorderBaselines (data : List Sample) (numFrequencies numBaselines valuesPerSquare : ℕ)
    (order : List ℕ) (reorderedMatrix : NdArray Sample) : Option (NdArray Sample) :=
  order.foldlM (fun matrix curBaseline => matrix.copyAll data
    (reorderInnerLoop numFrequencies numBaselines valuesPerSquare curBaseline)) reorderedMatrix

/-- The moves of all loops, as `reorderFreqPerBaseline` makes them. -/
def reorderLoops (F B s : ℕ) : List (List ℕ × ℕ) := (List.range B).flatMap (reorderInnerLoop F B s)

/-- Data for `F` channels and `B` baselines with `p * p` products each, and the result of the
reordering. -/
structure Reordered (F B p : ℕ) (data result : List Sample) : Prop where
  inRange : ∀ m ∈ reorderLoops F B (p * p), m.2 < data.length ∧ ∃ n < result.length, m.1 = [n]
  once : ((reorderLoops F B (p * p)).map Prod.fst).Perm
    ((List.range result.length).map fun n => [n])
  cells : ∀ b < B, ∀ f < F, ∀ i < p * p,
    result[(b * F + f) * (p * p) + i]? = data[(f * B + b) * (p * p) + i]?
  anyOrder : ∀ (order : List ℕ) (matrix : NdArray Sample), order.Perm (List.range B) →
    matrix.shape = [data.length] →
    (reorderBaselines data F B (p * p) order matrix).map NdArray.data = some result
  inverse : reorderFreqPerBaseline result B F p = some data

variable {F B p s : ℕ} {data : List Sample}

/-- Every place of the new order is reached. -/
theorem mem_reorderLoops {n : ℕ} (h : n < F * B * s) :
    [n] ∈ (reorderLoops F B s).map Prod.fst := by
  have hsize : [B, F, s].prod = F * B * s := by
    simp only [List.prod_cons, List.prod_nil]
    ring
  obtain ⟨ix, hix, rfl⟩ := NdArray.exists_offset (hsize ▸ h)
  match ix, hix with
  | [b, f, i], ⟨hb, hf, hi, _⟩ =>
    exact List.mem_map_of_mem (mem_reorderMoves.mpr ⟨b, hb, f, hf, i, hi, rfl⟩)

/-- No place is reached twice. -/
theorem nodup_reorderLoops (F B s : ℕ) : ((reorderLoops F B s).map Prod.fst).Nodup := by
  rw [reorderLoops, List.map_flatMap]
  refine NdArray.nodup_flatMap_range (fun ix => ix.headD 0 / (F * s)) (fun b _ => ?_) ?_
  · rw [reorderInnerLoop, List.map_flatMap]
    refine NdArray.nodup_flatMap_range (fun ix => (ix.headD 0 - F * s * b) / s) (fun f _ => ?_) ?_
    · rw [List.map_map]
      refine List.Nodup.map (fun i i' heq => ?_) List.nodup_range
      exact Nat.add_left_cancel (List.head_eq_of_cons_eq heq)
    · intro f hf ix hix
      simp only [List.mem_map, List.mem_range] at hix
      obtain ⟨m, ⟨i, hi, rfl⟩, rfl⟩ := hix
      change (F * s * b + f * s + i - F * s * b) / s = f
      rw [Nat.add_assoc, Nat.add_sub_cancel_left, Nat.mul_comm, Nat.mul_add_div (by omega),
        Nat.div_eq_of_lt hi, Nat.add_zero]
  · intro b hb ix hix
    simp only [reorderInnerLoop, List.mem_map, List.mem_flatMap, List.mem_range] at hix
    obtain ⟨m, ⟨f, hf, i, hi, rfl⟩, rfl⟩ := hix
    change (F * s * b + f * s + i) / (F * s) = b
    have hrow : (f + 1) * s ≤ F * s := Nat.mul_le_mul_right s hf
    rw [Nat.add_mul, Nat.one_mul] at hrow
    rw [Nat.add_assoc, Nat.mul_add_div (by omega), Nat.div_eq_of_lt (by omega), Nat.add_zero]

theorem reorderLoops_inRange {m : List ℕ × ℕ} (hm : m ∈ reorderLoops F B s) :
    m.2 < F * B * s ∧ ∃ n < F * B * s, m.1 = [n] :=
  ⟨(reorderMoves F B s).source m hm,
    NdArray.eq_of_within_one ((reorderMoves F B s).within m hm)⟩

/-- Each place of the new order is reached once. -/
theorem reorderLoops_perm (F B s : ℕ) :
    ((reorderLoops F B s).map Prod.fst).Perm ((List.range (F * B * s)).map fun n => [n]) := by
  have hplaces : ((List.range (F * B * s)).map fun n => [n]).Nodup :=
    List.nodup_range.map fun n n' heq => List.head_eq_of_cons_eq heq
  refine (List.perm_ext_iff_of_nodup (nodup_reorderLoops F B s) hplaces).mpr fun ix => ?_
  constructor
  · intro hix
    obtain ⟨m, hm, rfl⟩ := List.mem_map.mp hix
    obtain ⟨-, n, hn, heq⟩ := reorderLoops_inRange hm
    rw [heq]
    exact List.mem_map_of_mem (List.mem_range.mpr hn)
  · intro hix
    obtain ⟨n, hn, rfl⟩ := List.mem_map.mp hix
    exact mem_reorderLoops (List.mem_range.mp hn)

/-- The passes in any order, on any matrix of the size. -/
theorem reorderBaselines_eq (h : data.length = F * B * (p * p)) {order : List ℕ}
    (horder : order.Perm (List.range B)) {matrix : NdArray Sample}
    (hshape : matrix.shape = [data.length]) :
    (reorderBaselines data F B (p * p) order matrix).map NdArray.data =
      reorderFreqPerBaseline data F B p := by
  have hmoves : NdArray.Moves [data.length] data.length (reorderLoops F B (p * p)) := by
    rw [h]
    exact reorderMoves F B (p * p)
  have hall : ∀ ix, NdArray.Within [data.length] ix →
      ix ∈ (reorderLoops F B (p * p)).map Prod.fst := by
    intro ix hix
    obtain ⟨n, hn, rfl⟩ := NdArray.eq_of_within_one hix
    exact mem_reorderLoops (h ▸ hn)
  have hsame := NdArray.Moves.copyAll_perm (a := NdArray.full [data.length] 0) hmoves hall
    hshape (horder.flatMap_right (reorderInnerLoop F B (p * p)))
  rw [reorderBaselines, NdArray.foldlM_copyAll, hsame]
  rfl

/-- Lists with the same number at every place of the axes are equal. -/
theorem ext_of_axes {a b c : ℕ} {l l' : List Sample} (hl : l.length = a * b * c)
    (hl' : l'.length = a * b * c)
    (h : ∀ i < a, ∀ j < b, ∀ k < c, l[(i * b + j) * c + k]? = l'[(i * b + j) * c + k]?) :
    l = l' := by
  have hsize : [a, b, c].prod = a * b * c := by
    simp only [List.prod_cons, List.prod_nil]
    ring
  apply List.ext_getElem?
  intro n
  rcases Nat.lt_or_ge n (a * b * c) with hn | hn
  · obtain ⟨ix, hix, rfl⟩ := NdArray.exists_offset (hsize ▸ hn)
    match ix, hix with
    | [i, j, k], ⟨hi, hj, hk, _⟩ =>
      rw [NdArray.offset_three]
      exact h i hi j hj k hk
  · rw [List.getElem?_eq_none (hl ▸ hn), List.getElem?_eq_none (hl' ▸ hn)]

/-- The reordering with the sizes exchanged takes the numbers back. -/
theorem reorderFreqPerBaseline_inverse {result : List Sample}
    (h : data.length = F * B * (p * p)) (hlength : result.length = data.length)
    (hcells : ∀ b < B, ∀ f < F, ∀ i < p * p,
      result[(b * F + f) * (p * p) + i]? = data[(f * B + b) * (p * p) + i]?) :
    reorderFreqPerBaseline result B F p = some data := by
  have hexchanged : result.length = B * F * (p * p) := by
    rw [hlength, h, Nat.mul_comm F]
  obtain ⟨back, hback, hbacklen, hbackcells⟩ := exists_reorderFreqPerBaseline hexchanged
  have hsame : back = data := by
    refine ext_of_axes (hbacklen.trans (hlength.trans h)) h fun f hf b hb i hi => ?_
    rw [hbackcells f hf b hb i hi, hcells b hb f hf i hi]
  rw [hback, hsame]

/-- **The reordering** of a block. -/
theorem exists_reordered (h : data.length = F * B * p ^ 2) :
    ∃ result, reorderFreqPerBaseline data F B p = some result ∧ Reordered F B p data result := by
  rw [Nat.pow_two] at h
  obtain ⟨result, hresult, hlength, hcells⟩ := exists_reorderFreqPerBaseline h
  refine ⟨result, hresult, ?_⟩
  exact
    { inRange := by
        intro m hm
        rw [hlength, h]
        exact reorderLoops_inRange hm
      once := by
        rw [hlength, h]
        exact reorderLoops_perm F B (p * p)
      cells := hcells
      anyOrder := by
        intro order matrix horder hshape
        rw [reorderBaselines_eq h horder hshape, hresult]
      inverse := reorderFreqPerBaseline_inverse h hlength hcells }

/-- Six different numbers. -/
def sixSamples : List Sample := (List.range 6).map fun i => ⟨Vector.replicate 8 (UInt8.ofNat i)⟩

/-- Two channels of three baselines, with one product each. -/
theorem exists_reordered_six : ∃ result,
    reorderFreqPerBaseline sixSamples 2 3 1 = some result ∧ Reordered 2 3 1 sixSamples result :=
  exists_reordered rfl

end GrAta.Observation
