import GrAta.Observation.Model

/-!
# Blocks of a data file

What the numbers of a file are, how a block is reordered, and which cells of the array of
visibilities a block is stored to.

## Main results

- `samples_take`, `samples_drop`: the numbers of a part of a file
- `samples_tofile`: numbers that are written are read back
- `exists_reorderFreqPerBaseline`: the reordered block
- `exists_copyAll_polMoves`: the cells that a block is stored to
-/

namespace GrAta.Observation

-- ════════════════════════════════════════════════════════════════════════
-- Files
-- ════════════════════════════════════════════════════════════════════════

@[simp] theorem samples_length (file : List UInt8) : (samples file).length = file.length / 8 := by
  rw [samples, List.length_map, List.length_range]

theorem samples_getElem? {file : List UInt8} {i : ℕ} (h : i < file.length / 8) :
    (samples file)[i]? = some ⟨Vector.ofFn fun k => file.getD (8 * i + k) 0⟩ := by
  rw [samples, List.getElem?_map, List.getElem?_range h, Option.map_some]

/-- The numbers of a file that is cut behind one of them. -/
theorem samples_take (file : List UInt8) (n : ℕ) :
    samples (file.take (8 * n)) = (samples file).take n := by
  apply List.ext_getElem?
  intro i
  rw [List.getElem?_take]
  by_cases hi : i < (file.take (8 * n)).length / 8
  · rw [samples_getElem? hi]
    rw [List.length_take] at hi
    rw [if_pos (by omega), samples_getElem? (by omega)]
    congr 3
    funext k
    rw [List.getD_eq_getElem?_getD, List.getD_eq_getElem?_getD,
      List.getElem?_take_of_lt (by omega)]
  · rw [List.getElem?_eq_none (by rw [samples_length]; omega)]
    rw [List.length_take] at hi
    split
    · rw [List.getElem?_eq_none (by rw [samples_length]; omega)]
    · rfl

/-- The numbers of a file behind some of them. -/
theorem samples_drop (file : List UInt8) (n : ℕ) :
    samples (file.drop (8 * n)) = (samples file).drop n := by
  apply List.ext_getElem?
  intro i
  rw [List.getElem?_drop]
  by_cases hi : i < (file.drop (8 * n)).length / 8
  · rw [samples_getElem? hi]
    rw [List.length_drop] at hi
    rw [samples_getElem? (by omega)]
    congr 3
    funext k
    rw [List.getD_eq_getElem?_getD, List.getD_eq_getElem?_getD, List.getElem?_drop]
    congr 2
    omega
  · rw [List.getElem?_eq_none (by rw [samples_length]; omega)]
    rw [List.length_drop] at hi
    rw [List.getElem?_eq_none (by rw [samples_length]; omega)]

theorem samples_bytes (z : Sample) : samples z.bytes.toList = [z] := by
  have hlen : z.bytes.toList.length / 8 = 1 := by rw [Vector.length_toList]
  rw [samples, hlen, List.range_one, List.map_singleton]
  have hbytes : (Vector.ofFn fun k : Fin 8 => z.bytes.toList.getD (8 * 0 + k) 0) = z.bytes := by
    apply Vector.ext
    intro k hk
    rw [Vector.getElem_ofFn, List.getD_eq_getElem?_getD, Nat.mul_zero, Nat.zero_add,
      List.getElem?_eq_getElem (by rw [Vector.length_toList]; exact hk), Option.getD_some,
      Vector.getElem_toList]
  rw [hbytes]

/-- Numbers that are written are read back. -/
theorem samples_tofile (data : List Sample) : samples (tofile data) = data := by
  induction data with
  | nil => rfl
  | cons z data ih =>
    have hhead : (tofile (z :: data)).take (8 * 1) = z.bytes.toList := by
      rw [tofile, List.flatMap_cons, List.take_left' (by simp)]
    have htail : (tofile (z :: data)).drop (8 * 1) = tofile data := by
      rw [tofile, List.flatMap_cons, List.drop_left' (by simp)]
      rfl
    rw [← List.take_append_drop 1 (samples (tofile (z :: data))), ← samples_take,
      ← samples_drop, hhead, htail, samples_bytes, ih]
    rfl

/-- A block that is read from a file. -/
theorem fromfile_fst (count : ℕ) (file : List UInt8) (n : ℕ) :
    (fromfile count (file.drop (8 * n))).1 = ((samples file).drop n).take count := by
  rw [fromfile, samples_take, samples_drop]

-- ════════════════════════════════════════════════════════════════════════
-- Reordering
-- ════════════════════════════════════════════════════════════════════════

/-- The moves of the reordering: each cell from its place in one order of the axes to its
place in the other one. -/
theorem mem_reorderMoves {F B s : ℕ} {m : List ℕ × ℕ} :
    m ∈ (List.range B).flatMap (reorderInnerLoop F B s) ↔
      ∃ b < B, ∃ f < F, ∃ i < s, m =
        ([NdArray.offset [B, F, s] [b, f, i]], NdArray.offset [F, B, s] [f, b, i]) := by
  simp only [reorderInnerLoop, List.mem_flatMap, List.mem_map, List.mem_range,
    NdArray.offset_three]
  constructor
  · rintro ⟨b, hb, f, hf, i, hi, rfl⟩
    refine ⟨b, hb, f, hf, i, hi, ?_⟩
    congr 2 <;> ring
  · rintro ⟨b, hb, f, hf, i, hi, rfl⟩
    refine ⟨b, hb, f, hf, i, hi, ?_⟩
    congr 2 <;> ring

theorem reorderMoves (F B s : ℕ) : NdArray.Moves [F * B * s] (F * B * s)
    ((List.range B).flatMap (reorderInnerLoop F B s)) := by
  have hsize : [B, F, s].prod = F * B * s := by
    simp only [List.prod_cons, List.prod_nil]
    ring
  have hsize' : [F, B, s].prod = F * B * s := by
    simp only [List.prod_cons, List.prod_nil]
    ring
  refine ⟨fun m hm => ?_, fun m hm => ?_, fun m hm m' hm' heq => ?_⟩
  · obtain ⟨b, hb, f, hf, i, hi, rfl⟩ := mem_reorderMoves.mp hm
    exact ⟨hsize ▸ NdArray.offset_lt ⟨hb, hf, hi, trivial⟩, trivial⟩
  · obtain ⟨b, hb, f, hf, i, hi, rfl⟩ := mem_reorderMoves.mp hm
    exact hsize' ▸ NdArray.offset_lt ⟨hf, hb, hi, trivial⟩
  · obtain ⟨b, hb, f, hf, i, hi, rfl⟩ := mem_reorderMoves.mp hm
    obtain ⟨b', hb', f', hf', i', hi', rfl⟩ := mem_reorderMoves.mp hm'
    have hwithin : NdArray.Within [B, F, s] [b, f, i] := ⟨hb, hf, hi, trivial⟩
    have hwithin' : NdArray.Within [B, F, s] [b', f', i'] := ⟨hb', hf', hi', trivial⟩
    have hix := NdArray.offset_injective hwithin hwithin' (List.cons.inj heq).1
    injection hix with hb hix
    injection hix with hf hix
    injection hix with hi
    rw [hb, hf, hi]

/-- The reordered block. -/
theorem exists_reorderFreqPerBaseline {data : List Sample} {F B p : ℕ}
    (h : data.length = F * B * (p * p)) :
    ∃ l, reorderFreqPerBaseline data F B p = some l ∧ l.length = data.length ∧
      ∀ b < B, ∀ f < F, ∀ i < p * p,
        l[(b * F + f) * (p * p) + i]? = data[(f * B + b) * (p * p) + i]? := by
  have hmoves := reorderMoves F B (p * p)
  rw [← h] at hmoves
  obtain ⟨a, ha, hshape, hmoved, -⟩ :=
    NdArray.Moves.exists_copyAll (a := NdArray.full [data.length] 0) hmoves
  refine ⟨a.data, by rw [reorderFreqPerBaseline, ha, Option.map_some], ?_, ?_⟩
  · rw [a.size_eq, hshape]
    exact List.prod_singleton
  · intro b hb f hf i hi
    have hget := hmoved _ (mem_reorderMoves.mpr ⟨b, hb, f, hf, i, hi, rfl⟩)
    rw [NdArray.get?_singleton hshape, NdArray.offset_three, NdArray.offset_three] at hget
    exact hget

-- ════════════════════════════════════════════════════════════════════════
-- Rows
-- ════════════════════════════════════════════════════════════════════════

/-- Where a product of the array stands on disk. -/
def polIndex (k : ℕ) : ℕ := [0, 3, 1, 2].getD k 0

theorem polIndex_lt (k : ℕ) : polIndex k < 4 := by
  rw [polIndex, List.getD_eq_getElem?_getD]
  rcases k with _ | _ | _ | _ | k <;> simp

/-- The assignments of a block, with one loop over the products. -/
theorem polMoves_eq (B F s t : ℕ) : polMoves B F s t =
    (List.range B).flatMap fun b => (List.range F).flatMap fun f =>
      (List.range 4).map fun k => ([t * B + b, 0, f, k], (b * F + f) * s + polIndex k) := by
  have hstart : ∀ b f, (b * F + f) * s = b * F * s + f * s := fun b f => Nat.add_mul ..
  simp only [polMoves, hstart]
  rfl

theorem mem_polMoves {B F s t : ℕ} {m : List ℕ × ℕ} :
    m ∈ polMoves B F s t ↔ ∃ b < B, ∃ f < F, ∃ k < 4,
      m = ([t * B + b, 0, f, k], NdArray.offset [B, F, s] [b, f, polIndex k]) := by
  simp only [polMoves_eq, List.mem_flatMap, List.mem_map, List.mem_range, NdArray.offset_three]
  constructor
  · rintro ⟨b, hb, f, hf, k, hk, rfl⟩
    exact ⟨b, hb, f, hf, k, hk, rfl⟩
  · rintro ⟨b, hb, f, hf, k, hk, rfl⟩
    exact ⟨b, hb, f, hf, k, hk, rfl⟩

theorem polMove_mem {B F b f k : ℕ} (s t : ℕ) (hb : b < B) (hf : f < F) (hk : k < 4) :
    ([t * B + b, 0, f, k], NdArray.offset [B, F, s] [b, f, polIndex k]) ∈ polMoves B F s t :=
  mem_polMoves.mpr ⟨b, hb, f, hf, k, hk, rfl⟩

/-- A block fits in an array that has its rows. -/
theorem polMovesFit {B F s t rows : ℕ} (hs : 4 ≤ s) (ht : (t + 1) * B ≤ rows) :
    NdArray.Moves [rows, 1, F, s] (F * B * s) (polMoves B F s t) := by
  have hsize : [B, F, s].prod = F * B * s := by
    simp only [List.prod_cons, List.prod_nil]
    ring
  rw [Nat.add_mul, Nat.one_mul] at ht
  refine ⟨fun m hm => ?_, fun m hm => ?_, fun m hm m' hm' heq => ?_⟩
  · obtain ⟨b, hb, f, hf, k, hk, rfl⟩ := mem_polMoves.mp hm
    exact ⟨by omega, Nat.one_pos, hf, by omega, trivial⟩
  · obtain ⟨b, hb, f, hf, k, hk, rfl⟩ := mem_polMoves.mp hm
    have hpol : polIndex k < s := (polIndex_lt k).trans_le hs
    exact hsize ▸ NdArray.offset_lt ⟨hb, hf, hpol, trivial⟩
  · obtain ⟨b, hb, f, hf, k, hk, rfl⟩ := mem_polMoves.mp hm
    obtain ⟨b', hb', f', hf', k', hk', rfl⟩ := mem_polMoves.mp hm'
    injection heq with hrow heq
    injection heq with _ heq
    injection heq with hf heq
    injection heq with hk
    obtain rfl : b = b' := by omega
    rw [hf, hk]

/-- No cell is assigned twice for a block. -/
theorem nodup_polMoves (B F s t : ℕ) : ((polMoves B F s t).map Prod.fst).Nodup := by
  rw [polMoves_eq, List.map_flatMap]
  refine NdArray.nodup_flatMap_range (fun ix => ix.getD 0 0 - t * B) (fun b hb => ?_) ?_
  · rw [List.map_flatMap]
    refine NdArray.nodup_flatMap_range (fun ix => ix.getD 2 0) (fun f hf => ?_) ?_
    · rw [List.map_map]
      refine List.Nodup.map (fun k k' heq => ?_) List.nodup_range
      injection heq with _ heq
      injection heq with _ heq
      injection heq with _ heq
      injection heq
    · intro f hf ix hix
      simp only [List.mem_map] at hix
      obtain ⟨m, ⟨k, hk, rfl⟩, rfl⟩ := hix
      rfl
  · intro b hb ix hix
    simp only [List.mem_map, List.mem_flatMap] at hix
    obtain ⟨m, ⟨f, hf, k, hk, rfl⟩, rfl⟩ := hix
    exact Nat.add_sub_cancel_left ..

end GrAta.Observation
