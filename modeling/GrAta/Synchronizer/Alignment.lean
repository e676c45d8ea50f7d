import Mathlib.Algebra.BigOperators.Ring.List
import Mathlib.Data.Fin.VecNotation
import Mathlib.Data.Finset.Lattice.Fold
import Mathlib.Data.Nat.ModEq
import GrAta.Synchronizer.Model

/-!
# The synchronization point

Input streams without gaps: items come in blocks of 16, every item carries the
timestamp of its block, and the timestamps of successive blocks differ by 16. The
inputs start at different timestamps, congruent modulo 16.

An input that starts `d` below the highest first timestamp has `d` items to
drop. After calls with `total` output items it has dropped `min d total` of
them, whatever the sizes of the single calls were: this closed form is the
invariant of the unsynchronized block.

## Main results

- `GapFree.calls_exact`: the synchronizer drops exactly the items below the
  highest first timestamp, publishes it, and forwards everything from there on
-/

namespace GrAta

open Synchronizer

def sampleNumTag (timestamp : ℕ) : Tag := ⟨.symbol "sample_num", .uint64 timestamp⟩

/-- Input streams without gaps. A tag holds a 64-bit number. -/
structure GapFree (n : ℕ) (α : Type) where
  streams : Streams n α
  first : Fin n → ℕ
  first_lt : ∀ i, first i < 2 ^ 64
  congruent : ∀ i j, first i ≡ first j [MOD 16]
  tags : ∀ i k, (streams i k).tags = [sampleNumTag ((first i + 16 * (k / 16)) % 2 ^ 64)]

namespace GapFree

variable {n : ℕ} {α : Type} (G : GapFree n α)

/-- The timestamp of item `k` of an input. -/
def timestamp (i : Fin n) (k : ℕ) : ℕ := G.first i + 16 * (k / 16)

/-- The highest first timestamp. -/
def highest : ℕ := Finset.univ.sup G.first

def lowest [NeZero n] : ℕ := Finset.univ.inf' ⟨0, Finset.mem_univ 0⟩ G.first

/-- How far input `i` starts below the highest first timestamp. -/
def behind (i : Fin n) : ℕ := G.highest - G.first i

theorem first_le (i : Fin n) : G.first i ≤ G.highest :=
  Finset.le_sup (f := G.first) (Finset.mem_univ i)

theorem first_add_behind (i : Fin n) : G.first i + G.behind i = G.highest :=
  Nat.add_sub_cancel' (G.first_le i)

theorem highest_lt : G.highest < 2 ^ 64 :=
  (Finset.sup_lt_iff (Nat.two_pow_pos 64)).mpr fun i _ => G.first_lt i

/-- Some input starts at the highest first timestamp. -/
theorem exists_behind_eq_zero (i : Fin n) : ∃ j, G.behind j = 0 := by
  obtain ⟨j, -, hj⟩ := Finset.exists_mem_eq_sup Finset.univ ⟨i, Finset.mem_univ i⟩ G.first
  exact ⟨j, by rw [behind, highest, hj, Nat.sub_self]⟩

theorem dvd_behind (i : Fin n) : 16 ∣ G.behind i := by
  obtain ⟨j, hj⟩ := G.exists_behind_eq_zero i
  have hsum := G.first_add_behind i
  have hsum' := G.first_add_behind j
  have hmod : G.first i % 16 = G.first j % 16 := G.congruent i j
  omega

theorem behind_le [NeZero n] (i : Fin n) : G.behind i ≤ G.highest - G.lowest := by
  have hle : G.lowest ≤ G.first i := Finset.inf'_le G.first (Finset.mem_univ i)
  exact Nat.sub_le_sub_left hle G.highest

theorem timestamp_eq {k : ℕ} (h : 16 ∣ k) (i : Fin n) : G.timestamp i k = G.first i + k := by
  rw [timestamp, Nat.mul_div_cancel' h]

/-- The first waiting tag of an input that stands at a block boundary, no further
than the highest first timestamp. -/
theorem tag0_eq {c : SyncCall n} (hc : c.Valid) {s : Synchronizer n α} {i : Fin n}
    (hdvd : 16 ∣ s.nitemsRead i) (hle : s.nitemsRead i ≤ G.behind i) :
    Synchronizer.tag0 (s.waiting G.streams c i) = .ok (G.first i + s.nitemsRead i) := by
  have hhigh := G.highest_lt
  have hsum := G.first_add_behind i
  have hlt : G.first i + s.nitemsRead i < 2 ^ 64 := by omega
  rw [Synchronizer.tag0_waiting hc, Synchronizer.firstTag, G.tags, Nat.mul_div_cancel' hdvd,
    Nat.mod_eq_of_lt hlt]
  rfl

end GapFree

namespace GapFree

variable {n : ℕ} {α : Type} (G : GapFree n α)

/-- The unsynchronized block after calls for `total` output items. -/
structure Draining (total : ℕ) (s : Synchronizer n α) : Prop where
  synchronized : s.dSynchronized = false
  dvd : 16 ∣ total
  read : ∀ i, s.nitemsRead i = min (G.behind i) total
  written : ∀ i, s.outputItems i = []
  published : s.published = []

/-- The synchronized block after it has forwarded `count` items. -/
structure Aligned (count : ℕ) (s : Synchronizer n α) : Prop where
  synchronized : s.dSynchronized = true
  read : ∀ i, s.nitemsRead i = G.behind i + count
  written : ∀ i, s.outputItems i =
    (List.range count).map fun k => (G.streams i (G.behind i + k)).data
  published : s.published = [syncPdu G.highest]

variable {G} {total count : ℕ} {s : Synchronizer n α} {c : SyncCall n}

theorem Draining.dvd_read (h : G.Draining total s) (i : Fin n) : 16 ∣ s.nitemsRead i := by
  rw [h.read i]
  obtain hmin | hmin := min_choice (G.behind i) total
  · rw [hmin]
    exact G.dvd_behind i
  · rw [hmin]
    exact h.dvd

theorem Draining.read_le (h : G.Draining total s) (i : Fin n) :
    s.nitemsRead i ≤ G.behind i := by
  rw [h.read i]
  exact min_le_left _ _

theorem Draining.tag0_eq (h : G.Draining total s) (hc : c.Valid) (i : Fin n) :
    Synchronizer.tag0 (s.waiting G.streams c i) = .ok (G.first i + s.nitemsRead i) :=
  G.tag0_eq hc (h.dvd_read i) (h.read_le i)

/-- The inputs that started highest have not moved. -/
theorem Draining.sup_head (h : G.Draining total s) :
    (Finset.univ.sup fun i => G.first i + s.nitemsRead i) = G.highest := by
  refine le_antisymm (Finset.sup_le fun i _ => ?_) (Finset.sup_le fun i _ => ?_)
  · have hread := h.read_le i
    have hsum := G.first_add_behind i
    omega
  · exact le_trans (Nat.le_add_right _ _)
      (Finset.le_sup (f := fun i => G.first i + s.nitemsRead i) (Finset.mem_univ i))

/-- The first waiting tags agree exactly when every input has reached the highest
first timestamp. -/
theorem Draining.equal_iff (h : G.Draining total s) :
    (∀ i j, G.first i + s.nitemsRead i = G.first j + s.nitemsRead j) ↔
      ∀ i, G.behind i ≤ total := by
  constructor
  · intro hequal i
    obtain ⟨j, hj⟩ := G.exists_behind_eq_zero i
    have hij := hequal i j
    have hi := G.first_add_behind i
    have hj' := G.first_add_behind j
    have hri := h.read i
    have hrj := h.read j
    omega
  · intro hall i j
    rw [h.read i, h.read j, min_eq_left (hall i), min_eq_left (hall j), G.first_add_behind,
      G.first_add_behind]

/-- Before every input is level, a call drops items and forwards none. -/
theorem Draining.drop (h : G.Draining total s) (hc : c.Valid)
    (hbehind : ¬ ∀ i, G.behind i ≤ total) :
    ∃ s', s.call G.streams c = .ok s' ∧ G.Draining (total + c.noutputItems) s' := by
  obtain ⟨s', hs', hdrop⟩ := Synchronizer.generalWork_dropping c.noutputItems h.synchronized
    (h.tag0_eq hc) (fun hequal => hbehind (h.equal_iff.mp hequal))
  refine ⟨s', hs', hdrop.synchronized.trans h.synchronized, Nat.dvd_add h.dvd hc.dvd,
    fun i => ?_, fun i => ?_, hdrop.published.trans h.published⟩
  · have hsum := G.first_add_behind i
    have hread := h.read i
    have hle : G.first i + s.nitemsRead i ≤ G.highest := by omega
    rw [hdrop.read i, h.sup_head, Synchronizer.itemsToConsume_eq _ hle G.highest_lt]
    omega
  · rw [hdrop.items, h.written i]

/-- When every input is level, the next call synchronizes. -/
theorem Draining.synchronize (h : G.Draining total s) (hc : c.Valid)
    (hlevel : ∀ i, G.behind i ≤ total) :
    ∃ s', s.call G.streams c = .ok s' ∧ G.Aligned c.noutputItems s' := by
  have hsync := Synchronizer.generalWork_synchronizing h.synchronized
    (Synchronizer.le_length_waiting hc G.streams s) (h.tag0_eq hc) (h.equal_iff.mpr hlevel)
  have hread : ∀ i, s.nitemsRead i = G.behind i := fun i => by
    rw [h.read i, min_eq_left (hlevel i)]
  refine ⟨_, hsync, rfl, fun i => ?_, fun i => ?_, ?_⟩
  · exact congrArg (· + c.noutputItems) (hread i)
  · show s.outputItems i ++ ((s.waiting G.streams c i).take c.noutputItems).map Item.data = _
    rw [h.written i, Synchronizer.take_waiting hc, hread i, List.nil_append, List.map_map]
    rfl
  · show s.published ++ _ = _
    rw [h.published, h.sup_head, List.nil_append]

/-- A synchronized call forwards the next items of every input. -/
theorem Aligned.forward (h : G.Aligned count s) (hc : c.Valid) :
    ∃ s', s.call G.streams c = .ok s' ∧ G.Aligned (count + c.noutputItems) s' := by
  have hsync := Synchronizer.generalWork_synchronized h.synchronized
    (Synchronizer.le_length_waiting hc G.streams s)
  refine ⟨_, hsync, h.synchronized, fun i => ?_, fun i => ?_, h.published⟩
  · show s.nitemsRead i + c.noutputItems = _
    rw [h.read i, Nat.add_assoc]
  · show s.outputItems i ++ ((s.waiting G.streams c i).take c.noutputItems).map Item.data = _
    rw [h.written i, Synchronizer.take_waiting hc, h.read i, List.range_add, List.map_append,
      List.map_map, List.map_map]
    simp only [Function.comp_def, Nat.add_assoc]

variable (G)

/-- The block after the calls `cs`: it drains, or it was level after the calls
`before` and has forwarded the items of all later calls. -/
inductive Progress (cs : List (SyncCall n)) (s : Synchronizer n α) : Prop
  | draining (h : G.Draining (totalItems cs) s)
  | aligned (before after : List (SyncCall n)) (hsplit : cs = before ++ after)
      (hafter : after ≠ []) (h : G.Aligned (totalItems after) s)

variable {G}

theorem Progress.step {cs : List (SyncCall n)} (h : G.Progress cs s) (hc : c.Valid) :
    ∃ s', s.call G.streams c = .ok s' ∧ G.Progress (cs ++ [c]) s' := by
  cases h with
  | draining h =>
    by_cases hlevel : ∀ i, G.behind i ≤ totalItems cs
    · obtain ⟨s', hs', halign⟩ := h.synchronize hc hlevel
      refine ⟨s', hs', .aligned cs [c] rfl (List.cons_ne_nil c []) ?_⟩
      rwa [totalItems, List.map_singleton, List.sum_singleton]
    · obtain ⟨s', hs', hdrain⟩ := h.drop hc hlevel
      exact ⟨s', hs', .draining (by rwa [totalItems_concat])⟩
  | aligned before after hsplit hafter h =>
    obtain ⟨s', hs', halign⟩ := h.forward hc
    refine ⟨s', hs', .aligned before (after ++ [c]) ?_ (by simp) ?_⟩
    · rw [hsplit, List.append_assoc]
    · rwa [totalItems_concat]

theorem progress_initial : G.Progress [] (Synchronizer.initial n α) :=
  .draining ⟨rfl, dvd_zero 16, fun i => (Nat.min_zero (G.behind i)).symm, fun _ => rfl, rfl⟩

theorem calls_progress {cs : List (SyncCall n)} (hcs : ∀ c ∈ cs, c.Valid) :
    ∃ s, (Synchronizer.initial n α).calls G.streams cs = .ok s ∧ G.Progress cs s :=
  Execution.run_history G.Progress SyncCall.Valid (fun _ _ _ h hc => h.step hc) []
    progress_initial cs hcs

/-- What is kept while the block is not synchronized. -/
structure Undisturbed (G : GapFree n α) (s : Synchronizer n α) : Prop where
  boundary : ∀ i, 16 ∣ s.nitemsRead i
  highest : (Finset.univ.sup fun i => G.timestamp i (s.nitemsRead i)) = G.highest
  dropped : ∀ i k, k < s.nitemsRead i → G.timestamp i k < G.highest

theorem Draining.undisturbed (h : G.Draining total s) : G.Undisturbed s where
  boundary := h.dvd_read
  highest := by
    simp only [G.timestamp_eq (h.dvd_read _)]
    exact h.sup_head
  dropped := fun i k hk => by
    have hread := h.read_le i
    have hsum := G.first_add_behind i
    have hdvd := G.dvd_behind i
    rw [timestamp]
    omega

theorem Progress.next_synchronizes {cs : List (SyncCall n)} (h : G.Progress cs s)
    (hlevel : ∀ i, G.behind i ≤ totalItems cs) (hc : c.Valid) :
    ∃ s', s.call G.streams c = .ok s' ∧ s'.dSynchronized = true := by
  cases h with
  | draining h =>
    obtain ⟨s', hs', halign⟩ := h.synchronize hc hlevel
    exact ⟨s', hs', halign.synchronized⟩
  | aligned _ _ _ _ h =>
    obtain ⟨s', hs', halign⟩ := h.forward hc
    exact ⟨s', hs', halign.synchronized⟩

/-- **Exact synchronization point.** Calls on input streams without gaps always
return. While the block is not synchronized, every input stands at a block
boundary, the highest waiting timestamp has not changed, and no item at or above
it has been dropped. Once the calls ask for as many items as the first
timestamps spread over, the next call synchronizes. From then on the block has
dropped exactly the items below the highest first timestamp, has published it,
and has forwarded, in order, the items of every input from there on, as many as
the calls from the synchronizing one on asked for. -/
theorem calls_exact [NeZero n] (G : GapFree n α) (cs : List (SyncCall n))
    (hcs : ∀ c ∈ cs, c.Valid) :
    ∃ s, (Synchronizer.initial n α).calls G.streams cs = .ok s ∧
      (s.dSynchronized = false → G.Undisturbed s) ∧
      (G.highest - G.lowest ≤ totalItems cs → ∀ c : SyncCall n, c.Valid →
        ∃ s', s.call G.streams c = .ok s' ∧ s'.dSynchronized = true) ∧
      (s.dSynchronized = true → ∃ before after, cs = before ++ after ∧ after ≠ [] ∧
        G.Aligned (totalItems after) s) := by
  obtain ⟨s, hs, hprogress⟩ := G.calls_progress hcs
  refine ⟨s, hs, fun hsync => ?_, fun hspread c hc => ?_, fun hsync => ?_⟩
  · cases hprogress with
    | draining h => exact h.undisturbed
    | aligned _ _ _ _ h => exact absurd hsync (by rw [h.synchronized]; exact Bool.noConfusion)
  · exact hprogress.next_synchronizes (fun i => (G.behind_le i).trans hspread) hc
  · cases hprogress with
    | draining h => exact absurd hsync (by rw [h.synchronized]; exact Bool.noConfusion)
    | aligned before after hsplit hafter h => exact ⟨before, after, hsplit, hafter, h⟩

/-- Streams of numbered items, with the given first timestamps. -/
def numbered (first : Fin n → ℕ) (hlt : ∀ i, first i < 2 ^ 64)
    (hcongr : ∀ i j, first i ≡ first j [MOD 16]) : GapFree n ℕ where
  streams := fun i k => ⟨k, [sampleNumTag ((first i + 16 * (k / 16)) % 2 ^ 64)]⟩
  first := first
  first_lt := hlt
  congruent := hcongr
  tags := fun _ _ => rfl

/-- Two inputs 32 apart, synchronized by the third call for 16 items. -/
theorem calls_exact_two_inputs :
    let G := numbered ![16, 48] (by decide) (by decide)
    let cs := List.replicate 3 (SyncCall.exact 2 16)
    ∃ s, (Synchronizer.initial 2 ℕ).calls G.streams cs = .ok s ∧
      (s.dSynchronized = false → G.Undisturbed s) ∧
      (G.highest - G.lowest ≤ totalItems cs → ∀ c : SyncCall 2, c.Valid →
        ∃ s', s.call G.streams c = .ok s' ∧ s'.dSynchronized = true) ∧
      (s.dSynchronized = true → ∃ before after, cs = before ++ after ∧ after ≠ [] ∧
        G.Aligned (totalItems after) s) :=
  calls_exact _ _ fun c hc => by
    rw [List.eq_of_mem_replicate hc]
    exact SyncCall.exact_valid 2 (by decide) (by decide)

end GapFree

end GrAta
