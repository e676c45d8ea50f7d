import GrAta.Snap.VoltMode

/-!
# The corner turn of one packet

A packet stores its samples by channel, the frame buffer by time row. For a
packet whose channel is in the range of the block, the copy loops fill exactly
the 512 cells of the packet's channels in each of the sixteen rows, and every
store is inside the buffer.

## Main results

- `VoltageBlock.mem_cellStores`: the cells that the loops name
- `VoltageBlock.storeAll_cellStores`: the buffer after the loops
-/

namespace GrAta

namespace VoltageBlock

variable (B : VoltageBlock)

/-- The first column of a channel in a time row. -/
def column (chan : ℕ) : ℕ := 2 * (chan - B.firstChannel)

/-- The cells of the frame buffer that belong to the channels of a packet. -/
def Covers (chan i : ℕ) : Prop :=
  i < 16 * B.cfg.dVeclen ∧ B.column chan ≤ i % B.cfg.dVeclen ∧
    i % B.cfg.dVeclen < B.column chan + 512

instance (chan i : ℕ) : Decidable (B.Covers chan i) := inferInstanceAs (Decidable (_ ∧ _ ∧ _))

/-- The value for column `k` of a packet's channels, given the values of even and
odd columns by sample and time row. -/
def columnValue (even odd : ℕ → ℕ → UInt8) (t k : ℕ) : UInt8 :=
  if k % 2 = 0 then even (k / 2) t else odd (k / 2) t

/-- What a packet of channel `chan` puts into cell `i`. -/
def turned (even odd : ℕ → ℕ → UInt8) (chan i : ℕ) : UInt8 :=
  columnValue even odd (i / B.cfg.dVeclen) (i % B.cfg.dVeclen - B.column chan)

/-- A buffer after the copy of one packet. -/
def overlay (even odd : ℕ → ℕ → UInt8) (chan : ℕ) (cell : ℕ → UInt8) (i : ℕ) : UInt8 :=
  if B.Covers chan i then B.turned even odd chan i else cell i

theorem dVeclen_pos : 0 < B.cfg.dVeclen := by
  have := B.one_le_packets
  rw [B.dVeclen_eq]
  omega

/-- In range, the columns of a packet fit in a row. -/
theorem column_add_le {chan : ℕ} (hs : B.cfg.dStartingChannel ≤ chan)
    (he : chan ≤ B.cfg.dEndingChannelPacketChannelId) :
    B.column chan + 512 ≤ B.cfg.dVeclen := by
  have hl := B.lastChannel_eq
  rw [B.dVeclen_eq]
  unfold column firstChannel at *
  omega

/-- In range, the row start is computed without wrapping. -/
theorem vectorStart_eq {hdr : SnapHeader} (hs : B.cfg.dStartingChannel ≤ hdr.channelId)
    (he : hdr.channelId ≤ B.cfg.dEndingChannelPacketChannelId) {t : ℕ} (ht : t < 16) :
    vectorStart B.cfg hdr t = (t * B.cfg.dVeclen + B.column hdr.channelId : ℕ) := by
  have hcol := B.column_add_le hs he
  have hlen : B.cfg.dVeclen ≤ 131072 := by
    have := B.cfg_spec.2.1
    rw [B.dVeclen_eq]
    omega
  have hmul : t * B.cfg.dVeclen ≤ 15 * B.cfg.dVeclen := Nat.mul_le_mul_right _ (by omega)
  have hdiff : ((hdr.channelId : ℤ) - B.cfg.dStartingChannel) * 2 = B.column hdr.channelId := by
    rw [column, firstChannel]
    omega
  unfold vectorStart toInt32
  rw [hdiff, ← Nat.cast_add]
  generalize t * B.cfg.dVeclen = m at hmul
  rw [Int.bmod_eq_of_le] <;> omega

/-- The stores of the copy loops of an in-range packet: in each time row the 512
columns of its channels. -/
theorem mem_cellStores {hdr : SnapHeader} (hs : B.cfg.dStartingChannel ≤ hdr.channelId)
    (he : hdr.channelId ≤ B.cfg.dEndingChannelPacketChannelId) {even odd : ℕ → ℕ → UInt8}
    {w : ℤ × UInt8} :
    w ∈ cellStores B.cfg hdr even odd ↔ ∃ t < 16, ∃ k < 512,
      w = (((t * B.cfg.dVeclen + (B.column hdr.channelId + k) : ℕ) : ℤ),
        columnValue even odd t k) := by
  simp only [cellStores, List.mem_flatMap, List.mem_range, List.mem_cons, List.not_mem_nil,
    or_false]
  constructor
  · rintro ⟨t, ht, s, hsam, h⟩
    rw [B.vectorStart_eq hs he ht, ← Nat.cast_add, ← Nat.cast_add, Nat.add_assoc,
      Nat.add_assoc] at h
    rcases h with rfl | rfl
    · exact ⟨t, ht, 2 * s, by omega, by simp [columnValue]⟩
    · refine ⟨t, ht, 2 * s + 1, by omega, ?_⟩
      have hodd : ¬(2 * s + 1) % 2 = 0 := by omega
      rw [columnValue, if_neg hodd, show (2 * s + 1) / 2 = s by omega]
  · rintro ⟨t, ht, k, hk, rfl⟩
    refine ⟨t, ht, k / 2, by omega, ?_⟩
    rw [B.vectorStart_eq hs he ht, ← Nat.cast_add, ← Nat.cast_add, Nat.add_assoc,
      Nat.add_assoc]
    rcases Nat.mod_two_eq_zero_or_one k with h | h
    · left
      rw [columnValue, if_pos h, show 2 * (k / 2) = k by omega]
    · right
      rw [columnValue, if_neg (by omega), show 2 * (k / 2) + 1 = k by omega]

/-- Row and column of a cell given by its row and column. -/
theorem divMod_cell {t col : ℕ} (hcol : col < B.cfg.dVeclen) :
    (t * B.cfg.dVeclen + col) / B.cfg.dVeclen = t ∧
      (t * B.cfg.dVeclen + col) % B.cfg.dVeclen = col := by
  rw [Nat.mul_comm]
  refine ⟨?_, ?_⟩
  · rw [Nat.mul_add_div B.dVeclen_pos, Nat.div_eq_of_lt hcol, Nat.add_zero]
  · rw [Nat.mul_add_mod, Nat.mod_eq_of_lt hcol]

theorem cell_lt {t col : ℕ} (ht : t < 16) (hcol : col < B.cfg.dVeclen) :
    t * B.cfg.dVeclen + col < 16 * B.cfg.dVeclen := by
  have := Nat.mul_le_mul_right B.cfg.dVeclen (show t + 1 ≤ 16 by omega)
  rw [Nat.add_mul, Nat.one_mul] at this
  omega

/-- The copy loops name exactly the cells that the packet covers. -/
theorem mem_map_cellStores {hdr : SnapHeader} (hs : B.cfg.dStartingChannel ≤ hdr.channelId)
    (he : hdr.channelId ≤ B.cfg.dEndingChannelPacketChannelId) {even odd : ℕ → ℕ → UInt8}
    {i : ℕ} :
    (i : ℤ) ∈ (cellStores B.cfg hdr even odd).map Prod.fst ↔ B.Covers hdr.channelId i := by
  have hcol := B.column_add_le hs he
  simp only [List.mem_map, B.mem_cellStores hs he]
  constructor
  · rintro ⟨w, ⟨t, ht, k, hk, rfl⟩, hi⟩
    have hk' : B.column hdr.channelId + k < B.cfg.dVeclen := by omega
    rw [← Nat.cast_inj.mp hi]
    refine ⟨B.cell_lt ht hk', ?_, ?_⟩ <;> rw [(B.divMod_cell hk').2] <;> omega
  · rintro ⟨hi, hlo, hhi⟩
    have ht : i / B.cfg.dVeclen < 16 := Nat.div_lt_of_lt_mul (by rwa [Nat.mul_comm])
    refine ⟨_, ⟨i / B.cfg.dVeclen, ht, i % B.cfg.dVeclen - B.column hdr.channelId, by omega,
      rfl⟩, ?_⟩
    have hdm := Nat.div_add_mod' i B.cfg.dVeclen
    exact congrArg Nat.cast (by omega)

/-- **Corner turn of one buffer.** The copy loops of an in-range packet return
and overlay the packet's cells. -/
theorem storeAll_cellStores (hdr : SnapHeader) (hs : B.cfg.dStartingChannel ≤ hdr.channelId)
    (he : hdr.channelId ≤ B.cfg.dEndingChannelPacketChannelId) (even odd : ℕ → ℕ → UInt8)
    {r : Region UInt8} (hr : r.size = 16 * B.cfg.dVeclen) :
    r.storeAll (cellStores B.cfg hdr even odd) =
      some { r with cell := B.overlay even odd hdr.channelId r.cell } := by
  have hcol := B.column_add_le hs he
  rw [Region.storeAll_eq (B.turned even odd hdr.channelId)]
  · simp only [B.mem_map_cellStores hs he]
    rfl
  · intro w hw
    obtain ⟨t, ht, k, hk, rfl⟩ := (B.mem_cellStores hs he).mp hw
    rw [hr]
    exact ⟨Int.natCast_nonneg _, Int.ofNat_lt.mpr (B.cell_lt ht (by omega))⟩
  · intro w hw
    obtain ⟨t, ht, k, hk, rfl⟩ := (B.mem_cellStores hs he).mp hw
    obtain ⟨hd, hm⟩ := B.divMod_cell (t := t)
      (show B.column hdr.channelId + k < B.cfg.dVeclen by omega)
    simp only [Int.toNat_natCast, turned, hd, hm, Nat.add_sub_cancel_left]

end VoltageBlock

end GrAta
