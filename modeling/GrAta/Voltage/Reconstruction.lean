import GrAta.Voltage.StreamFrames

/-!
# Reconstruction of a lossy stream

The reference reconstruction of a lossy stream has sixteen vectors for each
timestamp from the first delivered one to the last. The slot of a delivered
packet holds its samples, every other slot is zero. The output of a voltage
block, for any schedule, is a prefix of the reconstruction of what it took.

## Main definitions

- `VoltageBlock.slotByte`: a sample of a packet, as a port presents it
- `VoltageBlock.reference`: the reference reconstruction

## Main results

- `VoltageBlock.render_eq`: a rendered frame, slot by slot
- `VoltageBlock.run_reconstructs`: every schedule outputs a prefix of the reference
-/

namespace GrAta

namespace VoltageBlock

variable (B : VoltageBlock)

/-- The byte of column `k` of the packet's channels in time row `t`. Packed output
has the two polarizations of a channel in adjacent columns, as they are in the
payload. Unpacked output has the two decoded nibbles of the port's polarization. -/
def slotByte (port : Port) (p : Packet) (t k : ℕ) : UInt8 :=
  let byte := fun pol => pointer p (16 + ((k / 2 * 16 + t) * 2 + pol))
  if B.cfg.dPackedOutput then byte (k % 2)
  else if k % 2 = 0 then (twosComplementLookup4Bit (byte port.pol >>> 4)).toUInt8
  else (twosComplementLookup4Bit (byte port.pol &&& 0x0F)).toUInt8

/-- The delivered packet of a timestamp for the slot with index `s`. -/
def slotPacket (ps : List Packet) (time s : ℕ) : Option Packet :=
  (packetsAt ps time).find? fun p => channel p = B.firstChannel + 256 * s

def referenceCell (port : Port) (ps : List Packet) (time t col : ℕ) : UInt8 :=
  match B.slotPacket ps time (col / 512) with
  | some p => B.slotByte port p t (col % 512)
  | none => 0

def referenceVector (port : Port) (ps : List Packet) (time t : ℕ) : List UInt8 :=
  (List.range (512 * B.packets)).map (B.referenceCell port ps time t)

/-- The reference reconstruction of a port: for each timestamp from the first to
the last one, sixteen vectors in time order. -/
def reference (port : Port) (ps : List Packet) : List (List UInt8) :=
  (List.range (if ps = [] then 0 else (lastTimestamp ps - firstTimestamp ps) / 16 + 1)).flatMap
    fun j => (List.range 16).map (B.referenceVector port ps (firstTimestamp ps + 16 * j))

/-- What the copy loops put into a column of the packet. -/
theorem columnValue_samples (port : Port) (p : Packet) (t k : ℕ) :
    columnValue (B.samples port p).1 (B.samples port p).2 t k = B.slotByte port p t k := by
  unfold columnValue samples slotByte vpData highSample lowSample
  rw [B.dHeaderSize_eq]
  rcases Nat.mod_two_eq_zero_or_one k with hk | hk <;>
    cases B.cfg.dPackedOutput <;> simp [hk]

/-- A packet of slot `s` covers the columns of that slot. -/
theorem covers_iff {chan s t col : ℕ} (hc : chan = B.firstChannel + 256 * s) (ht : t < 16)
    (hcol : col < B.cfg.dVeclen) :
    B.Covers chan (t * B.cfg.dVeclen + col) ↔ col / 512 = s := by
  have hcell := B.cell_lt ht hcol
  have hm := (B.divMod_cell (t := t) hcol).2
  have hchan : B.column chan = 512 * s := by
    rw [column]
    omega
  rw [Covers, hm, hchan]
  omega

/-- **A rendered frame, slot by slot.** -/
theorem render_eq (port : Port) {packets : List Packet}
    (hslot : ∀ p ∈ packets, ∃ s, channel p = B.firstChannel + 256 * s)
    (hdiff : packets.Pairwise fun p q => channel p ≠ channel q) {t col : ℕ} (ht : t < 16)
    (hcol : col < B.cfg.dVeclen) :
    B.render port packets (t * B.cfg.dVeclen + col) =
      match packets.find? (fun p => channel p = B.firstChannel + 256 * (col / 512)) with
      | some p => B.slotByte port p t (col % 512)
      | none => 0 := by
  induction packets using List.reverseRecOn with
  | nil => rfl
  | append_singleton packets p ih =>
    obtain ⟨s, hs⟩ := hslot p (by simp)
    have hrender : B.render port (packets ++ [p]) =
        B.overlayPacket port (B.render port packets) p := by
      rw [render, List.foldl_append]
      rfl
    rw [hrender, List.find?_append]
    by_cases hcov : B.Covers (channel p) (t * B.cfg.dVeclen + col)
    · have hcs : col / 512 = s := (B.covers_iff hs ht hcol).mp hcov
      have hnone : packets.find?
          (fun q => channel q = B.firstChannel + 256 * (col / 512)) = none := by
        refine List.find?_eq_none.mpr fun q hq => ?_
        have hne := (List.pairwise_append.mp hdiff).2.2 q hq p (by simp)
        simp only [decide_eq_true_eq]
        omega
      obtain ⟨hd, hm⟩ := B.divMod_cell (t := t) hcol
      have hchan : B.column (channel p) = 512 * s := by
        rw [column]
        omega
      rw [B.overlayPacket_of_covers hcov, turned, hd, hm, columnValue_samples, hnone, hchan]
      simp only [Option.none_or, List.find?_cons, hs, hcs, decide_true]
      congr 1
      omega
    · have hcs : col / 512 ≠ s := fun hc => hcov ((B.covers_iff hs ht hcol).mpr hc)
      have hp : ¬channel p = B.firstChannel + 256 * (col / 512) := by omega
      rw [B.overlayPacket_of_not_covers hcov,
        ih (fun q hq => hslot q (by simp [hq])) (List.pairwise_append.mp hdiff).1]
      simp [hp]

end VoltageBlock

/-- The frame of a timestamp is the reference reconstruction of that timestamp. -/
theorem LossyStream.rowData_eq {B : VoltageBlock} {first : ℕ} {ps : List Packet}
    (h : LossyStream B first ps) (port : Port) (time : ℕ) {t : ℕ} (ht : t < 16) :
    B.rowData port (frameAt ps time) t = B.referenceVector port ps time t := by
  rw [VoltageBlock.rowData, VoltageBlock.referenceVector, B.dVeclen_eq]
  refine List.map_congr_left fun col hcol => ?_
  rw [List.mem_range, ← B.dVeclen_eq] at hcol
  rw [← B.dVeclen_eq]
  rw [VoltageBlock.referenceCell, VoltageBlock.slotPacket, frameAt]
  split
  · rename_i hnone
    rw [hnone]
    rfl
  · refine B.render_eq port (fun p hp => ?_) ?_ ht hcol
    · obtain ⟨_, s, _, _, hc⟩ := h.mem_spec (mem_packetsAt.mp hp).1
      exact ⟨s, hc⟩
    · refine (h.pairwise.filter _).imp_of_mem fun {p q} hp hq hbefore => ?_
      have hpt := (mem_packetsAt.mp hp).2
      have hqt := (mem_packetsAt.mp hq).2
      rw [SentBefore] at hbefore
      omega

namespace LossyStream

variable {B : VoltageBlock} {first : ℕ} {ps : List Packet}

/-- The rows of the frames handed on, as a port presents them, are a prefix of the
reference reconstruction. -/
theorem rows_reference (h : LossyStream B first ps) (port : Port) :
    ((frameLog B.cfg.bOnePacket ps).pushed.flatMap fun f =>
      (List.range 16).map (B.rowData port f.origin)) <+: B.reference port ps := by
  have hrow : ∀ time, (List.range 16).map (B.rowData port (frameAt ps time)) =
      (List.range 16).map (B.referenceVector port ps time) := fun time =>
    List.map_congr_left fun t ht => h.rowData_eq port time (List.mem_range.mp ht)
  rw [h.pushed_eq, frameTimes, List.map_map, List.flatMap_map]
  simp only [Function.comp, pushAt, hrow]
  refine List.IsPrefix.flatMap (Blocks.range_mono ?_) _
  rw [frameCount]
  split
  · exact le_rfl
  · split <;> omega

end LossyStream

namespace VoltageBlock

variable (B : VoltageBlock)

theorem queuedItems_x (f : FramePush) :
    (B.queuedItems f).map (fun q => q.x.data) = (List.range 16).map (B.rowData .x f.origin) := by
  simp [queuedItems, queuedRow, Function.comp_def]

theorem queuedItems_y (f : FramePush) :
    (B.queuedItems f).map (fun q => q.y.map TimeVector.data) =
      if B.cfg.dPackedOutput then (List.range 16).map fun _ => none
      else ((List.range 16).map (B.rowData .y f.origin)).map some := by
  cases hp : B.cfg.dPackedOutput <;> simp [queuedItems, queuedRow, hp, Function.comp_def]

/-- The output of the first port of a run that has taken a lossy stream. -/
theorem Tracks.outputs_x {B : VoltageBlock} {first : ℕ} {arrived taken : List Packet}
    {delivered queue : List Queued} {w : WorkRun} (ht : B.Tracks arrived taken delivered queue w)
    (hs : LossyStream B first taken) :
    w.items.map (fun item => item.x.data) <+: B.reference .x taken := by
  have hx := congrArg (List.map TimeVector.data) ht.items_x
  rw [List.map_map, List.map_map] at hx
  refine (show w.items.map (fun item => item.x.data) = _ from hx) ▸ ?_
  refine (ht.delivered_rows.map _).trans ?_
  rw [List.map_flatMap]
  simp only [Function.comp_def, queuedItems_x]
  exact hs.rows_reference .x

/-- The output of the second port. -/
theorem Tracks.outputs_y {B : VoltageBlock} {first : ℕ} {arrived taken : List Packet}
    {delivered queue : List Queued} {w : WorkRun} (ht : B.Tracks arrived taken delivered queue w)
    (hs : LossyStream B first taken) :
    if B.cfg.dPackedOutput then ∀ item ∈ w.items, item.y = none
    else w.items.map (fun item => item.y.map TimeVector.data) <+:
      (B.reference .y taken).map some := by
  have hy := congrArg (List.map (Option.map TimeVector.data)) ht.items_y
  rw [List.map_map, List.map_map] at hy
  cases hp : B.cfg.dPackedOutput with
  | true =>
    simp only [if_true]
    intro item hitem
    have hmem : item.y ∈ delivered.map Queued.y := ht.items_y ▸ List.mem_map_of_mem hitem
    obtain ⟨q, hq, hqy⟩ := List.mem_map.mp hmem
    obtain ⟨f, -, hf⟩ := List.mem_flatMap.mp (ht.delivered_rows.subset hq)
    obtain ⟨t, -, rfl⟩ := List.mem_map.mp hf
    rw [← hqy, queuedRow, if_pos hp]
  | false =>
    simp only [Bool.false_eq_true, if_false]
    refine (show w.items.map (fun item => item.y.map TimeVector.data) = _ from hy) ▸ ?_
    refine (ht.delivered_rows.map _).trans ?_
    rw [List.map_flatMap]
    simp only [Function.comp_def, queuedItems_y, hp, Bool.false_eq_true, if_false]
    rw [← List.map_flatMap]
    exact (hs.rows_reference .y).map some

/-- **Exact lossy reconstruction.** On an in-order lossy stream every schedule
returns, and what it outputs on each port is a prefix of the reference
reconstruction of the packets it took. -/
theorem run_reconstructs (env : Environment) {first : ℕ} {calls : List Call}
    (hcalls : ∀ call ∈ calls, call.Valid) (h : LossyStream B first (arrivals calls)) :
    ∃ w taken, B.run env calls = .ok w ∧
      arrivals calls = taken ++ w.source.recv.dLocalqueue ∧
      w.items.map (fun item => item.x.data) <+: B.reference .x taken ∧
      if B.cfg.dPackedOutput then ∀ item ∈ w.items, item.y = none
      else w.items.map (fun item => item.y.map TimeVector.data) <+:
        (B.reference .y taken).map some := by
  obtain ⟨w, taken, delivered, queue, hw, ht, -, -⟩ := B.run_tracks env calls hcalls h.admissible
  have hs : LossyStream B first taken := by
    rw [ht.consumed] at h
    exact h.of_append
  exact ⟨w, taken, hw, ht.consumed, ht.outputs_x hs, ht.outputs_y hs⟩

/-- A block of two packets a frame that loses the second packet of the first frame. -/
theorem run_reconstructs_lost_packet :
    let B := ofWidth 2 (by decide) (by decide) true
    let calls := [Call.taking [plainPacket 0 16, plainPacket 0 32] 16]
    ∃ w taken, B.run ⟨[], fun _ _ => 0⟩ calls = .ok w ∧
      arrivals calls = taken ++ w.source.recv.dLocalqueue ∧
      w.items.map (fun item => item.x.data) <+: B.reference .x taken ∧
      if B.cfg.dPackedOutput then ∀ item ∈ w.items, item.y = none
      else w.items.map (fun item => item.y.map TimeVector.data) <+:
        (B.reference .y taken).map some := by
  intro B calls
  have hcalls : ∀ call ∈ calls, call.Valid := by
    intro call hcall
    rw [List.mem_singleton.mp hcall]
    exact Call.taking_valid _ (by decide) (by decide)
  exact run_reconstructs B _ hcalls (LossyStream.lost_packets true)

end VoltageBlock

end GrAta
