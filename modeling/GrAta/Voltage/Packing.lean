import GrAta.Voltage.ScheduleIndependence
import Mathlib.Data.List.Forall2

/-!
# Packed and unpacked output

Packed output keeps the two four-bit components of a sample in one byte, unpacked
output has a byte for each. The state of an unpacked block is a function of the
state of the packed block on the same input, and every step commutes with that
function: the two blocks fault together, and what one of them outputs is the
expansion of what the other one does.

## Main definitions

- `expand`: the buffer of an unpacked port, from the packed buffer
- `VoltState.unpack`: the unpacked state
- `ItemExpands`: an unpacked item is the signed expansion of a packed one

## Main results

- `workVoltMode_unpack`: one call commutes with unpacking
- `workRun_unpack`: so does every schedule
- `packed_unpacked_agree`: the outputs of the two blocks
-/

namespace GrAta

/-- The configuration with the given kind of output. -/
def Config.withPacking (c : Config) (packed : Bool) : Config := { c with dPackedOutput := packed }

section WithPacking

variable (c : Config) (packed : Bool)

@[simp] theorem Config.withPacking_bOnePacket :
    (c.withPacking packed).bOnePacket = c.bOnePacket := by rw [Config.withPacking]

@[simp] theorem Config.withPacking_dVeclen :
    (c.withPacking packed).dVeclen = c.dVeclen := by rw [Config.withPacking]

@[simp] theorem Config.withPacking_packetsPerFrame :
    (c.withPacking packed).packetsPerFrame = c.packetsPerFrame := by rw [Config.withPacking]

@[simp] theorem Config.withPacking_dUsePcap :
    (c.withPacking packed).dUsePcap = c.dUsePcap := by rw [Config.withPacking]

@[simp] theorem Config.withPacking_dHeaderType :
    (c.withPacking packed).dHeaderType = c.dHeaderType := by rw [Config.withPacking]

@[simp] theorem Config.withPacking_vectorBufferSize :
    (c.withPacking packed).vectorBufferSize = c.vectorBufferSize := by rw [Config.withPacking]

end WithPacking

/-- Columns `2 * c` and `2 * c + 1` of an unpacked port are the components of the
sample of channel `c`, which is byte `2 * c + pol` of the packed columns. -/
def expand (pol : ℕ) (cell : ℕ → UInt8) (i : ℕ) : UInt8 :=
  if i % 2 = 0 then highSample (cell (2 * (i / 2) + pol)) else lowSample (cell (2 * (i / 2) + pol))

def expandRegion (pol : ℕ) (r : Region UInt8) : Region UInt8 := ⟨r.size, expand pol r.cell⟩

def TimeVector.unpack (pol : ℕ) (v : TimeVector) : TimeVector :=
  { v with data := (List.range v.data.length).map (expand pol fun i => v.data.getD i 0) }

/-- The state of the unpacked block. -/
def VoltState.unpack (v : VoltState) : VoltState :=
  { v with
    xVectorBuffer := expandRegion 0 v.xVectorBuffer
    yVectorBuffer := expandRegion 1 v.xVectorBuffer
    xVectorQueue := v.xVectorQueue.map (TimeVector.unpack 0)
    yVectorQueue := v.xVectorQueue.map (TimeVector.unpack 1) }

def OutItem.unpack (item : OutItem) : OutItem :=
  ⟨item.x.unpack 0, some (item.x.unpack 1), item.tag⟩

def WorkResult.unpack (r : WorkResult) : WorkResult :=
  { r with items := r.items.map OutItem.unpack }

def SnapSource.unpack (s : SnapSource) : SnapSource := { s with volt := s.volt.unpack }

def WorkRun.unpack (w : WorkRun) : WorkRun := ⟨w.source.unpack, w.results.map WorkResult.unpack⟩

-- ════════════════════════════════════════════════════════════════════════
-- The corner turn
-- ════════════════════════════════════════════════════════════════════════

/-- Stores of adjacent pairs. -/
def pairStores {α : Type*} (ws : List (ℤ × α × α)) : List (ℤ × α) :=
  ws.flatMap fun w => [(w.1, w.2.1), (w.1 + 1, w.2.2)]

theorem storePair {α : Type*} (r : Region α) (i : ℤ) (a b : α) :
    ((r.store i a).bind fun r => r.store (i + 1) b) =
      if 0 ≤ i ∧ i + 1 < r.size then
        some ⟨r.size, Function.update (Function.update r.cell i.toNat a) (i.toNat + 1) b⟩
      else none := by
  by_cases h : 0 ≤ i ∧ i + 1 < r.size
  · have hn : (i + 1).toNat = i.toNat + 1 := by omega
    rw [if_pos h, Region.store_of_mem (by omega), Option.bind_some,
      Region.store_of_mem (by simp only; omega), hn]
  · rw [if_neg h]
    by_cases hi : 0 ≤ i ∧ i < r.size
    · rw [Region.store_of_mem hi, Option.bind_some, Region.store_of_notMem (by simp only; omega)]
    · rw [Region.store_of_notMem hi, Option.bind_none]

theorem storeAll_pairStores_cons {α : Type*} (r : Region α) (w : ℤ × α × α)
    (ws : List (ℤ × α × α)) :
    r.storeAll (pairStores (w :: ws)) =
      ((r.store w.1 w.2.1).bind fun r => r.store (w.1 + 1) w.2.2).bind fun r =>
        r.storeAll (pairStores ws) := by
  simp only [pairStores, List.flatMap_cons, List.cons_append, List.nil_append, Region.storeAll,
    Option.bind_assoc]

/-- A pair of packed bytes at an even index, as a pair of an unpacked port. -/
theorem expand_update {pol i : ℕ} (hpol : pol < 2) (hi : i % 2 = 0) (cell val : ℕ → UInt8) :
    expand pol (Function.update (Function.update cell i (val 0)) (i + 1) (val 1)) =
      Function.update (Function.update (expand pol cell) i (highSample (val pol))) (i + 1)
        (lowSample (val pol)) := by
  funext j
  simp only [Function.update_apply, expand]
  obtain rfl | rfl : pol = 0 ∨ pol = 1 := by omega
  all_goals
    by_cases h1 : j = i + 1
    · subst h1
      simp [show (i + 1) % 2 = 1 by omega, show 2 * ((i + 1) / 2) = i by omega]
    · by_cases h0 : j = i
      · subst h0
        simp [hi, show 2 * (j / 2) = j by omega]
      · simp [h1, h0, show 2 * (j / 2) ≠ i by omega, show 2 * (j / 2) ≠ i + 1 by omega,
          show 2 * (j / 2) + 1 ≠ i by omega]

/-- Storing pairs of bytes and expanding them commute. -/
theorem storeAll_expand {pol : ℕ} (hpol : pol < 2) (ws : List (ℤ × (ℕ → UInt8)))
    (heven : ∀ w ∈ ws, w.1 % 2 = 0) (r : Region UInt8) :
    (expandRegion pol r).storeAll (pairStores (ws.map fun w =>
        (w.1, highSample (w.2 pol), lowSample (w.2 pol)))) =
      (r.storeAll (pairStores (ws.map fun w => (w.1, w.2 0, w.2 1)))).map (expandRegion pol) := by
  induction ws generalizing r with
  | nil => rfl
  | cons w ws ih =>
    have hw := heven w (by simp)
    have ih := ih fun v hv => heven v (by simp [hv])
    rw [List.map_cons, List.map_cons, storeAll_pairStores_cons, storeAll_pairStores_cons,
      storePair, storePair]
    simp only [show (expandRegion pol r).size = r.size from rfl]
    by_cases hin : 0 ≤ w.1 ∧ w.1 + 1 < r.size
    · rw [if_pos hin, if_pos hin, Option.bind_some, Option.bind_some, ← ih, expandRegion,
        expandRegion, expand_update hpol (by omega)]
    · rw [if_neg hin, if_neg hin]
      rfl

variable (c : Config)

/-- The copy loops store pairs. -/
theorem cellStores_eq (hdr : SnapHeader) (even odd : ℕ → ℕ → UInt8) :
    cellStores c hdr even odd = pairStores ((List.range 16).flatMap fun t =>
      (List.range 256).map fun s => (vectorStart c hdr t + (2 * s : ℕ), even s t, odd s t)) := by
  simp only [cellStores, pairStores, List.flatMap_assoc, List.flatMap_map]
  push_cast
  simp only [add_assoc]

/-- Rows of even length start at even cells. -/
theorem vectorStart_even {c : Config} (hlen : c.dVeclen % 2 = 0) (hdr : SnapHeader) (t : ℕ) :
    vectorStart c hdr t % 2 = 0 := by
  have hrow : t * c.dVeclen % 2 = 0 := by rw [Nat.mul_mod, hlen, Nat.mul_zero, Nat.zero_mod]
  unfold vectorStart toInt32
  generalize t * c.dVeclen = m at hrow
  rw [Int.bmod_def]
  split <;> omega

/-- One buffer of the unpacked block after the copy of a packet. -/
theorem storeAll_cellStores_expand {c : Config} (hlen : c.dVeclen % 2 = 0) (pol : ℕ)
    (hpol : pol < 2) (hdr : SnapHeader) (data : ℕ → ℕ → ℕ → UInt8) (r : Region UInt8) :
    (expandRegion pol r).storeAll (cellStores c hdr (fun s t => highSample (data s t pol))
        (fun s t => lowSample (data s t pol))) =
      (r.storeAll (cellStores c hdr (fun s t => data s t 0) (fun s t => data s t 1))).map
        (expandRegion pol) := by
  have h := storeAll_expand hpol ((List.range 16).flatMap fun t =>
    (List.range 256).map fun s => (vectorStart c hdr t + (2 * s : ℕ), data s t)) (by
      intro w hw
      obtain ⟨t, _, hw⟩ := List.mem_flatMap.mp hw
      obtain ⟨s, _, rfl⟩ := List.mem_map.mp hw
      have := vectorStart_even hlen hdr t
      simp only
      omega) r
  rw [cellStores_eq, cellStores_eq]
  simpa only [List.map_flatMap, List.map_map, Function.comp_def] using h

theorem copy_unpack (hlen : c.dVeclen % 2 = 0) (p : Packet) (hdr : SnapHeader) (v : VoltState) :
    copyVoltDataToVectorBuffer (c.withPacking false) p hdr v.unpack =
      (copyVoltDataToVectorBuffer (c.withPacking true) p hdr v).map VoltState.unpack := by
  have hx := storeAll_cellStores_expand hlen 0 (by decide) hdr (vpData c p)
    v.xVectorBuffer
  have hy := storeAll_cellStores_expand hlen 1 (by decide) hdr (vpData c p)
    v.xVectorBuffer
  rw [copyVoltDataToVectorBuffer]
  simp only [Config.withPacking, Bool.false_eq_true, if_false]
  change (do
    let x ← inBounds ((expandRegion 0 v.xVectorBuffer).storeAll (cellStores c hdr
      (fun s t => highSample (vpData c p s t 0)) (fun s t => lowSample (vpData c p s t 0))))
    let y ← inBounds ((expandRegion 1 v.xVectorBuffer).storeAll (cellStores c hdr
      (fun s t => highSample (vpData c p s t 1)) (fun s t => lowSample (vpData c p s t 1))))
    Except.ok { v.unpack with
      xVectorBuffer := x, yVectorBuffer := y, copied := recordCopy v.copied p }) =
    Except.map VoltState.unpack (do
      let x ← inBounds (v.xVectorBuffer.storeAll (cellStores c hdr (fun s t => vpData c p s t 0)
        (fun s t => vpData c p s t 1)))
      Except.ok { v with xVectorBuffer := x, copied := recordCopy v.copied p })
  rw [hx, hy]
  cases v.xVectorBuffer.storeAll (cellStores c hdr (fun s t => vpData c p s t 0)
    (fun s t => vpData c p s t 1)) <;> rfl

/-- Rows of even length can be expanded one by one. -/
theorem rows_expand {pol : ℕ} (hpol : pol < 2) {n len : ℕ} (hlen : len % 2 = 0)
    (r : Region UInt8) :
    (expandRegion pol r).rows n len = (r.rows n len).map fun rows => rows.map fun row =>
      (List.range row.length).map (expand pol fun i => row.getD i 0) := by
  unfold Region.rows
  simp only [show (expandRegion pol r).size = r.size from rfl]
  split
  · rw [Option.map_some, List.map_map]
    congr 1
    refine List.map_congr_left fun t _ => ?_
    simp only [Function.comp, List.length_map, List.length_range]
    refine List.map_congr_left fun k hk => ?_
    rw [List.mem_range] at hk
    have hrow : t * len % 2 = 0 := by rw [Nat.mul_mod, hlen, Nat.mul_zero, Nat.zero_mod]
    have hin : 2 * (k / 2) + pol < len := by omega
    have hcell : ((List.range len).map fun k => r.cell (t * len + k)).getD (2 * (k / 2) + pol) 0 =
        r.cell (t * len + (2 * (k / 2) + pol)) := by
      rw [List.getD_eq_getElem?_getD, List.getElem?_map, List.getElem?_range hin]
      rfl
    simp only [expandRegion, expand, hcell]
    generalize t * len = m at hrow
    rw [show (m + k) % 2 = k % 2 by omega, show 2 * ((m + k) / 2) + pol =
      m + (2 * (k / 2) + pol) by omega]
  · rfl

theorem timeVectors_expand {c : Config} (hlen : c.dVeclen % 2 = 0) (pol : ℕ) (hpol : pol < 2)
    (r : Region UInt8) (origin : FrameOrigin) :
    timeVectors (c.withPacking false) (expandRegion pol r) origin =
      (timeVectors (c.withPacking true) r origin).map (List.map (TimeVector.unpack pol)) := by
  unfold timeVectors
  simp only [Config.withPacking_dVeclen]
  rw [rows_expand hpol hlen]
  cases r.rows 16 c.dVeclen with
  | none => rfl
  | some rows =>
    simp only [Option.map_some, inBounds_some, ok_bind, Except.map, List.zipIdx_map, List.map_map]
    rfl

theorem queue_unpack (hlen : c.dVeclen % 2 = 0) (hdr : SnapHeader) (v : VoltState) :
    queueVoltageData (c.withPacking false) hdr v.unpack =
      (queueVoltageData (c.withPacking true) hdr v).map VoltState.unpack := by
  have hx := timeVectors_expand hlen 0 (by decide) v.xVectorBuffer (.received v.copied)
  have hy := timeVectors_expand hlen 1 (by decide) v.xVectorBuffer (.received v.copied)
  rw [queueVoltageData]
  change (do
    let xs ← timeVectors (c.withPacking false) (expandRegion 0 v.xVectorBuffer)
      (.received v.copied)
    let ys ← timeVectors (c.withPacking false) (expandRegion 1 v.xVectorBuffer)
      (.received v.copied)
    Except.ok { v.unpack with
      xVectorQueue := v.unpack.xVectorQueue ++ xs
      yVectorQueue := v.unpack.yVectorQueue ++ ys
      seqNumQueue := pushSeqNums v.unpack hdr.sampleNumber }) =
    Except.map VoltState.unpack (do
      let xs ← timeVectors (c.withPacking true) v.xVectorBuffer (.received v.copied)
      Except.ok { v with
        xVectorQueue := v.xVectorQueue ++ xs
        yVectorQueue := v.yVectorQueue ++ []
        seqNumQueue := pushSeqNums v hdr.sampleNumber })
  rw [hx, hy]
  cases timeVectors (c.withPacking true) v.xVectorBuffer (.received v.copied) with
  | error e => rfl
  | ok xs =>
    simp only [Except.map, ok_bind, VoltState.unpack, List.map_append]
    rfl

theorem highSample_zero : highSample 0 = 0 := rfl

theorem lowSample_zero : lowSample 0 = 0 := rfl

theorem expand_zero (pol : ℕ) : expand pol (fun _ => 0) = fun _ => 0 := by
  funext i
  simp only [expand, highSample_zero, lowSample_zero, ite_self]

theorem zeroVectors_unpack (pol missed : ℕ) :
    (zeroVectors (c.withPacking true) missed).map (TimeVector.unpack pol) =
      zeroVectors (c.withPacking false) missed := by
  have hcell : (fun i => (List.replicate c.dVeclen (0 : UInt8)).getD i 0) = fun _ => 0 := by
    funext i
    rw [List.getD_eq_getElem?_getD, List.getElem?_replicate]
    split <;> rfl
  simp only [zeroVectors, List.map_map]
  refine List.map_congr_left fun t _ => ?_
  simp only [Function.comp, TimeVector.unpack, Config.withPacking, List.length_replicate, hcell,
    expand_zero, List.map_const', List.length_range]

theorem queueMissedFrame_unpack (v : VoltState) (missed : ℕ) :
    queueMissedFrame (c.withPacking false) v.unpack missed =
      (queueMissedFrame (c.withPacking true) v missed).unpack := by
  have hx := zeroVectors_unpack c 0 missed
  have hy := zeroVectors_unpack c 1 missed
  simp only [queueMissedFrame, VoltState.unpack, List.map_append, hx, hy]
  rfl

-- ════════════════════════════════════════════════════════════════════════
-- The packet loop
-- ════════════════════════════════════════════════════════════════════════

/-- A result of the packet loop with its state unpacked. -/
def unpackAcc (acc : VoltState × ℤ) : VoltState × ℤ := (acc.1.unpack, acc.2)

theorem fillGap_unpack (sample : ℕ) (v : VoltState) :
    fillGap (c.withPacking false) sample v.unpack =
      (fillGap (c.withPacking true) sample v).map VoltState.unpack := by
  have hfold : ∀ (missed : List ℕ) (v : VoltState),
      missed.foldl (queueMissedFrame (c.withPacking false)) v.unpack =
        (missed.foldl (queueMissedFrame (c.withPacking true)) v).unpack := by
    intro missed
    induction missed with
    | nil => exact fun _ => rfl
    | cons m missed ih =>
      intro v
      rw [List.foldl_cons, List.foldl_cons, queueMissedFrame_unpack, ih]
  unfold fillGap
  rw [show v.unpack.dLastTimestamp = v.dLastTimestamp from rfl]
  cases gapTimestamps sample (MAX_MISSED_SETS + 1) ((v.dLastTimestamp + 16) % 2 ^ 64) with
  | none => rfl
  | some missed => exact congrArg Except.ok (hfold missed v)

theorem checkMissingFrames_unpack (hdr : SnapHeader) (v : VoltState) (skipped : ℤ) :
    checkMissingFrames (c.withPacking false) hdr v.unpack skipped =
      (checkMissingFrames (c.withPacking true) hdr v skipped).map unpackAcc := by
  unfold checkMissingFrames
  simp only [show v.unpack.dLastTimestamp = v.dLastTimestamp from rfl,
    Config.withPacking_packetsPerFrame]
  split
  · split
    · split
      · rw [fillGap_unpack]
        exact Execution.map_bind fun _ => rfl
      · rfl
    · rfl
  · rfl

theorem finishFrame_unpack (hlen : c.dVeclen % 2 = 0) (hdr : SnapHeader) (v : VoltState)
    (skipped : ℤ) :
    finishFrame (c.withPacking false) hdr v.unpack skipped =
      (finishFrame (c.withPacking true) hdr v skipped).map unpackAcc := by
  unfold finishFrame
  simp only [Config.withPacking_bOnePacket]
  split
  · rfl
  · rw [queue_unpack c hlen]
    exact Execution.map_bind fun _ => rfl

theorem clear_unpack (v : VoltState) :
    clearVectorBuffers (c.withPacking false) v.unpack =
      (clearVectorBuffers (c.withPacking true) v).unpack := by
  have hfill : ∀ pol, expandRegion pol (v.xVectorBuffer.fill 0) =
      (expandRegion pol v.xVectorBuffer).fill 0 := by
    intro pol
    simp only [expandRegion, Region.fill, expand_zero]
  simp only [clearVectorBuffers, VoltState.unpack, hfill]
  rfl

theorem startFrame_unpack (hlen : c.dVeclen % 2 = 0) (p : Packet) (hdr : SnapHeader)
    (v : VoltState) :
    startFrame (c.withPacking false) p hdr v.unpack =
      (startFrame (c.withPacking true) p hdr v).map VoltState.unpack := by
  unfold startFrame
  simp only [Config.withPacking_bOnePacket]
  split
  · rw [copy_unpack c hlen]
    exact Execution.map_bind fun v' => queue_unpack c hlen hdr v'
  · rw [← copy_unpack c hlen, ← clear_unpack]
    rfl

/-- One packet. -/
theorem processPacket_unpack (hlen : c.dVeclen % 2 = 0) (acc : VoltState × ℤ) (p : Packet) :
    processPacket (c.withPacking false) (unpackAcc acc) p =
      (processPacket (c.withPacking true) acc p).map unpackAcc := by
  unfold processPacket
  simp only [Config.withPacking_bOnePacket,
    show (unpackAcc acc).1.dLastTimestamp = acc.1.dLastTimestamp from rfl]
  split
  · rw [show (unpackAcc acc).1 = acc.1.unpack from rfl, finishFrame_unpack c hlen]
    refine Execution.map_bind fun acc' => ?_
    simp only [unpackAcc]
    rw [checkMissingFrames_unpack]
    refine Execution.map_bind fun acc'' => ?_
    simp only [unpackAcc]
    rw [startFrame_unpack c hlen]
    exact Execution.map_bind fun _ => rfl
  · have hset : (if acc.1.dLastTimestamp = 0 then
          { (unpackAcc acc).1 with
            dLastTimestamp := (getVoltageHeader (pointer p)).sampleNumber }
        else (unpackAcc acc).1) =
        (if acc.1.dLastTimestamp = 0 then
          { acc.1 with dLastTimestamp := (getVoltageHeader (pointer p)).sampleNumber }
        else acc.1).unpack := by
      split <;> rfl
    rw [hset, copy_unpack c hlen]
    exact Execution.map_bind fun _ => rfl

theorem packetLoop_unpack (hlen : c.dVeclen % 2 = 0) (noutput : ℕ) :
    ∀ (n : ℕ) (r : Receiver) (acc : VoltState × ℤ),
      packetLoop (c.withPacking false) noutput n (r, unpackAcc acc) =
        (packetLoop (c.withPacking true) noutput n (r, acc)).map fun s => (s.1, unpackAcc s.2) := by
  intro n
  induction n with
  | zero => exact fun _ _ => rfl
  | succ n ih =>
    intro r acc
    have hlength : (unpackAcc acc).1.xVectorQueue.length = acc.1.xVectorQueue.length := by
      simp [unpackAcc, VoltState.unpack]
    unfold packetLoop
    simp only [hlength]
    split
    · cases fillLocalBuffer r with
      | error e => rfl
      | ok pr =>
        simp only [ok_bind]
        rw [processPacket_unpack c hlen]
        exact Execution.map_bind fun acc' => ih pr.2 acc'
    · rfl

/-- One item. -/
theorem emitItem_unpack (live : Bool) (v : VoltState) :
    emitItem (c.withPacking false) live v.unpack =
      (emitItem (c.withPacking true) live v).map fun r => (r.1.unpack, r.2.unpack) := by
  unfold emitItem
  rw [show popSecond (c.withPacking true) v = .ok (none, v.yVectorQueue) from rfl,
    show popTag live v.unpack = popTag live v from rfl,
    show popSecond (c.withPacking false) v.unpack =
      (popFront (v.xVectorQueue.map (TimeVector.unpack 1))).map fun r => (some r.1, r.2) from rfl,
    show v.unpack.xVectorQueue = v.xVectorQueue.map (TimeVector.unpack 0) from rfl]
  cases v.xVectorQueue with
  | nil => rfl
  | cons x xs =>
    cases popTag live v with
    | error e => rfl
    | ok tag => rfl

theorem emitItems_unpack (live : Bool) : ∀ (n : ℕ) (v : VoltState),
    emitItems (c.withPacking false) live n v.unpack =
      (emitItems (c.withPacking true) live n v).map fun r =>
        (r.1.map OutItem.unpack, r.2.unpack) := by
  intro n
  induction n with
  | zero => exact fun _ => rfl
  | succ n ih =>
    intro v
    rw [emitItems, emitItems, emitItem_unpack]
    refine Execution.map_bind fun r => ?_
    simp only
    rw [ih]
    exact Execution.map_bind fun _ => rfl

/-- **One call.** -/
theorem workVoltMode_unpack (hlen : c.dVeclen % 2 = 0) (noutput : ℕ) (live : Bool)
    (s : SnapSource) :
    workVoltMode (c.withPacking false) noutput live s.unpack =
      (workVoltMode (c.withPacking true) noutput live s).map fun r => (r.1.unpack, r.2.unpack) := by
  have hnil : s.unpack.volt.xVectorQueue = [] ↔ s.volt.xVectorQueue = [] := List.map_eq_nil_iff
  unfold workVoltMode
  simp only [show s.unpack.recv = s.recv from rfl, hnil]
  split
  · rfl
  · rw [show (s.unpack.volt, (0 : ℤ)) = unpackAcc (s.volt, 0) from rfl, packetLoop_unpack c hlen]
    refine Execution.map_bind fun r => ?_
    have hlength : (unpackAcc r.2).1.xVectorQueue.length = r.2.1.xVectorQueue.length := by
      simp [unpackAcc, VoltState.unpack]
    simp only [hlength]
    rw [show (unpackAcc r.2).1 = r.2.1.unpack from rfl, emitItems_unpack]
    exact Execution.map_bind fun _ => rfl

-- ════════════════════════════════════════════════════════════════════════
-- Schedules
-- ════════════════════════════════════════════════════════════════════════

theorem handleSyncMsg_unpack (v : VoltState) (m : Pmt) :
    handleSyncMsg v.unpack m = (handleSyncMsg v m).map VoltState.unpack := by
  unfold handleSyncMsg
  cases m.cdr with
  | error e => rfl
  | ok d =>
    simp only [Except.map]
    cases d.toUint64 <;> rfl

theorem workCall_unpack (hlen : c.dVeclen % 2 = 0) (w : WorkRun) (call : Call) :
    workCall (c.withPacking false) w.unpack call =
      (workCall (c.withPacking true) w call).map WorkRun.unpack := by
  have hmsgs : handleMessages w.unpack.source.volt call.messages =
      (handleMessages w.source.volt call.messages).map VoltState.unpack := by
    rw [handleMessages]
    exact Execution.run_map handleSyncMsg_unpack w.source.volt call.messages
  rw [workCall, hmsgs]
  refine Execution.map_bind fun volt => ?_
  have hwork := workVoltMode_unpack c hlen call.noutputItems true
    { w.source with recv := call.receive w.source.recv, volt := volt }
  change (workVoltMode (c.withPacking false) call.noutputItems true (SnapSource.unpack
    { w.source with recv := call.receive w.source.recv, volt := volt }) >>= _) = _
  rw [hwork]
  refine Execution.map_bind fun r => ?_
  simp [WorkRun.unpack, Except.map]

theorem start_unpack (u : Unset) (env : Environment) :
    start (c.withPacking false) u env =
      (start (c.withPacking true) u env).map SnapSource.unpack := by
  have hinit : ∀ n m, (initialVolt n m).unpack = initialVolt n n := by
    intro n m
    simp only [initialVolt, VoltState.unpack, expandRegion, expand_zero, List.map_nil]
  have hvolt : (startVolt (c.withPacking true)).unpack = startVolt (c.withPacking false) :=
    hinit _ _
  unfold start
  simp only [Config.withPacking_dUsePcap, Config.withPacking_packetsPerFrame,
    Config.withPacking_dHeaderType, Config.withPacking_vectorBufferSize]
  split
  · rfl
  · split
    · split
      · rfl
      · simp only [Except.map, SnapSource.unpack, hvolt]
    · simp only [Except.map, SnapSource.unpack, hinit]

/-- **Every schedule.** -/
theorem workRun_unpack (hlen : c.dVeclen % 2 = 0) (u : Unset) (env : Environment)
    (calls : List Call) :
    workRun (c.withPacking false) u env calls =
      (workRun (c.withPacking true) u env calls).map WorkRun.unpack := by
  rw [workRun, start_unpack]
  refine Execution.map_bind fun s => ?_
  exact Execution.run_map (workCall_unpack c hlen) ⟨s, []⟩ calls

-- ════════════════════════════════════════════════════════════════════════
-- The signed expansion
-- ════════════════════════════════════════════════════════════════════════

/-- The value of a byte as a signed number. -/
def signedByte (b : UInt8) : ℤ := b.toInt8.toInt

/-- The value of a four-bit component. The pattern 1000 is a second zero. -/
def signedNibble (n : ℕ) : ℤ := if n < 8 then n else if n = 8 then 0 else n - 16

/-- The table and the function that it tabulates. -/
theorem twosComplementLookup4Bit_spec : ∀ n < 16,
    (twosComplementLookup4Bit (UInt8.ofNat n)).toInt = signedNibble n ∧
      twosComplement4Bit (Int8.ofNat n) = twosComplementLookup4Bit (UInt8.ofNat n) := by
  decide

theorem signedByte_highSample (b : UInt8) :
    signedByte (highSample b) = signedNibble (b.toNat / 16) := by
  have hb : b.toNat < 256 := b.toNat_lt
  have hshift : b >>> 4 = UInt8.ofNat (b.toNat / 16) := by
    have hdiv : (b >>> 4).toNat = b.toNat / 16 := by
      rw [UInt8.toNat_shiftRight, Nat.shiftRight_eq_div_pow]
      rfl
    apply UInt8.toNat.inj
    rw [hdiv, UInt8.toNat_ofNat', Nat.mod_eq_of_lt (by omega)]
  rw [← (twosComplementLookup4Bit_spec _ (show b.toNat / 16 < 16 by omega)).1, ← hshift]
  rfl

theorem signedByte_lowSample (b : UInt8) :
    signedByte (lowSample b) = signedNibble (b.toNat % 16) := by
  have hmask : b &&& 0x0F = UInt8.ofNat (b.toNat % 16) := by
    apply UInt8.toNat.inj
    rw [UInt8.toNat_and, UInt8.toNat_ofNat']
    have h := Nat.and_two_pow_sub_one_eq_mod b.toNat 4
    rw [Nat.mod_eq_of_lt (by omega)]
    exact h
  rw [← (twosComplementLookup4Bit_spec _ (show b.toNat % 16 < 16 by omega)).1, ← hmask]
  rfl

/-- The vectors `x` and `y` are the signed expansion of the packed vector `p`: in the
columns of channel `c`, `x` has the components of byte `2 * c` of `p`, and `y` those
of the byte after it. -/
structure VectorExpands (p x y : List UInt8) : Prop where
  length_x : x.length = p.length
  length_y : y.length = p.length
  x_even : ∀ c, 2 * c + 1 < p.length →
    signedByte (x.getD (2 * c) 0) = signedNibble ((p.getD (2 * c) 0).toNat / 16)
  x_odd : ∀ c, 2 * c + 1 < p.length →
    signedByte (x.getD (2 * c + 1) 0) = signedNibble ((p.getD (2 * c) 0).toNat % 16)
  y_even : ∀ c, 2 * c + 1 < p.length →
    signedByte (y.getD (2 * c) 0) = signedNibble ((p.getD (2 * c + 1) 0).toNat / 16)
  y_odd : ∀ c, 2 * c + 1 < p.length →
    signedByte (y.getD (2 * c + 1) 0) = signedNibble ((p.getD (2 * c + 1) 0).toNat % 16)

/-- An unpacked item is the signed expansion of a packed one, under the same tag. -/
def ItemExpands (packed unpacked : OutItem) : Prop :=
  unpacked.tag = packed.tag ∧
    ∃ y, unpacked.y = some y ∧ VectorExpands packed.x.data unpacked.x.data y.data

/-- Two runs return the same number of items in every call, and the items of the
second are the signed expansion of those of the first. -/
def RunExpands (packed unpacked : WorkRun) : Prop :=
  packed.results.Forall₂ (fun r r' => r.items.Forall₂ ItemExpands r'.items) unpacked.results

theorem unpack_getD (pol : ℕ) (v : TimeVector) {i : ℕ} (h : i < v.data.length) :
    (v.unpack pol).data.getD i 0 = expand pol (fun i => v.data.getD i 0) i := by
  rw [TimeVector.unpack, List.getD_eq_getElem?_getD, List.getElem?_map, List.getElem?_range h]
  rfl

theorem unpack_expands (item : OutItem) : ItemExpands item item.unpack := by
  refine ⟨rfl, _, rfl, by simp [OutItem.unpack, TimeVector.unpack],
    by simp [TimeVector.unpack], ?_, ?_, ?_, ?_⟩
  all_goals
    intro c hc
    have h0 : 2 * (2 * c / 2) = 2 * c := by omega
    have h1 : 2 * ((2 * c + 1) / 2) = 2 * c := by omega
    change signedByte ((TimeVector.unpack _ item.x).data.getD _ 0) = _
    rw [unpack_getD _ _ (by omega), expand]
  · rw [if_pos (by omega), signedByte_highSample, h0, Nat.add_zero]
  · rw [if_neg (by omega), signedByte_lowSample, h1, Nat.add_zero]
  · rw [if_pos (by omega), signedByte_highSample, h0]
  · rw [if_neg (by omega), signedByte_lowSample, h1]

theorem unpackRun_expands (w : WorkRun) : RunExpands w w.unpack := by
  rw [RunExpands, WorkRun.unpack]
  simp only [List.forall₂_map_right_iff, WorkResult.unpack]
  exact List.forall₂_same.mpr fun r _ => List.forall₂_same.mpr fun item _ => unpack_expands item

theorem voltageFormat_packing (a : Args) (packed : Bool) :
    voltageFormat { a with packedOutput := packed } =
      (voltageFormat a).map fun c => c.withPacking packed := by
  unfold voltageFormat
  simp only [show declaredItemSize { a with packedOutput := packed } = declaredItemSize a from rfl]
  split
  · simp only [Except.map]
  · simp only [Except.map, Config.withPacking]

/-- The constructor passes the kind of output on. -/
theorem construct_packing (a : Args) (u : Unset) (packed : Bool) :
    construct { a with packedOutput := packed } u =
      (construct a u).map fun c => c.withPacking packed := by
  unfold construct
  simp only [voltageFormat_packing,
    show declaredItemSize { a with packedOutput := packed } = declaredItemSize a from rfl]
  split
  · rfl
  · split
    · rfl
    · split
      · rfl
      · split
        · rfl
        · split
          · simp only [Except.map, spectFormat, Config.withPacking]
            rfl
          · rfl

theorem dVeclen_even {a : Args} {u : Unset} {c : Config} (h : construct a u = .ok c)
    (hv : a.headerType = SNAP_PACKETTYPE_VOLTAGE) : c.dVeclen % 2 = 0 := by
  have hf := (construct_voltage h hv).2
  rw [voltageFormat] at hf
  simp only at hf
  split at hf
  · cases hf
  · rw [← Except.ok.inj hf]
    rw [toSizeT]
    simp only
    omega

/-- **Packed and unpacked output agree.** On the same schedule a packed and an
unpacked block fault together, or both return the same number of items in every
call and the unpacked items are the signed expansion of the packed ones, by the
table of `start`, which tabulates `twosComplement4Bit`. For packets in range whose
gaps can be filled both return. -/
theorem packed_unpacked_agree {a : Args} {u : Unset} {c c' : Config}
    (hv : a.headerType = SNAP_PACKETTYPE_VOLTAGE)
    (hc : construct { a with packedOutput := true } u = .ok c)
    (hc' : construct { a with packedOutput := false } u = .ok c') (env : Environment)
    (calls : List Call) :
    Execution.Related RunExpands (workRun c u env calls) (workRun c' u env calls) ∧
      (∀ n < 16, (twosComplementLookup4Bit (UInt8.ofNat n)).toInt = signedNibble n ∧
        twosComplement4Bit (Int8.ofNat n) = twosComplementLookup4Bit (UInt8.ofNat n)) ∧
      (1 ≤ c.packetsPerFrame → (∀ call ∈ calls, call.Valid) →
        (∀ p ∈ arrivals calls, c.dStartingChannel ≤ channel p ∧
          channel p ≤ c.dEndingChannelPacketChannelId ∧ timestamp p < 2 ^ 64 - 16) →
        ∃ w, workRun c u env calls = .ok w) := by
  refine ⟨?_, twosComplementLookup4Bit_spec, ?_⟩
  · have hpack := construct_packing { a with packedOutput := true } u false
    rw [hc] at hpack
    have hunpacked : c' = c.withPacking false := Except.ok.inj (hc'.symm.trans hpack)
    have hpacked : c.withPacking true = c := by
      have hsame := construct_packing { a with packedOutput := true } u true
      exact (Except.ok.inj (hc.symm.trans (hsame.trans (congrArg _ hc)))).symm
    have hrun := workRun_unpack c (dVeclen_even hc hv) u env calls
    rw [hpacked, ← hunpacked] at hrun
    rw [hrun]
    exact Execution.Related.of_map unpackRun_expands _
  · intro hone hcalls hpackets
    let B : VoltageBlock := ⟨_, u, c, hc, hv, hone⟩
    obtain ⟨w, -, -, -, hw, -⟩ := B.run_tracks env calls hcalls
      (B.admissible_of_timestamp_lt 0 fun p hp => by
        obtain ⟨h1, h2, h3⟩ := hpackets p hp
        exact ⟨⟨h1, h2⟩, h3⟩)
    exact ⟨w, hw⟩

/-- A packet of channel 0 whose samples all have the components 3 and -7. -/
def brightPacket (ts : ℕ) : Packet := voltagePacket ⟨0, 0, ts, 2, 0⟩ 256 (List.replicate 8192 0x39)

theorem channel_brightPacket (ts : ℕ) : channel (brightPacket ts) = 0 :=
  voltageChan_voltagePacket ..

theorem timestamp_brightPacket {ts : ℕ} (h : ts < 2 ^ 64) : timestamp (brightPacket ts) = ts :=
  (sampleNumber_voltagePacket ..).trans (Nat.mod_eq_of_lt h)

/-- Two frames of such samples. -/
theorem packed_unpacked_agree_bright :
    let c := widthConfig 1 true
    let c' := widthConfig 1 false
    let env : Environment := ⟨[], fun _ _ => 0⟩
    let calls := [Call.taking [brightPacket 16] 16, Call.taking [brightPacket 32] 16]
    Execution.Related RunExpands (workRun c noUnset env calls) (workRun c' noUnset env calls) ∧
      ∃ w, workRun c noUnset env calls = .ok w := by
  intro c c' env calls
  obtain ⟨hrelated, -, hreturns⟩ := packed_unpacked_agree (a := widthArgs 1 true) rfl
    (construct_widthArgs (by decide) (by decide) true)
    (construct_widthArgs (by decide) (by decide) false) env calls
  refine ⟨hrelated, hreturns (by decide) ?_ ?_⟩
  · simp only [calls, List.forall_mem_cons]
    exact ⟨Call.taking_valid _ (by decide) dvd_rfl, Call.taking_valid _ (by decide) dvd_rfl,
      List.forall_mem_nil _⟩
  · have hrange : ∀ ts < 2 ^ 64 - 16, c.dStartingChannel ≤ channel (brightPacket ts) ∧
        channel (brightPacket ts) ≤ c.dEndingChannelPacketChannelId ∧
        timestamp (brightPacket ts) < 2 ^ 64 - 16 := by
      intro ts hts
      rw [channel_brightPacket, timestamp_brightPacket (by omega)]
      exact ⟨le_rfl, Nat.zero_le _, hts⟩
    change ∀ p ∈ [brightPacket 16, brightPacket 32], _
    exact List.forall_mem_cons.mpr ⟨hrange 16 (by decide),
      List.forall_mem_singleton.mpr (hrange 32 (by decide))⟩

end GrAta
