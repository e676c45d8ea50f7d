import GrAta.Snap.CornerTurn
import GrAta.Voltage.FrameLog

/-!
# Rendering frames

The bytes of a frame, as a function of its origin: the packets of a received
frame are overlaid on zeros in the order they were copied, a missed frame is
zero. `rowData` cuts the sixteen output vectors from it.

## Main definitions

- `VoltageBlock.samples`: the values that a packet contributes to a polarization
- `VoltageBlock.render`, `VoltageBlock.frameCell`: the cells of a frame
- `VoltageBlock.queuedItems`: the sixteen queued items of a frame
-/

namespace GrAta

/-- The two output ports. In packed mode only the first one is used, and it
carries both polarizations. -/
inductive Port where
  | x | y
  deriving DecidableEq, Repr

/-- The index of the polarization in the packet that an unpacked port carries. -/
def Port.pol : Port → ℕ
  | .x => 0
  | .y => 1

namespace VoltageBlock

variable (B : VoltageBlock)

/-- The values that the samples of a packet take in even and odd columns. -/
def samples (port : Port) (p : Packet) : (ℕ → ℕ → UInt8) × (ℕ → ℕ → UInt8) :=
  let data := vpData B.cfg p
  if B.cfg.dPackedOutput then (fun s t => data s t 0, fun s t => data s t 1)
  else (fun s t => highSample (data s t port.pol), fun s t => lowSample (data s t port.pol))

/-- The buffer of a port after one more packet. -/
def overlayPacket (port : Port) (cell : ℕ → UInt8) (p : Packet) : ℕ → UInt8 :=
  B.overlay (B.samples port p).1 (B.samples port p).2 (channel p) cell

/-- The buffer of a port after the packets of a frame, over zeros. -/
def render (port : Port) (packets : List Packet) : ℕ → UInt8 :=
  packets.foldl (B.overlayPacket port) fun _ => 0

/-- The cells of a frame. -/
def frameCell (port : Port) : FrameOrigin → ℕ → UInt8
  | .received packets => B.render port packets
  | .missed _ => fun _ => 0

/-- The output vector of time row `t`. -/
def rowData (port : Port) (origin : FrameOrigin) (t : ℕ) : List UInt8 :=
  (List.range B.cfg.dVeclen).map fun k => B.frameCell port origin (t * B.cfg.dVeclen + k)

/-- The sixteen vectors of a frame. -/
def frameVectors (port : Port) (origin : FrameOrigin) : List TimeVector :=
  (List.range 16).map fun t => ⟨B.rowData port origin t, origin, t⟩

end VoltageBlock

/-- One entry of the output queues: the vectors of both ports and the sequence
number. -/
structure Queued where
  x : TimeVector
  y : Option TimeVector
  seqNum : ℕ
  deriving DecidableEq, Repr

namespace VoltageBlock

variable (B : VoltageBlock)

/-- The queue entry of time row `t` of a frame. -/
def queuedRow (f : FramePush) (t : ℕ) : Queued where
  x := ⟨B.rowData .x f.origin t, f.origin, t⟩
  y := if B.cfg.dPackedOutput then none else some ⟨B.rowData .y f.origin t, f.origin, t⟩
  seqNum := f.seqNum

def queuedItems (f : FramePush) : List Queued := (List.range 16).map (B.queuedRow f)

@[simp] theorem queuedItems_length (f : FramePush) : (B.queuedItems f).length = 16 := by
  simp [queuedItems]

theorem overlayPacket_of_covers {port : Port} {p : Packet} {i : ℕ}
    (h : B.Covers (channel p) i) (cell : ℕ → UInt8) :
    B.overlayPacket port cell p i =
      B.turned (B.samples port p).1 (B.samples port p).2 (channel p) i := if_pos h

theorem overlayPacket_of_not_covers {port : Port} {p : Packet} {i : ℕ}
    (h : ¬B.Covers (channel p) i) (cell : ℕ → UInt8) :
    B.overlayPacket port cell p i = cell i := if_neg h

/-- Packets of a channel leave the cells outside that channel alone, so they may
be dropped there. -/
theorem foldl_overlay_filter {port : Port} {chan i : ℕ} (h : ¬B.Covers chan i)
    (packets : List Packet) {cell cell' : ℕ → UInt8} (hc : cell i = cell' i) :
    (packets.filter fun q => channel q ≠ chan).foldl (B.overlayPacket port) cell i =
      packets.foldl (B.overlayPacket port) cell' i := by
  induction packets generalizing cell cell' with
  | nil => exact hc
  | cons q packets ih =>
    by_cases hq : channel q = chan
    · rw [List.filter_cons_of_neg (by simp [hq]), List.foldl_cons]
      exact ih (by rw [B.overlayPacket_of_not_covers (by rwa [hq]), hc])
    · rw [List.filter_cons_of_pos (by simp [hq]), List.foldl_cons, List.foldl_cons]
      apply ih
      by_cases hcov : B.Covers (channel q) i
      · rw [B.overlayPacket_of_covers hcov, B.overlayPacket_of_covers hcov]
      · rw [B.overlayPacket_of_not_covers hcov, B.overlayPacket_of_not_covers hcov, hc]

/-- Copying a packet over an assembled frame renders the recorded packets. -/
theorem render_recordCopy (port : Port) (packets : List Packet) (p : Packet) :
    B.render port (recordCopy packets p) = B.overlayPacket port (B.render port packets) p := by
  funext i
  rw [render, recordCopy, List.foldl_append, List.foldl_cons, List.foldl_nil]
  by_cases h : B.Covers (channel p) i
  · rw [B.overlayPacket_of_covers h, B.overlayPacket_of_covers h]
  · rw [B.overlayPacket_of_not_covers h, B.overlayPacket_of_not_covers h]
    exact B.foldl_overlay_filter h packets rfl

@[simp] theorem render_nil (port : Port) : B.render port [] = fun _ => 0 := rfl

/-- The zeroed vectors of a missed frame. -/
theorem frameVectors_missed (port : Port) (m : ℕ) :
    B.frameVectors port (.missed m) = zeroVectors B.cfg m := by
  simp [frameVectors, zeroVectors, rowData, frameCell, List.map_const']

end VoltageBlock

end GrAta
