import GrAta.Snap.VoltMode

/-!
# The frame log

What the voltage mode is for, without buffers, queues or calls: it turns a
sequence of packets into a sequence of frames. A frame is either made of the
packets that were assembled for it or stands for a missed timestamp, and it
carries the sequence number it is announced with.

The log depends on the packets alone. How they were split into work calls does
not enter, so a statement about the log holds for every schedule.

## Main definitions

- `FramePush`: one frame handed to the output queue
- `FrameLog`, `frameLog`: the frames of a packet sequence
- `gapOf`: the timestamps that are filled between two frames
-/

namespace GrAta

/-- One frame handed to the output queue, with the sequence number of its rows. -/
structure FramePush where
  origin : FrameOrigin
  seqNum : ℕ
  deriving DecidableEq, Repr

/-- The timestamps filled with zeros before a frame at `sample`, when the frame
before it was at `last`. Timestamp zero stands for no frame yet. -/
def gapOf (last sample : ℕ) : List ℕ :=
  if 0 < last ∧ last < sample ∧ 0 < missedSets last sample ∧
      missedSets last sample ≤ MAX_MISSED_SETS then
    (List.range ((sample - last - 1) / 16)).map fun k => last + 16 * (k + 1)
  else []

/-- The frames that the gap filling contributes. -/
def gapPushes (last sample : ℕ) : List FramePush :=
  (gapOf last sample).map fun m => ⟨.missed m, m⟩

/-- The timestamp of the last packet, the packets of the frame in assembly, and
the frames handed on so far. -/
structure FrameLog where
  last : ℕ
  assembled : List Packet
  pushed : List FramePush

namespace FrameLog

def empty : FrameLog := ⟨0, [], []⟩

/-- The frames that a packet makes the block hand on. A block of one packet a
frame hands on a frame at every packet. A block of several packets hands on the
previous frame when the timestamp changes, under the number of the new packet. -/
def newFrames (onePacket : Bool) (log : FrameLog) (p : Packet) : List FramePush :=
  if onePacket then
    gapPushes log.last (timestamp p) ++
      [⟨.received (recordCopy log.assembled p), timestamp p⟩]
  else if 0 < log.last ∧ timestamp p ≠ log.last then
    ⟨.received log.assembled, timestamp p⟩ :: gapPushes log.last (timestamp p)
  else []

/-- The packets in assembly after a packet. -/
def assemble (onePacket : Bool) (log : FrameLog) (p : Packet) : List Packet :=
  if onePacket = false ∧ 0 < log.last ∧ timestamp p ≠ log.last then [p]
  else recordCopy log.assembled p

def step (onePacket : Bool) (log : FrameLog) (p : Packet) : FrameLog where
  last := timestamp p
  assembled := log.assemble onePacket p
  pushed := log.pushed ++ log.newFrames onePacket p

@[simp] theorem step_last (onePacket : Bool) (log : FrameLog) (p : Packet) :
    (log.step onePacket p).last = timestamp p := rfl

section Starts

variable {onePacket : Bool} {log : FrameLog} {p : Packet}

/-- A packet that starts a frame hands on the frame before, in a block of several packets
a frame, then the missed frames, and then its own, in a block of one packet a frame. -/
theorem newFrames_of_starts (h : onePacket = true ∨ (0 < log.last ∧ timestamp p ≠ log.last)) :
    log.newFrames onePacket p =
      (if onePacket then [] else [⟨.received log.assembled, timestamp p⟩]) ++
        gapPushes log.last (timestamp p) ++
        (if onePacket then [⟨.received (recordCopy log.assembled p), timestamp p⟩] else []) := by
  rw [newFrames]
  cases onePacket with
  | true => simp
  | false =>
    have hnew : 0 < log.last ∧ timestamp p ≠ log.last := by simpa using h
    simp [hnew]

theorem assemble_of_starts (h : onePacket = true ∨ (0 < log.last ∧ timestamp p ≠ log.last)) :
    log.assemble onePacket p = if onePacket then recordCopy log.assembled p else [p] := by
  rw [assemble]
  cases onePacket with
  | true => simp
  | false =>
    have hnew : 0 < log.last ∧ timestamp p ≠ log.last := by simpa using h
    simp [hnew]

/-- A packet that starts no frame is added to the one in assembly. -/
theorem newFrames_of_not_starts
    (h : ¬(onePacket = true ∨ (0 < log.last ∧ timestamp p ≠ log.last))) :
    log.newFrames onePacket p = [] := by
  obtain ⟨hone, hsame⟩ := not_or.mp h
  rw [newFrames, if_neg hone, if_neg hsame]

theorem assemble_of_not_starts
    (h : ¬(onePacket = true ∨ (0 < log.last ∧ timestamp p ≠ log.last))) :
    log.assemble onePacket p = recordCopy log.assembled p := by
  rw [assemble, if_neg fun hnew => h (Or.inr hnew.2)]

end Starts

/-- The frames handed on for a sequence of packets. -/
def framesFrom (onePacket : Bool) : FrameLog → List Packet → List FramePush
  | _, [] => []
  | log, p :: ps => log.newFrames onePacket p ++ framesFrom onePacket (log.step onePacket p) ps

theorem foldl_pushed (onePacket : Bool) (ps : List Packet) (log : FrameLog) :
    (ps.foldl (step onePacket) log).pushed = log.pushed ++ log.framesFrom onePacket ps := by
  induction ps generalizing log with
  | nil => simp [framesFrom]
  | cons p ps ih => rw [List.foldl_cons, ih, framesFrom, step, List.append_assoc]

theorem framesFrom_append (onePacket : Bool) (ps qs : List Packet) (log : FrameLog) :
    log.framesFrom onePacket (ps ++ qs) =
      log.framesFrom onePacket ps ++
        (ps.foldl (step onePacket) log).framesFrom onePacket qs := by
  induction ps generalizing log with
  | nil => rfl
  | cons p ps ih => rw [List.cons_append, framesFrom, framesFrom, ih, List.append_assoc,
      List.foldl_cons]

end FrameLog

/-- The number of frames that packets make a block hand on, after a timestamp. -/
def newFrameCount (onePacket : Bool) (last : ℕ) (ps : List Packet) : ℕ :=
  (FrameLog.framesFrom onePacket ⟨last, [], []⟩ ps).length

theorem FrameLog.newFrames_length {onePacket : Bool} {log log' : FrameLog}
    (h : log.last = log'.last) (p : Packet) :
    (log.newFrames onePacket p).length = (log'.newFrames onePacket p).length := by
  rw [newFrames, newFrames, h]
  split_ifs <;> simp

/-- How many frames are handed on depends on the timestamps alone. -/
theorem FrameLog.framesFrom_length {onePacket : Bool} (ps : List Packet) {log log' : FrameLog}
    (h : log.last = log'.last) :
    (log.framesFrom onePacket ps).length = (log'.framesFrom onePacket ps).length := by
  induction ps generalizing log log' with
  | nil => rfl
  | cons p ps ih =>
    have hstep : (log.step onePacket p).last = (log'.step onePacket p).last := rfl
    rw [framesFrom, framesFrom, List.length_append, List.length_append, newFrames_length h,
      ih hstep]

/-- The log of a packet sequence. -/
def frameLog (onePacket : Bool) (ps : List Packet) : FrameLog :=
  ps.foldl (FrameLog.step onePacket) FrameLog.empty

@[simp] theorem frameLog_nil (onePacket : Bool) : frameLog onePacket [] = FrameLog.empty := rfl

theorem frameLog_append (onePacket : Bool) (ps qs : List Packet) :
    frameLog onePacket (ps ++ qs) = qs.foldl (FrameLog.step onePacket) (frameLog onePacket ps) :=
  List.foldl_append

theorem frameLog_concat (onePacket : Bool) (ps : List Packet) (p : Packet) :
    frameLog onePacket (ps ++ [p]) = (frameLog onePacket ps).step onePacket p := by
  rw [frameLog_append, List.foldl_cons, List.foldl_nil]

/-- The last timestamp of a sequence, zero when it is empty. -/
def lastTimestamp (ps : List Packet) : ℕ := (ps.getLast?.map timestamp).getD 0

@[simp] theorem lastTimestamp_concat (ps : List Packet) (p : Packet) :
    lastTimestamp (ps ++ [p]) = timestamp p := by
  simp [lastTimestamp]

/-- The last timestamp of the log is that of the last packet. -/
theorem frameLog_last (onePacket : Bool) (ps : List Packet) :
    (frameLog onePacket ps).last = lastTimestamp ps := by
  rcases List.eq_nil_or_concat ps with rfl | ⟨qs, p, rfl⟩
  · rfl
  · rw [List.concat_eq_append, frameLog_concat, FrameLog.step_last, lastTimestamp_concat]

/-- More packets only append frames. -/
theorem frameLog_pushed_mono (onePacket : Bool) {ps qs : List Packet} (h : ps <+: qs) :
    (frameLog onePacket ps).pushed <+: (frameLog onePacket qs).pushed := by
  obtain ⟨rs, rfl⟩ := h
  rw [frameLog_append, FrameLog.foldl_pushed]
  exact List.prefix_append _ _

/-- The loop counter reaches the sample number before it wraps. Before the first
frame there is no gap. -/
def GapEnds (last sample : ℕ) : Prop :=
  0 < last ∧ last < sample → last + 16 * ((sample - last - 1) / 16 + 1) < 2 ^ 64

instance (last sample : ℕ) : Decidable (GapEnds last sample) :=
  inferInstanceAs (Decidable (_ → _))

theorem gapEnds_zero (sample : ℕ) : GapEnds 0 sample := fun h => absurd h.1 (by omega)

theorem gapEnds_of_le {last sample : ℕ} (h : sample ≤ 2 ^ 64 - 16) : GapEnds last sample := by
  rintro ⟨_, hlt⟩
  omega

theorem gapEnds_of_dvd {last sample : ℕ} (hs : sample < 2 ^ 64) (h : 16 ∣ sample - last) :
    GapEnds last sample := by
  rintro ⟨_, hlt⟩
  obtain ⟨k, hk⟩ := h
  omega

/-- Without a wrap the loop visits an arithmetic progression. -/
theorem gapTimestamps_eq {sample n : ℕ} : ∀ {m fuel : ℕ}, n ≤ fuel →
    (∀ k < n, m + 16 * k < sample) → sample ≤ m + 16 * n → m + 16 * n < 2 ^ 64 →
    gapTimestamps sample fuel m = some ((List.range n).map fun k => m + 16 * k) := by
  induction n with
  | zero =>
    intro m fuel _ _ hge _
    have hnot : ¬m < sample := by omega
    unfold gapTimestamps
    rw [if_neg hnot]
    rfl
  | succ n ih =>
    intro m fuel hfuel hlt hge hwrap
    obtain ⟨fuel, rfl⟩ : ∃ f, fuel = f + 1 := ⟨fuel - 1, by omega⟩
    have hm : m < sample := by simpa using hlt 0 (by omega)
    unfold gapTimestamps
    rw [if_pos hm]
    simp only
    rw [Nat.mod_eq_of_lt (by omega), ih (by omega) (fun k hk => by
      have := hlt (k + 1) (by omega)
      omega) (by omega) (by omega), Option.map_some, List.range_succ_eq_map, List.map_cons,
      List.map_map]
    congr 2
    · apply List.map_congr_left
      intro k _
      simp only [Function.comp, Nat.succ_eq_add_one]
      omega

/-- The loop that fills a gap, if it is entered, ends before its counter wraps. -/
def FillEnds (last sample : ℕ) : Prop :=
  0 < last ∧ last < sample ∧ 0 < missedSets last sample ∧
      missedSets last sample ≤ MAX_MISSED_SETS →
    last + 16 * ((sample - last - 1) / 16 + 1) < 2 ^ 64

instance (last sample : ℕ) : Decidable (FillEnds last sample) :=
  inferInstanceAs (Decidable (_ → _))

theorem GapEnds.fillEnds {last sample : ℕ} (h : GapEnds last sample) : FillEnds last sample :=
  fun hgap => h ⟨hgap.1, hgap.2.1⟩

/-- The whole number of frames between two timestamps, for a gap that is filled. -/
theorem missedSets_eq {last sample : ℕ} (hs : sample < 2 ^ 64)
    (hpos : 0 < missedSets last sample) (hmax : missedSets last sample ≤ MAX_MISSED_SETS) :
    missedSets last sample = (sample - last) / 16 - 1 ∧ 32 ≤ sample - last := by
  unfold missedSets MAX_MISSED_SETS at *
  omega

/-- For a gap that is filled the loop ends within its bound, at the timestamps of
`gapOf`. -/
theorem gapTimestamps_gapOf {last sample : ℕ} (h0 : 0 < last) (hlt : last < sample)
    (hs : sample < 2 ^ 64) (hends : FillEnds last sample) (hpos : 0 < missedSets last sample)
    (hmax : missedSets last sample ≤ MAX_MISSED_SETS) :
    gapTimestamps sample (MAX_MISSED_SETS + 1) ((last + 16) % 2 ^ 64) =
      some (gapOf last sample) := by
  have hends := hends ⟨h0, hlt, hpos, hmax⟩
  have hsets := missedSets_eq hs hpos hmax
  rw [gapOf, if_pos ⟨h0, hlt, hpos, hmax⟩]
  rw [Nat.mod_eq_of_lt (by omega), gapTimestamps_eq (n := (sample - last - 1) / 16)]
  · congr 1
    apply List.map_congr_left
    intro k _
    omega
  · omega
  · intro k hk
    omega
  · omega
  · omega

/-- A loop whose counter stays below the sample number at every value it can take
never ends: the step of 16 divides the range of the counter, so the counter keeps
its residue. -/
theorem gapTimestamps_never {sample : ℕ} (r : ℕ)
    (hr : ∀ m < 2 ^ 64, m % 16 = r → m < sample) :
    ∀ (fuel : ℕ) {m : ℕ}, m < 2 ^ 64 → m % 16 = r → gapTimestamps sample fuel m = none
  | 0, m, hm, hmod => by
    unfold gapTimestamps
    rw [if_pos (hr m hm hmod)]
  | fuel + 1, m, hm, hmod => by
    unfold gapTimestamps
    rw [if_pos (hr m hm hmod)]
    simp only
    rw [gapTimestamps_never r hr fuel (Nat.mod_lt _ (by omega)) (by omega), Option.map_none]

/-- A counter that wraps in a gap makes the loop endless. -/
theorem gapTimestamps_eq_none {last sample : ℕ} (hlt : last < sample) (hs : sample < 2 ^ 64)
    (hwrap : 2 ^ 64 ≤ last + 16 * ((sample - last - 1) / 16 + 1)) (fuel : ℕ) :
    gapTimestamps sample fuel ((last + 16) % 2 ^ 64) = none := by
  apply gapTimestamps_never (last % 16)
  · intro m hm hmod
    omega
  · exact Nat.mod_lt _ (by omega)
  · omega

theorem gapTimestamps_endless {last sample : ℕ} (hs : sample < 2 ^ 64)
    (hends : ¬FillEnds last sample) :
    gapTimestamps sample (MAX_MISSED_SETS + 1) ((last + 16) % 2 ^ 64) = none := by
  obtain ⟨⟨_, hlt, _⟩, hwrap⟩ := Classical.not_imp.mp hends
  exact gapTimestamps_eq_none hlt hs (not_lt.mp hwrap) _

/-- The gap between frames that are a multiple of 16 apart. -/
theorem gapOf_eq {last d : ℕ} (h0 : 0 < last) (hd : d ≤ MAX_MISSED_SETS + 1) :
    gapOf last (last + 16 * d) = (List.range (d - 1)).map fun k => last + 16 * (k + 1) := by
  have hsets : missedSets last (last + 16 * d) = if d = 0 then 2 ^ 64 - 1 else d - 1 := by
    unfold missedSets MAX_MISSED_SETS at *
    split <;> omega
  rcases Nat.lt_or_ge d 2 with hlt | hge
  · rw [show d - 1 = 0 by omega, List.range_zero, List.map_nil]
    refine if_neg fun hc => ?_
    rw [hsets] at hc
    split at hc <;> omega
  · rw [if_neg (by omega)] at hsets
    rw [gapOf, if_pos ⟨h0, by omega, by omega, by omega⟩,
      show (last + 16 * d - last - 1) / 16 = d - 1 by omega]

end GrAta
