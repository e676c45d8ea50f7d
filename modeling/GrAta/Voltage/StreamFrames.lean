import GrAta.Library.Blocks
import GrAta.Voltage.LossyStream

/-!
# The frames of a lossy stream

On in-order lossy traffic the frame log has a closed form. The frames follow each
other 16 apart from the first delivered timestamp on, a frame holds the delivered
packets of its timestamp, and a timestamp without packets is a missed frame.

## Main definitions

- `frameAt`: the frame of a timestamp
- `announcedAt`: the sequence number that the frame carries
- `frameTimes`: the timestamps of the frames handed on

## Main results

- `LossyStream.assembled_eq`: the frame in assembly
- `LossyStream.pushed_eq`: the frames handed on
- `LossyStream.delivered_eq`: the output stream of a run, by position
-/

namespace GrAta

/-- The first delivered timestamp. -/
def firstTimestamp (ps : List Packet) : ℕ := (ps.head?.map timestamp).getD 0

/-- The delivered packets of a timestamp. -/
def packetsAt (ps : List Packet) (t : ℕ) : List Packet := ps.filter fun p => timestamp p = t

/-- The frame of a timestamp: its delivered packets, or a missed frame. -/
def frameAt (ps : List Packet) (t : ℕ) : FrameOrigin :=
  if packetsAt ps t = [] then .missed t else .received (packetsAt ps t)

/-- The timestamp of a frame. -/
def FrameOrigin.timestamp : FrameOrigin → ℕ
  | .received packets => firstTimestamp packets
  | .missed t => t

/-- The first delivered timestamp above `t`. -/
def nextTimestamp (ps : List Packet) (t : ℕ) : ℕ :=
  firstTimestamp (ps.filter fun p => t < timestamp p)

/-- The sequence number under which the frame of a timestamp is queued. In a block
of several packets a frame, a received frame gets that of the next packet. -/
def announcedAt (onePacket : Bool) (ps : List Packet) (t : ℕ) : ℕ :=
  if onePacket ∨ packetsAt ps t = [] then t else nextTimestamp ps t

/-- The frame of a timestamp as it is handed on. -/
def pushAt (onePacket : Bool) (ps : List Packet) (t : ℕ) : FramePush :=
  ⟨frameAt ps t, announcedAt onePacket ps t⟩

/-- How many frames are handed on: all frames up to the last timestamp, except
that of the last timestamp in a block of several packets a frame. -/
def frameCount (onePacket : Bool) (ps : List Packet) : ℕ :=
  if ps = [] then 0
  else (lastTimestamp ps - firstTimestamp ps) / 16 + if onePacket then 1 else 0

/-- The timestamps of the frames handed on. -/
def frameTimes (onePacket : Bool) (ps : List Packet) : List ℕ :=
  (List.range (frameCount onePacket ps)).map fun k => firstTimestamp ps + 16 * k

theorem packetsAt_append (ps qs : List Packet) (t : ℕ) :
    packetsAt (ps ++ qs) t = packetsAt ps t ++ packetsAt qs t := List.filter_append ..

theorem packetsAt_singleton (p : Packet) (t : ℕ) :
    packetsAt [p] t = if timestamp p = t then [p] else [] := by
  by_cases h : timestamp p = t <;> simp [packetsAt, h]

theorem mem_packetsAt {ps : List Packet} {t : ℕ} {p : Packet} :
    p ∈ packetsAt ps t ↔ p ∈ ps ∧ timestamp p = t := by
  simp [packetsAt]

theorem firstTimestamp_packetsAt {ps : List Packet} {t : ℕ} (h : packetsAt ps t ≠ []) :
    firstTimestamp (packetsAt ps t) = t := by
  obtain ⟨p, qs, hp⟩ := List.exists_cons_of_ne_nil h
  have hmem : p ∈ packetsAt ps t := by simp [hp]
  rw [hp]
  exact (mem_packetsAt.mp hmem).2

@[simp] theorem frameAt_timestamp (ps : List Packet) (t : ℕ) : (frameAt ps t).timestamp = t := by
  rw [frameAt]
  split
  · rfl
  · rename_i h
    exact firstTimestamp_packetsAt h

theorem pushAt_missed {onePacket : Bool} {ps : List Packet} {t : ℕ} (h : packetsAt ps t = []) :
    pushAt onePacket ps t = ⟨.missed t, t⟩ := by
  simp [pushAt, frameAt, announcedAt, h]

theorem firstTimestamp_append {ps qs : List Packet} (h : ps ≠ []) :
    firstTimestamp (ps ++ qs) = firstTimestamp ps := by
  rw [firstTimestamp, List.head?_append_of_ne_nil _ h, firstTimestamp]

/-- A frame is settled once a later packet has arrived. -/
theorem pushAt_concat {onePacket : Bool} {ps : List Packet} {z p : Packet} {t : ℕ}
    (ht : t < timestamp p) (hz : onePacket = true ∨ t < timestamp z) :
    pushAt onePacket (ps ++ [z] ++ [p]) t = pushAt onePacket (ps ++ [z]) t := by
  have hat : packetsAt (ps ++ [z] ++ [p]) t = packetsAt (ps ++ [z]) t := by
    rw [packetsAt_append, packetsAt_singleton, if_neg (by omega), List.append_nil]
  have hann : announcedAt onePacket (ps ++ [z] ++ [p]) t = announcedAt onePacket (ps ++ [z]) t := by
    unfold announcedAt
    rw [hat]
    rcases hz with hone | hz
    · rw [if_pos (Or.inl hone), if_pos (Or.inl hone)]
    · congr 1
      unfold nextTimestamp
      rw [List.filter_append, firstTimestamp_append]
      intro hnil
      have := List.filter_eq_nil_iff.mp hnil z (by simp)
      simp only [decide_eq_true_eq] at this
      omega
  rw [pushAt, pushAt, hann, frameAt, hat, frameAt]

namespace InOrderStream

variable {B : VoltageBlock} {first : ℕ} {ps : List Packet}

/-- Timestamps do not decrease. -/
theorem timestamp_le {z : Packet} (h : InOrderStream B first (ps ++ [z])) {p : Packet}
    (hp : p ∈ ps ++ [z]) : timestamp p ≤ timestamp z := by
  rcases List.mem_append.mp hp with hp | hp
  · have := (List.pairwise_append.mp h.pairwise).2.2 p hp z (by simp)
    rw [SentBefore] at this
    omega
  · rw [List.mem_singleton.mp hp]

/-- Every timestamp is some frames after the first delivered one. -/
theorem exists_frame (h : InOrderStream B first ps) {p : Packet} (hp : p ∈ ps) :
    ∃ a, timestamp p = firstTimestamp ps + 16 * a := by
  cases ps with
  | nil => simp at hp
  | cons q ps =>
    obtain ⟨i, _, _, hq, _⟩ := h.mem_spec (p := q) (by simp)
    obtain ⟨j, _, _, hj, _⟩ := h.mem_spec hp
    have hle : timestamp q ≤ timestamp p := by
      rcases List.mem_cons.mp hp with rfl | hp
      · exact le_rfl
      · have := List.rel_of_pairwise_cons h.pairwise hp
        rw [SentBefore] at this
        omega
    refine ⟨j - i, ?_⟩
    change timestamp p = timestamp q + 16 * (j - i)
    omega

/-- Between the last packet and the next one no timestamp was delivered. -/
theorem packetsAt_gap {z p : Packet} (h : InOrderStream B first (ps ++ [z] ++ [p])) {t : ℕ}
    (hz : timestamp z < t) (hp : t < timestamp p) : packetsAt (ps ++ [z] ++ [p]) t = [] := by
  refine List.filter_eq_nil_iff.mpr fun q hq => ?_
  simp only [decide_eq_true_eq]
  rcases List.mem_append.mp hq with hq | hq
  · have := h.of_append.timestamp_le hq
    omega
  · rw [List.mem_singleton.mp hq]
    omega

/-- After the last packet no timestamp was delivered. -/
theorem packetsAt_later {z : Packet} (h : InOrderStream B first (ps ++ [z])) {t : ℕ}
    (ht : timestamp z < t) : packetsAt (ps ++ [z]) t = [] := by
  refine List.filter_eq_nil_iff.mpr fun q hq => ?_
  have := h.timestamp_le hq
  simp only [decide_eq_true_eq]
  omega

end InOrderStream

namespace LossyStream

variable {B : VoltageBlock} {first : ℕ} {ps : List Packet}

/-- The frames that fill the gap before a packet. -/
theorem gapPushes_eq {z p : Packet} (onePacket : Bool)
    (h : LossyStream B first (ps ++ [z] ++ [p])) {d : ℕ}
    (hd : timestamp p = timestamp z + 16 * d) (hmax : d ≤ MAX_MISSED_SETS + 1) :
    gapPushes (timestamp z) (timestamp p) = (List.range (d - 1)).map fun k =>
      pushAt onePacket (ps ++ [z] ++ [p]) (timestamp z + 16 * (k + 1)) := by
  have hpos : 0 < timestamp z := h.timestamp_pos (by simp)
  rw [gapPushes, hd, gapOf_eq hpos hmax, List.map_map]
  refine List.map_congr_left fun k hk => ?_
  rw [List.mem_range] at hk
  exact (pushAt_missed (h.packetsAt_gap (t := timestamp z + 16 * (k + 1)) (by omega)
    (by omega))).symm

/-- In a block of one packet a frame, all packets have the first channel. -/
theorem channel_eq_of_onePacket (hone : B.cfg.bOnePacket = true) (h : LossyStream B first ps)
    {p : Packet} (hp : p ∈ ps) : channel p = B.firstChannel := by
  have hpackets : B.packets = 1 := by simpa [B.bOnePacket_eq] using hone
  obtain ⟨_, s, hs, _, hc⟩ := h.mem_spec hp
  omega

/-- The frame in assembly: the packets of the last timestamp. -/
theorem assembled_eq (h : LossyStream B first ps) :
    (frameLog B.cfg.bOnePacket ps).assembled = packetsAt ps (lastTimestamp ps) := by
  induction ps using List.reverseRecOn with
  | nil => rfl
  | append_singleton ps p ih =>
    rw [frameLog_concat, lastTimestamp_concat]
    rcases List.eq_nil_or_concat ps with rfl | ⟨ps, z, rfl⟩
    · simp [FrameLog.step, FrameLog.assemble, FrameLog.empty, recordCopy, packetsAt]
    · rw [List.concat_eq_append] at *
      obtain ⟨d, hd, _, hchan⟩ := h.next_spec
      have hlast := frameLog_last B.cfg.bOnePacket (ps ++ [z])
      have ih := ih h.of_append
      rw [lastTimestamp_concat] at hlast ih
      have hpos : 0 < timestamp z := h.timestamp_pos (by simp)
      rw [packetsAt_append, packetsAt_singleton, if_pos rfl]
      change (frameLog B.cfg.bOnePacket (ps ++ [z])).assemble B.cfg.bOnePacket p = _
      rw [FrameLog.assemble, hlast, ih]
      rcases Nat.eq_zero_or_pos d with rfl | hpos'
      · -- another packet of the same frame: its channel is above the ones recorded
        have hsame : timestamp p = timestamp z := by omega
        have hkeep : (packetsAt (ps ++ [z]) (timestamp z)).filter
            (fun q => voltageChan (pointer q) ≠ voltageChan (pointer p)) =
              packetsAt (ps ++ [z]) (timestamp z) := by
          refine List.filter_eq_self.mpr fun q hq => ?_
          obtain ⟨hq, hqt⟩ := mem_packetsAt.mp hq
          have hb := (List.pairwise_append.mp h.pairwise).2.2 q hq p (by simp)
          have hlt : channel q < channel p := by
            rw [SentBefore] at hb
            omega
          exact decide_eq_true (Nat.ne_of_lt hlt)
        rw [if_neg (by omega), recordCopy, hkeep, hsame]
      · -- a new frame
        rw [h.of_append.packetsAt_later (t := timestamp p) (by omega), List.nil_append]
        cases hone : B.cfg.bOnePacket with
        | true =>
          have hdrop : (packetsAt (ps ++ [z]) (timestamp z)).filter
              (fun q => voltageChan (pointer q) ≠ voltageChan (pointer p)) = [] := by
            refine List.filter_eq_nil_iff.mpr fun q hq => ?_
            have hq := h.channel_eq_of_onePacket hone (p := q)
              (List.mem_append_left _ (mem_packetsAt.mp hq).1)
            have hp := h.channel_eq_of_onePacket hone (p := p) (by simp)
            rw [channel] at hq hp
            simp [hq, hp]
          rw [if_neg (by simp), recordCopy, hdrop, List.nil_append]
        | false => rw [if_pos ⟨rfl, hpos, by omega⟩]

theorem frameCount_concat {z : Packet} {a : ℕ}
    (ha : timestamp z = firstTimestamp (ps ++ [z]) + 16 * a) (onePacket : Bool) :
    frameCount onePacket (ps ++ [z]) = a + if onePacket then 1 else 0 := by
  rw [frameCount, if_neg (by simp), lastTimestamp_concat, ha]
  congr 1
  omega

/-- In a block of one packet a frame, a packet hands on the gap and its own frame. -/
theorem newFrames_onePacket {z p : Packet} (hone : B.cfg.bOnePacket = true)
    (h : LossyStream B first (ps ++ [z] ++ [p])) {d : ℕ}
    (hd : timestamp p = timestamp z + 16 * d) (hmax : d ≤ MAX_MISSED_SETS + 1) (hpos : 0 < d) :
    (frameLog true (ps ++ [z])).newFrames true p = (List.range d).map fun k =>
      pushAt true (ps ++ [z] ++ [p]) (timestamp z + 16 * (k + 1)) := by
  have hasm := h.assembled_eq
  rw [hone, frameLog_concat, lastTimestamp_concat] at hasm
  have hat : packetsAt (ps ++ [z] ++ [p]) (timestamp p) ≠ [] := by
    rw [packetsAt_append, packetsAt_singleton, if_pos rfl]
    simp
  have hframe : pushAt true (ps ++ [z] ++ [p]) (timestamp p) =
      ⟨.received (recordCopy (frameLog true (ps ++ [z])).assembled p), timestamp p⟩ := by
    rw [pushAt, frameAt, if_neg hat, ← hasm]
    simp [announcedAt, FrameLog.step, FrameLog.assemble]
  rw [FrameLog.newFrames, if_pos rfl, frameLog_last, lastTimestamp_concat,
    h.gapPushes_eq true hd hmax, ← hframe]
  obtain ⟨e, rfl⟩ : ∃ e, d = e + 1 := ⟨d - 1, by omega⟩
  rw [Nat.add_sub_cancel, List.range_succ, List.map_append, List.map_singleton, hd]

/-- In a block of several packets a frame, a packet of a new timestamp hands on
the frame before it and the gap. -/
theorem newFrames_multiPacket {z p : Packet} (hone : B.cfg.bOnePacket = false)
    (h : LossyStream B first (ps ++ [z] ++ [p])) {d : ℕ}
    (hd : timestamp p = timestamp z + 16 * d) (hmax : d ≤ MAX_MISSED_SETS + 1) :
    (frameLog false (ps ++ [z])).newFrames false p = (List.range d).map fun k =>
      pushAt false (ps ++ [z] ++ [p]) (timestamp z + 16 * k) := by
  have hpos : 0 < timestamp z := h.timestamp_pos (by simp)
  have hasm := h.of_append.assembled_eq
  rw [hone, lastTimestamp_concat] at hasm
  rw [FrameLog.newFrames, if_neg (by simp), frameLog_last, lastTimestamp_concat]
  rcases Nat.eq_zero_or_pos d with rfl | hd0
  · rw [if_neg (by omega)]
    rfl
  · rw [if_pos ⟨hpos, by omega⟩, hasm, h.gapPushes_eq false hd hmax]
    obtain ⟨e, rfl⟩ : ∃ e, d = e + 1 := ⟨d - 1, by omega⟩
    -- the frame of the last timestamp is announced under the new one
    have hat : packetsAt (ps ++ [z] ++ [p]) (timestamp z) =
        packetsAt (ps ++ [z]) (timestamp z) := by
      rw [packetsAt_append, packetsAt_singleton, if_neg (by omega), List.append_nil]
    have hne : packetsAt (ps ++ [z]) (timestamp z) ≠ [] := by
      rw [packetsAt_append, packetsAt_singleton, if_pos rfl]
      simp
    have hnext : nextTimestamp (ps ++ [z] ++ [p]) (timestamp z) = timestamp p := by
      have hnone : (ps ++ [z]).filter (fun q => timestamp z < timestamp q) = [] := by
        refine List.filter_eq_nil_iff.mpr fun q hq => ?_
        have := h.of_append.timestamp_le hq
        simp only [decide_eq_true_eq]
        omega
      rw [nextTimestamp, List.filter_append, hnone, List.nil_append,
        List.filter_cons_of_pos (by simp; omega)]
      rfl
    have hframe : pushAt false (ps ++ [z] ++ [p]) (timestamp z) =
        ⟨.received (packetsAt (ps ++ [z]) (timestamp z)), timestamp p⟩ := by
      rw [pushAt, frameAt, hat, if_neg hne, announcedAt, hat, if_neg (by simp [hne]), hnext]
    rw [Nat.add_sub_cancel, List.range_succ_eq_map, List.map_cons, List.map_map, Nat.mul_zero,
      Nat.add_zero, hframe]
    rfl

/-- The frames that a packet hands on follow those that were settled before it. -/
theorem map_pushAt_concat {onePacket : Bool} {z p : Packet} {start n d : ℕ} {f : ℕ → FramePush}
    (hsettled : ∀ k < n, start + 16 * k < timestamp p ∧
      (onePacket = true ∨ start + 16 * k < timestamp z))
    (hnew : ∀ k, f k = pushAt onePacket (ps ++ [z] ++ [p]) (start + 16 * (n + k))) :
    (List.range n).map (fun k => pushAt onePacket (ps ++ [z]) (start + 16 * k)) ++
        (List.range d).map f =
      (List.range (n + d)).map fun k =>
        pushAt onePacket (ps ++ [z] ++ [p]) (start + 16 * k) := by
  rw [List.range_add, List.map_append, List.map_map]
  congr 1
  · refine List.map_congr_left fun k hk => ?_
    obtain ⟨hp, hz⟩ := hsettled k (List.mem_range.mp hk)
    exact (pushAt_concat hp hz).symm
  · exact List.map_congr_left fun k _ => hnew k

/-- **The frames of a lossy stream**: one for each timestamp, in order. -/
theorem pushed_eq (h : LossyStream B first ps) :
    (frameLog B.cfg.bOnePacket ps).pushed =
      (frameTimes B.cfg.bOnePacket ps).map (pushAt B.cfg.bOnePacket ps) := by
  induction ps using List.reverseRecOn with
  | nil => rfl
  | append_singleton ps p ih =>
    rw [frameLog_concat]
    rcases List.eq_nil_or_concat ps with rfl | ⟨ps, z, rfl⟩
    · cases hone : B.cfg.bOnePacket <;>
        simp [FrameLog.step, FrameLog.newFrames, FrameLog.empty, frameTimes, frameCount,
          lastTimestamp, firstTimestamp, gapPushes, gapOf, recordCopy, pushAt, frameAt, packetsAt,
          announcedAt]
    · rw [List.concat_eq_append] at *
      obtain ⟨d, hd, hmax, hchan⟩ := h.next_spec
      obtain ⟨a, ha⟩ := h.of_append.exists_frame (p := z) (by simp)
      have hfirst : firstTimestamp (ps ++ [z] ++ [p]) = firstTimestamp (ps ++ [z]) :=
        firstTimestamp_append (by simp)
      have ih := ih h.of_append
      rw [frameTimes, frameCount_concat (a := a + d) (by omega), hfirst, FrameLog.step, ih,
        frameTimes, frameCount_concat ha, List.map_map, List.map_map]
      cases hone : B.cfg.bOnePacket with
      | true =>
        have hd0 : 0 < d := by
          by_contra hz
          have hz' := h.channel_eq_of_onePacket hone (p := z) (by simp)
          have hp' := h.channel_eq_of_onePacket hone (p := p) (by simp)
          have := hchan (by omega)
          omega
        rw [h.newFrames_onePacket hone hd hmax hd0, if_pos rfl,
          show a + d + 1 = (a + 1) + d by omega]
        refine map_pushAt_concat (fun k hk => ⟨by omega, Or.inl rfl⟩) fun k => ?_
        congr 1
        omega
      | false =>
        rw [h.newFrames_multiPacket hone hd hmax, if_neg Bool.false_ne_true]
        refine map_pushAt_concat (fun k hk => ⟨by omega, Or.inr (by omega)⟩) fun k => ?_
        congr 1
        omega

end LossyStream

/-- The timestamp of output item `k`. -/
def itemTime (ps : List Packet) (k : ℕ) : ℕ := firstTimestamp ps + 16 * (k / 16)

/-- Item `k` of the output stream: row `k % 16` of frame `k / 16`. -/
def VoltageBlock.streamRow (B : VoltageBlock) (ps : List Packet) (k : ℕ) : Queued :=
  B.queuedRow (pushAt B.cfg.bOnePacket ps (itemTime ps k)) (k % 16)

namespace LossyStream

variable {B : VoltageBlock} {first : ℕ} {ps : List Packet}

theorem rows_eq (h : LossyStream B first ps) :
    (frameLog B.cfg.bOnePacket ps).pushed.flatMap B.queuedItems =
      (List.range (frameCount B.cfg.bOnePacket ps * 16)).map (B.streamRow ps) := by
  rw [h.pushed_eq, frameTimes, List.map_map, List.flatMap_map]
  exact Blocks.flatMap_range (fun j => B.queuedRow
    (pushAt B.cfg.bOnePacket ps (firstTimestamp ps + 16 * j))) 16 _

/-- **The output stream of a run**: what has been delivered is the beginning of
the stream, whatever packets have been taken. -/
theorem delivered_eq {taken : List Packet} {delivered queue : List Queued} {w : WorkRun}
    (h : LossyStream B first ps) (ht : B.Tracks ps taken delivered queue w) :
    delivered = (List.range delivered.length).map (B.streamRow ps) ∧
      delivered.length ≤ frameCount B.cfg.bOnePacket ps * 16 := by
  refine Blocks.eq_of_prefix ?_
  rw [← h.rows_eq]
  exact ht.delivered_rows.trans ((frameLog_pushed_mono _ ht.taken_arrived).flatMap _)

end LossyStream

end GrAta
