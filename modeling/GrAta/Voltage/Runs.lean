import GrAta.Voltage.Refinement
import Mathlib.Data.List.Induction

/-!
# Calls and schedules refine the frame log

The packet loop takes a prefix of the receive queue, the output loop delivers a
prefix of the queued items, and a schedule is a sequence of the two. At every
point the items delivered so far and the items still queued are, in this order,
the rows of the frames that the packets taken so far make up.

## Main definitions

- `VoltageBlock.Serves`: a call takes some packets and delivers the oldest entries
- `VoltageBlock.Tracks`: a run has taken a prefix of the arrived packets

## Main results

- `VoltageBlock.workVoltMode_shows`: one call
- `VoltageBlock.run_tracks`: every schedule
-/

namespace GrAta

/-- A queue entry as an output item, with or without its tag. -/
def Queued.emitted (tagged : Bool) (q : Queued) : OutItem :=
  ⟨q.x, q.y, if tagged then some q.seqNum else none⟩

/-- An output item without its tag. -/
def OutItem.untagged (item : OutItem) : OutItem := { item with tag := none }

namespace VoltageBlock

variable (B : VoltageBlock)

theorem admissible_append {last : ℕ} {ps qs : List Packet} :
    B.Admissible last (ps ++ qs) ↔
      B.Admissible last ps ∧ B.Admissible ((ps.getLast?.map timestamp).getD last) qs := by
  induction ps generalizing last with
  | nil => simp [Admissible]
  | cons p ps ih =>
    rw [List.cons_append, Admissible, Admissible, ih]
    cases ps with
    | nil => simp [Admissible, and_assoc]
    | cons q ps =>
      have hlast := List.getLast?_eq_some_getLast (l := q :: ps) (by simp)
      simp [List.getLast?_cons_cons, hlast, and_assoc]

/-- In-range packets with timestamps below `2 ^ 64 - 16` are admissible in any
order: the counter of the gap filling loop cannot wrap. -/
theorem admissible_of_timestamp_lt {ps : List Packet} (last : ℕ)
    (h : ∀ p ∈ ps, B.InRange p ∧ timestamp p < 2 ^ 64 - 16) : B.Admissible last ps := by
  induction ps generalizing last with
  | nil => trivial
  | cons p ps ih =>
    obtain ⟨hp, ht⟩ := h p (by simp)
    exact ⟨hp, gapEnds_of_le ht.le, ih _ fun q hq => h q (by simp [hq])⟩

/-- The packet loop takes some of the available packets: all of them, unless
enough vectors are queued, or unless it meets a gap whose loop does not end. -/
theorem packetLoop_outcome (noutput : ℕ) : ∀ (n : ℕ) (r : Receiver) (acc : VoltState × ℤ)
    {log : FrameLog} {queue : List Queued}, B.Shows log queue acc.1 →
    (∀ p ∈ r.dLocalqueue, B.InRange p) → n ≤ r.dLocalqueue.length →
    (packetLoop B.cfg noutput n (r, acc) = .error .endlessLoop ∧
      ¬FillsEnd log.last r.dLocalqueue) ∨
    ∃ taken rest acc', r.dLocalqueue = taken ++ rest ∧
      packetLoop B.cfg noutput n (r, acc) = .ok ({ r with dLocalqueue := rest }, acc') ∧
      acc'.1.syncTimestamp = acc.1.syncTimestamp ∧
      (taken.length = n ∨ noutput ≤ acc'.1.xVectorQueue.length) ∧
      (∀ ts p, taken = ts ++ [p] →
        queue.length + 16 * (log.framesFrom B.cfg.bOnePacket ts).length < noutput) ∧
      B.Shows (taken.foldl (FrameLog.step B.cfg.bOnePacket) log)
        (queue ++ (log.framesFrom B.cfg.bOnePacket taken).flatMap B.queuedItems) acc'.1 := by
  intro n
  induction n with
  | zero =>
    intro r acc log queue h _ _
    exact Or.inr ⟨[], r.dLocalqueue, acc, rfl, rfl, rfl, Or.inl rfl, by simp,
      by simpa [FrameLog.framesFrom] using h⟩
  | succ n ih =>
    intro r acc log queue h hrange hn
    rw [packetLoop]
    by_cases hlt : acc.1.xVectorQueue.length < noutput
    · obtain ⟨p, ps, hps⟩ : ∃ p ps, r.dLocalqueue = p :: ps :=
        List.exists_cons_of_length_pos (by omega)
      rw [hps] at hrange hn
      obtain ⟨hp, hrest⟩ := List.forall_mem_cons.mp hrange
      simp only [hlt, if_true, fillLocalBuffer, hps, ok_bind]
      by_cases hgap : FillEnds log.last (timestamp p)
      · obtain ⟨acc₁, hacc₁, hsync₁, hs₁⟩ := B.processPacket_shows h hp hgap
        rw [hacc₁, ok_bind]
        rcases ih { r with dLocalqueue := ps } acc₁ hs₁ hrest (by simpa using hn) with
          ⟨hloop, hends⟩ | ⟨taken, rest, acc', hsplit, hloop, hsync', hdone, hshort, hs'⟩
        · exact Or.inl ⟨hloop, fun hends' => hends hends'.2⟩
        · refine Or.inr ⟨p :: taken, rest, acc', by rw [List.cons_append, ← hsplit], hloop,
            hsync'.trans hsync₁, by simpa using hdone, fun ts q hts => ?_, ?_⟩
          · cases ts with
            | nil =>
              have hlen := congrArg List.length h.xQueue
              rw [List.length_map] at hlen
              simpa [FrameLog.framesFrom, ← hlen] using hlt
            | cons t ts =>
              obtain ⟨rfl, htail⟩ := List.cons.inj hts
              have := hshort ts q htail
              rw [List.length_append, List.length_flatMap] at this
              simp only [queuedItems_length, List.map_const', List.sum_replicate_nat] at this
              rw [FrameLog.framesFrom, List.length_append]
              omega
          · rw [List.foldl_cons, FrameLog.framesFrom, List.flatMap_append, ← List.append_assoc]
            exact hs'
      · exact Or.inl ⟨by rw [B.processPacket_endless h hgap, error_bind],
          fun hends => hgap hends.1⟩
    · exact Or.inr ⟨[], r.dLocalqueue, acc, rfl, if_neg hlt, rfl, Or.inr (by omega), by simp,
        by simpa [FrameLog.framesFrom] using h⟩

/-- The oldest queue entry is delivered. -/
theorem emitItem_shows {log : FrameLog} {q : Queued} {queue : List Queued} {v : VoltState}
    (h : B.Shows log (q :: queue) v) (live : Bool) :
    ∃ v', emitItem B.cfg live v =
        .ok (q.emitted (decide (v.syncTimestamp = 0) && live), v') ∧
      v'.syncTimestamp = v.syncTimestamp ∧ B.Shows log queue v' := by
  have hx : v.xVectorQueue = q.x :: queue.map Queued.x := h.xQueue
  -- the second port has a vector exactly in unpacked mode
  have hy : popSecond B.cfg v = .ok (q.y, queue.filterMap Queued.y) := by
    have hport := h.yPort q (by simp)
    have hys := h.yQueue
    rw [popSecond]
    cases hq : q.y with
    | none =>
      rw [List.filterMap_cons_none hq] at hys
      rw [hq] at hport
      rw [if_pos (by simp [← hport]), hys]
    | some y =>
      rw [List.filterMap_cons_some hq] at hys
      rw [hq] at hport
      rw [if_neg (by simp [← hport]), hys]
      rfl
  -- a sequence number is popped only before the handshake
  obtain ⟨ns, htag, hns⟩ : ∃ ns, popTag live v = .ok
        (if decide (v.syncTimestamp = 0) && live then some q.seqNum else none, ns) ∧
      (v.syncTimestamp = 0 → ns = queue.map Queued.seqNum) := by
    rw [popTag]
    by_cases h0 : v.syncTimestamp = 0
    · have hseq : v.seqNumQueue = q.seqNum :: queue.map Queued.seqNum := h.seqNums h0
      exact ⟨_, by simp [h0, hseq, popFront, Except.map], fun _ => rfl⟩
    · exact ⟨v.seqNumQueue, by simp [h0], fun hc => absurd hc h0⟩
  refine ⟨{ v with
    xVectorQueue := queue.map Queued.x
    yVectorQueue := queue.filterMap Queued.y
    seqNumQueue := ns }, ?_, rfl, ?_⟩
  · rw [emitItem, hx, hy, htag]
    rfl
  · exact ⟨h.last, h.copied, h.xBuffer, h.yBuffer, rfl, rfl,
      fun r hr => h.yPort r (by simp [hr]), hns⟩

/-- The output loop delivers the oldest entries. -/
theorem emitItems_shows (live : Bool) : ∀ (n : ℕ) {log : FrameLog} {queue : List Queued}
    {v : VoltState}, B.Shows log queue v → n ≤ queue.length →
    ∃ v', emitItems B.cfg live n v = .ok ((queue.take n).map
        (Queued.emitted (decide (v.syncTimestamp = 0) && live)), v') ∧
      v'.syncTimestamp = v.syncTimestamp ∧ B.Shows log (queue.drop n) v' := by
  intro n
  induction n with
  | zero => intro log queue v h _; exact ⟨v, rfl, rfl, by simpa using h⟩
  | succ n ih =>
    intro log queue v h hn
    obtain ⟨q, queue, rfl⟩ := List.exists_cons_of_length_pos (show 0 < queue.length by omega)
    obtain ⟨v₁, hv₁, hsync₁, hs₁⟩ := B.emitItem_shows h live
    obtain ⟨v₂, hv₂, hsync₂, hs₂⟩ := ih hs₁ (by simpa using hn)
    refine ⟨v₂, ?_, hsync₂.trans hsync₁, hs₂⟩
    simp only [emitItems, hv₁, ok_bind, hv₂, hsync₁, List.take_succ_cons, List.map_cons]

/-- What a call that returns has done: it took packets while the queue was short, and
delivered the oldest items, as many as it was asked for if there are enough. -/
structure Serves (log : FrameLog) (queue : List Queued) (noutput : ℕ) (live : Bool)
    (s : SnapSource) (taken : List Packet) (result : WorkResult) (s' : SnapSource) : Prop where
  consumed : s.recv.dLocalqueue = taken ++ s'.recv.dLocalqueue
  sync : s'.volt.syncTimestamp = s.volt.syncTimestamp
  enough : s'.recv.dLocalqueue = [] ∨ noutput ≤ result.items.length
  short : ∀ ts p, taken = ts ++ [p] →
    queue.length + 16 * (log.framesFrom B.cfg.bOnePacket ts).length < noutput
  items : result.items =
    ((queue ++ (log.framesFrom B.cfg.bOnePacket taken).flatMap B.queuedItems).take noutput).map
      (Queued.emitted (decide (s.volt.syncTimestamp = 0) && live))
  shows : B.Shows (taken.foldl (FrameLog.step B.cfg.bOnePacket) log)
    ((queue ++ (log.framesFrom B.cfg.bOnePacket taken).flatMap B.queuedItems).drop noutput) s'.volt

/-- The number of rows of the frames that packets make a block hand on. -/
theorem rows_length (log : FrameLog) (ps : List Packet) :
    ((log.framesFrom B.cfg.bOnePacket ps).flatMap B.queuedItems).length =
      16 * newFrameCount B.cfg.bOnePacket log.last ps := by
  have hcount : newFrameCount B.cfg.bOnePacket log.last ps =
      (log.framesFrom B.cfg.bOnePacket ps).length := FrameLog.framesFrom_length ps rfl
  rw [hcount, List.length_flatMap]
  simp only [queuedItems_length, List.map_const', List.sum_replicate_nat]
  rw [Nat.mul_comm]

/-- A call takes all packets exactly when it still asks for more vectors at the last
of them. -/
theorem Serves.all_iff {B : VoltageBlock} {queue : List Queued} {log : FrameLog} {noutput : ℕ}
    {live : Bool} {s s' : SnapSource} {more : List Packet} {result : WorkResult}
    (h : B.Serves log queue noutput live s more result s') {ps : List Packet} {p : Packet}
    (hqueue : s.recv.dLocalqueue = ps ++ [p]) :
    s'.recv.dLocalqueue = [] ↔
      queue.length + 16 * newFrameCount B.cfg.bOnePacket log.last ps < noutput := by
  have hsplit : ps ++ [p] = more ++ s'.recv.dLocalqueue := hqueue.symm.trans h.consumed
  have hcount (qs : List Packet) :
      newFrameCount B.cfg.bOnePacket log.last qs =
        (log.framesFrom B.cfg.bOnePacket qs).length :=
    FrameLog.framesFrom_length qs rfl
  constructor
  · intro hall
    rw [hall, List.append_nil] at hsplit
    rw [hcount]
    exact h.short ps p hsplit.symm
  · intro hfew
    by_contra hrest
    -- the packets taken are among those before the last one
    obtain ⟨front, last, hfront⟩ := List.eq_nil_or_concat s'.recv.dLocalqueue |>.resolve_left hrest
    rw [hfront, List.concat_eq_append, ← List.append_assoc] at hsplit
    obtain ⟨rfl, -⟩ := List.append_inj' hsplit rfl
    have henough := h.enough.resolve_left hrest
    rw [h.items, List.length_map, List.length_take, List.length_append, rows_length] at henough
    rw [hcount, FrameLog.framesFrom_append, List.length_append, ← hcount more] at hfew
    omega

/-- A call meets a gap whose loop does not end, or it returns. -/
theorem workVoltMode_outcome {log : FrameLog} {queue : List Queued} {s : SnapSource}
    (h : B.Shows log queue s.volt) (hrange : ∀ p ∈ s.recv.dLocalqueue, B.InRange p)
    (noutput : ℕ) (live : Bool) :
    (workVoltMode B.cfg noutput live s = .error .endlessLoop ∧
      ¬FillsEnd log.last s.recv.dLocalqueue) ∨
    ∃ taken result s', workVoltMode B.cfg noutput live s = .ok (result, s') ∧
      B.Serves log queue noutput live s taken result s' := by
  rw [workVoltMode]
  simp only
  split
  · rename_i hidle
    right
    have hq : queue = [] := by
      have := hidle.2.2.2
      rw [h.xQueue] at this
      exact List.map_eq_nil_iff.mp this
    have hempty : s.recv.dLocalqueue = [] := List.length_eq_zero_iff.mp hidle.2.2.1
    refine ⟨[], _, s, rfl, rfl, rfl, Or.inl hempty, by simp, ?_, ?_⟩
    · simp [hq, FrameLog.framesFrom]
    · simpa [hq, FrameLog.framesFrom] using h
  · rcases B.packetLoop_outcome noutput s.recv.dLocalqueue.length
      { s.recv with dSendSyncPmt := false } (s.volt, 0) h hrange le_rfl with
      ⟨hloop, hends⟩ | ⟨taken, rest, acc', hsplit, hloop, hsync, hdone, hshort, hs⟩
    · exact Or.inl ⟨by simp only [hloop, error_bind], hends⟩
    right
    obtain ⟨volt, skipped⟩ := acc'
    simp only [hloop, ok_bind]
    have hlen := congrArg List.length hs.xQueue
    rw [List.length_map] at hlen
    simp only at hlen hs hsync hdone
    obtain ⟨v', hv', hsync', hs'⟩ := B.emitItems_shows live
      (min noutput volt.xVectorQueue.length) hs (by rw [← hlen]; exact Nat.min_le_right _ _)
    simp only [hv', ok_bind]
    refine ⟨taken, _, _, rfl, hsplit, hsync'.trans hsync, ?_, hshort, ?_, ?_⟩
    · rcases hdone with hall | henough
      · left
        have := congrArg List.length hsplit
        rw [List.length_append, hall] at this
        exact List.length_eq_zero_iff.mp (show rest.length = 0 by simp only at this; omega)
      · right
        rw [List.length_map, List.length_take, ← hlen]
        omega
    · rw [hsync, hlen, ← List.take_eq_take_min]
    · rw [hlen] at hs'
      by_cases hle : noutput ≤ (queue ++
          (log.framesFrom B.cfg.bOnePacket taken).flatMap B.queuedItems).length
      · rwa [Nat.min_eq_left hle] at hs'
      · rw [Nat.min_eq_right (by omega), List.drop_length] at hs'
        rwa [List.drop_eq_nil_of_le (by omega)]

/-- **One call.** For admissible packets it returns. -/
theorem workVoltMode_shows {log : FrameLog} {queue : List Queued} {s : SnapSource}
    (h : B.Shows log queue s.volt) (hadm : B.Admissible log.last s.recv.dLocalqueue)
    (noutput : ℕ) (live : Bool) :
    ∃ taken result s', workVoltMode B.cfg noutput live s = .ok (result, s') ∧
      B.Serves log queue noutput live s taken result s' :=
  (B.workVoltMode_outcome h hadm.inRange noutput live).resolve_left fun hends =>
    hends.2 hadm.fillsEnd

/-- A message sets the timestamp of the handshake, and nothing else. -/
theorem handleSyncMsg_spec {m : Pmt} (hm : m.Announces) (v : VoltState) :
    ∃ t, handleSyncMsg v m = .ok { v with syncTimestamp := t } ∧
      (t = 0 → v.syncTimestamp = 0) := by
  obtain ⟨d, hd, hne⟩ := hm
  rw [handleSyncMsg, hd]
  cases ht : d.toUint64 with
  | ok t =>
    refine ⟨t, by simp [Except.map, ht], fun h0 => ?_⟩
    rw [ht, h0] at hne
    exact absurd rfl hne
  | error e => exact ⟨v.syncTimestamp, by simp [Except.map, ht], id⟩

theorem handleMessages_spec {messages : List Pmt} (hm : ∀ m ∈ messages, m.Announces)
    (v : VoltState) :
    ∃ t, handleMessages v messages = .ok { v with syncTimestamp := t } ∧
      (t = 0 → v.syncTimestamp = 0) := by
  let Inv : List Pmt → VoltState → Prop := fun _ v' =>
    ∃ t, v' = { v with syncTimestamp := t } ∧ (t = 0 → v.syncTimestamp = 0)
  have hstep : ∀ past v' m, Inv past v' → m.Announces →
      ∃ v'', handleSyncMsg v' m = .ok v'' ∧ Inv (past ++ [m]) v'' := by
    rintro _ _ m ⟨t, rfl, ht⟩ hm
    obtain ⟨t', ht', h0⟩ := handleSyncMsg_spec hm { v with syncTimestamp := t }
    exact ⟨_, ht', t', rfl, fun hc => ht (h0 hc)⟩
  have hstart : Inv [] v := ⟨v.syncTimestamp, rfl, id⟩
  obtain ⟨v', hv', t, rfl, ht⟩ :=
    Execution.run_history Inv Pmt.Announces hstep [] hstart messages hm
  exact ⟨t, hv', ht⟩

variable (B : VoltageBlock)

/-- A run has taken the packets `taken` of those that arrived, has delivered the
entries `delivered` and holds the entries `queue`: together they are the rows of
the frames that the packets make up. -/
structure Tracks (arrived taken : List Packet) (delivered queue : List Queued) (w : WorkRun) :
    Prop where
  consumed : arrived = taken ++ w.source.recv.dLocalqueue
  shows : B.Shows (frameLog B.cfg.bOnePacket taken) queue w.source.volt
  frames : delivered ++ queue = (frameLog B.cfg.bOnePacket taken).pushed.flatMap B.queuedItems
  vectors : w.items.map OutItem.untagged = delivered.map (Queued.emitted false)
  tags : w.source.volt.syncTimestamp = 0 → w.items = delivered.map (Queued.emitted true)
  idle : w.items = [] → w.source.recv.dLocalqueue = [] ∧ queue = []

namespace Tracks

variable {B : VoltageBlock} {arrived taken : List Packet} {delivered queue : List Queued}
  {w : WorkRun}

theorem delivered_rows (h : B.Tracks arrived taken delivered queue w) :
    delivered <+: (frameLog B.cfg.bOnePacket taken).pushed.flatMap B.queuedItems :=
  ⟨queue, h.frames⟩

theorem taken_arrived (h : B.Tracks arrived taken delivered queue w) : taken <+: arrived :=
  ⟨_, h.consumed.symm⟩

/-- The output vectors of the first port. -/
theorem items_x (h : B.Tracks arrived taken delivered queue w) :
    w.items.map OutItem.x = delivered.map Queued.x := by
  have := congrArg (List.map OutItem.x) h.vectors
  simpa [Function.comp_def, OutItem.untagged, Queued.emitted] using this

/-- The output vectors of the second port. -/
theorem items_y (h : B.Tracks arrived taken delivered queue w) :
    w.items.map OutItem.y = delivered.map Queued.y := by
  have := congrArg (List.map OutItem.y) h.vectors
  simpa [Function.comp_def, OutItem.untagged, Queued.emitted] using this

theorem items_length (h : B.Tracks arrived taken delivered queue w) :
    w.items.length = delivered.length := by
  simpa using congrArg List.length h.vectors

/-- No more items are delivered than the arrived packets make up. -/
theorem items_length_le (h : B.Tracks arrived taken delivered queue w) :
    w.items.length ≤ 16 * (frameLog B.cfg.bOnePacket arrived).pushed.length := by
  have hrows := h.delivered_rows.length_le
  have hframes := (frameLog_pushed_mono B.cfg.bOnePacket h.taken_arrived).length_le
  simp only [List.length_flatMap, VoltageBlock.queuedItems_length, List.map_const',
    List.sum_replicate_nat] at hrows
  rw [h.items_length]
  omega

/-- A run outputs nothing exactly when the arrived packets make up no frame. -/
theorem items_eq_nil_iff (h : B.Tracks arrived taken delivered queue w) :
    w.items = [] ↔ (frameLog B.cfg.bOnePacket arrived).pushed = [] := by
  constructor
  · intro hnil
    obtain ⟨hlocal, hqueue⟩ := h.idle hnil
    have htaken : arrived = taken := by rw [h.consumed, hlocal, List.append_nil]
    have hrows := congrArg List.length h.frames
    rw [hqueue, List.append_nil, ← h.items_length, hnil, ← htaken] at hrows
    simp only [List.length_nil, List.length_flatMap, VoltageBlock.queuedItems_length,
      List.map_const', List.sum_replicate_nat] at hrows
    exact List.eq_nil_of_length_eq_zero (by omega)
  · intro hnil
    have hle := h.items_length_le
    rw [hnil] at hle
    exact List.eq_nil_of_length_eq_zero (by simpa using hle)

/-- What is tracked before a call, and what the call serves after its messages. -/
theorem serve (h : B.Tracks arrived taken delivered queue w) {call : Call}
    (hpos : 0 < call.noutputItems) {t : ℕ} (ht : t = 0 → w.source.volt.syncTimestamp = 0)
    {more : List Packet} {result : WorkResult} {s' : SnapSource}
    (hserves : B.Serves (frameLog B.cfg.bOnePacket taken) queue call.noutputItems true
      { w.source with
        recv := call.receive w.source.recv
        volt := { w.source.volt with syncTimestamp := t } } more result s')
    {rows : List Queued} (hrows : queue ++ ((frameLog B.cfg.bOnePacket taken).framesFrom
      B.cfg.bOnePacket more).flatMap B.queuedItems = rows) :
    B.Tracks (arrived ++ call.arrived) (taken ++ more)
      (delivered ++ rows.take call.noutputItems) (rows.drop call.noutputItems)
      ⟨s', w.results ++ [result]⟩ := by
  obtain ⟨hsplit, hsync, hdone, -, hitems, hs'⟩ := hserves
  simp only at hsync hitems hsplit
  rw [hrows] at hitems hs'
  exact
    { consumed := by
        rw [h.consumed, List.append_assoc, List.append_assoc]
        exact congrArg (taken ++ ·) hsplit
      shows := by
        rw [frameLog_append]
        exact hs'
      frames := by
        rw [List.append_assoc, List.take_append_drop, ← hrows, ← List.append_assoc, h.frames,
          frameLog_append, FrameLog.foldl_pushed, List.flatMap_append]
      vectors := by
        rw [w.items_concat, List.map_append, List.map_append, h.vectors, hitems, List.map_map]
        rfl
      tags := by
        intro h0
        have ht0 : t = 0 := hsync.symm.trans h0
        rw [w.items_concat, h.tags (ht ht0), hitems, List.map_append]
        simp [ht0]
      idle := by
        intro hnil
        rw [w.items_concat] at hnil
        obtain ⟨_, hnone⟩ := List.append_eq_nil_iff.mp hnil
        have hq0 : rows = [] := by
          have := hitems.symm.trans hnone
          rw [List.map_eq_nil_iff, List.take_eq_nil_iff] at this
          exact this.resolve_left (by omega)
        refine ⟨?_, by rw [hq0, List.drop_nil]⟩
        rcases hdone with hdone | hdone
        · exact hdone
        · rw [hnone] at hdone
          simp only [List.length_nil] at hdone
          omega }

end Tracks

/-- **One call of a schedule.** -/
theorem workCall_tracks {arrived taken : List Packet} {delivered queue : List Queued}
    {w : WorkRun} (h : B.Tracks arrived taken delivered queue w) {call : Call}
    (hcall : call.Valid) (hadm : B.Admissible 0 (arrived ++ call.arrived)) :
    ∃ w' taken' delivered' queue', workCall B.cfg w call = .ok w' ∧
      B.Tracks (arrived ++ call.arrived) taken' delivered' queue' w' ∧
      (call.Quiet → w'.source.volt.syncTimestamp = w.source.volt.syncTimestamp) ∧
      (w'.source.recv.dLocalqueue = [] ∧ queue' = [] ∨
        call.noutputItems ≤ w'.items.length) := by
  obtain ⟨t, hmsgs, ht⟩ := handleMessages_spec hcall.messages w.source.volt
  have hrest : B.Admissible (frameLog B.cfg.bOnePacket taken).last
      (call.receive w.source.recv).dLocalqueue := by
    rw [h.consumed, List.append_assoc] at hadm
    rw [frameLog_last]
    exact (B.admissible_append.mp hadm).2
  obtain ⟨more, result, s', hwork, hserves⟩ :=
    B.workVoltMode_shows (s := { w.source with
      recv := call.receive w.source.recv
      volt := { w.source.volt with syncTimestamp := t } })
      (h.shows.announced fun h0 => h.shows.seqNums (ht h0)) hrest call.noutputItems true
  have htracks := h.serve hcall.pos ht hserves rfl
  refine ⟨⟨s', w.results ++ [result]⟩, _, _, _, ?_, htracks, ?_, ?_⟩
  · rw [workCall, hmsgs, ok_bind, hwork, ok_bind]
  · intro hquiet
    have : t = w.source.volt.syncTimestamp := by
      have hnone : handleMessages w.source.volt call.messages = .ok w.source.volt := by
        rw [show call.messages = [] from hquiet]
        rfl
      exact congrArg VoltState.syncTimestamp (Except.ok.inj (hmsgs.symm.trans hnone))
    exact hserves.sync.trans this
  · have hlen := congrArg List.length hserves.items
    rw [List.length_map, List.length_take] at hlen
    rw [w.items_concat, List.length_append]
    obtain hfew | henough := Nat.lt_or_ge (queue ++ ((frameLog B.cfg.bOnePacket taken).framesFrom
      B.cfg.bOnePacket more).flatMap B.queuedItems).length call.noutputItems
    · refine Or.inl ⟨hserves.enough.resolve_right (by omega), List.drop_eq_nil_of_le hfew.le⟩
    · exact Or.inr (by omega)

/-- A voltage block starts with empty queues and cleared buffers. -/
theorem start_tracks (env : Environment) :
    ∃ s, start B.cfg B.unset env = .ok s ∧ s.volt.syncTimestamp = 0 ∧
      B.Tracks [] [] [] [] ⟨s, []⟩ := by
  have hbuf := B.vectorBufferSize_eq
  have hone := B.one_le_packetsPerFrame
  have hsize : B.cfg.vectorBufferSize.toNat = 16 * B.cfg.dVeclen := by
    rw [hbuf, B.dVeclen_eq]
    omega
  refine ⟨⟨initialReceiver env, startVolt B.cfg, initialSpect 0 B.unset.heap⟩, ?_, rfl, ?_⟩
  · rw [start, if_neg (by omega), if_pos B.dHeaderType_eq, if_neg (by omega)]
  · exact
      { consumed := rfl
        shows :=
          { last := rfl
            copied := rfl
            xBuffer := by simp [startVolt, initialVolt, hsize, FrameLog.empty]
            yBuffer := fun hp => by simp [startVolt, initialVolt, hsize, hp, FrameLog.empty]
            xQueue := rfl
            yQueue := rfl
            yPort := by simp
            seqNums := fun _ => rfl }
        frames := rfl
        vectors := rfl
        tags := fun _ => rfl
        idle := fun _ => ⟨rfl, rfl⟩ }

/-- **Every schedule.** For admissible packets every run returns and tracks the
frame log. As long as no call had a message, no handshake is recorded. When each
call asks for `n` items or more, a run that leaves anything behind has output `n`. -/
theorem run_tracks (env : Environment) (calls : List Call) (hcalls : ∀ call ∈ calls, call.Valid)
    (hadm : B.Admissible 0 (arrivals calls)) :
    ∃ w taken delivered queue, B.run env calls = .ok w ∧
      B.Tracks (arrivals calls) taken delivered queue w ∧
      ((∀ call ∈ calls, call.Quiet) → w.source.volt.syncTimestamp = 0) ∧
      ∀ n, (∀ call ∈ calls, n ≤ call.noutputItems) →
        w.source.recv.dLocalqueue = [] ∧ queue = [] ∨ n ≤ w.items.length := by
  obtain ⟨s, hs, hsync, htracks⟩ := B.start_tracks env
  simp only [run, workRun, hs, ok_bind]
  induction calls using List.reverseRecOn with
  | nil =>
    exact ⟨_, [], [], [], rfl, htracks, fun _ => hsync,
      fun _ _ => Or.inl ⟨htracks.consumed.symm, rfl⟩⟩
  | append_singleton calls call ih =>
    rw [arrivals_concat] at hadm
    obtain ⟨w, taken, delivered, queue, hw, hwt, hquiet, -⟩ :=
      ih (fun c hc => hcalls c (by simp [hc])) (B.admissible_append.mp hadm).1
    obtain ⟨w', taken', delivered', queue', hw', hwt', hkeep, hserved⟩ :=
      B.workCall_tracks hwt (hcalls call (by simp)) hadm
    refine ⟨w', taken', delivered', queue', Execution.run_concat_ok hw hw', ?_, ?_, ?_⟩
    · rwa [arrivals_concat]
    · intro hq
      rw [hkeep (hq call (by simp)), hquiet fun c hc => hq c (by simp [hc])]
    · intro n hn
      exact hserved.imp_right (hn call (by simp)).trans

variable {B} in
/-- Calls that ask for more than the arrived packets make up take all of them. -/
theorem run_takes_all {env : Environment} {calls : List Call} (hcalls : ∀ call ∈ calls, call.Valid)
    (hadm : B.Admissible 0 (arrivals calls)) {n : ℕ}
    (hn : ∀ call ∈ calls, n ≤ call.noutputItems)
    (hlt : 16 * (frameLog B.cfg.bOnePacket (arrivals calls)).pushed.length < n) {w : WorkRun}
    (hw : B.run env calls = .ok w) : w.source.recv.dLocalqueue = [] := by
  obtain ⟨w', taken, delivered, queue, hw', ht, -, hserved⟩ := B.run_tracks env calls hcalls hadm
  obtain rfl := Except.ok.inj (hw.symm.trans hw')
  rcases hserved n hn with hdone | hmany
  · exact hdone.1
  · exact absurd (hmany.trans ht.items_length_le) hlt.not_ge

end VoltageBlock

end GrAta
