import GrAta.Voltage.QueueBounds

/-!
# The output queues in lockstep

Vectors are queued by three parts of the work function, each of which tests whether the
output is packed, and they leave the queues in a fourth one. All of them move whole frames,
so that the queues hold the rows of the same frames at any time.

## Main definitions

- `Lockstep`: what the queues have in common
- `VoltageBlock.Granular`: the queues hold the rows of a list of frames
- `VoltageBlock.Granulates`: the same in a run, with the packets that wait

## Main results

- `VoltageBlock.Granular.lockstep`: rows of frames are in lockstep
- `VoltageBlock.run_lockstep`: the queues and the output of every run
-/

namespace GrAta

/-- The frame and the time row of a queued vector. -/
def TimeVector.place (u : TimeVector) : FrameOrigin × ℕ := (u.origin, u.row)

/-- The queues hold whole frames of sixteen vectors of `d_veclen` bytes. The second one
holds the vectors of the same rows in unpacked mode, and nothing in packed mode. -/
structure Lockstep (c : Config) (v : VoltState) : Prop where
  frames : 16 ∣ v.xVectorQueue.length
  second : c.dPackedOutput = false → v.yVectorQueue.length = v.xVectorQueue.length
  packed : c.dPackedOutput = true → v.yVectorQueue = []
  veclen : ∀ u ∈ v.xVectorQueue ++ v.yVectorQueue, u.data.length = c.dVeclen
  place : ∀ (k : ℕ) (x y : TimeVector), v.xVectorQueue[k]? = some x →
    v.yVectorQueue[k]? = some y → y.place = x.place

/-- The output of a call: whole frames, no more than were asked for, in vectors of
`d_veclen` bytes. -/
structure WorkResult.Granular (c : Config) (noutputItems : ℕ) (result : WorkResult) : Prop where
  frames : 16 ∣ result.items.length
  fits : result.items.length ≤ noutputItems
  veclen : ∀ item ∈ result.items, item.x.data.length = c.dVeclen ∧
    ∀ y, item.y = some y → y.data.length = c.dVeclen

/-- The gaps of two sequences that follow each other. -/
theorem VoltageBlock.fillsEnd_append {last : ℕ} {ps qs : List Packet} :
    FillsEnd last (ps ++ qs) ↔
      FillsEnd last ps ∧ FillsEnd ((ps.getLast?.map timestamp).getD last) qs := by
  induction ps generalizing last with
  | nil => exact (and_iff_right trivial).symm
  | cons p ps ih =>
    rw [List.cons_append, FillsEnd, FillsEnd, ih, and_assoc]
    cases ps with
    | nil => rfl
    | cons q ps =>
      rw [List.getLast?_cons_cons, List.getLast?_cons, Option.map_some, Option.getD_some,
        Option.getD_some]

namespace VoltageBlock

variable (B : VoltageBlock)

/-- The rows of frames, as queue entries. -/
def frameItems (frames : List FramePush) : List Queued := frames.flatMap B.queuedItems

/-- The state shows a log and the rows of whole frames. -/
def Granular (log : FrameLog) (v : VoltState) : Prop :=
  ∃ frames, B.Shows log (B.frameItems frames) v

variable {B} {log : FrameLog} {v : VoltState} {frames : List FramePush}

theorem frameItems_length (frames : List FramePush) :
    (B.frameItems frames).length = 16 * frames.length := by
  rw [frameItems, List.length_flatMap]
  simp only [queuedItems_length, List.map_const', List.sum_replicate_nat]
  rw [Nat.mul_comm]

/-- The rows of frames without those of the first `n` frames. -/
theorem frameItems_drop (frames : List FramePush) (n : ℕ) :
    (B.frameItems frames).drop (16 * n) = B.frameItems (frames.drop n) := by
  induction n generalizing frames with
  | zero => rfl
  | succ n ih =>
    cases frames with
    | nil => exact List.drop_nil
    | cons f frames =>
      have hlen : (B.queuedItems f).length = 16 := B.queuedItems_length f
      rw [List.drop_succ_cons, ← ih, frameItems, List.flatMap_cons, ← frameItems,
        show 16 * (n + 1) = (B.queuedItems f).length + 16 * n by omega,
        List.drop_length_add_append]

theorem rowData_length (port : Port) (origin : FrameOrigin) (t : ℕ) :
    (B.rowData port origin t).length = B.cfg.dVeclen := by
  rw [rowData, List.length_map, List.length_range]

/-- An entry of the rows of frames is a row of one of them. -/
theorem exists_queuedRow {q : Queued} (h : q ∈ B.frameItems frames) :
    ∃ f t, q = B.queuedRow f t := by
  obtain ⟨f, -, hq⟩ := List.mem_flatMap.mp h
  obtain ⟨t, -, rfl⟩ := List.mem_map.mp hq
  exact ⟨f, t, rfl⟩

/-- In unpacked mode every entry has a vector for the second port, from the same row. -/
theorem queuedRow_y (hpacked : B.cfg.dPackedOutput = false) (f : FramePush) (t : ℕ) :
    (B.queuedRow f t).y = some ⟨B.rowData .y f.origin t, f.origin, t⟩ := by
  rw [queuedRow, hpacked]
  rfl

theorem queuedRow_y_some {f : FramePush} {t : ℕ} {u : TimeVector}
    (h : (B.queuedRow f t).y = some u) :
    B.cfg.dPackedOutput = false ∧ u.data.length = B.cfg.dVeclen := by
  cases hpacked : B.cfg.dPackedOutput with
  | true =>
    rw [queuedRow, hpacked] at h
    cases h
  | false =>
    rw [queuedRow_y hpacked] at h
    rw [← Option.some.inj h]
    exact ⟨rfl, rowData_length ..⟩

theorem queuedRow_place (f : FramePush) (t : ℕ) :
    (B.queuedRow f t).x.place = (f.origin, t) :=
  rfl

theorem filterMap_y_getElem? (hpacked : B.cfg.dPackedOutput = false) (frames : List FramePush)
    (k : ℕ) : ((B.frameItems frames).filterMap Queued.y)[k]? =
      ((B.frameItems frames)[k]?).bind Queued.y := by
  have hmap : ∀ queue : List Queued, (∀ q ∈ queue, ∃ f t, q = B.queuedRow f t) →
      (queue.filterMap Queued.y)[k]? = (queue[k]?).bind Queued.y := by
    intro queue
    induction queue generalizing k with
    | nil => exact fun _ => rfl
    | cons q queue ih =>
      intro hrows
      obtain ⟨f, t, hq⟩ := hrows q List.mem_cons_self
      have hy : q.y = some ⟨B.rowData .y f.origin t, f.origin, t⟩ := hq ▸ queuedRow_y hpacked f t
      rw [List.filterMap_cons_some hy]
      cases k with
      | zero => exact hy.symm
      | succ k => exact ih k fun q' hq' => hrows q' (List.mem_cons_of_mem _ hq')
  exact hmap _ fun q hq => exists_queuedRow hq

/-- The second queue has vectors in unpacked mode only. -/
theorem Shows.of_mem_y (h : B.Shows log (B.frameItems frames) v) {u : TimeVector}
    (hu : u ∈ v.yVectorQueue) :
    B.cfg.dPackedOutput = false ∧ u.data.length = B.cfg.dVeclen := by
  rw [h.yQueue] at hu
  obtain ⟨q, hq, hy⟩ := List.mem_filterMap.mp hu
  obtain ⟨f, t, rfl⟩ := exists_queuedRow hq
  exact queuedRow_y_some hy

/-- Rows of frames are in lockstep. -/
theorem Granular.lockstep (h : B.Granular log v) : Lockstep B.cfg v := by
  obtain ⟨frames, h⟩ := h
  exact
    { frames := by
        rw [h.x_length, frameItems_length]
        exact Nat.dvd_mul_right ..
      second := by
        intro hpacked
        rw [h.x_length, h.yQueue, List.length_filterMap_eq_countP, List.countP_eq_length]
        intro q hq
        obtain ⟨f, t, rfl⟩ := exists_queuedRow hq
        rw [queuedRow_y hpacked]
        rfl
      packed := by
        intro hpacked
        rw [List.eq_nil_iff_forall_not_mem]
        intro u hu
        have hunpacked := (h.of_mem_y hu).1
        rw [hpacked] at hunpacked
        cases hunpacked
      veclen := by
        intro u hu
        rcases List.mem_append.mp hu with hu | hu
        · rw [h.xQueue] at hu
          obtain ⟨q, hq, rfl⟩ := List.mem_map.mp hu
          obtain ⟨f, t, rfl⟩ := exists_queuedRow hq
          exact rowData_length ..
        · exact (h.of_mem_y hu).2
      place := by
        intro k x y hx hy
        have hpacked := (h.of_mem_y (List.mem_of_getElem? hy)).1
        rw [h.yQueue, filterMap_y_getElem? hpacked] at hy
        rw [h.xQueue, List.getElem?_map] at hx
        cases hq : (B.frameItems frames)[k]? with
        | none => rw [hq] at hx; cases hx
        | some q =>
          rw [hq] at hx hy
          rw [Option.map_some] at hx
          rw [Option.bind_some] at hy
          obtain ⟨f, t, rfl⟩ := exists_queuedRow (List.mem_of_getElem? hq)
          rw [queuedRow_y hpacked] at hy
          rw [← Option.some.inj hx, ← Option.some.inj hy, queuedRow_place]
          rfl }

-- ════════════════════════════════════════════════════════════════════════
-- Calls
-- ════════════════════════════════════════════════════════════════════════

/-- **One packet.** -/
theorem Granular.packet {acc : VoltState × ℤ} (h : B.Granular log acc.1) {p : Packet}
    (hp : B.InRange p) (hgap : FillEnds log.last (timestamp p)) :
    ∃ acc', processPacket B.cfg acc p = .ok acc' ∧
      B.Granular (log.step B.cfg.bOnePacket p) acc'.1 := by
  obtain ⟨frames, h⟩ := h
  obtain ⟨acc', hacc, -, hshows⟩ := B.processPacket_shows h hp hgap
  refine ⟨acc', hacc, frames ++ log.newFrames B.cfg.bOnePacket p, ?_⟩
  rw [frameItems, List.flatMap_append]
  exact hshows

/-- **The packet loop.** Before and after every packet the queues are in lockstep. -/
theorem Granular.steps (noutputItems : ℕ) : ∀ (n : ℕ) {r : Receiver} {acc : VoltState × ℤ}
    {log : FrameLog}, B.Granular log acc.1 → (∀ p ∈ r.dLocalqueue, B.InRange p) →
    FillsEnd log.last r.dLocalqueue →
    ∀ step ∈ packetSteps B.cfg noutputItems n (r, acc),
      Lockstep B.cfg step.1 ∧ Lockstep B.cfg step.2 := by
  intro n
  induction n with
  | zero => exact fun _ _ _ step hstep => absurd hstep List.not_mem_nil
  | succ n ih =>
    intro r acc log h hrange hends step hstep
    rw [packetSteps] at hstep
    by_cases hfew : acc.1.xVectorQueue.length < noutputItems
    · cases hqueue : r.dLocalqueue with
      | nil =>
        simp only [if_pos hfew, hqueue] at hstep
        exact absurd hstep List.not_mem_nil
      | cons p rest =>
        rw [hqueue] at hrange hends
        obtain ⟨hp, hrest⟩ := List.forall_mem_cons.mp hrange
        obtain ⟨acc', hacc, hnext⟩ := h.packet hp hends.1
        simp only [if_pos hfew, hqueue, hacc] at hstep
        rcases List.mem_cons.mp hstep with rfl | hlater
        · exact ⟨h.lockstep, hnext.lockstep⟩
        · exact ih (r := { r with dLocalqueue := rest }) hnext hrest hends.2 step hlater
    · rw [if_neg hfew] at hstep
      exact absurd hstep List.not_mem_nil

/-- Packets in range that wait behind a log, whose gaps can be filled. -/
structure Waiting (B : VoltageBlock) (log : FrameLog) (s : SnapSource) : Prop where
  granular : B.Granular log s.volt
  inRange : ∀ p ∈ s.recv.dLocalqueue, B.InRange p
  ends : FillsEnd log.last s.recv.dLocalqueue

/-- **One call** of the work function. It returns whole frames. -/
theorem Waiting.work {s : SnapSource} (h : B.Waiting log s) {noutputItems : ℕ}
    (hdvd : 16 ∣ noutputItems) (live : Bool) :
    ∃ taken result s', workVoltMode B.cfg noutputItems live s = .ok (result, s') ∧
      s.recv.dLocalqueue = taken ++ s'.recv.dLocalqueue ∧
      B.Granular (taken.foldl (FrameLog.step B.cfg.bOnePacket) log) s'.volt ∧
      result.Granular B.cfg noutputItems ∧
      ∀ step ∈ workSteps B.cfg noutputItems s, Lockstep B.cfg step.1 ∧ Lockstep B.cfg step.2 := by
  obtain ⟨frames, hshows⟩ := h.granular
  obtain ⟨taken, result, s', hwork, hserves⟩ :=
    (B.workVoltMode_outcome hshows h.inRange noutputItems live).resolve_left
      fun hendless => hendless.2 h.ends
  have hrows : B.frameItems frames ++
      (log.framesFrom B.cfg.bOnePacket taken).flatMap B.queuedItems =
        B.frameItems (frames ++ log.framesFrom B.cfg.bOnePacket taken) :=
    List.flatMap_append.symm
  have hitems := hserves.items
  have hshows' := hserves.shows
  rw [hrows] at hitems hshows'
  generalize frames ++ log.framesFrom B.cfg.bOnePacket taken = all at hitems hshows'
  obtain ⟨n, rfl⟩ := hdvd
  rw [frameItems_drop] at hshows'
  refine ⟨taken, result, s', hwork, hserves.consumed, ⟨_, hshows'⟩, ?_, ?_⟩
  · exact
      { frames := by
          rw [hitems, List.length_map, List.length_take, frameItems_length,
            Nat.mul_min_mul_left]
          exact Nat.dvd_mul_right ..
        fits := by
          rw [hitems, List.length_map, List.length_take]
          exact Nat.min_le_left ..
        veclen := by
          intro item hitem
          rw [hitems] at hitem
          obtain ⟨q, hq, rfl⟩ := List.mem_map.mp hitem
          obtain ⟨f, t, rfl⟩ := exists_queuedRow (List.mem_of_mem_take hq)
          exact ⟨rowData_length .., fun y hy => (queuedRow_y_some hy).2⟩ }
  · rw [workSteps]
    split
    · exact fun step hstep => absurd hstep List.not_mem_nil
    · have hstart : B.Granular log (s.volt, (0 : ℤ)).1 := h.granular
      exact Granular.steps _ _ (r := { s.recv with dSendSyncPmt := false }) hstart h.inRange
        h.ends

/-- A run so far: the rows of whole frames, behind the packets that have been taken. -/
def Granulates (B : VoltageBlock) (arrived : List Packet) (w : WorkRun) : Prop :=
  ∃ taken, arrived = taken ++ w.source.recv.dLocalqueue ∧
    B.Granular (frameLog B.cfg.bOnePacket taken) w.source.volt

/-- **One call** of a schedule. -/
theorem Granulates.call {arrived : List Packet} {w : WorkRun} (h : B.Granulates arrived w)
    {call : Call} (hcall : call.Valid) (hrange : ∀ p ∈ arrived ++ call.arrived, B.InRange p)
    (hends : FillsEnd 0 (arrived ++ call.arrived)) :
    ∃ w' result, workCall B.cfg w call = .ok w' ∧ w'.results = w.results ++ [result] ∧
      B.Granulates (arrived ++ call.arrived) w' ∧ result.Granular B.cfg call.noutputItems ∧
      ∀ step ∈ callSteps B.cfg w call, Lockstep B.cfg step.1 ∧ Lockstep B.cfg step.2 := by
  obtain ⟨taken, harrived, frames, hshows⟩ := h
  obtain ⟨t, hmessages, ht⟩ := handleMessages_spec hcall.messages w.source.volt
  have hpackets : arrived ++ call.arrived =
      taken ++ (call.receive w.source.recv).dLocalqueue := by
    rw [harrived, List.append_assoc]
    rfl
  rw [hpackets] at hrange hends
  have hwaiting : B.Waiting (frameLog B.cfg.bOnePacket taken) { w.source with
      recv := call.receive w.source.recv
      volt := { w.source.volt with syncTimestamp := t } } :=
    { granular := ⟨frames, hshows.announced fun h0 => hshows.seqNums (ht h0)⟩
      inRange := fun p hp => hrange p (List.mem_append_right _ hp)
      ends := by
        rw [frameLog_last]
        exact (fillsEnd_append.mp hends).2 }
  obtain ⟨more, result, s', hwork, hconsumed, hgranular, hresult, hsteps⟩ :=
    hwaiting.work hcall.dvd true
  refine ⟨⟨s', w.results ++ [result]⟩, result, ?_, rfl, ⟨taken ++ more, ?_, ?_⟩, hresult, ?_⟩
  · rw [workCall, hmessages, ok_bind, hwork, ok_bind]
  · rw [hpackets, List.append_assoc]
    exact congrArg (taken ++ ·) hconsumed
  · rw [frameLog_append]
    exact hgranular
  · rw [callSteps, hmessages]
    exact hsteps

theorem Granulates.lockstep {arrived : List Packet} {w : WorkRun} (h : B.Granulates arrived w) :
    Lockstep B.cfg w.source.volt := by
  obtain ⟨taken, -, hgranular⟩ := h
  exact hgranular.lockstep

/-- Calls as the runtime makes them, with packets in range whose gaps can be filled. -/
structure Lawful (B : VoltageBlock) (calls : List Call) : Prop where
  valid : ∀ call ∈ calls, call.Valid
  inRange : ∀ p ∈ arrivals calls, B.InRange p
  ends : FillsEnd 0 (arrivals calls)

theorem Lawful.of_concat {calls : List Call} {call : Call} (h : B.Lawful (calls ++ [call])) :
    B.Lawful calls := by
  obtain ⟨hvalid, hrange, hends⟩ := h
  rw [arrivals_concat] at hrange hends
  exact ⟨(List.forall_mem_append.mp hvalid).1, (List.forall_mem_append.mp hrange).1,
    (fillsEnd_append.mp hends).1⟩

theorem run_granulates (B : VoltageBlock) (env : Environment) {calls : List Call}
    (h : B.Lawful calls) :
    ∃ w, B.run env calls = .ok w ∧ B.Granulates (arrivals calls) w := by
  obtain ⟨s, hs, -, htracks⟩ := B.start_tracks env
  have hstart : B.Granulates (arrivals []) ⟨s, []⟩ := ⟨[], htracks.consumed, [], htracks.shows⟩
  rw [run, workRun, hs, ok_bind]
  exact Execution.run_closed (fun calls w => B.Granulates (arrivals calls) w) B.Lawful
    (fun _ _ => Lawful.of_concat)
    (fun calls w call hw hlawful => by
      obtain ⟨hvalid, hrange, hends⟩ := hlawful
      rw [arrivals_concat] at hrange hends ⊢
      obtain ⟨w', -, hcall, -, hgranulates, -⟩ :=
        hw.call (hvalid call (List.mem_append_right _ List.mem_cons_self)) hrange hends
      exact ⟨w', hcall, hgranulates⟩)
    hstart h

/-- **Lockstep.** In every run the queues are in lockstep between calls and between packets,
every call returns, and it returns whole frames of no more items than it was asked for. -/
theorem run_lockstep (B : VoltageBlock) (env : Environment) (calls : List Call) (call : Call)
    (h : B.Lawful (calls ++ [call])) :
    ∃ w w' result, B.run env calls = .ok w ∧ B.run env (calls ++ [call]) = .ok w' ∧
      w'.results = w.results ++ [result] ∧
      Lockstep B.cfg w.source.volt ∧
      (∀ step ∈ callSteps B.cfg w call, Lockstep B.cfg step.1 ∧ Lockstep B.cfg step.2) ∧
      Lockstep B.cfg w'.source.volt ∧
      result.Granular B.cfg call.noutputItems := by
  obtain ⟨w, hw, hgranulates⟩ := B.run_granulates env h.of_concat
  obtain ⟨hvalid, hrange, hends⟩ := h
  rw [arrivals_concat] at hrange hends
  obtain ⟨w', result, hcall, hresults, hgranulates', hresult, hsteps⟩ :=
    hgranulates.call (hvalid call (List.mem_append_right _ List.mem_cons_self)) hrange hends
  obtain ⟨s, hs, -⟩ := B.start_tracks env
  rw [run, workRun, hs, ok_bind] at hw
  refine ⟨w, w', result, ?_, ?_, hresults, hgranulates.lockstep, hsteps, hgranulates'.lockstep,
    hresult⟩
  · rw [run, workRun, hs, ok_bind, hw]
  · rw [run, workRun, hs, ok_bind, Execution.run_concat_ok hw hcall]

/-- Two packets of frames that do not follow each other. -/
theorem gapPackets_lawful :
    (ofWidth 2 width_two_pos width_two_le false).Lawful
      ([] ++ [Call.taking [plainPacket 0 16, plainPacket 0 48] 16]) := by
  have harrivals : arrivals ([] ++ [Call.taking [plainPacket 0 16, plainPacket 0 48] 16]) =
      [plainPacket 0 16, plainPacket 0 48] := by
    simp only [arrivals, List.nil_append, List.flatMap_cons, List.flatMap_nil, List.append_nil,
      Call.taking]
  have hin : ∀ ts, (ofWidth 2 width_two_pos width_two_le false).InRange (plainPacket 0 ts) :=
    fun ts => ofWidth_inRange (s := 0) width_two_pos width_two_le false two_pos ts
  have h16 := timestamp_plainPacket 0 (show 16 < 2 ^ 64 by decide)
  have h48 := timestamp_plainPacket 0 (show 48 < 2 ^ 64 by decide)
  refine ⟨fun call hcall => ?_, ?_, ?_⟩
  · obtain rfl := List.mem_singleton.mp hcall
    exact Call.taking_valid _ (by decide) (by decide)
  · rw [harrivals]
    exact List.forall_mem_cons.mpr ⟨hin 16, List.forall_mem_singleton.mpr (hin 48)⟩
  · rw [harrivals]
    simp only [FillsEnd, h16, h48]
    decide

/-- A first call that fills a gap of one frame. -/
theorem run_lockstep_gap :
    let B := ofWidth 2 width_two_pos width_two_le false
    let call := Call.taking [plainPacket 0 16, plainPacket 0 48] 16
    ∃ w w' result, B.run ⟨[], fun _ _ => 0⟩ [] = .ok w ∧
      B.run ⟨[], fun _ _ => 0⟩ ([] ++ [call]) = .ok w' ∧ w'.results = w.results ++ [result] ∧
      Lockstep B.cfg w.source.volt ∧
      (∀ step ∈ callSteps B.cfg w call, Lockstep B.cfg step.1 ∧ Lockstep B.cfg step.2) ∧
      Lockstep B.cfg w'.source.volt ∧
      result.Granular B.cfg call.noutputItems :=
  run_lockstep _ _ _ _ gapPackets_lawful

end VoltageBlock

end GrAta
