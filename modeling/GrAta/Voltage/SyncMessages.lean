import GrAta.Voltage.ChannelRange
import GrAta.Voltage.Runs
import Mathlib.Data.List.Forall2

/-!
# Sequence numbers under sync messages

Sequence numbers are queued beside the vectors, but only while no handshake has been
received, and the messages that announce one may carry any number. A message with the
number zero takes the handshake back. The two queues then have to be in step again.

## Main definitions

- `StampedRun`: a run that keeps the number that is pushed with each vector
- `VoltageBlock.Resets`: a call that finds a handshake taken back
- `VoltageBlock.InStep`: no empty queue is popped, and all tags are those pushed

## Main results

- `VoltageBlock.run_inStep`: runs whose handshakes are only taken back with empty queues
- `VoltageBlock.reset_emptyFront`: a handshake that is taken back too early
-/

namespace GrAta

/-- A message on port `sync` that carries a number. -/
def Pmt.CarriesUint64 (m : Pmt) : Prop := ∃ key t, m = .cons key (.uint64 t)

/-- Handling numbers sets the timestamp to the last of them. -/
theorem handleMessages_uint64 {messages : List Pmt} (h : ∀ m ∈ messages, m.CarriesUint64)
    (v : VoltState) :
    ∃ t, handleMessages v messages = .ok { v with syncTimestamp := t } ∧
      (t = v.syncTimestamp ∧ messages = [] ∨
        ∃ key, messages.getLast? = some (.cons key (.uint64 t))) := by
  rcases List.eq_nil_or_concat messages with rfl | ⟨ms, m, rfl⟩
  · exact ⟨v.syncTimestamp, rfl, Or.inl ⟨rfl, rfl⟩⟩
  · rw [List.concat_eq_append] at h ⊢
    obtain ⟨key, t, rfl⟩ := h m (by simp)
    have hearlier : ∀ m ∈ ms, m.CarriesUint64 := fun m hm => h m (by simp [hm])
    refine ⟨t, ?_, Or.inr ⟨key, by simp⟩⟩
    have hinv : ∃ v', handleMessages v ms = .ok v' ∧
        { v' with syncTimestamp := t } = { v with syncTimestamp := t } := by
      have hstep : ∀ (_ : List Pmt) (v' : VoltState) (m : Pmt),
          { v' with syncTimestamp := t } = { v with syncTimestamp := t } → m.CarriesUint64 →
            ∃ w, handleSyncMsg v' m = .ok w ∧
              { w with syncTimestamp := t } = { v with syncTimestamp := t } := by
        rintro _ v' _ hv' ⟨_, t', rfl⟩
        exact ⟨{ v' with syncTimestamp := t' }, rfl, hv'⟩
      exact Execution.run_history _ Pmt.CarriesUint64 hstep [] rfl ms hearlier
    obtain ⟨v', hv', hsame⟩ := hinv
    refine Execution.run_concat_ok hv' ?_
    rw [← hsame]
    rfl

-- ════════════════════════════════════════════════════════════════════════
-- Stamped runs
-- ════════════════════════════════════════════════════════════════════════

/-- An entry of the output queues, with the number that was pushed together with it,
if any. -/
structure Stamped where
  entry : Queued
  number : Option ℕ

/-- An entry that is pushed under a handshake timestamp. -/
def stamp (syncTimestamp : ℕ) (q : Queued) : Stamped :=
  ⟨q, if syncTimestamp = 0 then some q.seqNum else none⟩

/-- A run with the entries that its calls have pushed. -/
structure StampedRun where
  work : WorkRun
  pushed : List Stamped

namespace VoltageBlock

variable (B : VoltageBlock)

/-- The entries that a call pushes: the rows of the frames that the packets it takes
make up. -/
def pushes (w : WorkRun) (call : Call) (w' : WorkRun) : List Stamped :=
  let queue := (call.receive w.source.recv).dLocalqueue
  let taken := queue.take (queue.length - w'.source.recv.dLocalqueue.length)
  let log := ⟨w.source.volt.dLastTimestamp, w.source.volt.copied, []⟩
  ((FrameLog.framesFrom B.cfg.bOnePacket log taken).flatMap B.queuedItems).map
    (stamp w'.source.volt.syncTimestamp)

/-- One call. -/
def stampedCall (r : StampedRun) (call : Call) : Except Fault StampedRun :=
  (workCall B.cfg r.work call).map fun w => ⟨w, r.pushed ++ B.pushes r.work call w⟩

/-- The run of a schedule, with the entries it pushes. -/
def stampedRun (env : Environment) (calls : List Call) : Except Fault StampedRun := do
  let s ← start B.cfg B.unset env
  Execution.run B.stampedCall ⟨⟨s, []⟩, []⟩ calls

/-- An item has the vector of an entry, and its tag, if it has one, is the number that
was pushed with it. -/
def Carries (e : Stamped) (item : OutItem) : Prop :=
  item.x = e.entry.x ∧ ∀ n, item.tag = some n → e.number = some n

/-- The `k`-th output item carries the `k`-th entry that was pushed. -/
def TagsMatch (r : StampedRun) : Prop :=
  ∀ (k : ℕ) (item : OutItem), r.work.items[k]? = some item →
    ∃ e, r.pushed[k]? = some e ∧ Carries e item

/-- No call pops an empty queue, and all tags are those that were pushed. -/
def InStep (env : Environment) (calls : List Call) : Prop :=
  ∀ before, before <+: calls → B.stampedRun env before ≠ .error .emptyFront ∧
    ∀ r, B.stampedRun env before = .ok r → TagsMatch r

/-- The messages before a call take the handshake back. -/
def Resets (w : WorkRun) (call : Call) : Prop :=
  w.source.volt.syncTimestamp ≠ 0 ∧
    ∃ key, call.messages.getLast? = some (.cons key (.uint64 0))

/-- No vectors and no sequence numbers are queued. -/
def Drained (w : WorkRun) : Prop :=
  w.source.volt.xVectorQueue = [] ∧ w.source.volt.seqNumQueue = []

/-- A run in step: the items are made from the first entries pushed, and the others
wait in the queues, with their numbers while there is no handshake. -/
structure Ledger (r : StampedRun) (handed waiting : List Stamped) (log : FrameLog) : Prop where
  shows : B.Shows log (waiting.map Stamped.entry) r.work.source.volt
  inRange : ∀ p ∈ r.work.source.recv.dLocalqueue, B.InRange p
  pushed : r.pushed = handed ++ waiting
  items : List.Forall₂ Carries handed r.work.items
  stamped : r.work.source.volt.syncTimestamp = 0 →
    ∀ e ∈ waiting, e.number = some e.entry.seqNum

variable {B} {r : StampedRun} {handed waiting : List Stamped} {log : FrameLog}

theorem Ledger.tagsMatch (h : B.Ledger r handed waiting log) : TagsMatch r := by
  intro k item hitem
  have hlen := h.items.length_eq
  have hk : k < handed.length := by
    rw [hlen]
    exact (List.getElem?_eq_some_iff.mp hitem).1
  refine ⟨handed[k], ?_, ?_⟩
  · rw [h.pushed, List.getElem?_append_left hk, List.getElem?_eq_getElem hk]
  · have := h.items.get hk (hlen ▸ hk)
    obtain ⟨_, hget⟩ := List.getElem?_eq_some_iff.mp hitem
    rw [List.get_eq_getElem, List.get_eq_getElem, hget] at this
    exact this

/-- The log can be read off the state. -/
theorem Shows.of_state {queue : List Queued} {v : VoltState} (h : B.Shows log queue v) :
    B.Shows ⟨v.dLastTimestamp, v.copied, []⟩ queue v :=
  ⟨rfl, rfl, h.copied ▸ h.xBuffer, fun hp => h.copied ▸ h.yBuffer hp, h.xQueue, h.yQueue, h.yPort,
    h.seqNums⟩

/-- The messages before a call leave the queues in step. -/
theorem Ledger.messages (h : B.Ledger r handed waiting log) {call : Call}
    (hmsgs : ∀ m ∈ call.messages, m.CarriesUint64)
    (hreset : Resets r.work call → Drained r.work) :
    ∃ v, handleMessages r.work.source.volt call.messages = .ok v ∧
      B.Shows ⟨v.dLastTimestamp, v.copied, []⟩ (waiting.map Stamped.entry) v ∧
      v.dLastTimestamp = r.work.source.volt.dLastTimestamp ∧
      v.copied = r.work.source.volt.copied ∧
      (v.syncTimestamp = 0 → ∀ e ∈ waiting, e.number = some e.entry.seqNum) := by
  obtain ⟨t, hvolt, hlast⟩ := handleMessages_uint64 hmsgs r.work.source.volt
  -- without a handshake the queues are in step, as they were or as they are empty
  have hzero : t = 0 → r.work.source.volt.syncTimestamp = 0 ∨ Drained r.work := by
    intro ht
    rcases hlast with ⟨hsame, -⟩ | ⟨key, hkey⟩
    · exact Or.inl (hsame.symm.trans ht)
    · by_cases hsync : r.work.source.volt.syncTimestamp = 0
      · exact Or.inl hsync
      · exact Or.inr (hreset ⟨hsync, key, ht ▸ hkey⟩)
  have hnone : Drained r.work → waiting = [] := fun hdrained =>
    List.map_eq_nil_iff.mp (List.map_eq_nil_iff.mp (h.shows.xQueue.symm.trans hdrained.1))
  refine ⟨_, hvolt, ?_, rfl, rfl, fun ht => ?_⟩
  · refine Shows.of_state (h.shows.announced fun ht => ?_)
    rcases hzero ht with hsync | hdrained
    · exact h.shows.seqNums hsync
    · rw [hnone hdrained]
      exact hdrained.2
  · rcases hzero ht with hsync | hdrained
    · exact h.stamped hsync
    · rw [hnone hdrained]
      simp

/-- A call that returns hands on the oldest entries and pushes those of the packets it
takes. -/
theorem Ledger.served (h : B.Ledger r handed waiting log) {call : Call} {v : VoltState}
    (hlast : v.dLastTimestamp = r.work.source.volt.dLastTimestamp)
    (hcopied : v.copied = r.work.source.volt.copied)
    (hwaiting : v.syncTimestamp = 0 → ∀ e ∈ waiting, e.number = some e.entry.seqNum)
    (hqueue : ∀ p ∈ (call.receive r.work.source.recv).dLocalqueue, B.InRange p)
    {more : List Packet} {result : WorkResult} {s' : SnapSource}
    (hserves : B.Serves ⟨v.dLastTimestamp, v.copied, []⟩ (waiting.map Stamped.entry)
      call.noutputItems true { r.work.source with
        recv := call.receive r.work.source.recv
        volt := v } more result s') :
    ∃ handed' waiting' log', B.Ledger ⟨⟨s', r.work.results ++ [result]⟩,
      r.pushed ++ B.pushes r.work call ⟨s', r.work.results ++ [result]⟩⟩ handed' waiting' log' := by
  have hconsumed : (call.receive r.work.source.recv).dLocalqueue =
      more ++ s'.recv.dLocalqueue := hserves.consumed
  have hsync : s'.volt.syncTimestamp = v.syncTimestamp := hserves.sync
  -- the entries that the call pushes
  have hpushes : B.pushes r.work call ⟨s', r.work.results ++ [result]⟩ =
      ((FrameLog.framesFrom B.cfg.bOnePacket ⟨v.dLastTimestamp, v.copied, []⟩ more).flatMap
        B.queuedItems).map (stamp v.syncTimestamp) := by
    rw [pushes]
    simp only [hconsumed, List.length_append, Nat.add_sub_cancel, List.take_left, hsync, hlast,
      hcopied]
  generalize hnew : (FrameLog.framesFrom B.cfg.bOnePacket ⟨v.dLastTimestamp, v.copied, []⟩
    more).flatMap B.queuedItems = new at hpushes
  have hentries : (waiting ++ new.map (stamp v.syncTimestamp)).map Stamped.entry =
      waiting.map Stamped.entry ++ new := by
    simp [stamp, Function.comp_def]
  have hitems := hserves.items
  have hshows' := hserves.shows
  rw [hnew, ← hentries] at hitems hshows'
  have hstamped : v.syncTimestamp = 0 → ∀ e ∈ waiting ++ new.map (stamp v.syncTimestamp),
      e.number = some e.entry.seqNum := fun ht =>
    List.forall_mem_append.mpr ⟨hwaiting ht, by simp [stamp, ht]⟩
  generalize hall : waiting ++ new.map (stamp v.syncTimestamp) = all at hitems hshows' hstamped
  refine ⟨handed ++ all.take call.noutputItems, all.drop call.noutputItems,
    more.foldl (FrameLog.step B.cfg.bOnePacket) ⟨v.dLastTimestamp, v.copied, []⟩, ?_⟩
  exact
    { shows := by
        rw [List.map_drop]
        exact hshows'
      inRange := fun p hp => hqueue p (by
        rw [hconsumed]
        exact List.mem_append_right _ hp)
      pushed := by
        rw [h.pushed, hpushes, List.append_assoc, hall, List.append_assoc,
          List.take_append_drop]
      items := by
        rw [WorkRun.items_concat, hitems]
        refine List.rel_append h.items ?_
        rw [← List.map_take, List.map_map, List.forall₂_map_right_iff, List.forall₂_same]
        intro e he
        refine ⟨rfl, fun n hn => ?_⟩
        by_cases ht : v.syncTimestamp = 0
        · rw [hstamped ht e (List.mem_of_mem_take he), ← hn]
          simp [Queued.emitted, ht]
        · simp [Queued.emitted, ht] at hn
      stamped := fun ht e he => hstamped (hsync.symm.trans ht) e (List.mem_of_mem_drop he) }

/-- A call in step. -/
theorem Ledger.call (h : B.Ledger r handed waiting log) {call : Call}
    (hrange : ∀ p ∈ call.arrived, B.InRange p) (hmsgs : ∀ m ∈ call.messages, m.CarriesUint64)
    (hreset : Resets r.work call → Drained r.work) :
    B.stampedCall r call = .error .endlessLoop ∨
      ∃ r' handed' waiting' log', B.stampedCall r call = .ok r' ∧
        B.Ledger r' handed' waiting' log' := by
  obtain ⟨v, hvolt, hshows, hlast, hcopied, hwaiting⟩ := h.messages hmsgs hreset
  have hqueue : ∀ p ∈ (call.receive r.work.source.recv).dLocalqueue, B.InRange p :=
    List.forall_mem_append.mpr ⟨h.inRange, hrange⟩
  rcases B.workVoltMode_outcome (s := { r.work.source with
      recv := call.receive r.work.source.recv
      volt := v }) hshows hqueue call.noutputItems true with
    ⟨hloop, -⟩ | ⟨more, result, s', hwork, hserves⟩
  · left
    rw [stampedCall, workCall, hvolt, ok_bind, hloop, error_bind, Except.map]
  · right
    have hcall : workCall B.cfg r.work call = .ok ⟨s', r.work.results ++ [result]⟩ := by
      rw [workCall, hvolt, ok_bind, hwork, ok_bind]
    obtain ⟨handed', waiting', log', hledger⟩ := h.served hlast hcopied hwaiting hqueue hserves
    exact ⟨_, handed', waiting', log', by rw [stampedCall, hcall, Except.map], hledger⟩

/-- One more call of a stamped run. -/
theorem stampedRun_concat {env : Environment} {calls : List Call}
    (hrun : B.stampedRun env calls = .ok r) (call : Call) :
    B.stampedRun env (calls ++ [call]) = B.stampedCall r call := by
  rw [stampedRun] at hrun ⊢
  cases hstart : start B.cfg B.unset env with
  | error f =>
    rw [hstart] at hrun
    cases hrun
  | ok s =>
    rw [hstart] at hrun
    rw [ok_bind, Execution.run_append_ok hrun, Execution.run_singleton]

theorem stampedRun_error {env : Environment} {calls : List Call} {f : Fault}
    (hrun : B.stampedRun env calls = .error f) (call : Call) :
    B.stampedRun env (calls ++ [call]) = .error f := by
  rw [stampedRun] at hrun ⊢
  cases hstart : start B.cfg B.unset env with
  | error f' =>
    rw [hstart] at hrun
    exact hrun
  | ok s =>
    rw [hstart] at hrun
    rw [ok_bind, Execution.run_append_error hrun]

/-- The stamps only stand beside the run of the source. -/
theorem stampedRun_work (env : Environment) (calls : List Call) :
    (B.stampedRun env calls).map StampedRun.work = B.run env calls := by
  rw [stampedRun, run, workRun]
  cases start B.cfg B.unset env with
  | error f => rfl
  | ok s =>
    refine (Execution.run_map (u := StampedRun.work) (fun r call => ?_) ⟨⟨s, []⟩, []⟩ calls).symm
    rw [stampedCall]
    cases workCall B.cfg r.work call <;> rfl

variable (B) in
/-- A run starts in step. -/
theorem start_ledger (env : Environment) :
    ∃ r, B.stampedRun env [] = .ok r ∧ B.Ledger r [] [] FrameLog.empty := by
  obtain ⟨s, hs, -, htracks⟩ := B.start_tracks env
  have hqueue : s.recv.dLocalqueue = [] := htracks.consumed.symm
  refine ⟨⟨⟨s, []⟩, []⟩, by rw [stampedRun, hs]; rfl, ?_⟩
  exact
    { shows := htracks.shows
      inRange := by simp [hqueue]
      pushed := rfl
      items := .nil
      stamped := by simp }

variable (B) in
/-- **Sequence numbers stay in step.** In a run of arbitrary packets in range and
messages with arbitrary numbers, no call pops an empty queue and every tag is the
number that was pushed with its vector, if the handshake is only taken back while both
queues are empty. -/
theorem run_inStep (env : Environment) {calls : List Call}
    (hrange : ∀ p ∈ arrivals calls, B.InRange p)
    (hmsgs : ∀ call ∈ calls, ∀ m ∈ call.messages, m.CarriesUint64)
    (hresets : ∀ before call, before ++ [call] <+: calls → ∀ w, B.run env before = .ok w →
      Resets w call → Drained w) : B.InStep env calls := by
  have hledger : ∀ before, before <+: calls → B.stampedRun env before = .error .endlessLoop ∨
      ∃ r handed waiting log, B.stampedRun env before = .ok r ∧
        B.Ledger r handed waiting log := by
    intro before
    induction before using List.reverseRecOn with
    | nil =>
      intro _
      obtain ⟨r, hr, h⟩ := B.start_ledger env
      exact Or.inr ⟨r, _, _, _, hr, h⟩
    | append_singleton before call ih =>
      intro hbefore
      have hmem : call ∈ calls := hbefore.subset (by simp)
      rcases ih ((List.prefix_append _ _).trans hbefore) with hloop | ⟨r, _, _, _, hr, h⟩
      · exact Or.inl (stampedRun_error hloop call)
      · have hwork : B.run env before = .ok r.work := by
          rw [← stampedRun_work, hr, Except.map]
        rw [stampedRun_concat hr]
        exact h.call (fun p hp => hrange p (List.mem_flatMap.mpr ⟨call, hmem, hp⟩))
          (hmsgs call hmem) (hresets before call hbefore r.work hwork)
  intro before hbefore
  rcases hledger before hbefore with hloop | ⟨r, _, _, _, hr, h⟩
  · refine ⟨by simp [hloop], fun r hr => ?_⟩
    cases hloop.symm.trans hr
  · refine ⟨by simp [hr], fun r' hr' => ?_⟩
    obtain rfl : r = r' := Except.ok.inj (hr.symm.trans hr')
    exact h.tagsMatch

end VoltageBlock

-- ════════════════════════════════════════════════════════════════════════
-- A handshake that is taken back
-- ════════════════════════════════════════════════════════════════════════

/-- The handshake is kept, and as long as there is one so are the sequence numbers. -/
structure KeepsNumbers (v v' : VoltState) : Prop where
  sync : v'.syncTimestamp = v.syncTimestamp
  seqNums : v.syncTimestamp ≠ 0 → v'.seqNumQueue = v.seqNumQueue

namespace KeepsNumbers

variable {v v' v'' : VoltState} {c : Config}

theorem refl (v : VoltState) : KeepsNumbers v v := ⟨rfl, fun _ => rfl⟩

theorem trans (h : KeepsNumbers v v') (h' : KeepsNumbers v' v'') : KeepsNumbers v v'' :=
  ⟨h'.sync.trans h.sync, fun hsync =>
    (h'.seqNums (h.sync.symm ▸ hsync)).trans (h.seqNums hsync)⟩

theorem pushSeqNums (hsync : v'.syncTimestamp = v.syncTimestamp) {n : ℕ}
    (hnums : v'.seqNumQueue = GrAta.pushSeqNums v n) : KeepsNumbers v v' :=
  ⟨hsync, fun h0 => hnums.trans (if_neg h0)⟩

theorem copy {p : Packet} {hdr : SnapHeader}
    (h : copyVoltDataToVectorBuffer c p hdr v = .ok v') : KeepsNumbers v v' := by
  rw [copyVoltDataToVectorBuffer] at h
  split at h
  · obtain ⟨x, -, h⟩ := bind_eq_ok h
    cases h
    exact ⟨rfl, fun _ => rfl⟩
  · obtain ⟨x, -, h⟩ := bind_eq_ok h
    obtain ⟨y, -, h⟩ := bind_eq_ok h
    cases h
    exact ⟨rfl, fun _ => rfl⟩

theorem queue {hdr : SnapHeader} (h : queueVoltageData c hdr v = .ok v') :
    KeepsNumbers v v' := by
  rw [queueVoltageData] at h
  obtain ⟨xs, -, h⟩ := bind_eq_ok h
  simp only at h
  split at h
  · cases h
    exact pushSeqNums rfl rfl
  · obtain ⟨ys, -, h⟩ := bind_eq_ok h
    cases h
    exact pushSeqNums rfl rfl

theorem missedFrames (missed : List ℕ) (v : VoltState) :
    KeepsNumbers v (missed.foldl (queueMissedFrame c) v) := by
  induction missed generalizing v with
  | nil => exact refl v
  | cons m missed ih =>
    have hone : KeepsNumbers v (queueMissedFrame c v m) := pushSeqNums rfl rfl
    exact hone.trans (ih (queueMissedFrame c v m))

theorem finish {hdr : SnapHeader} {skipped : ℤ} {acc : VoltState × ℤ}
    (h : finishFrame c hdr v skipped = .ok acc) : KeepsNumbers v acc.1 := by
  rw [finishFrame] at h
  split at h
  · cases h
    exact refl v
  · obtain ⟨v', hqueue, h⟩ := bind_eq_ok h
    cases h
    exact queue hqueue

theorem check {hdr : SnapHeader} {skipped : ℤ} {acc : VoltState × ℤ}
    (h : checkMissingFrames c hdr v skipped = .ok acc) : KeepsNumbers v acc.1 := by
  rw [checkMissingFrames] at h
  simp only at h
  split_ifs at h
  · obtain ⟨v', hfill, h⟩ := bind_eq_ok h
    cases h
    rw [fillGap] at hfill
    split at hfill
    · cases hfill
      exact missedFrames _ v
    · cases hfill
  all_goals
    cases h
    exact refl v

theorem startFrame {p : Packet} {hdr : SnapHeader} (h : GrAta.startFrame c p hdr v = .ok v') :
    KeepsNumbers v v' := by
  rw [GrAta.startFrame] at h
  split at h
  · obtain ⟨v₁, hcopy, h⟩ := bind_eq_ok h
    exact (copy hcopy).trans (queue h)
  · have hclear : KeepsNumbers v
        (clearVectorBuffers c { v with multipacketFramePktCtr := 1 }) := ⟨rfl, fun _ => rfl⟩
    exact hclear.trans (copy h)

theorem packet {acc acc' : VoltState × ℤ} {p : Packet}
    (h : processPacket c acc p = .ok acc') : KeepsNumbers acc.1 acc'.1 := by
  rw [processPacket] at h
  simp only at h
  split at h
  · obtain ⟨acc₁, hfinish, h⟩ := bind_eq_ok h
    obtain ⟨acc₂, hcheck, h⟩ := bind_eq_ok h
    obtain ⟨v₃, hstart, h⟩ := bind_eq_ok h
    cases h
    have hkeeps := ((finish hfinish).trans (check hcheck)).trans (startFrame hstart)
    exact ⟨hkeeps.sync, hkeeps.seqNums⟩
  · obtain ⟨v₁, hcopy, h⟩ := bind_eq_ok h
    cases h
    have hkeeps := copy hcopy
    refine ⟨?_, ?_⟩
    · have := hkeeps.sync
      split at this <;> exact this
    · have := hkeeps.seqNums
      split at this <;> exact this

theorem packets {noutputItems : ℕ} : ∀ {n : ℕ} {r : Receiver} {acc : VoltState × ℤ}
    {looped : Receiver × VoltState × ℤ},
    packetLoop c noutputItems n (r, acc) = .ok looped → KeepsNumbers acc.1 looped.2.1 := by
  intro n
  induction n with
  | zero =>
    intro r acc looped h
    cases h
    exact refl _
  | succ n ih =>
    intro r acc looped h
    rw [packetLoop] at h
    split at h
    · obtain ⟨taken, -, h⟩ := bind_eq_ok h
      obtain ⟨acc', hpacket, h⟩ := bind_eq_ok h
      exact (packet hpacket).trans (ih h)
    · cases h
      exact refl _

theorem emit {live : Bool} : ∀ {n : ℕ} {v : VoltState} {emitted : List OutItem × VoltState},
    emitItems c live n v = .ok emitted → KeepsNumbers v emitted.2 := by
  intro n
  induction n with
  | zero =>
    intro v emitted h
    cases h
    exact refl v
  | succ n ih =>
    intro v emitted h
    rw [emitItems] at h
    obtain ⟨one, hone, h⟩ := bind_eq_ok h
    obtain ⟨rest, hrest, h⟩ := bind_eq_ok h
    cases h
    have hrest := ih hrest
    suffices hfirst : KeepsNumbers v one.2 from hfirst.trans hrest
    rw [emitItem] at hone
    obtain ⟨x, -, hone⟩ := bind_eq_ok hone
    obtain ⟨y, -, hone⟩ := bind_eq_ok hone
    obtain ⟨tag, htag, hone⟩ := bind_eq_ok hone
    cases hone
    refine ⟨rfl, fun hsync => ?_⟩
    rw [popTag, if_neg hsync] at htag
    cases htag
    rfl

/-- One call. -/
theorem workVoltMode {noutputItems : ℕ} {live : Bool} {s s' : SnapSource} {result : WorkResult}
    (h : GrAta.workVoltMode c noutputItems live s = .ok (result, s')) :
    KeepsNumbers s.volt s'.volt := by
  rw [GrAta.workVoltMode] at h
  simp only at h
  split at h
  · cases h
    exact refl _
  · obtain ⟨looped, hloop, h⟩ := bind_eq_ok h
    obtain ⟨emitted, hemit, h⟩ := bind_eq_ok h
    cases h
    exact (packets hloop).trans (emit hemit)

end KeepsNumbers

/-- Without a sequence number no item is output before a handshake. -/
theorem emitItem_emptyFront {c : Config} {live : Bool} {v : VoltState}
    (hsync : v.syncTimestamp = 0) (hnums : v.seqNumQueue = []) :
    emitItem c live v = .error .emptyFront := by
  have htag : popTag live v = .error .emptyFront := by
    rw [popTag, if_pos hsync, hnums]
    rfl
  rw [emitItem]
  cases v.xVectorQueue with
  | nil => rfl
  | cons x xs =>
    -- the queue of the second port, which may be empty as well
    have hsecond : popSecond c v = .error .emptyFront ∨ ∃ y, popSecond c v = .ok y := by
      rw [popSecond]
      split
      · exact Or.inr ⟨_, rfl⟩
      · cases v.yVectorQueue with
        | nil => exact Or.inl rfl
        | cons y ys => exact Or.inr ⟨_, rfl⟩
    simp only [popFront, ok_bind]
    rcases hsecond with hnone | ⟨y, hy⟩
    · rw [hnone, error_bind]
    · rw [hy, ok_bind, htag, error_bind]

theorem workVoltMode_emptyFront {c : Config} {noutputItems : ℕ} {live : Bool} {s : SnapSource}
    (hpos : 0 < noutputItems) (hqueue : s.recv.dLocalqueue = [])
    (hvectors : s.volt.xVectorQueue ≠ []) (hsync : s.volt.syncTimestamp = 0)
    (hnums : s.volt.seqNumQueue = []) :
    workVoltMode c noutputItems live s = .error .emptyFront := by
  obtain ⟨n, hn⟩ : ∃ n, min noutputItems s.volt.xVectorQueue.length = n + 1 := by
    have := List.length_pos_of_ne_nil hvectors
    exact ⟨min noutputItems s.volt.xVectorQueue.length - 1, by omega⟩
  rw [workVoltMode]
  simp only
  rw [if_neg fun hidle => hvectors hidle.2.2.2, hqueue, List.length_nil, packetLoop, ok_bind]
  simp only [hn, emitItems]
  rw [emitItem_emptyFront hsync hnums, error_bind, error_bind]

namespace VoltageBlock

/-- A handshake, two packets with a gap of one frame between them, and a call that
leaves the last frame in the queues. -/
def gapCall : Call where
  arrived := [plainPacket 0 16, plainPacket 0 48]
  noutputItems := 32
  messages := [.cons (.symbol "synctimestamp") (.uint64 5)]

/-- The handshake is taken back. -/
def resetCall : Call where
  arrived := []
  noutputItems := 16
  messages := [.cons (.symbol "synctimestamp") (.uint64 0)]

theorem gapCall_newFrameCount :
    newFrameCount true 0 [plainPacket 0 16] = 1 ∧
      newFrameCount true 0 [plainPacket 0 16, plainPacket 0 48] = 3 := by
  have h16 := timestamp_plainPacket 0 (show 16 < 2 ^ 64 by decide)
  have h48 := timestamp_plainPacket 0 (show 48 < 2 ^ 64 by decide)
  have hgap : gapOf 0 16 = [] ∧ gapOf 16 48 = [32] := by decide
  simp [newFrameCount, FrameLog.framesFrom, FrameLog.newFrames, gapPushes, FrameLog.step, h16, h48,
    hgap]

/-- The first call leaves the sixteen rows of the last frame behind, and no number. -/
theorem gapCall_run {s : SnapSource} (h : single.Tracks [] [] [] [] ⟨s, []⟩)
    (hsync : s.volt.syncTimestamp = 0) :
    ∃ w, workCall single.cfg ⟨s, []⟩ gapCall = .ok w ∧ w.source.recv.dLocalqueue = [] ∧
      w.source.volt.xVectorQueue ≠ [] ∧ w.source.volt.seqNumQueue = [] := by
  have hone : single.cfg.bOnePacket = true := rfl
  set v : VoltState := { s.volt with syncTimestamp := 5 } with hv
  have hfive : v.syncTimestamp ≠ 0 := Nat.succ_ne_zero 4
  have hmsgs : handleMessages s.volt gapCall.messages = .ok v := rfl
  have hshows : single.Shows FrameLog.empty [] v :=
    h.shows.announced fun h5 => absurd h5 hfive
  have hqueue : (gapCall.receive s.recv).dLocalqueue =
      [plainPacket 0 16] ++ [plainPacket 0 48] := by
    have hidle : s.recv.dLocalqueue = [] := h.consumed.symm
    rw [Call.receive, hidle]
    rfl
  have hrange : ∀ p ∈ (gapCall.receive s.recv).dLocalqueue, single.InRange p := by
    rw [hqueue]
    have hin (ts : ℕ) : single.InRange (plainPacket 0 ts) :=
      ofWidth_inRange le_rfl (by decide) false one_pos ts
    exact List.forall_mem_cons.mpr ⟨hin 16, List.forall_mem_singleton.mpr (hin 48)⟩
  have h16 := timestamp_plainPacket 0 (show 16 < 2 ^ 64 by decide)
  have h48 := timestamp_plainPacket 0 (show 48 < 2 ^ 64 by decide)
  have hends : FillsEnd 0 ([plainPacket 0 16] ++ [plainPacket 0 48]) := by
    simp only [List.singleton_append, FillsEnd, h16, h48]
    decide
  rcases single.workVoltMode_outcome (s := ⟨gapCall.receive s.recv, v, s.spect⟩) hshows hrange 32
    true with ⟨-, hloop⟩ | ⟨more, result, s', hwork, hserves⟩
  · exact absurd (hqueue ▸ hends) hloop
  · have hall := (hserves.all_iff hqueue).mpr (by
      rw [hone, List.length_nil, FrameLog.empty, gapCall_newFrameCount.1]
      decide)
    have hmore : more = [plainPacket 0 16, plainPacket 0 48] := by
      have := hserves.consumed
      rw [hall, List.append_nil] at this
      exact this.symm.trans hqueue
    refine ⟨⟨s', [] ++ [result]⟩, ?_, hall, ?_, ?_⟩
    · rw [workCall, hmsgs, ok_bind, show gapCall.noutputItems = 32 from rfl, hwork, ok_bind]
    · intro hnone
      have hlength := congrArg List.length hserves.shows.xQueue
      rw [hnone, List.length_map, List.length_drop, List.length_append, rows_length, hmore, hone,
        FrameLog.empty, gapCall_newFrameCount.2] at hlength
      cases hlength
    · exact ((KeepsNumbers.workVoltMode hwork).seqNums hfive).trans (h.shows.seqNums hsync)

/-- Vectors that were queued under a handshake have no sequence number, and popping one
for them fails once the handshake is taken back. -/
theorem reset_emptyFront :
    ¬single.InStep ⟨[], fun _ _ => 0⟩ [gapCall, resetCall] := by
  obtain ⟨s, hs, hsync, htracks⟩ := single.start_tracks ⟨[], fun _ _ => 0⟩
  obtain ⟨w, hcall, hidle, hvectors, hnums⟩ := gapCall_run htracks hsync
  have hreset : workCall single.cfg w resetCall = .error .emptyFront := by
    have hmsgs : handleMessages w.source.volt resetCall.messages =
        .ok { w.source.volt with syncTimestamp := 0 } := rfl
    have hqueue : (resetCall.receive w.source.recv).dLocalqueue = [] := by
      rw [Call.receive, hidle]
      rfl
    have hwork : workVoltMode single.cfg 16 true ⟨resetCall.receive w.source.recv,
        { w.source.volt with syncTimestamp := 0 }, w.source.spect⟩ = .error .emptyFront :=
      workVoltMode_emptyFront (by decide) hqueue hvectors rfl hnums
    rw [workCall, hmsgs, ok_bind]
    change (workVoltMode single.cfg 16 true ⟨resetCall.receive w.source.recv,
      { w.source.volt with syncTimestamp := 0 }, w.source.spect⟩ >>= _) = _
    rw [hwork, error_bind]
  have hrun : single.run ⟨[], fun _ _ => 0⟩ [gapCall, resetCall] = .error .emptyFront := by
    rw [run, workRun, hs, ok_bind, Execution.run_cons_ok hcall, Execution.run_singleton, hreset]
  intro hinStep
  refine (hinStep _ List.prefix_rfl).1 ?_
  rw [← stampedRun_work] at hrun
  cases hstamped : single.stampedRun ⟨[], fun _ _ => 0⟩ [gapCall, resetCall] with
  | ok r =>
    rw [hstamped] at hrun
    cases hrun
  | error f =>
    rw [hstamped] at hrun
    cases hrun
    rfl

/-- A handshake before the first packet. -/
def earlyCall : Call where
  arrived := []
  noutputItems := 16
  messages := [.cons (.symbol "synctimestamp") (.uint64 5)]

/-- A handshake that comes early and is taken back before there are packets. -/
theorem run_inStep_early :
    single.InStep ⟨[], fun _ _ => 0⟩
      [earlyCall, { resetCall with arrived := [plainPacket 0 16] }] := by
  have hin : single.InRange (plainPacket 0 16) :=
    ofWidth_inRange le_rfl (by decide) false one_pos 16
  obtain ⟨s, hs, hsync, htracks⟩ := single.start_tracks ⟨[], fun _ _ => 0⟩
  have hempty : s.volt.xVectorQueue = [] ∧ s.volt.seqNumQueue = [] :=
    ⟨htracks.shows.xQueue, htracks.shows.seqNums hsync⟩
  refine single.run_inStep _ (List.forall_mem_singleton.mpr hin) ?_ ?_
  · refine List.forall_mem_cons.mpr ⟨?_, List.forall_mem_singleton.mpr ?_⟩
    all_goals exact List.forall_mem_singleton.mpr ⟨_, _, rfl⟩
  · intro before call hbefore w hw hresets
    rcases before with _ | ⟨c₁, _ | ⟨c₂, before⟩⟩
    · rw [run, workRun, hs, ok_bind] at hw
      cases hw
      exact absurd hsync hresets.1
    · obtain ⟨rfl, -⟩ := List.cons_prefix_cons.mp hbefore
      have hidle : s.recv.dLocalqueue = [] := htracks.consumed.symm
      have hcall : workCall single.cfg ⟨s, []⟩ earlyCall =
          .ok ⟨⟨earlyCall.receive s.recv, { s.volt with syncTimestamp := 5 }, s.spect⟩,
            [⟨[], 0, none⟩]⟩ := by
        have hmsgs : handleMessages s.volt earlyCall.messages =
            .ok { s.volt with syncTimestamp := 5 } := rfl
        rw [workCall, hmsgs, ok_bind, workVoltMode]
        simp only [Call.receive, hidle, hempty.1]
        rfl
      rw [run, workRun, hs, ok_bind, Execution.run_singleton, hcall] at hw
      cases hw
      exact hempty
    · have := hbefore.length_le
      simp at this

end VoltageBlock

end GrAta
