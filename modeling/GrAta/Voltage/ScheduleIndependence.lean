import GrAta.Snap.Encoding
import GrAta.Voltage.Runs
import Mathlib.Data.List.Infix

/-!
# Schedule independence

The output stream of a voltage block does not depend on how the arrival and the
processing of packets are split into calls: a schedule only decides how much of
the stream has been delivered so far.

## Main results

- `VoltageBlock.admissible_of_timestamp_lt`: packets below the last timestamps
- `VoltageBlock.run_schedule_independent`: the streams of two schedules
-/

namespace GrAta

namespace VoltageBlock

variable (B : VoltageBlock)

/-- What two runs on the same packets have delivered is comparable. -/
theorem Tracks.delivered_comparable {B : VoltageBlock} {arrived taken taken' : List Packet}
    {delivered queue delivered' queue' : List Queued} {w w' : WorkRun}
    (h : B.Tracks arrived taken delivered queue w)
    (h' : B.Tracks arrived taken' delivered' queue' w') :
    delivered <+: delivered' ∨ delivered' <+: delivered := by
  have hrows : ∀ {ps qs : List Packet}, ps <+: qs →
      (frameLog B.cfg.bOnePacket ps).pushed.flatMap B.queuedItems <+:
        (frameLog B.cfg.bOnePacket qs).pushed.flatMap B.queuedItems := fun hpq =>
    (frameLog_pushed_mono _ hpq).flatMap _
  rcases List.prefix_or_prefix_of_prefix h.taken_arrived h'.taken_arrived with hle | hle
  · exact List.prefix_or_prefix_of_prefix (h.delivered_rows.trans (hrows hle))
      h'.delivered_rows
  · exact List.prefix_or_prefix_of_prefix h.delivered_rows
      (h'.delivered_rows.trans (hrows hle))

/-- A drained run has delivered every frame of the packets that arrived. -/
theorem Tracks.delivered_of_drained {B : VoltageBlock} {arrived taken : List Packet}
    {delivered queue : List Queued} {w : WorkRun} (h : B.Tracks arrived taken delivered queue w)
    (hlocal : w.source.recv.dLocalqueue = []) (hqueue : w.source.volt.xVectorQueue = []) :
    delivered = (frameLog B.cfg.bOnePacket arrived).pushed.flatMap B.queuedItems := by
  have htaken : arrived = taken := by rw [h.consumed, hlocal, List.append_nil]
  have hnil : queue = [] := List.map_eq_nil_iff.mp (h.shows.xQueue.symm.trans hqueue)
  rw [htaken, ← h.frames, hnil, List.append_nil]

/-- **Schedule independence.** Two schedules without handshake that bring the same
packets both return. Their output streams, tags included, are comparable, and
equal when both have taken all packets and drained the queue. -/
theorem run_schedule_independent (env env' : Environment) {calls calls' : List Call}
    (hcalls : ∀ call ∈ calls, call.Valid ∧ call.Quiet)
    (hcalls' : ∀ call ∈ calls', call.Valid ∧ call.Quiet)
    (hsame : arrivals calls = arrivals calls')
    (hpackets : ∀ p ∈ arrivals calls, B.InRange p ∧ timestamp p < 2 ^ 64 - 16) :
    ∃ w w', B.run env calls = .ok w ∧ B.run env' calls' = .ok w' ∧
      (w.items <+: w'.items ∨ w'.items <+: w.items) ∧
      (w.source.recv.dLocalqueue = [] → w.source.volt.xVectorQueue = [] →
        w'.source.recv.dLocalqueue = [] → w'.source.volt.xVectorQueue = [] →
        w.items = w'.items) := by
  have hadm := B.admissible_of_timestamp_lt 0 hpackets
  obtain ⟨w, taken, delivered, queue, hw, ht, hsync, -⟩ :=
    B.run_tracks env calls (fun c hc => (hcalls c hc).1) hadm
  obtain ⟨w', taken', delivered', queue', hw', ht', hsync', -⟩ :=
    B.run_tracks env' calls' (fun c hc => (hcalls' c hc).1) (hsame ▸ hadm)
  rw [← hsame] at ht'
  have hitems := ht.tags (hsync fun c hc => (hcalls c hc).2)
  have hitems' := ht'.tags (hsync' fun c hc => (hcalls' c hc).2)
  refine ⟨w, w', hw, hw', ?_, ?_⟩
  · rw [hitems, hitems']
    exact (ht.delivered_comparable ht').imp (fun h => h.map _) fun h => h.map _
  · intro hl hq hl' hq'
    rw [hitems, hitems', ht.delivered_of_drained hl hq, ht'.delivered_of_drained hl' hq']

/-- Two packets taken by one call, or by two. -/
theorem run_schedule_independent_two_packets :
    let B := ofWidth 1 (by decide) (by decide) false
    let calls := [Call.taking [plainPacket 0 16, plainPacket 0 48] 32]
    let calls' := [Call.taking [plainPacket 0 16] 16, Call.taking [plainPacket 0 48] 16]
    ∃ w w', B.run ⟨[], fun _ _ => 0⟩ calls = .ok w ∧ B.run ⟨[], fun _ _ => 0⟩ calls' = .ok w' ∧
      (w.items <+: w'.items ∨ w'.items <+: w.items) ∧
      (w.source.recv.dLocalqueue = [] → w.source.volt.xVectorQueue = [] →
        w'.source.recv.dLocalqueue = [] → w'.source.volt.xVectorQueue = [] →
        w.items = w'.items) := by
  intro B calls calls'
  refine run_schedule_independent B _ _ ?_ ?_ rfl ?_
  · intro call hcall
    rw [List.mem_singleton.mp hcall]
    exact ⟨Call.taking_valid _ (by decide) (by decide), rfl⟩
  · intro call hcall
    rcases List.mem_cons.mp hcall with rfl | hcall
    · exact ⟨Call.taking_valid _ (by decide) (by decide), rfl⟩
    · rw [List.mem_singleton.mp hcall]
      exact ⟨Call.taking_valid _ (by decide) (by decide), rfl⟩
  · intro p hp
    have hrange : ∀ ts, B.InRange (plainPacket 0 ts) :=
      ofWidth_inRange (s := 0) (by decide) (by decide) false (by decide)
    rcases List.mem_cons.mp hp with rfl | hp
    · exact ⟨hrange _, by rw [timestamp_plainPacket _ (by decide)]; decide⟩
    · rw [List.mem_singleton.mp hp]
      exact ⟨hrange _, by rw [timestamp_plainPacket _ (by decide)]; decide⟩

end VoltageBlock

end GrAta
