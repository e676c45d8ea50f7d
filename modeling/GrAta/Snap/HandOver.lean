import GrAta.Library.Execution
import GrAta.Library.Ring
import GrAta.Snap.Ingress
import GrAta.Snap.VoltMode

/-!
# The hand-over from the receive thread to the worker

The receive thread and the worker share the receive queue. Each locks it for a single
operation: the thread for a `push_back`, the worker for `packets_available` and for each
`fill_local_buffer`. The worker takes as many packets as it has counted, while the thread
may push more, and drop the oldest of a full queue, between any two of its steps.

## Main definitions

- `HandOver`: the shared queue, the count of the worker, and the packets so far
- `handOverRun`: any interleaving of the operations of both

## Main results

- `queuePacket_handOver`, `packetLoop_handOver`: both sides do nothing else to the queue
- `handOver_safe`: the worker never finds the queue empty
-/

namespace GrAta

/-- The receiving side with `num_packets_available`, and the packets that were pushed
and taken. -/
structure HandOver where
  recv : Receiver
  numPacketsAvailable : ℕ
  /-- Ghost: the packets that the thread has pushed. -/
  pushed : List Packet
  /-- Ghost: the packets that the worker has taken. -/
  taken : List Packet

/-- An operation under the lock. -/
inductive HandOverEvent where
  | pushBack (p : Packet)
  | packetsAvailable
  | fillLocalBuffer
  deriving DecidableEq, Repr

/-- One operation, on a queue of the given capacity. The worker's loop is left when it
has taken as many packets as it counted. -/
def handOverStep (capacity : ℕ) (s : HandOver) : HandOverEvent → Except Fault HandOver
  | .pushBack p => .ok { s with
      recv := { s.recv with dLocalqueue := Ring.push capacity s.recv.dLocalqueue p }
      pushed := s.pushed ++ [p] }
  | .packetsAvailable => .ok { s with numPacketsAvailable := s.recv.dLocalqueue.length }
  | .fillLocalBuffer =>
    if s.numPacketsAvailable > 0 then do
      let (p, r) ← fillLocalBuffer s.recv
      .ok { s with
        recv := r
        numPacketsAvailable := s.numPacketsAvailable - 1
        taken := s.taken ++ [p] }
    else .ok s

/-- The start, with an empty queue. -/
def initialHandOver (env : Environment) : HandOver := ⟨initialReceiver env, 0, [], []⟩

def handOverRun (capacity : ℕ) (env : Environment) (events : List HandOverEvent) :
    Except Fault HandOver :=
  Execution.run (handOverStep capacity) (initialHandOver env) events

/-- The queue of the receive thread is a ring. -/
theorem pushBack_eq (queue : List Packet) (p : Packet) :
    pushBack queue p = Ring.push MAX_NET_CIRC_BUFFER queue p := by
  rw [pushBack, Ring.push]
  split
  · rfl
  · rename_i hfull
    rw [List.tail_append_of_ne_nil]
    rintro rfl
    exact hfull (by decide)

/-- What the receive thread does with a packet is a push. -/
theorem queuePacket_handOver (s : Ingress) (p : Packet) (n : ℕ) (taken : List Packet) :
    handOverStep MAX_NET_CIRC_BUFFER ⟨s.recv, n, s.placed, taken⟩ (.pushBack p) =
      .ok ⟨(queuePacket p s).recv, n, (queuePacket p s).placed, taken⟩ := by
  rw [handOverStep, queuePacket, pushBack_eq]

/-- The packet loop of the voltage mode takes its packets one by one. -/
theorem packetLoop_handOver {c : Config} {capacity noutputItems : ℕ} : ∀ {n : ℕ} {r : Receiver}
    {acc : VoltState × ℤ} {looped : Receiver × VoltState × ℤ},
    packetLoop c noutputItems n (r, acc) = .ok looped → ∀ pushed taken, ∃ ps : List Packet,
      Execution.run (handOverStep capacity) ⟨r, n, pushed, taken⟩
        (List.replicate ps.length .fillLocalBuffer) =
      .ok ⟨looped.1, n - ps.length, pushed, taken ++ ps⟩ := by
  intro n
  induction n with
  | zero =>
    intro r acc looped h pushed taken
    cases h
    exact ⟨[], by rw [List.append_nil]; rfl⟩
  | succ n ih =>
    intro r acc looped h pushed taken
    rw [packetLoop] at h
    split at h
    · obtain ⟨⟨p, rest⟩, hfill, h⟩ := bind_eq_ok h
      obtain ⟨acc', -, h⟩ := bind_eq_ok h
      obtain ⟨ps, hps⟩ := ih h pushed (taken ++ [p])
      have hstep : handOverStep capacity ⟨r, n + 1, pushed, taken⟩ .fillLocalBuffer =
          .ok ⟨rest, n, pushed, taken ++ [p]⟩ := by
        rw [handOverStep, if_pos (Nat.succ_pos n)]
        simp only [hfill, ok_bind, Nat.add_sub_cancel]
      refine ⟨p :: ps, ?_⟩
      rw [List.length_cons, List.replicate_succ, Execution.run_cons_ok hstep, hps,
        Nat.add_sub_add_right, List.append_assoc, List.singleton_append]
    · cases h
      exact ⟨[], by rw [List.append_nil]; rfl⟩

variable {capacity : ℕ} {env : Environment} {events : List HandOverEvent} {s s' : HandOver}

/-- The queue was never full when a packet was pushed. -/
def NeverFull (capacity : ℕ) (env : Environment) (events : List HandOverEvent) : Prop :=
  ∀ before p, before ++ [.pushBack p] <+: events → ∀ s, handOverRun capacity env before = .ok s →
    s.recv.dLocalqueue.length < capacity

/-- What the operations keep. -/
def HandOver.Fits (s : HandOver) : Prop :=
  Ring.HandOver s.pushed s.taken s.recv.dLocalqueue s.numPacketsAvailable

/-- **Every operation** returns. -/
theorem handOverStep_fits (h : s.Fits) (e : HandOverEvent) :
    ∃ s', handOverStep capacity s e = .ok s' ∧ s'.Fits := by
  cases e with
  | pushBack p => exact ⟨_, rfl, h.push capacity p⟩
  | packetsAvailable => exact ⟨_, rfl, h.recount⟩
  | fillLocalBuffer =>
    rw [handOverStep]
    cases hcount : s.numPacketsAvailable with
    | zero => exact ⟨s, rfl, h⟩
    | succ n =>
      rw [HandOver.Fits, hcount] at h
      obtain ⟨p, rest, hqueue, hrest⟩ := h.take
      rw [if_pos (Nat.succ_pos n), fillLocalBuffer, hqueue]
      exact ⟨_, rfl, hrest⟩

/-- A step loses no packet, unless it pushes one into a full queue. -/
theorem handOverStep_lossless (hall : s.taken ++ s.recv.dLocalqueue = s.pushed)
    {e : HandOverEvent} (hroom : ∀ p, e = .pushBack p → s.recv.dLocalqueue.length < capacity)
    (hstep : handOverStep capacity s e = .ok s') :
    s'.taken ++ s'.recv.dLocalqueue = s'.pushed := by
  cases e with
  | pushBack p =>
    cases hstep
    simp only
    rw [Ring.push_of_lt (hroom p rfl), ← List.append_assoc, hall]
  | packetsAvailable =>
    cases hstep
    exact hall
  | fillLocalBuffer =>
    rw [handOverStep] at hstep
    split at hstep
    · obtain ⟨⟨p, r⟩, hfill, hstep⟩ := bind_eq_ok hstep
      cases hstep
      rw [fillLocalBuffer] at hfill
      cases hqueue : s.recv.dLocalqueue with
      | nil =>
        rw [hqueue] at hfill
        cases hfill
      | cons q rest =>
        rw [hqueue] at hfill hall
        cases hfill
        simp only
        rw [List.append_assoc]
        exact hall
    · cases hstep
      exact hall

/-- **The hand-over is safe.** Under any interleaving and for any capacity, the worker
never takes from an empty queue, and the packets it takes are some of those pushed, each
once and in their order. If the queue was never full they are the first ones. -/
theorem handOver_safe (capacity : ℕ) (env : Environment) (events : List HandOverEvent) :
    ∃ s, handOverRun capacity env events = .ok s ∧ s.taken.Sublist s.pushed ∧
      (NeverFull capacity env events → s.taken <+: s.pushed) := by
  have hsafe (is : List HandOverEvent) : ∃ s, handOverRun capacity env is = .ok s ∧ s.Fits := by
    have hstart : (initialHandOver env).Fits := Ring.HandOver.empty
    exact Execution.run_history (fun _ => HandOver.Fits) (fun _ => True)
      (fun _ _ e h _ => handOverStep_fits h e) [] hstart is (fun _ _ => trivial)
  obtain ⟨s, hs, hfits⟩ := hsafe events
  refine ⟨s, hs, hfits.taken_sublist, fun hroom => ?_⟩
  suffices hall : s.taken ++ s.recv.dLocalqueue = s.pushed from ⟨_, hall⟩
  clear hfits
  induction events using List.reverseRecOn generalizing s with
  | nil =>
    cases hs
    rfl
  | append_singleton events e ih =>
    obtain ⟨m, hm, hlast⟩ := Execution.run_append_split hs
    rw [Execution.run_singleton] at hlast
    refine handOverStep_lossless (ih m hm fun before p hbefore => ?_) (fun p he => ?_) hlast
    · exact hroom before p (hbefore.trans (List.prefix_append _ _))
    · exact hroom events p (he ▸ List.prefix_rfl) m hm

end GrAta
