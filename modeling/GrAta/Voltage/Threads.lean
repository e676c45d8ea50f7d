import GrAta.Library.Atomicity
import GrAta.Snap.Refill
import GrAta.Voltage.Replay

/-!
# Two threads

The receive thread queues a batch of datagrams under the lock of the receive queue. A call
of the work function takes that lock for the count of the packets and for each packet that it
takes, so batches come in between. The calls of the scheduler, messages among them, follow
each other. As long as a batch that comes during a call finds room in the ring, this has the
outcome of a run of whole calls and batches, each in their order.

The threads of a block that reads a capture are in `Refill`.

## Main definitions

- `WorkPlace`: how far a call has come
- `threads`: the steps of both threads
- `threadsRun`: any interleaving

## Main results

- `ends_call`: an undisturbed call does what the work function does
- `threads_commute`: a batch does not disturb the steps of a call
- `threads_serialize`: every interleaving
-/

namespace GrAta

open Execution

/-- The calls of the scheduler. -/
inductive SchedulerCall where
  | work (noutputItems ports : ℕ)
  | workTest (noutputItems ports : ℕ)
  | handleSyncMsg (msg : Pmt)
  deriving DecidableEq, Repr

def SchedulerCall.event : SchedulerCall → BlockEvent
  | .work noutputItems ports => .work noutputItems ports
  | .workTest noutputItems ports => .workTest noutputItems ports
  | .handleSyncMsg msg => .handleSyncMsg msg

/-- The place in a call: after the packets have been counted, and at the head of the packet
loop. -/
inductive WorkPlace where
  | counted (noutputItems : ℕ) (liveWork : Bool) (numPacketsAvailable : ℕ)
  | looping (noutputItems : ℕ) (liveWork : Bool) (numPacketsAvailable : ℕ)
      (skippedPackets : ℤ) (syncHeader : Option SnapHeader)

def WorkPlace.numPacketsAvailable : WorkPlace → ℕ
  | .counted _ _ n => n
  | .looping _ _ n _ _ => n

variable (c : Config)

/-- A call enters `work_volt_mode`, with the count that ends its wait. One that gives up
waiting returns nothing. -/
def enterWork (noutputItems : ℕ) (liveWork : Bool) (b : Block) : Block × Option WorkPlace :=
  let numPacketsAvailable := b.ingress.recv.dLocalqueue.length
  if b.ingress.recv.stopThread = false ∧ b.ingress.recv.pcapFileDone = false ∧
      numPacketsAvailable = 0 ∧ b.volt.xVectorQueue = [] then
    (b.after (.returned [] 0 none, b.source), none)
  else (b, some (.counted noutputItems liveWork numPacketsAvailable))

/-- The beginning of a call. -/
def enterCall (b : Block) : SchedulerCall → Except Fault (Block × Option WorkPlace)
  | .work noutputItems _ =>
    if c.dUsePcap ∧ b.ingress.recv.pcapFileDone ∧ b.ingress.recv.dLocalqueue.length = 0 then
      .ok (b.after (.workDone, b.source), none)
    else .ok (enterWork noutputItems true b)
  | .workTest noutputItems _ => .ok (enterWork noutputItems false b)
  | .handleSyncMsg msg => (handleSyncMsg b.volt msg).map fun v => ({ b with volt := v }, none)

/-- The end of a call moves vectors to the output. -/
def finishWork (noutputItems : ℕ) (liveWork : Bool) (skippedPackets : ℤ)
    (syncHeader : Option SnapHeader) (b : Block) : Except Fault Block := do
  let (items, volt) ← emitItems c liveWork (min noutputItems b.volt.xVectorQueue.length) b.volt
  .ok (b.after (.returned (items.map .volt) skippedPackets syncHeader,
    ⟨b.ingress.recv, volt, b.spect⟩))

/-- A step of a call. It looks whether the block has just synchronized, takes a packet, or
comes to its end. -/
def workTurn : WorkPlace → Block → Except Fault (Block × Option WorkPlace)
  | .counted noutputItems liveWork numPacketsAvailable, b =>
    let syncHeader := if b.ingress.recv.dSendSyncPmt ∧ liveWork ∧ c.dSendStartMsg then
      some b.ingress.recv.asyncVoltSyncHdr else none
    .ok ({ b with
        ingress := { b.ingress with recv := { b.ingress.recv with dSendSyncPmt := false } } },
      some (.looping noutputItems liveWork numPacketsAvailable 0 syncHeader))
  | .looping noutputItems liveWork numPacketsAvailable skippedPackets syncHeader, b =>
    if numPacketsAvailable > 0 ∧ b.volt.xVectorQueue.length < noutputItems then do
      let (p, r) ← fillLocalBuffer b.ingress.recv
      let (v, skippedPackets) ← processPacket c (b.volt, skippedPackets) p
      .ok ({ b with ingress := { b.ingress with recv := r }, volt := v },
        some (.looping noutputItems liveWork (numPacketsAvailable - 1) skippedPackets syncHeader))
    else
      (finishWork c noutputItems liveWork skippedPackets syncHeader b).map fun b => (b, none)

/-- The scheduler and the receive thread. -/
def threads : Server Block SchedulerCall WorkPlace (List Packet) Fault where
  enter := enterCall c
  turn := workTurn c
  input b datagrams := { b with ingress := mmsgReceive formatTest c datagrams b.ingress }

theorem threads_turn : (threads c).turn = workTurn c := rfl

/-- What a thread does. -/
abbrev ThreadEvent := Server.Event SchedulerCall (List Packet)

/-- A block after its start. -/
def Block.started (s : SnapSource) : Block := ⟨⟨s.recv, [], []⟩, s.volt, s.spect, []⟩

/-- Start a block and let the threads run. -/
def threadsRun (u : Unset) (env : Environment) (events : List ThreadEvent) :
    Except Fault (Server.Point Block SchedulerCall WorkPlace) := do
  let s ← start c u env
  Execution.run (threads c).step ⟨.started s, none, []⟩ events

variable {c}

-- ════════════════════════════════════════════════════════════════════════
-- Undisturbed calls
-- ════════════════════════════════════════════════════════════════════════

/-- A turn that takes a packet. -/
theorem workTurn_take {noutputItems n : ℕ} {b : Block} (hn : 0 < n)
    (hmore : b.volt.xVectorQueue.length < noutputItems) (liveWork : Bool) (skippedPackets : ℤ)
    (syncHeader : Option SnapHeader) :
    workTurn c (.looping noutputItems liveWork n skippedPackets syncHeader) b = (do
      let (p, r) ← fillLocalBuffer b.ingress.recv
      let (v, skippedPackets) ← processPacket c (b.volt, skippedPackets) p
      .ok ({ b with ingress := { b.ingress with recv := r }, volt := v },
        some (.looping noutputItems liveWork (n - 1) skippedPackets syncHeader))) :=
  if_pos ⟨hn, hmore⟩

/-- The last turn of a call. -/
theorem workTurn_finish {noutputItems n : ℕ} {b : Block}
    (hlast : ¬(0 < n ∧ b.volt.xVectorQueue.length < noutputItems)) (liveWork : Bool)
    (skippedPackets : ℤ) (syncHeader : Option SnapHeader) :
    workTurn c (.looping noutputItems liveWork n skippedPackets syncHeader) b =
      (finishWork c noutputItems liveWork skippedPackets syncHeader b).map fun b => (b, none) := by
  rw [workTurn, if_neg hlast]

/-- The rest of a call is the packet loop and the output. -/
theorem ends_looping (noutputItems : ℕ) (liveWork : Bool) (syncHeader : Option SnapHeader)
    (n : ℕ) (skippedPackets : ℤ) (b : Block) :
    (threads c).Ends
      (.ok (b, some (.looping noutputItems liveWork n skippedPackets syncHeader)))
      (packetLoop c noutputItems n (b.ingress.recv, b.volt, skippedPackets) >>= fun r =>
        finishWork c noutputItems liveWork r.2.2 syncHeader
          { b with ingress := { b.ingress with recv := r.1 }, volt := r.2.1 }) := by
  have hfinish (b : Block) (skippedPackets : ℤ) :
      (threads c).Ends
        ((finishWork c noutputItems liveWork skippedPackets syncHeader b).map fun b => (b, none))
        (finishWork c noutputItems liveWork skippedPackets syncHeader b) := by
    cases finishWork c noutputItems liveWork skippedPackets syncHeader b with
    | error e => exact .fault e
    | ok b' => exact .done b'
  induction n generalizing b skippedPackets with
  | zero =>
    refine .turn ?_
    rw [threads_turn, workTurn_finish fun h => Nat.lt_irrefl 0 h.1]
    exact hfinish b skippedPackets
  | succ n ih =>
    refine .turn ?_
    rw [packetLoop, threads_turn]
    by_cases hmore : b.volt.xVectorQueue.length < noutputItems
    · rw [workTurn_take n.succ_pos hmore, if_pos hmore]
      cases fillLocalBuffer b.ingress.recv with
      | error e => exact .fault e
      | ok taken =>
        simp only [ok_bind]
        cases processPacket c (b.volt, skippedPackets) taken.1 with
        | error e => exact .fault e
        | ok acc => exact ih acc.2 _
    · rw [workTurn_finish fun h => hmore h.2, if_neg hmore]
      exact hfinish b skippedPackets

/-- A call of the work function. -/
theorem ends_enterWork (noutputItems ports : ℕ) (liveWork : Bool) (b : Block) :
    (threads c).Ends (.ok (enterWork noutputItems liveWork b))
      ((workMode formatTest c noutputItems ports liveWork b.source).map b.after) := by
  rw [workMode, if_pos (show formatTest = true from rfl), workVoltMode]
  by_cases hwait : b.source.recv.stopThread = false ∧ b.source.recv.pcapFileDone = false ∧
      b.source.recv.dLocalqueue.length = 0 ∧ b.source.volt.xVectorQueue = []
  · have henter : enterWork noutputItems liveWork b =
        (b.after (.returned [] 0 none, b.source), none) := if_pos hwait
    rw [if_pos hwait, henter]
    exact .done _
  · have henter : enterWork noutputItems liveWork b =
        (b, some (.counted noutputItems liveWork b.ingress.recv.dLocalqueue.length)) :=
      if_neg hwait
    rw [if_neg hwait, henter]
    have hloop := ends_looping (c := c) noutputItems liveWork
      (if b.ingress.recv.dSendSyncPmt ∧ liveWork ∧ c.dSendStartMsg then
        some b.ingress.recv.asyncVoltSyncHdr else none)
      b.ingress.recv.dLocalqueue.length 0
      { b with ingress := { b.ingress with recv := { b.ingress.recv with dSendSyncPmt := false } } }
    refine .turn (Eq.mp (congrArg ((threads c).Ends _) ?_) hloop)
    simp only [Block.source]
    cases packetLoop c noutputItems b.ingress.recv.dLocalqueue.length
        ({ b.ingress.recv with dSendSyncPmt := false }, b.volt, 0) with
    | error e => rfl
    | ok looped =>
      simp only [ok_bind, finishWork]
      cases emitItems c liveWork (min noutputItems looped.2.1.xVectorQueue.length) looped.2.1 with
      | error e => rfl
      | ok emitted => rfl

/-- **An undisturbed call** does what it does as a whole. -/
theorem ends_call (capture : List Record) (b : Block) (call : SchedulerCall) :
    (threads c).Ends ((threads c).enter b call)
      (blockStep formatTest c capture b call.event) := by
  cases call with
  | work noutputItems ports =>
    by_cases hdone : c.dUsePcap ∧ b.source.recv.pcapFileDone ∧
        b.source.recv.dLocalqueue.length = 0
    · have henter : (threads c).enter b (.work noutputItems ports) =
          .ok (b.after (.workDone, b.source), none) := if_pos hdone
      have hstep : blockStep formatTest c capture b (.work noutputItems ports) =
          .ok (b.after (.workDone, b.source)) := by
        rw [blockStep, GrAta.work, if_pos hdone]
        rfl
      rw [henter, SchedulerCall.event, hstep]
      exact .done _
    · have henter : (threads c).enter b (.work noutputItems ports) =
          .ok (enterWork noutputItems true b) := if_neg hdone
      rw [henter, SchedulerCall.event, blockStep, GrAta.work, if_neg hdone]
      exact ends_enterWork noutputItems ports true b
  | workTest noutputItems ports => exact ends_enterWork noutputItems ports false b
  | handleSyncMsg msg =>
    have henter : (threads c).enter b (.handleSyncMsg msg) =
        (handleSyncMsg b.volt msg).map fun v => ({ b with volt := v }, none) := rfl
    rw [henter, SchedulerCall.event, blockStep]
    cases handleSyncMsg b.volt msg with
    | error e => exact .fault e
    | ok v => exact .done _

-- ════════════════════════════════════════════════════════════════════════
-- Batches
-- ════════════════════════════════════════════════════════════════════════

/-- Pushes into a ring with room. -/
theorem foldl_pushBack (queue ps : List Packet)
    (hroom : queue.length + ps.length ≤ MAX_NET_CIRC_BUFFER) :
    ps.foldl pushBack queue = queue ++ ps := by
  induction ps generalizing queue with
  | nil => exact (List.append_nil queue).symm
  | cons p ps ih =>
    rw [List.length_cons] at hroom
    have hpush : pushBack queue p = queue ++ [p] := if_pos (by omega)
    rw [List.foldl_cons, hpush, ih _ (by rw [List.length_append, List.length_singleton]; omega),
      List.append_assoc, List.singleton_append]

/-- A batch after the starting channel has been found. -/
theorem mmsgReceive_found {isVoltage : Bool} (datagrams : List Packet) {s : Ingress}
    (hfound : s.recv.dFoundStartChannel = true) :
    mmsgReceive isVoltage c datagrams s =
      { recv := { s.recv with
          bufs := recvmmsg c (datagrams.take MMSG_LENGTH) s.recv.bufs
          dLocalqueue := (examined c s.recv.bufs datagrams).foldl pushBack s.recv.dLocalqueue }
        delivered := s.delivered ++ examined c s.recv.bufs datagrams
        placed := s.placed ++ examined c s.recv.bufs datagrams } := by
  have hfold (ps : List Pointer) {s : Ingress} (hfound : s.recv.dFoundStartChannel = true) :
      ps.foldl (mmsgPacket isVoltage c) s =
        { recv := { s.recv with
            dLocalqueue := (ps.map (dataVector · c.totalPacketSize)).foldl pushBack
              s.recv.dLocalqueue }
          delivered := s.delivered ++ ps.map (dataVector · c.totalPacketSize)
          placed := s.placed ++ ps.map (dataVector · c.totalPacketSize) } := by
    induction ps generalizing s with
    | nil => simp
    | cons p ps ih =>
      have hsync : synchronize isVoltage c p s.recv = some s.recv := if_pos hfound
      have hpacket : mmsgPacket isVoltage c s p =
          queuePacket (dataVector p c.totalPacketSize)
            (deliver (dataVector p c.totalPacketSize) s) := by
        rw [mmsgPacket]
        simp only [deliver, hsync]
      rw [List.foldl_cons, hpacket, ih (by exact hfound)]
      simp [queuePacket, deliver]
  rw [mmsgReceive, hfold _ (by exact hfound), List.map_map]
  rfl

/-- The ring has room for a batch. -/
def RoomFor (datagrams : List Packet) (b : Block) : Prop :=
  b.ingress.recv.dLocalqueue.length + (datagrams.take MMSG_LENGTH).length ≤ MAX_NET_CIRC_BUFFER

/-- What holds between the steps of both threads, until the block is stopped. What has been
counted is still there. -/
structure Attended (place : Option WorkPlace) (b : Block) : Prop where
  running : b.ingress.recv.stopThread = false
  reading : b.ingress.recv.pcapFileDone = false
  found : place ≠ none ∨ b.ingress.recv.dLocalqueue ≠ [] ∨ b.volt.xVectorQueue ≠ [] →
    b.ingress.recv.dFoundStartChannel = true
  count : ∀ l, place = some l → l.numPacketsAvailable ≤ b.ingress.recv.dLocalqueue.length

/-- The block after a batch that the ring has room for. -/
def Block.received (c : Config) (datagrams : List Packet) (b : Block) : Block :=
  { b with ingress :=
    { recv := { b.ingress.recv with
        bufs := recvmmsg c (datagrams.take MMSG_LENGTH) b.ingress.recv.bufs
        dLocalqueue := b.ingress.recv.dLocalqueue ++ examined c b.ingress.recv.bufs datagrams }
      delivered := b.ingress.delivered ++ examined c b.ingress.recv.bufs datagrams
      placed := b.ingress.placed ++ examined c b.ingress.recv.bufs datagrams } }

theorem input_eq {datagrams : List Packet} {b : Block}
    (hfound : b.ingress.recv.dFoundStartChannel = true) (hroom : RoomFor datagrams b) :
    (threads c).input b datagrams = b.received c datagrams := by
  have hfits : b.ingress.recv.dLocalqueue.length +
      (examined c b.ingress.recv.bufs datagrams).length ≤ MAX_NET_CIRC_BUFFER := by
    rw [examined, List.length_map, List.length_range]
    exact hroom
  rw [Block.received, ← foldl_pushBack _ _ hfits]
  exact congrArg (fun s => { b with ingress := s }) (mmsgReceive_found datagrams hfound)

/-- **A batch does not disturb** the next step of a call. -/
theorem workTurn_input {l : WorkPlace} {b : Block} (h : Attended (some l) b)
    {datagrams : List Packet} (hroom : RoomFor datagrams b) :
    workTurn c l ((threads c).input b datagrams) =
      (workTurn c l b).map fun r => ((threads c).input r.1 datagrams, r.2) := by
  have hfound := h.found (.inl (Option.some_ne_none l))
  rw [input_eq hfound hroom]
  cases l with
  | counted noutputItems liveWork n =>
    rw [workTurn, workTurn, Except.map]
    simp only
    rw [input_eq (by exact hfound) (by exact hroom)]
    rfl
  | looping noutputItems liveWork n skippedPackets syncHeader =>
    by_cases hmore : 0 < n ∧ b.volt.xVectorQueue.length < noutputItems
    · -- what has been counted is in front of the batch
      have hcount : n ≤ b.ingress.recv.dLocalqueue.length := h.count _ rfl
      obtain ⟨p, rest, hqueue⟩ := List.exists_cons_of_length_pos (hmore.1.trans_le hcount)
      have hfront : fillLocalBuffer b.ingress.recv =
          .ok (p, { b.ingress.recv with dLocalqueue := rest }) := by
        rw [fillLocalBuffer, hqueue]
      have hfront' : fillLocalBuffer (b.received c datagrams).ingress.recv =
          .ok (p, { (b.received c datagrams).ingress.recv with
            dLocalqueue := rest ++ examined c b.ingress.recv.bufs datagrams }) := by
        rw [fillLocalBuffer, Block.received, hqueue]
        rfl
      rw [workTurn_take hmore.1 hmore.2,
        workTurn_take (b := b.received c datagrams) hmore.1 hmore.2,
        hfront, hfront']
      simp only [ok_bind]
      rw [show (b.received c datagrams).volt = b.volt from rfl]
      cases processPacket c (b.volt, skippedPackets) p with
      | error e => rfl
      | ok acc =>
        rw [ok_bind, ok_bind, Except.map]
        simp only
        rw [input_eq (by exact hfound)]
        · rfl
        · rw [RoomFor, hqueue, List.length_cons] at hroom
          show rest.length + _ ≤ _
          omega
    · rw [workTurn_finish hmore, workTurn_finish (b := b.received c datagrams) hmore, finishWork,
        finishWork, show (b.received c datagrams).volt = b.volt from rfl]
      cases emitItems c liveWork (min noutputItems b.volt.xVectorQueue.length) b.volt with
      | error e => rfl
      | ok emitted =>
        rw [ok_bind, ok_bind, Except.map, Except.map, Except.map]
        simp only
        rw [input_eq (by exact hfound) (by exact hroom)]
        rfl

/-- What a message leaves alone. -/
theorem xVectorQueue_of_handleSyncMsg {v v' : VoltState} {msg : Pmt}
    (h : handleSyncMsg v msg = .ok v') : v'.xVectorQueue = v.xVectorQueue := by
  rw [handleSyncMsg] at h
  cases hdata : msg.cdr with
  | error e =>
    rw [hdata] at h
    cases h
  | ok data =>
    rw [hdata] at h
    cases h
    simp only
    split <;> rfl

/-- Between calls. -/
theorem Attended.idle {b b' : Block} (hrecv : b'.ingress.recv = b.ingress.recv)
    (hrunning : b.ingress.recv.stopThread = false)
    (hreading : b.ingress.recv.pcapFileDone = false)
    (hfound : b.ingress.recv.dLocalqueue ≠ [] ∨ b'.volt.xVectorQueue ≠ [] →
      b.ingress.recv.dFoundStartChannel = true) : Attended none b' where
  running := hrecv ▸ hrunning
  reading := hrecv ▸ hreading
  found := fun h => by
    rw [hrecv] at h ⊢
    exact hfound (h.resolve_left fun hnone => hnone rfl)
  count := fun l hl => by cases hl

theorem Attended.enterWork {b : Block} (h : Attended none b) (noutputItems : ℕ)
    (liveWork : Bool) :
    Attended (enterWork noutputItems liveWork b).2 (enterWork noutputItems liveWork b).1 := by
  rw [GrAta.enterWork]
  split
  next => exact .idle rfl h.running h.reading fun hsome => h.found (.inr hsome)
  next hsome =>
    refine ⟨h.running, h.reading, fun _ => h.found (.inr ?_), fun l hl => ?_⟩
    · by_contra hnone
      rw [not_or, not_not, not_not] at hnone
      exact hsome ⟨h.running, h.reading, List.length_eq_zero_iff.mpr hnone.1, hnone.2⟩
    · obtain rfl := Option.some.inj hl
      exact le_rfl

/-- What the beginning of a call can be. It enters `work_volt_mode`, or the call is over. -/
theorem enterCall_cases {b b' : Block} {call : SchedulerCall} {l : Option WorkPlace}
    (henter : enterCall c b call = .ok (b', l)) :
    (∃ noutputItems liveWork, enterWork noutputItems liveWork b = (b', l)) ∨
    l = none ∧ b'.ingress.recv = b.ingress.recv ∧ b'.volt.xVectorQueue = b.volt.xVectorQueue := by
  cases call with
  | work noutputItems ports =>
    rw [enterCall] at henter
    split at henter
    · cases henter
      exact .inr ⟨rfl, rfl, rfl⟩
    · exact .inl ⟨noutputItems, true, Except.ok.inj henter⟩
  | workTest noutputItems ports => exact .inl ⟨noutputItems, false, Except.ok.inj henter⟩
  | handleSyncMsg msg =>
    rw [enterCall] at henter
    cases hmsg : handleSyncMsg b.volt msg with
    | error e =>
      rw [hmsg] at henter
      cases henter
    | ok v =>
      rw [hmsg] at henter
      cases henter
      exact .inr ⟨rfl, rfl, xVectorQueue_of_handleSyncMsg hmsg⟩

/-- A call begins. -/
theorem Attended.enter {b b' : Block} {call : SchedulerCall} {l : Option WorkPlace}
    (h : Attended none b) (henter : enterCall c b call = .ok (b', l)) : Attended l b' := by
  obtain ⟨noutputItems, liveWork, hwork⟩ | ⟨rfl, hrecv, hvectors⟩ := enterCall_cases henter
  · obtain ⟨rfl, rfl⟩ := Prod.mk.inj hwork
    exact h.enterWork noutputItems liveWork
  · refine .idle hrecv h.running h.reading fun hsome => h.found (.inr ?_)
    rwa [hvectors] at hsome

/-- What a step of a call does on the receiving side: it takes packets from the front of the
queue, of those that have been counted. -/
structure Takes (taken : List Packet) (l : WorkPlace) (b : Block) (l' : Option WorkPlace)
    (b' : Block) : Prop where
  queue : b.ingress.recv.dLocalqueue = taken ++ b'.ingress.recv.dLocalqueue
  running : b'.ingress.recv.stopThread = b.ingress.recv.stopThread
  reading : b'.ingress.recv.pcapFileDone = b.ingress.recv.pcapFileDone
  found : b'.ingress.recv.dFoundStartChannel = b.ingress.recv.dFoundStartChannel
  count : ∀ m, l' = some m → m.numPacketsAvailable + taken.length ≤ l.numPacketsAvailable

theorem workTurn_takes {b b' : Block} {l : WorkPlace} {l' : Option WorkPlace}
    (hturn : workTurn c l b = .ok (b', l')) : ∃ taken, Takes taken l b l' b' := by
  cases l with
  | counted noutputItems liveWork n =>
    cases hturn
    exact ⟨[], rfl, rfl, rfl, rfl, fun m hm => (Option.some.inj hm) ▸ le_rfl⟩
  | looping noutputItems liveWork n skippedPackets syncHeader =>
    by_cases hmore : 0 < n ∧ b.volt.xVectorQueue.length < noutputItems
    · rw [workTurn_take hmore.1 hmore.2] at hturn
      obtain ⟨⟨p, r⟩, hfill, hturn⟩ := bind_eq_ok hturn
      obtain ⟨⟨v, skippedPackets⟩, -, hturn⟩ := bind_eq_ok hturn
      cases hturn
      rw [fillLocalBuffer] at hfill
      cases hqueue : b.ingress.recv.dLocalqueue with
      | nil =>
        rw [hqueue] at hfill
        cases hfill
      | cons q rest =>
        rw [hqueue] at hfill
        cases hfill
        refine ⟨[p], hqueue, rfl, rfl, rfl, fun m hm => ?_⟩
        obtain rfl := Option.some.inj hm
        exact Nat.le_of_eq (Nat.sub_add_cancel hmore.1)
    · rw [workTurn_finish hmore, finishWork] at hturn
      cases hemit : emitItems c liveWork (min noutputItems b.volt.xVectorQueue.length) b.volt with
      | error e =>
        rw [hemit] at hturn
        cases hturn
      | ok emitted =>
        rw [hemit] at hturn
        cases hturn
        exact ⟨[], rfl, rfl, rfl, rfl, fun m hm => by cases hm⟩

/-- A call goes on. -/
theorem Attended.turn {b b' : Block} {l : WorkPlace} {l' : Option WorkPlace}
    (h : Attended (some l) b) (hturn : workTurn c l b = .ok (b', l')) : Attended l' b' := by
  obtain ⟨taken, htakes⟩ := workTurn_takes hturn
  refine ⟨htakes.running.trans h.running, htakes.reading.trans h.reading,
    fun _ => htakes.found.trans (h.found (.inl (Option.some_ne_none l))), fun m hm => ?_⟩
  have hcount := h.count l rfl
  have hmore := htakes.count m hm
  rw [htakes.queue, List.length_append] at hcount
  omega

/-- A step of a call leaves room in the ring. -/
theorem RoomFor.turn {b b' : Block} {l : WorkPlace} {l' : Option WorkPlace}
    {datagrams : List Packet} (hroom : RoomFor datagrams b)
    (hturn : workTurn c l b = .ok (b', l')) : RoomFor datagrams b' := by
  obtain ⟨taken, htakes⟩ := workTurn_takes hturn
  rw [RoomFor, htakes.queue, List.length_append] at hroom
  rw [RoomFor]
  omega

/-- A packet that is queued has been found synchronized. -/
theorem synchronize_found {isVoltage : Bool} {p : Pointer} {r r' : Receiver}
    (h : synchronize isVoltage c p r = some r') :
    r'.dFoundStartChannel = true ∧ r'.stopThread = r.stopThread ∧
      r'.pcapFileDone = r.pcapFileDone ∧ r'.dLocalqueue = r.dLocalqueue := by
  rw [synchronize, voltageSynchronize, spectSynchronize] at h
  split_ifs at h with hfound
  · cases h
    exact ⟨hfound, rfl, rfl, rfl⟩
  · cases h
    exact ⟨rfl, rfl, rfl, rfl⟩
  · cases h
    exact ⟨rfl, rfl, rfl, rfl⟩

/-- What a batch does to a receiver that may not be synchronized. -/
structure Listens (r r' : Receiver) : Prop where
  running : r'.stopThread = r.stopThread
  reading : r'.pcapFileDone = r.pcapFileDone
  found : r.dFoundStartChannel = true → r'.dFoundStartChannel = true
  queue : r'.dLocalqueue ≠ [] → r.dLocalqueue ≠ [] ∨ r'.dFoundStartChannel = true

theorem mmsgReceive_listens {isVoltage : Bool} (datagrams : List Packet) (s : Ingress) :
    Listens s.recv (mmsgReceive isVoltage c datagrams s).recv := by
  rw [mmsgReceive]
  refine List.foldlRecOn (motive := fun s' : Ingress => Listens s.recv s'.recv) _ _
    ⟨rfl, rfl, id, .inl⟩ ?_
  rintro s' h p -
  rw [mmsgPacket]
  simp only [deliver]
  cases hsync : synchronize isVoltage c p s'.recv with
  | none => exact h
  | some r' =>
    obtain ⟨hfound, hrunning, hreading, -⟩ := synchronize_found hsync
    exact ⟨hrunning.trans h.running, hreading.trans h.reading, fun _ => hfound,
      fun _ => .inr hfound⟩

/-- A batch between calls. -/
theorem Attended.input_idle {b : Block} (h : Attended none b) (datagrams : List Packet) :
    Attended none ((threads c).input b datagrams) := by
  have hlistens := @mmsgReceive_listens c formatTest datagrams b.ingress
  refine ⟨hlistens.running.trans h.running, hlistens.reading.trans h.reading, fun hsome => ?_,
    fun l hl => by cases hl⟩
  rcases hsome with hnone | hqueue | hvectors
  · exact absurd rfl hnone
  · exact (hlistens.queue hqueue).elim (fun hold => hlistens.found (h.found (.inr (.inl hold)))) id
  · exact hlistens.found (h.found (.inr (.inr hvectors)))

/-- A batch during a call. -/
theorem Attended.input_busy {b : Block} {l : WorkPlace} (h : Attended (some l) b)
    {datagrams : List Packet} (hroom : RoomFor datagrams b) :
    Attended (some l) ((threads c).input b datagrams) := by
  have hfound := h.found (.inl (Option.some_ne_none l))
  rw [input_eq hfound hroom]
  refine ⟨h.running, h.reading, fun _ => hfound, fun m hm => ?_⟩
  exact (h.count m hm).trans (by
    rw [Block.received, List.length_append]
    exact Nat.le_add_right _ _)

/-- **No batch disturbs a call.** -/
theorem threads_commute (c : Config) : (threads c).Commutes Attended RoomFor where
  enter := fun h henter => h.enter henter
  turn := fun h hturn => h.turn hturn
  idle := fun h => h.input_idle _
  input := fun h hroom => h.input_busy hroom
  room := fun _ hroom hturn => hroom.turn hturn
  comm := fun h hroom => workTurn_input h hroom

-- ════════════════════════════════════════════════════════════════════════
-- Interleavings
-- ════════════════════════════════════════════════════════════════════════

/-- The event of a run of whole calls. -/
def wholeEvent : SchedulerCall ⊕ List Packet → BlockEvent
  | .inl call => call.event
  | .inr datagrams => .mmsgReceive datagrams

/-- The ring has room for every batch that comes during a call. -/
def RoomInCalls (c : Config) (u : Unset) (env : Environment) (events : List ThreadEvent) : Prop :=
  ∀ before datagrams, before ++ [.input datagrams] <+: events → ∀ b l calls,
    threadsRun c u env before = .ok ⟨b, some l, calls⟩ → RoomFor datagrams b

theorem run_wholeStep (capture : List Record) (b : Block)
    (serial : List (SchedulerCall ⊕ List Packet)) :
    Execution.run ((threads c).wholeStep fun b call =>
      blockStep formatTest c capture b call.event) b serial =
    Execution.run (blockStep formatTest c capture) b (serial.map wholeEvent) := by
  induction serial generalizing b with
  | nil => rfl
  | cons e serial ih =>
    rw [List.map_cons, Execution.run, Execution.run]
    have hstep : (threads c).wholeStep (fun b call => blockStep formatTest c capture b call.event)
        b e = blockStep formatTest c capture b (wholeEvent e) := by
      cases e <;> rfl
    rw [hstep]
    cases blockStep formatTest c capture b (wholeEvent e) with
    | error e => rfl
    | ok b' => exact ih b'

theorem attended_started {u : Unset} {env : Environment} {s : SnapSource}
    (h : start c u env = .ok s) : Attended none (.started s) := by
  have hrecv : (Block.started s).ingress.recv = initialReceiver env := VoltageBlock.start_recv h
  have hvectors : s.volt.xVectorQueue = [] := by
    rw [start] at h
    split_ifs at h <;> cases h <;> rfl
  refine ⟨by rw [hrecv]; rfl, by rw [hrecv]; rfl, fun hsome => ?_, fun l hl => by cases hl⟩
  rw [hrecv, Block.started, hvectors] at hsome
  exact absurd hsome (by simp [initialReceiver])

variable {u : Unset} {env : Environment} {events : List ThreadEvent}

/-- An interleaving, as the rules for servers describe it. -/
theorem threadsRun_serialized (hroom : RoomInCalls c u env events) {s : SnapSource}
    (hstart : start c u env = .ok s) :
    (threads c).Serialized Attended
      (fun b call => blockStep formatTest c env.capture b call.event) (.started s)
      (events.filterMap Server.Event.call?) (events.filterMap Server.Event.input?)
      (threadsRun c u env events) := by
  have hrun (events : List ThreadEvent) : threadsRun c u env events =
      Execution.run (threads c).step ⟨.started s, none, []⟩ events := by
    rw [threadsRun, hstart, ok_bind]
  rw [hrun]
  refine Server.run_serialized (ends_call env.capture) (threads_commute c)
    (attended_started hstart) fun before datagrams hbefore b l calls hb => ?_
  exact hroom before datagrams hbefore b l calls ((hrun before).trans hb)

/-- **Every interleaving** of the two threads has the outcome of a run in which the calls are
whole. The calls and the batches are each in their order, and a fault is the fault of such a
run. An open call comes to its end. -/
theorem threads_serialize (hroom : RoomInCalls c u env events) :
    (∀ b calls, threadsRun c u env events = .ok ⟨b, none, calls⟩ → ∃ serial,
      blockRun formatTest c u env (serial.map wholeEvent) = .ok b ∧
      Server.inputsOf serial = events.filterMap Server.Event.input? ∧
      Server.callsOf serial = calls) ∧
    (∀ fault, threadsRun c u env events = .error fault → ∃ serial,
      blockRun formatTest c u env (serial.map wholeEvent) = .error fault ∧
      Server.inputsOf serial <+: events.filterMap Server.Event.input? ∧
      (Server.callsOf serial).Sublist (events.filterMap Server.Event.call?)) ∧
    (∀ b l calls, threadsRun c u env events = .ok ⟨b, some l, calls⟩ → ∀ call, ∃ k,
      (∃ b', threadsRun c u env (events ++ List.replicate k (.move call)) =
        .ok ⟨b', none, calls⟩) ∨
      ∃ fault, threadsRun c u env (events ++ List.replicate k (.move call)) = .error fault) := by
  cases hstart : start c u env with
  | error e =>
    have hfails : threadsRun c u env events = .error e := by
      rw [threadsRun, hstart, error_bind]
    refine ⟨fun b calls h => ?_, fun fault h => ⟨[], ?_, List.nil_prefix, List.nil_sublist _⟩,
      fun b l calls h => ?_⟩
    · rw [hfails] at h
      cases h
    · rw [hfails] at h
      cases h
      rw [blockRun, hstart, error_bind]
    · rw [hfails] at h
      cases h
  | ok s =>
    have hserial (serial : List (SchedulerCall ⊕ List Packet)) :
        blockRun formatTest c u env (serial.map wholeEvent) =
          Execution.run ((threads c).wholeStep fun b call =>
            blockStep formatTest c env.capture b call.event) (.started s) serial := by
      rw [blockRun, hstart, ok_bind, run_wholeStep]
      rfl
    have hnow := threadsRun_serialized hroom hstart
    refine ⟨fun b calls h => ?_, fun fault h => ?_, fun b l calls h call => ?_⟩
    · rw [h] at hnow
      cases hnow with
      | idle serial hrun hinputs hcalls _ _ =>
        exact ⟨serial, (hserial serial).trans hrun, hinputs, hcalls⟩
    · rw [h] at hnow
      cases hnow with
      | fault serial hrun hinputs hoffered =>
        exact ⟨serial, (hserial serial).trans hrun, hinputs, hoffered⟩
    · rw [h] at hnow
      obtain ⟨k, r, hk⟩ := hnow.returns call
      have hlater : threadsRun c u env (events ++ List.replicate k (.move call)) =
          r.map fun b => ⟨b, none, calls⟩ := by
        rw [threadsRun, hstart, ok_bind] at h ⊢
        rw [Execution.run_append_ok h, hk]
      refine ⟨k, ?_⟩
      cases r with
      | error fault => exact .inr ⟨fault, hlater⟩
      | ok b' => exact .inl ⟨b', hlater⟩

-- ════════════════════════════════════════════════════════════════════════
-- Few datagrams
-- ════════════════════════════════════════════════════════════════════════

/-- How many datagrams come in a run. -/
def datagramCount (events : List ThreadEvent) : ℕ :=
  ((events.filterMap Server.Event.input?).map List.length).sum

theorem datagramCount_append (events events' : List ThreadEvent) :
    datagramCount (events ++ events') = datagramCount events + datagramCount events' := by
  rw [datagramCount, List.filterMap_append, List.map_append, List.sum_append]
  rfl

/-- A batch makes the queue longer by its datagrams at most. -/
theorem mmsgReceive_length_le {isVoltage : Bool} (datagrams : List Packet) (s : Ingress) :
    (mmsgReceive isVoltage c datagrams s).recv.dLocalqueue.length ≤
      s.recv.dLocalqueue.length + datagrams.length := by
  have hfold (ps : List Pointer) (s : Ingress) :
      (ps.foldl (mmsgPacket isVoltage c) s).recv.dLocalqueue.length ≤
        s.recv.dLocalqueue.length + ps.length := by
    induction ps generalizing s with
    | nil => exact le_rfl
    | cons p ps ih =>
      have hpacket : (mmsgPacket isVoltage c s p).recv.dLocalqueue.length ≤
          s.recv.dLocalqueue.length + 1 := by
        rw [mmsgPacket]
        simp only [deliver]
        cases hsync : synchronize isVoltage c p s.recv with
        | none => exact Nat.le_succ _
        | some r =>
          obtain ⟨-, -, -, hqueue⟩ := synchronize_found hsync
          exact hqueue ▸ pushBack_length_le r.dLocalqueue _
      have hrest := ih (mmsgPacket isVoltage c s p)
      rw [List.foldl_cons, List.length_cons]
      omega
  have hbatch := hfold ((List.range (datagrams.take MMSG_LENGTH).length).map
    (recvmmsg c (datagrams.take MMSG_LENGTH) s.recv.bufs))
    { s with recv := { s.recv with
      bufs := recvmmsg c (datagrams.take MMSG_LENGTH) s.recv.bufs } }
  rw [List.length_map, List.length_range] at hbatch
  rw [mmsgReceive]
  exact hbatch.trans (Nat.add_le_add_left (List.length_take_le' _ _) _)

/-- A call that begins takes no packet. -/
theorem enterCall_recv {b b' : Block} {call : SchedulerCall} {l : Option WorkPlace}
    (henter : enterCall c b call = .ok (b', l)) : b'.ingress.recv = b.ingress.recv := by
  obtain ⟨noutputItems, liveWork, hwork⟩ | ⟨-, hrecv, -⟩ := enterCall_cases henter
  · rw [enterWork] at hwork
    split at hwork <;> cases hwork <;> rfl
  · exact hrecv

/-- The queue holds no more packets than datagrams have come. -/
theorem length_le_datagramCount {p : Server.Point Block SchedulerCall WorkPlace}
    (h : threadsRun c u env events = .ok p) :
    p.state.ingress.recv.dLocalqueue.length ≤ datagramCount events := by
  obtain ⟨s, hstart, hrun⟩ := bind_eq_ok h
  refine Execution.run_history_partial
    (fun past (p : Server.Point Block SchedulerCall WorkPlace) =>
      p.state.ingress.recv.dLocalqueue.length ≤ datagramCount past)
    (fun _ => True) ?_ [] ?_ (fun _ _ => trivial) hrun
  · rintro past ⟨b, l, calls⟩ e p' hlen - hstep
    rw [datagramCount_append]
    cases e with
    | input datagrams =>
      cases hstep
      have hbatch := @mmsgReceive_length_le c formatTest datagrams b.ingress
      exact hbatch.trans (Nat.add_le_add_right hlen _)
    | move call =>
      suffices hle : p'.state.ingress.recv.dLocalqueue.length ≤
          b.ingress.recv.dLocalqueue.length from (hle.trans hlen).trans (Nat.le_add_right _ _)
      cases l with
      | none =>
        rw [Server.step_enter] at hstep
        cases henter : (threads c).enter b call with
        | error e =>
          rw [henter] at hstep
          cases hstep
        | ok entered =>
          rw [henter] at hstep
          cases hstep
          exact (congrArg (fun r : Receiver => r.dLocalqueue.length)
            (enterCall_recv henter)).le
      | some l =>
        rw [Server.step_turn] at hstep
        cases hturn : (threads c).turn l b with
        | error e =>
          rw [hturn] at hstep
          cases hstep
        | ok turned =>
          rw [hturn] at hstep
          cases hstep
          obtain ⟨taken, htakes⟩ := workTurn_takes hturn
          rw [htakes.queue, List.length_append]
          exact Nat.le_add_left _ _
  · have hqueue : s.recv.dLocalqueue = [] := by rw [VoltageBlock.start_recv hstart]; rfl
    simp only [Block.started, hqueue, List.length_nil, Nat.zero_le]

/-- The ring has room if it holds all datagrams that come. -/
theorem roomInCalls_of_few (hfew : datagramCount events ≤ MAX_NET_CIRC_BUFFER) :
    RoomInCalls c u env events := by
  rintro before datagrams ⟨rest, rfl⟩ b l calls hb
  have hlen := length_le_datagramCount hb
  have htake : (datagrams.take MMSG_LENGTH).length ≤ datagrams.length :=
    List.length_take_le' _ _
  have hone : datagramCount [.input datagrams] = datagrams.length := Nat.add_zero _
  rw [datagramCount_append, datagramCount_append, hone] at hfew
  rw [RoomFor]
  simp only at hlen
  omega

/-- The datagrams of a run of whole calls. -/
theorem datagrams_wholeEvent (serial : List (SchedulerCall ⊕ List Packet)) :
    (serial.map wholeEvent).flatMap BlockEvent.datagrams = (Server.inputsOf serial).flatten := by
  induction serial with
  | nil => rfl
  | cons e serial ih =>
    rw [List.map_cons, List.flatMap_cons, ih]
    cases e with
    | inl call => cases call <;> rfl
    | inr datagrams => rfl

/-- A block at the network returns from every whole call. -/
theorem VoltageBlock.serial_returns {B : VoltageBlock} (hnet : B.cfg.dUsePcap = false)
    {serial : List (SchedulerCall ⊕ List Packet)}
    (hcalls : ∀ call ∈ Server.callsOf serial, call.event.OfNetwork)
    (hbatches : ∀ datagrams ∈ Server.inputsOf serial, datagrams.length ≤ MMSG_LENGTH)
    (hfull : ∀ d ∈ (Server.inputsOf serial).flatten, d.length = B.cfg.totalPacketSize)
    (hprocesses : B.Processes (Server.inputsOf serial).flatten)
    (hfew : (Server.inputsOf serial).flatten.length ≤ MAX_NET_CIRC_BUFFER) (env : Environment) :
    ∃ b, B.blockRun env (serial.map wholeEvent) = .ok b := by
  have hevents : ∀ e ∈ serial.map wholeEvent, e.OfNetwork := by
    intro e he
    obtain ⟨a, ha, rfl⟩ := List.mem_map.mp he
    cases a with
    | inl call => exact hcalls call (List.mem_filterMap.mpr ⟨_, ha, rfl⟩)
    | inr datagrams => exact hbatches datagrams (List.mem_filterMap.mpr ⟨_, ha, rfl⟩)
  rw [← datagrams_wholeEvent] at hfull hprocesses hfew
  have hlater : B.Processes (fromStart true B.cfg false
      ((serial.map wholeEvent).flatMap BlockEvent.datagrams)) := fun p hp =>
    hprocesses p ((B.fromStart_sublist _).subset hp)
  have hroom : B.HasRoom env (serial.map wholeEvent) :=
    hasRoom_of_few hnet hevents hfull hlater hfew
  obtain ⟨b, hb, -⟩ := run_receiving hnet hevents hfull hlater hroom
  exact ⟨b, hb⟩

/-- A batch comes while a call takes the packet of the one before. -/
def interrupted (k : ℕ) : List ThreadEvent :=
  [.input [plainPacket 0 16], .move (.work 16 1), .input [plainPacket 0 32]] ++
    List.replicate k (.move (.work 16 1))

/-- Whole calls in the place of an interrupted one return. -/
theorem VoltageBlock.single_returns {serial : List (SchedulerCall ⊕ List Packet)} {k : ℕ}
    (hcalls : (Server.callsOf serial).Sublist (List.replicate k (.work 16 1)))
    (hinputs : Server.inputsOf serial <+: [[plainPacket 0 16], [plainPacket 0 32]]) :
    ∃ b, single.blockRun ⟨[], fun _ _ => 0⟩ (serial.map wholeEvent) = .ok b := by
  have hpackets : ∀ d ∈ (Server.inputsOf serial).flatten,
      d = plainPacket 0 16 ∨ d = plainPacket 0 32 := by
    intro d hd
    have hd' := hinputs.sublist.flatten.subset hd
    simpa using hd'
  refine serial_returns rfl (fun call hcall => ?_) (fun datagrams hdatagrams => ?_)
    (fun d hd => ?_) (fun d hd => ?_) ?_ _
  · rw [List.eq_of_mem_replicate (hcalls.subset hcall)]
    exact ⟨by decide, dvd_rfl⟩
  · have hbatch := hinputs.subset hdatagrams
    rw [List.mem_pair] at hbatch
    obtain rfl | rfl := hbatch <;> exact show 1 ≤ MMSG_LENGTH by decide
  · obtain rfl | rfl := hpackets d hd <;> exact plainPacket_length _ _
  · have hprocesses {ts : ℕ} (hts : ts < 2 ^ 64 - 16) :
        single.InRange (plainPacket 0 ts) ∧ timestamp (plainPacket 0 ts) < 2 ^ 64 - 16 :=
      ⟨ofWidth_inRange le_rfl (by decide) false one_pos ts,
        (timestamp_plainPacket 0 (hts.trans (by decide))).trans_lt hts⟩
    obtain rfl | rfl := hpackets d hd <;> exact hprocesses (by decide)
  · exact hinputs.sublist.flatten.length_le.trans (by decide)

theorem inputs_interrupted (k : ℕ) : (interrupted k).filterMap Server.Event.input? =
    [[plainPacket 0 16], [plainPacket 0 32]] := by
  have hmoves : (List.replicate k (.move (.work 16 1) : ThreadEvent)).filterMap
      Server.Event.input? = [] :=
    List.filterMap_eq_nil_iff.mpr fun e he => by
      rw [List.eq_of_mem_replicate he]
      rfl
  rw [interrupted, List.filterMap_append, hmoves]
  rfl

theorem calls_interrupted (k : ℕ) : (interrupted k).filterMap Server.Event.call? =
    List.replicate (k + 1) (SchedulerCall.work 16 1) := by
  have hmoves : (List.replicate k (.move (.work 16 1) : ThreadEvent)).filterMap
      Server.Event.call? = List.replicate k (SchedulerCall.work 16 1) :=
    List.filterMap_replicate_of_some rfl
  rw [interrupted, List.filterMap_append, hmoves]
  rfl

/-- The packet of the first batch is queued. -/
theorem VoltageBlock.single_queued (env : Environment) :
    (mmsgReceive true single.cfg [plainPacket 0 16] ⟨initialReceiver env, [], []⟩).recv.dLocalqueue
      = [plainPacket 0 16] := by
  have hfull : ∀ d ∈ [plainPacket 0 16], d.length = single.cfg.totalPacketSize :=
    List.forall_mem_singleton.mpr (plainPacket_length 0 16)
  have hhandled := mmsgReceive_handled true single.eight_le_totalPacketSize [plainPacket 0 16]
    ⟨initialReceiver env, [], []⟩
  rw [examined_of_fullSize hfull (by decide)] at hhandled
  have hfirst : ¬Skips true single.cfg false (plainPacket 0 16) := fun hskips =>
    hskips.2 (channel_plainPacket (by decide) 16)
  have hplaced := hhandled.placed
  rw [filter_unfiltered, show (initialReceiver env).dFoundStartChannel = false from rfl,
    fromStart_cons_of_not hfirst] at hplaced
  obtain ⟨arrived, sync, harrived, hreceives⟩ :=
    collects_mmsgReceive single.cfg [plainPacket 0 16] ⟨initialReceiver env, [], []⟩
  have hfits : Fits ⟨initialReceiver env, [], []⟩
      (mmsgReceive true single.cfg [plainPacket 0 16] ⟨initialReceiver env, [], []⟩) := by
    rw [Fits, hplaced]
    exact show 0 + 1 ≤ 0 + MAX_NET_CIRC_BUFFER by decide
  rw [(hreceives hfits).queue, show (initialReceiver env).dLocalqueue = [] from rfl,
    ← List.nil_append [plainPacket 0 16], ← hplaced, harrived]

/-- A call that finds packets stays open. -/
theorem enter_work (hnet : c.dUsePcap = false) {b : Block}
    (hqueue : b.ingress.recv.dLocalqueue ≠ []) (noutputItems ports : ℕ) :
    (threads c).enter b (.work noutputItems ports) =
      .ok (b, some (.counted noutputItems true b.ingress.recv.dLocalqueue.length)) := by
  have hcapture : ¬(c.dUsePcap ∧ b.ingress.recv.pcapFileDone ∧
      b.ingress.recv.dLocalqueue.length = 0) := fun h =>
    Bool.noConfusion (hnet.symm.trans h.1)
  have hwait : ¬(b.ingress.recv.stopThread = false ∧ b.ingress.recv.pcapFileDone = false ∧
      b.ingress.recv.dLocalqueue.length = 0 ∧ b.volt.xVectorQueue = []) := fun h =>
    hqueue (List.length_eq_zero_iff.mp h.2.2.1)
  have henter : (threads c).enter b (.work noutputItems ports) =
      .ok (enterWork noutputItems true b) := if_neg hcapture
  have hopen : enterWork noutputItems true b =
      (b, some (.counted noutputItems true b.ingress.recv.dLocalqueue.length)) := if_neg hwait
  rw [henter, hopen]

/-- The second batch comes while the call is open. -/
theorem VoltageBlock.single_open : ∃ b,
    threadsRun single.cfg single.unset ⟨[], fun _ _ => 0⟩ (interrupted 0) =
      .ok ⟨b, some (.counted 16 true 1), [.work 16 1]⟩ := by
  obtain ⟨s, hs, -⟩ := single.start_tracks ⟨[], fun _ _ => 0⟩
  have hqueue := single_queued ⟨[], fun _ _ => 0⟩
  rw [← start_recv hs] at hqueue
  have hcount : ((threads single.cfg).input (.started s)
      [plainPacket 0 16]).ingress.recv.dLocalqueue.length = 1 := congrArg List.length hqueue
  have henter := enter_work (c := single.cfg) rfl
    (b := (threads single.cfg).input (.started s) [plainPacket 0 16])
    (hqueue.trans_ne (List.cons_ne_nil _ _)) 16 1
  have hmove : (threads single.cfg).step
      ⟨(threads single.cfg).input (.started s) [plainPacket 0 16], none, []⟩ (.move (.work 16 1)) =
        .ok ⟨(threads single.cfg).input (.started s) [plainPacket 0 16],
          some (.counted 16 true 1), [.work 16 1]⟩ := by
    rw [Server.step_enter, henter, hcount]
    rfl
  refine ⟨(threads single.cfg).input
    ((threads single.cfg).input (.started s) [plainPacket 0 16]) [plainPacket 0 32], ?_⟩
  rw [threadsRun, hs, ok_bind]
  exact (Execution.run_cons_ok rfl _).trans (Execution.run_cons_ok hmove _)

/-- The call is open when the second batch comes. It returns, and the second batch follows it. -/
theorem threads_serialize_interrupted :
    (∃ b, threadsRun VoltageBlock.single.cfg VoltageBlock.single.unset ⟨[], fun _ _ => 0⟩
      (interrupted 0) = .ok ⟨b, some (.counted 16 true 1), [.work 16 1]⟩) ∧
    ∃ k b, threadsRun VoltageBlock.single.cfg VoltageBlock.single.unset ⟨[], fun _ _ => 0⟩
      (interrupted k) = .ok ⟨b, none, [.work 16 1]⟩ ∧
    ∃ serial, VoltageBlock.single.blockRun ⟨[], fun _ _ => 0⟩ (serial.map wholeEvent) = .ok b ∧
      Server.inputsOf serial = [[plainPacket 0 16], [plainPacket 0 32]] ∧
      Server.callsOf serial = [SchedulerCall.work 16 1] := by
  have hroom (k : ℕ) : RoomInCalls VoltageBlock.single.cfg VoltageBlock.single.unset
      ⟨[], fun _ _ => 0⟩ (interrupted k) := by
    refine roomInCalls_of_few ?_
    rw [datagramCount, inputs_interrupted]
    decide
  -- A fault would be the fault of whole calls.
  have hreturns (k : ℕ) (fault : Fault) :
      threadsRun VoltageBlock.single.cfg VoltageBlock.single.unset ⟨[], fun _ _ => 0⟩
        (interrupted k) ≠ .error fault := by
    intro h
    obtain ⟨serial, hserial, hinputs, hcalls⟩ := (threads_serialize (hroom k)).2.1 fault h
    rw [inputs_interrupted] at hinputs
    rw [calls_interrupted] at hcalls
    obtain ⟨b, hb⟩ := VoltageBlock.single_returns hcalls hinputs
    exact absurd (hserial.symm.trans hb) (by simp)
  obtain ⟨b₀, hopen⟩ := VoltageBlock.single_open
  obtain ⟨k, ⟨b, hb⟩ | ⟨fault, hfault⟩⟩ :=
    (threads_serialize (hroom 0)).2.2 b₀ _ _ hopen (.work 16 1)
  · obtain ⟨serial, hserial, hinputs, hcalls⟩ := (threads_serialize (hroom k)).1 b _ hb
    exact ⟨⟨b₀, hopen⟩, k, b, hb, serial, hserial, hinputs.trans (inputs_interrupted k), hcalls⟩
  · exact (hreturns k fault hfault).elim

end GrAta
