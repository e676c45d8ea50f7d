import GrAta.Library.Execution
import GrAta.Snap.VoltMode

/-!
# Schedules of the voltage work function

A schedule is a list of calls. Each call names the packets that the receive
thread has queued since the call before it, the flags it finds and the number of
output items the scheduler asks for. The calls of a run share one state, and
their output items are collected in order.

A packet that the receive ring drops before the work function reaches it is
lost, as if it had never arrived.
-/

namespace GrAta

/-- One call of the work function, with what happened since the call before it:
the packets and flags of the receive thread, and the messages on port `sync`. -/
structure Call where
  arrived : List Packet
  noutputItems : ℕ
  stopThread : Bool := false
  pcapFileDone : Bool := false
  /-- The header of the packet that the receive thread synchronized on. -/
  synchronized : Option SnapHeader := none
  messages : List Pmt := []
  deriving DecidableEq, Repr

/-- What the runtime guarantees: output sizes are positive multiples of 16, and
messages are pairs that do not announce timestamp zero. -/
structure Call.Valid (call : Call) : Prop where
  pos : 0 < call.noutputItems
  dvd : 16 ∣ call.noutputItems
  messages : ∀ m ∈ call.messages, m.Announces

/-- No handshake arrives before the call. -/
def Call.Quiet (call : Call) : Prop := call.messages = []

/-- A call that finds only packets. -/
def Call.taking (arrived : List Packet) (noutputItems : ℕ) : Call where
  arrived := arrived
  noutputItems := noutputItems

theorem Call.taking_valid (arrived : List Packet) {noutputItems : ℕ} (h : 0 < noutputItems)
    (hd : 16 ∣ noutputItems) : (Call.taking arrived noutputItems).Valid :=
  ⟨h, hd, by simp [taking]⟩

theorem Call.taking_quiet (arrived : List Packet) (noutputItems : ℕ) :
    (Call.taking arrived noutputItems).Quiet := rfl

/-- The receiving side as a call finds it. -/
def Call.receive (call : Call) (r : Receiver) : Receiver where
  dFoundStartChannel := r.dFoundStartChannel || call.synchronized.isSome
  dSendSyncPmt := r.dSendSyncPmt || call.synchronized.isSome
  asyncVoltSyncHdr := call.synchronized.getD r.asyncVoltSyncHdr
  asyncSpectSyncHdr := r.asyncSpectSyncHdr
  bufs := r.bufs
  pcapFile := r.pcapFile
  pcapFileDone := call.pcapFileDone
  stopThread := call.stopThread
  dLocalqueue := r.dLocalqueue ++ call.arrived

/-- All packets of a schedule, in order of arrival. -/
def arrivals (calls : List Call) : List Packet := calls.flatMap Call.arrived

@[simp] theorem arrivals_concat (calls : List Call) (call : Call) :
    arrivals (calls ++ [call]) = arrivals calls ++ call.arrived := by
  simp [arrivals]

/-- A run so far: the state, and what each call has left behind. -/
structure WorkRun where
  source : SnapSource
  results : List WorkResult

/-- The output items of all calls. -/
def WorkRun.items (w : WorkRun) : List OutItem := w.results.flatMap WorkResult.items

theorem WorkRun.items_concat (s : SnapSource) (w : WorkRun) (result : WorkResult) :
    (WorkRun.mk s (w.results ++ [result])).items = w.items ++ result.items := by
  simp [items]

/-- Handle the messages in order. -/
def handleMessages (v : VoltState) (messages : List Pmt) : Except Fault VoltState :=
  Execution.run handleSyncMsg v messages

/-- One live call of the work function. -/
def workCall (c : Config) (w : WorkRun) (call : Call) : Except Fault WorkRun := do
  let volt ← handleMessages w.source.volt call.messages
  let (result, s) ← workVoltMode c call.noutputItems true
    { w.source with recv := call.receive w.source.recv, volt := volt }
  .ok ⟨s, w.results ++ [result]⟩

/-- Start a block and run a schedule on it. -/
def workRun (c : Config) (u : Unset) (env : Environment) (calls : List Call) :
    Except Fault WorkRun := do
  let s ← start c u env
  Execution.run (workCall c) ⟨s, []⟩ calls

/-- The run of a schedule on a voltage block. -/
def VoltageBlock.run (B : VoltageBlock) (env : Environment) (calls : List Call) :
    Except Fault WorkRun :=
  workRun B.cfg B.unset env calls

end GrAta
