import TinyKv.Curp.Witness

/-!
# Curp.Service

The witness over RPC: `WitnessServiceImpl` answers, `WitnessClient` calls. A call that fails may or
may not have reached the service (`RpcOutcome`).

`WitnessRequest` are the requests that can change the witness, and `serve` is what each does to it.
-/

namespace TinyKv

open Lib

inductive RpcOutcome where
  | ok
  | requestLost
  | replyLost
  deriving DecidableEq

structure RecordReply where
  accepted : Bool
  rejectReason : Nat
  message : String

def RecordReply.ofResult : RecordResult → RecordReply
  | .accepted => ⟨true, 0, "accepted"⟩
  | .rejectedNotCommutative => ⟨false, 1, "key conflict"⟩
  | .rejectedNoSpace => ⟨false, 2, "no space"⟩
  | .rejectedStopped => ⟨false, 3, "stopped"⟩
  | .rejectedWrongMaster => ⟨false, 4, "wrong master"⟩

/-- How `WitnessClient::record` reads the reply. -/
def RecordReply.toResult (reply : RecordReply) : RecordResult :=
  if reply.accepted then .accepted
  else
    match reply.rejectReason with
    | 1 => .rejectedNotCommutative
    | 2 => .rejectedNoSpace
    | 3 => .rejectedStopped
    | 4 => .rejectedWrongMaster
    | _ => .rejectedStopped

@[simp] theorem RecordReply.toResult_ofResult (result : RecordResult) :
    (ofResult result).toResult = result := by
  cases result with
  | accepted => rfl
  | rejectedNotCommutative => rfl
  | rejectedNoSpace => rfl
  | rejectedStopped => rfl
  | rejectedWrongMaster => rfl

namespace WitnessClient

/-- `WitnessClient::record`: a failed call counts as a rejection. -/
def record (outcome : RpcOutcome) (w : Witness) (masterId : String) (rpcId : UInt64)
    (key requestData : Bytes) (clientId now : UInt64) : Witness × RecordResult :=
  match outcome with
  | .ok =>
    let (w', result) := w.record masterId rpcId key requestData clientId now
    (w', (RecordReply.ofResult result).toResult)
  | .requestLost => (w, .rejectedStopped)
  | .replyLost => ((w.record masterId rpcId key requestData clientId now).1, .rejectedStopped)

/-- `WitnessClient::get_recovery_data`: a failed call returns no records. -/
def getRecoveryData (outcome : RpcOutcome) (w : Witness) (masterId : String) :
    Witness × Multiset WitnessRecord :=
  match outcome with
  | .ok => w.getRecoveryData masterId
  | .requestLost => (w, 0)
  | .replyLost => ((w.getRecoveryData masterId).1, 0)

theorem record_witness (outcome : RpcOutcome) (w : Witness) (masterId : String) (rpcId : UInt64)
    (key requestData : Bytes) (clientId now : UInt64) :
    (record outcome w masterId rpcId key requestData clientId now).1 = w ∨
    (record outcome w masterId rpcId key requestData clientId now).1 =
      (w.record masterId rpcId key requestData clientId now).1 := by
  cases outcome with
  | ok => exact .inr rfl
  | requestLost => exact .inl rfl
  | replyLost => exact .inr rfl

end WitnessClient

structure GCReply where
  success : Bool
  droppedCount : Nat

structure RecoveryData where
  success : Bool
  requests : Multiset WitnessRecord

structure StopReply where
  success : Bool
  requestCount : Nat

structure ResetReply where
  success : Bool

namespace WitnessServiceImpl

def record (w : Witness) (masterId : String) (rpcId : UInt64) (key requestData : Bytes)
    (clientId now : UInt64) : Witness × RecordReply :=
  let (w', result) := w.record masterId rpcId key requestData clientId now
  (w', .ofResult result)

def garbageCollect (w : Witness) (masterId : String) (entries : List GCEntry) :
    Witness × GCReply :=
  let (w', dropped) := w.garbageCollect masterId entries
  (w', ⟨true, dropped⟩)

def getRecoveryData (w : Witness) (masterId : String) : Witness × RecoveryData :=
  let (w', records) := w.getRecoveryData masterId
  (w', ⟨true, records⟩)

/-- `master_id` only goes to the log output. -/
def stop (w : Witness) (_masterId : String) : Witness × StopReply :=
  (w.stopAccepting, ⟨true, w.stopAccepting.size⟩)

/-- The same here; the witness is bound to `new_master_id`. -/
def reset (w : Witness) (_masterId newMasterId : String) : Witness × ResetReply :=
  (w.reset newMasterId, ⟨true⟩)

end WitnessServiceImpl

inductive WitnessRequest where
  | record (masterId : String) (rpcId : UInt64) (key requestData : Bytes) (clientId now : UInt64)
  | garbageCollect (masterId : String) (entries : List GCEntry)
  | getRecoveryData (masterId : String)
  | stop (masterId : String)
  | reset (masterId newMasterId : String)

def WitnessRequest.masterId : WitnessRequest → String
  | .record masterId _ _ _ _ _ => masterId
  | .garbageCollect masterId _ => masterId
  | .getRecoveryData masterId => masterId
  | .stop masterId => masterId
  | .reset masterId _ => masterId

/-- The witness after a request, whatever the reply. -/
def serve (w : Witness) : WitnessRequest → Witness
  | .record masterId rpcId key requestData clientId now =>
    (WitnessServiceImpl.record w masterId rpcId key requestData clientId now).1
  | .garbageCollect masterId entries => (WitnessServiceImpl.garbageCollect w masterId entries).1
  | .getRecoveryData masterId => (WitnessServiceImpl.getRecoveryData w masterId).1
  | .stop masterId => (WitnessServiceImpl.stop w masterId).1
  | .reset masterId newMasterId => (WitnessServiceImpl.reset w masterId newMasterId).1

end TinyKv
