import TinyKv.Curp.Master

/-!
# Curp.Client

The client: its request ids, the operations it builds, their bytes, how it records them at the
witnesses and how it ends a write.

`CurpMasterClient` is a stub in the source; here it forwards the reply of the master, and the
outcome of its `sync` is an argument.
-/

namespace TinyKv

open Lib

/-- `config_.client_id` and the counter `next_rpc_id_`. -/
structure CurpClient where
  clientId : UInt64
  nextSeq : UInt64 := 1

def OpType.code : OpType → UInt8
  | .put => 0
  | .get => 1
  | .deleteOp => 2

/-- One configured witness, with the outcome and the time of the call made to it. -/
structure WitnessPeer where
  witness : Witness
  outcome : RpcOutcome
  now : UInt64

/-- The reply of the master as the client gets it. -/
structure ProposeResponse where
  success : Bool
  fastPath : Bool
  needSync : Bool
  result : Bytes
  error : String

def ProposeResponse.ofResult (r : ProposeResult) : ProposeResponse :=
  ⟨r.success, r.fastPath, r.needSync, [], r.error⟩

structure WriteResult where
  success : Bool
  fastPath : Bool
  rttCount : Int
  error : String
  deriving DecidableEq

/-- What a `parallel_write` leaves behind and reports, and whether it called
`send_sync_to_master`. -/
structure ParallelWrite where
  master : CurpMaster
  witnesses : List Witness
  result : WriteResult
  syncSent : Bool

namespace CurpClient

def nextRpcId (c : CurpClient) : CurpClient × UInt64 :=
  ({ c with nextSeq := c.nextSeq + 1 }, (c.clientId <<< 48) ||| c.nextSeq)

def reset (c : CurpClient) : CurpClient := { c with nextSeq := 1 }

def buildWrite (c : CurpClient) (key value : Bytes) : CurpClient × CurpOp :=
  let (c', rpcId) := c.nextRpcId
  (c', { rpcId := rpcId, clientId := c.clientId, type := .put, key := key, value := value })

def buildDelete (c : CurpClient) (key : Bytes) : CurpClient × CurpOp :=
  let (c', rpcId) := c.nextRpcId
  (c', { rpcId := rpcId, clientId := c.clientId, type := .deleteOp, key := key })

/-- The type, then the key and the value, each behind its length in four bytes. -/
def serializeRequest (op : CurpOp) : Bytes :=
  op.type.code :: (leBytes 4 op.key.length ++ op.key ++ leBytes 4 op.value.length ++ op.value)

theorem length_serializeRequest (op : CurpOp) :
    (serializeRequest op).length = op.key.length + op.value.length + 9 := by
  simp only [serializeRequest, List.length_cons, List.length_append, length_leBytes]
  omega

/-- `record_to_witnesses`: one call after the other, and how many were accepted. -/
def recordToWitnesses (c : CurpClient) (rpcId : UInt64) (key requestData : Bytes) :
    List WitnessPeer → List Witness × Nat
  | [] => ([], 0)
  | p :: ps =>
    let (w, result) :=
      WitnessClient.record p.outcome p.witness "master" rpcId key requestData c.clientId p.now
    let (ws, accepted) := c.recordToWitnesses rpcId key requestData ps
    (w :: ws, if result = .accepted then accepted + 1 else accepted)

/-- The result of `send_sync_to_master`, with what the client makes of it. -/
def afterSync (syncReply : Bool) : WriteResult × Bool :=
  if syncReply then (⟨true, false, 2, ""⟩, true) else (⟨false, false, 1, "sync failed"⟩, true)

/-- How `parallel_write` ends once the replies are there, and whether it sends a sync. -/
def finishWrite (resp : ProposeResponse) (accepted witnessCount : Nat) (syncReply : Bool) :
    WriteResult × Bool :=
  if ¬resp.success then (⟨false, false, 1, resp.error⟩, false)
  else if resp.needSync then afterSync syncReply
  else if accepted = witnessCount then (⟨true, true, 1, ""⟩, false)
  else afterSync syncReply

/-- `CurpClient::parallel_write`: the proposal and the records go out side by side. -/
def parallelWrite (c : CurpClient) (m : CurpMaster) (op : CurpOp) (peers : List WitnessPeer)
    (syncReply : Bool) : ParallelWrite :=
  let (m', reply) := m.propose op
  let (ws, accepted) := c.recordToWitnesses op.rpcId op.key (serializeRequest op) peers
  let (result, syncSent) := finishWrite (.ofResult reply) accepted peers.length syncReply
  ⟨m', ws, result, syncSent⟩

end CurpClient
end TinyKv
