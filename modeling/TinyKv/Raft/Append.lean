import TinyKv.Raft.Node

/-!
# Raft.Append

The replication functions of the node: `appendEntries` at the receiver, `sendHeartBeats` and
`handleAppendEntries` at the leader. The loops of the source are recursions of their own:

* `conflictStart` and `mergeEntries` in `AppendEntries`,
* `commitCount` and `commitScan`, which find the new commit index, and `termScan`, which finds
  where the leader backs up to, in `handleAppendEntries`.
-/

namespace TinyKv
namespace RaftNode

variable {n : Nat} {L : Type} [Log L]

/-! ## The receiver -/

/-- Walks back from `i` over the entries of term `xTerm`, not below `commitIndex`. -/
def conflictStart (nd : RaftNode n L) (xTerm : Int) : Nat → Option Nat
  | 0 => some 0
  | i + 1 =>
    if i + 1 > nd.commitIndex then do
      let e ← Log.get nd.log (nd.realLogIdx (i + 1))
      if e.term = xTerm then nd.conflictStart xTerm i else return i + 1
    else some (i + 1)

/-- The loop over the new entries, the first of which belongs at index `ridx`: up to the first
conflict or the end of the log nothing changes, from there on the new entries replace the rest. -/
def mergeEntries (log : L) (ridx : Nat) : List Entry → Option L
  | [] => some log
  | e :: es =>
    if ridx < Log.size log then do
      let cur ← Log.get log ridx
      if cur.term ≠ e.term then
        let log ← Log.truncateFrom log ridx
        (e :: es).foldlM Log.pushBack log
      else mergeEntries log (ridx + 1) es
    else if ridx = Log.size log then (e :: es).foldlM Log.pushBack log
    else mergeEntries log (ridx + 1) es

/-- The last step of `AppendEntries`: follow the leader's commit index as far as the log goes. -/
def followCommit (nd : RaftNode n L) (leaderCommit : Int) : RaftNode n L :=
  if gtU64 leaderCommit nd.commitIndex then
    if gtU64 leaderCommit nd.lastIdx then { nd with commitIndex := nd.lastIdx }
    else { nd with commitIndex := asU64 leaderCommit }
  else nd

def appendEntries (nd : RaftNode n L) (request : AppendEntriesArgs) :
    Option (RaftNode n L × AppendEntriesReply) :=
  if request.term < nd.currentTerm then some (nd, { term := nd.currentTerm, success := false })
  else
    let nd := nd.observeTerm request.term
    if ltU64 request.prevLogIndex nd.lastIncludedIndex then
      some (nd, { term := nd.currentTerm, success := true })
    else if geU64 request.prevLogIndex (nd.virtualLogIdx (Log.size nd.log)) then
      some (nd, {
        term := nd.currentTerm, success := false
        xTerm := -1, xLen := nd.virtualLogIdx (Log.size nd.log) })
    else do
      let prev := request.prevLogIndex.toNat
      let e ← Log.get nd.log (nd.realLogIdx prev)
      if e.term ≠ request.prevLogTerm then
        let i ← nd.conflictStart e.term prev
        return (nd, {
          term := nd.currentTerm, success := false
          xTerm := e.term, xIndex := i + 1, xLen := nd.virtualLogIdx (Log.size nd.log) })
      else
        let log ← mergeEntries nd.log (nd.realLogIdx prev + 1) request.entries
        return ({ nd with log := log }.followCommit request.leaderCommit,
          { term := nd.currentTerm, success := true })

/-! ## The leader -/

/-- The entries from index `start` to the end of the log. -/
def entriesFrom (log : L) (start : Nat) : Option (List Entry) :=
  (List.range' start (Log.size log - start)).mapM (Log.get log)

/-- The entries of the request that follows index `prev`; none for a mere heartbeat. -/
def newEntries (nd : RaftNode n L) (prev : Nat) : Option (List Entry) :=
  if nd.lastIdx > prev then entriesFrom nd.log (nd.realLogIdx (prev + 1)) else some []

/-- The request `SendHeartBeats` makes for node `i`; `some none` where the code would install a
snapshot instead, which it does not do yet. -/
def heartBeatArgs (nd : RaftNode n L) (i : Fin n) : Option (Option AppendEntriesArgs) :=
  let prevLogIndex : Int := nd.nextIndex i - 1
  if ltU64 prevLogIndex nd.lastIncludedIndex then some none
  else if prevLogIndex < 0 then none
  else do
    let prev := prevLogIndex.toNat
    let entries ← nd.newEntries prev
    let e ← Log.get nd.log (nd.realLogIdx prev)
    return some {
      term := nd.currentTerm
      leaderId := (nd.curNodeId : Nat)
      prevLogIndex := prevLogIndex
      prevLogTerm := e.term
      entries := entries
      leaderCommit := nd.commitIndex }

/-- One round of `SendHeartBeats`: a request for every other node. -/
def sendHeartBeats (nd : RaftNode n L) : Option (List (Fin n × AppendEntriesArgs)) :=
  if nd.role ≠ .leader then some []
  else do
    let peers := (List.finRange n).filter (· ≠ nd.curNodeId)
    let args ← peers.mapM fun i => (nd.heartBeatArgs i).map (i, ·)
    return args.filterMap fun (i, a) => a.map (i, ·)

/-- One turn of the count: node `i` holds index `N`, an entry of the current term. -/
def countPeer (nd : RaftNode n L) (N count : Nat) (i : Fin n) : Option Nat :=
  if i = nd.curNodeId then some count
  else if nd.matchIndex i ≥ N then do
    let e ← Log.get nd.log (nd.realLogIdx N)
    return if e.term = nd.currentTerm then count + 1 else count
  else some count

/-- How many nodes are known to hold index `N`, the leader included. -/
def commitCount (nd : RaftNode n L) (N : Nat) : Option Nat :=
  (List.finRange n).foldlM (nd.countPeer N) 1

/-- The largest index from `N` down to `commitIndex` that a majority holds. -/
def commitScan (nd : RaftNode n L) : Nat → Option Nat
  | 0 => some 0
  | N + 1 =>
    if N + 1 > nd.commitIndex then do
      let count ← nd.commitCount (N + 1)
      if count > n / 2 then return N + 1 else nd.commitScan N
    else some (N + 1)

/-- Walks back from `i` over the entries with a term above `xTerm`. -/
def termScan (nd : RaftNode n L) (xTerm : Int) : Nat → Option Nat
  | 0 => some 0
  | i + 1 =>
    if i + 1 > nd.lastIncludedIndex then do
      let e ← Log.get nd.log (nd.realLogIdx (i + 1))
      if e.term > xTerm then nd.termScan xTerm i else return i + 1
    else some (i + 1)

/-- `nextIndex[target_node]` after a refusal in the leader's own term. -/
def backUp (nd : RaftNode n L) (targetNode : Fin n) (reply : AppendEntriesReply) : Option Nat :=
  if reply.xTerm = -1 then
    if geU64 reply.xLen (nd.lastIncludedIndex + 1) then some (asU64 reply.xLen)
    else some nd.lastIncludedIndex
  else if nd.nextIndex targetNode = 0 then none
  else do
    let i ← nd.termScan reply.xTerm (max (nd.nextIndex targetNode - 1) nd.lastIncludedIndex)
    let e ← Log.get nd.log (nd.realLogIdx i)
    if i = nd.lastIncludedIndex ∧ e.term > reply.xTerm then return nd.lastIncludedIndex
    else if e.term = reply.xTerm then return i + 1
    else if geU64 reply.xIndex (nd.lastIncludedIndex + 1) then return asU64 reply.xIndex
    else return nd.lastIncludedIndex

/-- `handleAppendEntries` once the reply is there. -/
def handleAppendEntries (nd : RaftNode n L) (targetNode : Fin n) (args : AppendEntriesArgs)
    (reply : AppendEntriesReply) : Option (RaftNode n L) :=
  if nd.role ≠ .leader ∨ args.term ≠ nd.currentTerm then some nd
  else if reply.success then do
    let newMatchIdx := args.prevLogIndex + args.entries.length
    let matched := if gtU64 newMatchIdx (nd.matchIndex targetNode) then asU64 newMatchIdx
      else nd.matchIndex targetNode
    let nd := { nd with
      matchIndex := Function.update nd.matchIndex targetNode matched
      nextIndex := Function.update nd.nextIndex targetNode (matched + 1) }
    let N ← nd.commitScan nd.lastIdx
    return { nd with commitIndex := N }
  else if reply.term > nd.currentTerm then some (nd.becomeFollower reply.term)
  else if reply.term = nd.currentTerm then do
    let next ← nd.backUp targetNode reply
    return { nd with nextIndex := Function.update nd.nextIndex targetNode next }
  else some nd

end RaftNode
end TinyKv
