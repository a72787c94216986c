import TinyKv.Storage.Entry

/-!
# Raft.Node

The Raft node, over any implementation `L` of the log, and its election functions.

* `RaftNode n L`: node `curNodeId` of a cluster of `n`. `RaftNode.create` is the constructor.
* `elect`, `requestVote`, `getVoteAnswer`, `collectVote` are the functions of that name, each the
  part that runs under the node's lock. `none` is a failed assertion or a read outside the log.
* Terms and indices are unbounded; the code keeps them in `int` fields of messages and compares
  these with `uint64_t`, where a negative number counts as a very large one (`ltU64`, `geU64`,
  `gtU64`).

`persist` has no body and the timers only decide when a step happens; neither is modelled.
-/

namespace TinyKv

/-- The conversion in an assignment. -/
def asU64 (a : Int) : Nat := if a < 0 then (2 ^ 64 + a).toNat else a.toNat

@[simp] theorem asU64_natCast (b : Nat) : asU64 b = b := by
  unfold asU64
  split
  · omega
  · exact Int.toNat_natCast b

def ltU64 (a : Int) (b : Nat) : Prop := 0 ≤ a ∧ a < b

def geU64 (a : Int) (b : Nat) : Prop := ¬ltU64 a b

def gtU64 (a : Int) (b : Nat) : Prop := a < 0 ∨ b < a

instance (a : Int) (b : Nat) : Decidable (ltU64 a b) := inferInstanceAs (Decidable (_ ∧ _))

instance (a : Int) (b : Nat) : Decidable (geU64 a b) := inferInstanceAs (Decidable (¬_))

instance (a : Int) (b : Nat) : Decidable (gtU64 a b) := inferInstanceAs (Decidable (_ ∨ _))

structure RequestVoteArgs where
  term : Int
  candidateId : Int
  lastLogIndex : Int
  lastLogTerm : Int
  deriving DecidableEq

structure RequestVoteReply where
  term : Int := 0
  voteGranted : Bool := false
  deriving DecidableEq

structure AppendEntriesArgs where
  term : Int
  leaderId : Int
  prevLogIndex : Int
  prevLogTerm : Int
  entries : List Entry
  leaderCommit : Int
  deriving DecidableEq

structure AppendEntriesReply where
  term : Int := 0
  success : Bool := false
  xTerm : Int := 0
  xIndex : Int := 0
  xLen : Int := 0
  deriving DecidableEq

inductive RaftState where
  | follower
  | candidate
  | leader
  deriving DecidableEq

structure RaftNode (n : Nat) (L : Type) where
  curNodeId : Fin n
  currentTerm : Int
  votedFor : Int
  log : L
  nextIndex : Fin n → Nat
  matchIndex : Fin n → Nat
  role : RaftState
  commitIndex : Nat
  lastIncludedIndex : Nat

namespace RaftNode

variable {n : Nat} {L : Type}

/-- The fields as the constructor leaves them, on a given log. -/
def init (curNodeId : Fin n) (log : L) : RaftNode n L where
  curNodeId := curNodeId
  currentTerm := 0
  votedFor := -1
  log := log
  nextIndex := fun _ => 0
  matchIndex := fun _ => 0
  role := .follower
  commitIndex := 0
  lastIncludedIndex := 0

/-- What a node does when it learns of a newer term. -/
def becomeFollower (nd : RaftNode n L) (term : Int) : RaftNode n L :=
  { nd with currentTerm := term, votedFor := -1, role := .follower }

def observeTerm (nd : RaftNode n L) (term : Int) : RaftNode n L :=
  if term > nd.currentTerm then nd.becomeFollower term else nd

def virtualLogIdx (nd : RaftNode n L) (physicalIdx : Nat) : Nat :=
  physicalIdx + nd.lastIncludedIndex

def realLogIdx (nd : RaftNode n L) (virtualIdx : Nat) : Nat := virtualIdx - nd.lastIncludedIndex

variable [Log L]

/-- `RaftNode::RaftNode`: the log found in the directory, and one more empty entry. -/
def create (curNodeId : Fin n) (log : L) : Option (RaftNode n L) := do
  let log ← Log.pushBack log {}
  return init curNodeId log

def lastIdx (nd : RaftNode n L) : Nat := nd.virtualLogIdx (Log.size nd.log - 1)

/-- `log.rbegin()->term()`. -/
def lastTerm (nd : RaftNode n L) : Option Int :=
  (Log.get nd.log (Log.size nd.log - 1)).map Entry.term

/-! ## Elections -/

/-- `Elect`, up to the requests it sends; its vote counter starts at 1. -/
def elect (nd : RaftNode n L) : Option (RaftNode n L × RequestVoteArgs) := do
  let last ← nd.lastTerm
  let nd' := { nd with
    currentTerm := nd.currentTerm + 1, role := .candidate, votedFor := (nd.curNodeId : Nat) }
  return (nd', {
    term := nd'.currentTerm
    candidateId := (nd.curNodeId : Nat)
    lastLogIndex := nd.lastIdx
    lastLogTerm := last })

/-- The comparison of the two logs in `RequestVote`. -/
def upToDate (request : RequestVoteArgs) (last : Int) (lastIdx : Nat) : Prop :=
  request.lastLogTerm > last ∨
    (request.lastLogTerm = last ∧ geU64 request.lastLogIndex lastIdx)

instance (request : RequestVoteArgs) (last : Int) (lastIdx : Nat) :
    Decidable (upToDate request last lastIdx) := inferInstanceAs (Decidable (_ ∨ _))

def requestVote (nd : RaftNode n L) (request : RequestVoteArgs) :
    Option (RaftNode n L × RequestVoteReply) :=
  if request.term < nd.currentTerm then
    some (nd, { term := nd.currentTerm, voteGranted := false })
  else
    let nd' := nd.observeTerm request.term
    if nd'.votedFor = -1 ∨ nd'.votedFor = request.candidateId then do
      let last ← nd'.lastTerm
      if upToDate request last nd'.lastIdx then
        return ({ nd' with
          currentTerm := request.term, votedFor := request.candidateId, role := .follower },
          { term := request.term, voteGranted := true })
      else
        return (nd', { term := nd'.currentTerm, voteGranted := false })
    else some (nd', { term := nd'.currentTerm, voteGranted := false })

/-- `RaftServiceImpl::GetVoteAnswer` once the reply is there. -/
def getVoteAnswer (nd : RaftNode n L) (request : RequestVoteArgs) (reply : RequestVoteReply) :
    RaftNode n L × Bool :=
  if nd.role ≠ .candidate ∨ request.term ≠ nd.currentTerm then (nd, false)
  else if reply.term > nd.currentTerm then (nd.becomeFollower reply.term, reply.voteGranted)
  else (nd, reply.voteGranted)

/-- `collectVote` after a granted answer; `voteCount` is the counter of this election. -/
def collectVote (nd : RaftNode n L) (args : RequestVoteArgs) (voteCount : Nat) :
    RaftNode n L × Nat :=
  if voteCount > n / 2 then (nd, voteCount)
  else if voteCount + 1 > n / 2 then
    if nd.role ≠ .candidate ∨ nd.currentTerm ≠ args.term then (nd, voteCount + 1)
    else
      ({ nd with
        role := .leader
        nextIndex := fun _ => nd.virtualLogIdx (Log.size nd.log)
        matchIndex := fun _ => nd.lastIncludedIndex }, voteCount + 1)
  else (nd, voteCount + 1)

end RaftNode

end TinyKv
