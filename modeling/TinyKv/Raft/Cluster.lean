import TinyKv.Lib.Run
import TinyKv.Lib.Table
import TinyKv.Raft.Append

/-!
# Raft.Cluster

A cluster of `n` Raft nodes and the RPC calls between them.

* A call stays in its table from the moment it is made: its request may be delivered at any time,
  any number of times or never, and every delivery adds a reply. Requests and replies are so
  delayed, reordered and lost.
* A reply is handled by the thread that made the call. With `dup = false` a thread handles one
  reply, as the RPC layer guarantees; with `dup = true` it may handle replies again and again.
* `getVoteAnswer` and `collectVote` take the lock one after the other, so that other steps may fall
  between them; `VoteCall.phase` says how far the thread has come.
* `Elect` makes a vote counter for its own threads. It also raises the term, so the counter is
  named by the node and the term of the election.

`step` is `none` where the action is not enabled.
-/

namespace TinyKv

open Lib

inductive VotePhase where
  | waiting
  | granted
  | finished
  deriving DecidableEq

structure VoteCall (n : Nat) where
  src : Fin n
  dst : Fin n
  args : RequestVoteArgs
  replies : List RequestVoteReply := []
  phase : VotePhase := .waiting

structure AppendCall (n : Nat) where
  src : Fin n
  dst : Fin n
  args : AppendEntriesArgs
  replies : List AppendEntriesReply := []
  answered : Bool := false

structure Cluster (n : Nat) (L : Type) where
  nodes : Fin n → RaftNode n L
  voteCount : Fin n → Int → Nat
  voteCalls : List (VoteCall n)
  appendCalls : List (AppendCall n)

inductive Action (n : Nat) where
  | elect (i : Fin n)
  | requestVote (k : Nat)
  | getVoteAnswer (k r : Nat)
  | collectVote (k : Nat)
  | sendHeartBeats (i : Fin n)
  | appendEntries (k : Nat)
  | handleAppendEntries (k r : Nat)

namespace Cluster

variable {n : Nat} {L : Type}

/-- Newly constructed nodes on the given logs. -/
def init (logs : Fin n → L) : Cluster n L where
  nodes i := RaftNode.init i (logs i)
  voteCount _ _ := 0
  voteCalls := []
  appendCalls := []

def setNode (s : Cluster n L) (i : Fin n) (nd : RaftNode n L) : Cluster n L :=
  { s with nodes := Function.update s.nodes i nd }

def setCount (s : Cluster n L) (i : Fin n) (term : Int) (count : Nat) : Cluster n L :=
  { s with
    voteCount := Function.update s.voteCount i (Function.update (s.voteCount i) term count) }

def setVoteCall (s : Cluster n L) (k : Nat) (c : VoteCall n) : Cluster n L :=
  { s with voteCalls := s.voteCalls.set k c }

def setAppendCall (s : Cluster n L) (k : Nat) (c : AppendCall n) : Cluster n L :=
  { s with appendCalls := s.appendCalls.set k c }

def addVoteCalls (s : Cluster n L) (cs : List (VoteCall n)) : Cluster n L :=
  { s with voteCalls := s.voteCalls ++ cs }

def addAppendCalls (s : Cluster n L) (cs : List (AppendCall n)) : Cluster n L :=
  { s with appendCalls := s.appendCalls ++ cs }

/-- The threads `Elect` starts, one for every other node. -/
def voteCallsOf (i : Fin n) (args : RequestVoteArgs) : List (VoteCall n) :=
  ((List.finRange n).filter (· ≠ i)).map fun j => { src := i, dst := j, args := args }

def appendCallsOf (i : Fin n) (args : List (Fin n × AppendEntriesArgs)) : List (AppendCall n) :=
  args.map fun (j, a) => { src := i, dst := j, args := a }

variable [Log L]

def step (dup : Bool) (s : Cluster n L) : Action n → Option (Cluster n L)
  | .elect i => do
    let (nd, args) ← (s.nodes i).elect
    return ((s.setNode i nd).setCount i args.term 1).addVoteCalls (voteCallsOf i args)
  | .requestVote k => do
    let c ← s.voteCalls[k]?
    let (nd, reply) ← (s.nodes c.dst).requestVote c.args
    return (s.setNode c.dst nd).setVoteCall k { c with replies := c.replies ++ [reply] }
  | .getVoteAnswer k r => do
    let c ← s.voteCalls[k]?
    let reply ← c.replies[r]?
    if dup ∨ c.phase = .waiting then
      let (nd, getVote) := (s.nodes c.src).getVoteAnswer c.args reply
      let phase := if getVote then .granted else .finished
      return (s.setNode c.src nd).setVoteCall k { c with phase := phase }
    else none
  | .collectVote k => do
    let c ← s.voteCalls[k]?
    if c.phase = .granted then
      let (nd, count) := (s.nodes c.src).collectVote c.args (s.voteCount c.src c.args.term)
      return ((s.setNode c.src nd).setCount c.src c.args.term count).setVoteCall k
        { c with phase := .finished }
    else none
  | .sendHeartBeats i => do
    let args ← (s.nodes i).sendHeartBeats
    return s.addAppendCalls (appendCallsOf i args)
  | .appendEntries k => do
    let c ← s.appendCalls[k]?
    let (nd, reply) ← (s.nodes c.dst).appendEntries c.args
    return (s.setNode c.dst nd).setAppendCall k { c with replies := c.replies ++ [reply] }
  | .handleAppendEntries k r => do
    let c ← s.appendCalls[k]?
    let reply ← c.replies[r]?
    if dup ∨ ¬c.answered then
      let nd ← (s.nodes c.src).handleAppendEntries c.dst c.args reply
      return (s.setNode c.src nd).setAppendCall k { c with answered := true }
    else none

section Frame

variable (s : Cluster n L) (i j : Fin n) (nd : RaftNode n L) (t u : Int) (count k : Nat)
  (vc : VoteCall n) (vcs : List (VoteCall n)) (ac : AppendCall n) (acs : List (AppendCall n))

omit [Log L]

@[simp] theorem setNode_self : (s.setNode i nd).nodes i = nd := Function.update_self ..

theorem setNode_ne {i j : Fin n} (h : j ≠ i) : (s.setNode i nd).nodes j = s.nodes j :=
  Function.update_of_ne h ..

theorem setNode_nodes : (s.setNode i nd).nodes j = if j = i then nd else s.nodes j :=
  Function.update_apply ..

theorem forall_setNode {s : Cluster n L} {i : Fin n} {nd : RaftNode n L}
    {P : Fin n → RaftNode n L → Prop} (hi : P i nd) (h : ∀ j, j ≠ i → P j (s.nodes j)) (j : Fin n) :
    P j ((s.setNode i nd).nodes j) := by
  by_cases hj : j = i
  · rw [hj, setNode_self]
    exact hi
  · rw [setNode_ne _ _ hj]
    exact h j hj

@[simp] theorem setNode_voteCount : (s.setNode i nd).voteCount = s.voteCount := rfl

@[simp] theorem setNode_voteCalls : (s.setNode i nd).voteCalls = s.voteCalls := rfl

@[simp] theorem setNode_appendCalls : (s.setNode i nd).appendCalls = s.appendCalls := rfl

@[simp] theorem setCount_nodes : (s.setCount i t count).nodes = s.nodes := rfl

@[simp] theorem setCount_voteCalls : (s.setCount i t count).voteCalls = s.voteCalls := rfl

@[simp] theorem setCount_appendCalls : (s.setCount i t count).appendCalls = s.appendCalls := rfl

theorem setCount_voteCount : (s.setCount i t count).voteCount j u =
    if j = i ∧ u = t then count else s.voteCount j u := by
  by_cases hj : j = i
  · subst hj
    simp [setCount, Function.update_apply]
  · simp [setCount, Function.update_of_ne, hj]

@[simp] theorem setVoteCall_nodes : (s.setVoteCall k vc).nodes = s.nodes := rfl

@[simp] theorem setVoteCall_voteCount : (s.setVoteCall k vc).voteCount = s.voteCount := rfl

@[simp] theorem setVoteCall_voteCalls :
    (s.setVoteCall k vc).voteCalls = s.voteCalls.set k vc := rfl

@[simp] theorem setVoteCall_appendCalls : (s.setVoteCall k vc).appendCalls = s.appendCalls := rfl

@[simp] theorem setAppendCall_nodes : (s.setAppendCall k ac).nodes = s.nodes := rfl

@[simp] theorem setAppendCall_voteCount : (s.setAppendCall k ac).voteCount = s.voteCount := rfl

@[simp] theorem setAppendCall_voteCalls : (s.setAppendCall k ac).voteCalls = s.voteCalls := rfl

@[simp] theorem setAppendCall_appendCalls :
    (s.setAppendCall k ac).appendCalls = s.appendCalls.set k ac := rfl

@[simp] theorem addVoteCalls_nodes : (s.addVoteCalls vcs).nodes = s.nodes := rfl

@[simp] theorem addVoteCalls_voteCount : (s.addVoteCalls vcs).voteCount = s.voteCount := rfl

@[simp] theorem addVoteCalls_voteCalls :
    (s.addVoteCalls vcs).voteCalls = s.voteCalls ++ vcs := rfl

@[simp] theorem addVoteCalls_appendCalls :
    (s.addVoteCalls vcs).appendCalls = s.appendCalls := rfl

@[simp] theorem addAppendCalls_nodes : (s.addAppendCalls acs).nodes = s.nodes := rfl

@[simp] theorem addAppendCalls_voteCount : (s.addAppendCalls acs).voteCount = s.voteCount := rfl

@[simp] theorem addAppendCalls_voteCalls : (s.addAppendCalls acs).voteCalls = s.voteCalls := rfl

@[simp] theorem addAppendCalls_appendCalls :
    (s.addAppendCalls acs).appendCalls = s.appendCalls ++ acs := rfl

theorem mem_voteCallsOf {c : VoteCall n} {args : RequestVoteArgs}
    (h : c ∈ voteCallsOf i args) : c.src = i ∧ c.dst ≠ i ∧ c.args = args ∧ c.replies = [] ∧
      c.phase = .waiting := by
  simp only [voteCallsOf, List.mem_map, List.mem_filter, List.mem_finRange, true_and,
    decide_eq_true_eq] at h
  obtain ⟨j, hj, rfl⟩ := h
  exact ⟨rfl, hj, rfl, rfl, rfl⟩

end Frame

/-! ## What a step does -/

variable {dup : Bool} {s s' : Cluster n L}

theorem step_elect {i : Fin n} (h : s.step dup (.elect i) = some s') :
    ∃ nd args, (s.nodes i).elect = some (nd, args) ∧
      s' = ((s.setNode i nd).setCount i args.term 1).addVoteCalls (voteCallsOf i args) := by
  simp only [step, Option.bind_eq_bind, Option.bind_eq_some_iff, Option.pure_def,
    Option.some.injEq, Prod.exists] at h
  obtain ⟨nd, args, he, rfl⟩ := h
  exact ⟨nd, args, he, rfl⟩

theorem step_requestVote {k : Nat} (h : s.step dup (.requestVote k) = some s') :
    ∃ c nd reply, s.voteCalls[k]? = some c ∧
      (s.nodes c.dst).requestVote c.args = some (nd, reply) ∧
      s' = (s.setNode c.dst nd).setVoteCall k { c with replies := c.replies ++ [reply] } := by
  simp only [step, Option.bind_eq_bind, Option.bind_eq_some_iff, Option.pure_def,
    Option.some.injEq, Prod.exists] at h
  obtain ⟨c, hc, nd, reply, hr, rfl⟩ := h
  exact ⟨c, nd, reply, hc, hr, rfl⟩

theorem step_getVoteAnswer {k r : Nat} (h : s.step dup (.getVoteAnswer k r) = some s') :
    ∃ c reply nd got, s.voteCalls[k]? = some c ∧ c.replies[r]? = some reply ∧
      (dup ∨ c.phase = .waiting) ∧ (s.nodes c.src).getVoteAnswer c.args reply = (nd, got) ∧
      s' = (s.setNode c.src nd).setVoteCall k
        { c with phase := if got then .granted else .finished } := by
  simp only [step, Option.bind_eq_bind, Option.bind_eq_some_iff, Option.pure_def] at h
  obtain ⟨c, hc, reply, hr, h⟩ := h
  split at h
  · rename_i hp
    cases h
    exact ⟨c, reply, _, _, hc, hr, hp, rfl, rfl⟩
  · cases h

theorem step_collectVote {k : Nat} (h : s.step dup (.collectVote k) = some s') :
    ∃ c nd count, s.voteCalls[k]? = some c ∧ c.phase = .granted ∧
      (s.nodes c.src).collectVote c.args (s.voteCount c.src c.args.term) = (nd, count) ∧
      s' = ((s.setNode c.src nd).setCount c.src c.args.term count).setVoteCall k
        { c with phase := .finished } := by
  simp only [step, Option.bind_eq_bind, Option.bind_eq_some_iff, Option.pure_def] at h
  obtain ⟨c, hc, h⟩ := h
  split at h
  · rename_i hp
    cases h
    exact ⟨c, _, _, hc, hp, rfl, rfl⟩
  · cases h

theorem step_sendHeartBeats {i : Fin n} (h : s.step dup (.sendHeartBeats i) = some s') :
    ∃ args, (s.nodes i).sendHeartBeats = some args ∧
      s' = s.addAppendCalls (appendCallsOf i args) := by
  simp only [step, Option.bind_eq_bind, Option.bind_eq_some_iff, Option.pure_def,
    Option.some.injEq] at h
  obtain ⟨args, ha, rfl⟩ := h
  exact ⟨args, ha, rfl⟩

theorem step_appendEntries {k : Nat} (h : s.step dup (.appendEntries k) = some s') :
    ∃ c nd reply, s.appendCalls[k]? = some c ∧
      (s.nodes c.dst).appendEntries c.args = some (nd, reply) ∧
      s' = (s.setNode c.dst nd).setAppendCall k { c with replies := c.replies ++ [reply] } := by
  simp only [step, Option.bind_eq_bind, Option.bind_eq_some_iff, Option.pure_def,
    Option.some.injEq, Prod.exists] at h
  obtain ⟨c, hc, nd, reply, hr, rfl⟩ := h
  exact ⟨c, nd, reply, hc, hr, rfl⟩

theorem step_handleAppendEntries {k r : Nat}
    (h : s.step dup (.handleAppendEntries k r) = some s') :
    ∃ c reply nd, s.appendCalls[k]? = some c ∧ c.replies[r]? = some reply ∧
      (s.nodes c.src).handleAppendEntries c.dst c.args reply = some nd ∧
      s' = (s.setNode c.src nd).setAppendCall k { c with answered := true } := by
  simp only [step, Option.bind_eq_bind, Option.bind_eq_some_iff, Option.pure_def] at h
  obtain ⟨c, hc, reply, hr, h⟩ := h
  split at h
  · simp only [Option.bind_eq_some_iff, Option.some.injEq] at h
    obtain ⟨nd, hnd, rfl⟩ := h
    exact ⟨c, reply, nd, hc, hr, hnd, rfl⟩
  · cases h

end Cluster
end TinyKv
