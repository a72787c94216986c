import TinyKv.Raft.Election

/-!
# Raft.Roles

What a step of the cluster can do to the role and the term of a node.

* `carried s v a`: the term of the request or the reply that node `v` processes in step `a`.
* `RoleChange`: the node follows, starts an election, grants its vote or wins, and `step_role` says
  that these are all. A node that follows takes a new term from what it processes.
-/

namespace TinyKv

open Lib RaftNode

variable {n : Nat} {L : Type} [Log L]

namespace Cluster

def carried (s : Cluster n L) (v : Fin n) : Action n → Option Int
  | .requestVote k => do
    let c ← s.voteCalls[k]?
    if c.dst = v then some c.args.term else none
  | .getVoteAnswer k r => do
    let c ← s.voteCalls[k]?
    let reply ← c.replies[r]?
    if c.src = v then some reply.term else none
  | .appendEntries k => do
    let c ← s.appendCalls[k]?
    if c.dst = v then some c.args.term else none
  | .handleAppendEntries k r => do
    let c ← s.appendCalls[k]?
    let reply ← c.replies[r]?
    if c.src = v then some reply.term else none
  | .elect _ => none
  | .collectVote _ => none
  | .sendHeartBeats _ => none

inductive RoleChange (s : Cluster n L) (a : Action n) (v : Fin n) (nd' : RaftNode n L) : Prop where
  | follows (h : Follows (s.nodes v) nd')
      (hterm : nd'.currentTerm = (s.nodes v).currentTerm ∨
        s.carried v a = some nd'.currentTerm)
  | elect (ha : a = .elect v) (hrole : nd'.role = .candidate)
      (hterm : nd'.currentTerm = (s.nodes v).currentTerm + 1)
  | vote (k : Nat) (c : VoteCall n) (ha : a = .requestVote k) (hk : s.voteCalls[k]? = some c)
      (hdst : c.dst = v) (hgrants : (s.nodes v).Grants c.args) (hrole : nd'.role = .follower)
      (hterm : nd'.currentTerm = c.args.term)
  | win (hcand : (s.nodes v).role = .candidate) (hrole : nd'.role = .leader)
      (hterm : nd'.currentTerm = (s.nodes v).currentTerm)

variable {dup : Bool} {s s' : Cluster n L} {a : Action n}

theorem RoleChange.of_eq {v : Fin n} {nd' : RaftNode n L} (h : nd' = s.nodes v) :
    RoleChange s a v nd' := by
  rw [h]
  exact .follows (.refl _) (.inl rfl)

theorem RoleChange.observe {v : Fin n} {t : Int} (ht : s.carried v a = some t) :
    RoleChange s a v ((s.nodes v).observeTerm t) := by
  refine .follows (observeTerm_follows _ t) ?_
  unfold observeTerm
  split
  · exact .inr ht
  · exact .inl rfl

theorem roleChange_setNode (i : Fin n) (nd : RaftNode n L)
    (hnodes : s'.nodes = (s.setNode i nd).nodes) (h : RoleChange s a i nd) (v : Fin n) :
    RoleChange s a v (s'.nodes v) := by
  rw [hnodes]
  exact forall_setNode (P := fun v nd => RoleChange s a v nd) h (fun _ _ => .of_eq rfl) v

theorem step_role (hs : s.step dup a = some s') (v : Fin n) : RoleChange s a v (s'.nodes v) := by
  cases a with
  | elect i =>
    obtain ⟨nd, args, he, rfl⟩ := step_elect hs
    obtain ⟨_, _, hnd, _⟩ := elect_spec he
    refine roleChange_setNode (s := s) i nd rfl ?_ v
    rw [hnd]
    exact .elect rfl rfl rfl
  | requestVote k =>
    obtain ⟨c, nd, reply, hk, hr, rfl⟩ := step_requestVote hs
    have hcarried : s.carried c.dst (.requestVote k) = some c.args.term := by
      simp [carried, hk]
    refine roleChange_setNode c.dst nd rfl ?_ v
    rcases requestVote_spec hr with ⟨_, rfl | rfl⟩ | ⟨_, hgrants, rfl⟩
    · exact .of_eq rfl
    · exact .observe hcarried
    · exact .vote k c rfl hk rfl hgrants rfl rfl
  | getVoteAnswer k r =>
    obtain ⟨c, reply, nd, got, hk, hreply, _, hv, rfl⟩ := step_getVoteAnswer hs
    have hcarried : s.carried c.src (.getVoteAnswer k r) = some reply.term := by
      simp [carried, hk, hreply]
    refine roleChange_setNode c.src nd rfl ?_ v
    rcases (getVoteAnswer_spec hv).1 with rfl | rfl
    · exact .of_eq rfl
    · exact .observe hcarried
  | collectVote k =>
    obtain ⟨c, nd, count, hk, _, hv, rfl⟩ := step_collectVote hs
    refine roleChange_setNode c.src nd rfl ?_ v
    rcases (collectVote_spec hv).2.2 with rfl | ⟨hcand, _, _, rfl⟩
    · exact .of_eq rfl
    · exact .win hcand rfl rfl
  | sendHeartBeats i =>
    obtain ⟨args, _, rfl⟩ := step_sendHeartBeats hs
    exact .of_eq rfl
  | appendEntries k =>
    obtain ⟨c, nd, reply, hk, hr, rfl⟩ := step_appendEntries hs
    have hcarried : s.carried c.dst (.appendEntries k) = some c.args.term := by
      simp [carried, hk]
    refine roleChange_setNode c.dst nd rfl (.follows (appendEntries_follows hr) ?_) v
    rw [hcarried]
    exact (appendEntries_term hr).imp_right fun h => congrArg some h.symm
  | handleAppendEntries k r =>
    obtain ⟨c, reply, nd, hk, hreply, hnd, rfl⟩ := step_handleAppendEntries hs
    have hcarried : s.carried c.src (.handleAppendEntries k r) = some reply.term := by
      simp [carried, hk, hreply]
    refine roleChange_setNode c.src nd rfl (.follows (handleAppendEntries_follows hnd) ?_) v
    rcases handleAppendEntries_spec hnd with rfl | ⟨_, rfl⟩ | ⟨next, rfl⟩ | ⟨_, _, _, N, _, rfl⟩
    · exact .inl rfl
    · exact .inr hcarried
    · exact .inl rfl
    · exact .inl rfl

end Cluster
end TinyKv
