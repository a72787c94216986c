import TinyKv.Raft.LogSpec
import TinyKv.Raft.Roles

/-!
# Raft.Terms

The terms that nodes and messages are of.

* A reply is of the term that the node has after it, and a heart beat of the leader's.
* `TermsIn P`: all these terms satisfy `P`. `TermsIn.step`: only an election makes a term that is
  nowhere in the cluster.
-/

namespace TinyKv

open Lib RaftNode

variable {n : Nat} {L : Type}

section Node

variable [Log L]

theorem RaftNode.requestVote_reply {nd nd' : RaftNode n L} {request : RequestVoteArgs}
    {reply : RequestVoteReply} (h : nd.requestVote request = some (nd', reply)) :
    reply.term = nd'.currentTerm := by
  unfold requestVote at h
  split at h
  · cases h
    rfl
  · simp only at h
    split at h
    · simp only [Option.bind_eq_bind, Option.bind_eq_some_iff] at h
      obtain ⟨last, _, h⟩ := h
      split at h
      · cases h
        rfl
      · cases h
        rfl
    · cases h
      rfl

theorem RaftNode.appendEntries_reply {nd nd' : RaftNode n L} {request : AppendEntriesArgs}
    {reply : AppendEntriesReply} (h : nd.appendEntries request = some (nd', reply)) :
    reply.term = nd'.currentTerm := by
  unfold appendEntries at h
  split at h
  · cases h
    rfl
  · simp only at h
    split at h
    · cases h
      rfl
    · split at h
      · cases h
        rfl
      · simp only [Option.bind_eq_bind, Option.bind_eq_some_iff] at h
        obtain ⟨e, _, h⟩ := h
        split at h
        · simp only [Option.bind_eq_some_iff, Option.pure_def, Option.some.injEq,
            Prod.mk.injEq] at h
          obtain ⟨_, _, rfl, rfl⟩ := h
          rfl
        · simp only [Option.bind_eq_some_iff, Option.pure_def, Option.some.injEq,
            Prod.mk.injEq] at h
          obtain ⟨log, _, rfl, rfl⟩ := h
          rw [followCommit_term]

theorem RaftNode.heartBeatArgs_term {nd : RaftNode n L} {i : Fin n} {args : AppendEntriesArgs}
    (h : nd.heartBeatArgs i = some (some args)) : args.term = nd.currentTerm := by
  unfold heartBeatArgs at h
  simp only at h
  split at h
  · cases h
  · split at h
    · cases h
    · simp only [Option.bind_eq_bind, Option.bind_eq_some_iff, Option.pure_def,
        Option.some.injEq] at h
      obtain ⟨_, _, _, _, rfl⟩ := h
      rfl

theorem RaftNode.sendHeartBeats_term {nd : RaftNode n L} {calls : List (Fin n × AppendEntriesArgs)}
    (h : nd.sendHeartBeats = some calls) : ∀ p ∈ calls, p.2.term = nd.currentTerm := by
  intro p hp
  unfold sendHeartBeats at h
  split at h
  · cases h
    cases hp
  · simp only [Option.bind_eq_bind, Option.bind_eq_some_iff, Option.pure_def,
      Option.some.injEq] at h
    obtain ⟨args, hargs, rfl⟩ := h
    obtain ⟨⟨j, a⟩, hmem, ha⟩ := List.mem_filterMap.mp hp
    obtain ⟨b, rfl, rfl⟩ := Option.map_eq_some_iff.mp ha
    obtain ⟨i, _, hb⟩ := exists_of_mem_mapM hargs _ hmem
    obtain ⟨b', hb', heq⟩ := Option.map_eq_some_iff.mp hb
    obtain ⟨rfl, rfl⟩ := Prod.mk.inj heq
    exact heartBeatArgs_term hb'

end Node

def VoteCall.TermsIn (P : Int → Prop) (c : VoteCall n) : Prop :=
  P c.args.term ∧ ∀ r ∈ c.replies, P r.term

def AppendCall.TermsIn (P : Int → Prop) (c : AppendCall n) : Prop :=
  P c.args.term ∧ ∀ r ∈ c.replies, P r.term

namespace Cluster

/-- The terms of the nodes and of all messages satisfy `P`. -/
structure TermsIn (P : Int → Prop) (s : Cluster n L) : Prop where
  nodes : ∀ i, P (s.nodes i).currentTerm
  voteCalls : ∀ c ∈ s.voteCalls, c.TermsIn P
  appendCalls : ∀ c ∈ s.appendCalls, c.TermsIn P

variable {P Q : Int → Prop} {dup : Bool} {s s' : Cluster n L} {a : Action n}

theorem TermsIn.mono (h : s.TermsIn P) (hPQ : ∀ t, P t → Q t) : s.TermsIn Q where
  nodes := fun i => hPQ _ (h.nodes i)
  voteCalls := by
    intro c hc
    obtain ⟨hargs, hreplies⟩ := h.voteCalls c hc
    exact ⟨hPQ _ hargs, fun r hr => hPQ _ (hreplies r hr)⟩
  appendCalls := by
    intro c hc
    obtain ⟨hargs, hreplies⟩ := h.appendCalls c hc
    exact ⟨hPQ _ hargs, fun r hr => hPQ _ (hreplies r hr)⟩

theorem TermsIn.carried (h : s.TermsIn P) {v : Fin n} {t : Int} (ht : s.carried v a = some t) :
    P t := by
  cases a with
  | requestVote k =>
    simp only [Cluster.carried, Option.bind_eq_bind, Option.bind_eq_some_iff] at ht
    obtain ⟨c, hk, ht⟩ := ht
    obtain ⟨_, ht⟩ := Option.ite_none_right_eq_some.mp ht
    cases ht
    exact (h.voteCalls c (List.mem_of_getElem? hk)).1
  | getVoteAnswer k r =>
    simp only [Cluster.carried, Option.bind_eq_bind, Option.bind_eq_some_iff] at ht
    obtain ⟨c, hk, reply, hr, ht⟩ := ht
    obtain ⟨_, ht⟩ := Option.ite_none_right_eq_some.mp ht
    cases ht
    exact (h.voteCalls c (List.mem_of_getElem? hk)).2 reply (List.mem_of_getElem? hr)
  | appendEntries k =>
    simp only [Cluster.carried, Option.bind_eq_bind, Option.bind_eq_some_iff] at ht
    obtain ⟨c, hk, ht⟩ := ht
    obtain ⟨_, ht⟩ := Option.ite_none_right_eq_some.mp ht
    cases ht
    exact (h.appendCalls c (List.mem_of_getElem? hk)).1
  | handleAppendEntries k r =>
    simp only [Cluster.carried, Option.bind_eq_bind, Option.bind_eq_some_iff] at ht
    obtain ⟨c, hk, reply, hr, ht⟩ := ht
    obtain ⟨_, ht⟩ := Option.ite_none_right_eq_some.mp ht
    cases ht
    exact (h.appendCalls c (List.mem_of_getElem? hk)).2 reply (List.mem_of_getElem? hr)
  | elect i => cases ht
  | collectVote k => cases ht
  | sendHeartBeats i => cases ht

variable [Log L]

theorem TermsIn.step_nodes (h : s.TermsIn P)
    (helect : ∀ i, a = .elect i → P ((s.nodes i).currentTerm + 1))
    (hs : s.step dup a = some s') (v : Fin n) : P (s'.nodes v).currentTerm := by
  cases step_role hs v with
  | follows hf hterm =>
    cases hterm with
    | inl hsame =>
      rw [hsame]
      exact h.nodes v
    | inr hcarried => exact h.carried hcarried
  | elect ha hrole hterm =>
    rw [hterm]
    exact helect v ha
  | vote k c ha hk hdst hgrants hrole hterm =>
    rw [hterm]
    exact (h.voteCalls c (List.mem_of_getElem? hk)).1
  | win hcand hrole hterm =>
    rw [hterm]
    exact h.nodes v

/-- Only an election makes a term that is nowhere in the cluster. -/
theorem TermsIn.step (h : s.TermsIn P)
    (helect : ∀ i, a = .elect i → P ((s.nodes i).currentTerm + 1))
    (hs : s.step dup a = some s') : s'.TermsIn P := by
  have hnodes : ∀ v, P (s'.nodes v).currentTerm := h.step_nodes helect hs
  cases a with
  | elect i =>
    obtain ⟨nd, args, he, rfl⟩ := step_elect hs
    obtain ⟨_, _, _, rfl⟩ := elect_spec he
    refine ⟨hnodes, List.forall_mem_append.mpr ⟨h.voteCalls, ?_⟩, h.appendCalls⟩
    intro c hc
    obtain ⟨_, _, hargs, hreplies, _⟩ := mem_voteCallsOf i hc
    rw [VoteCall.TermsIn, hargs, hreplies]
    exact ⟨helect i rfl, List.forall_mem_nil _⟩
  | requestVote k =>
    obtain ⟨c, nd, reply, hk, hr, rfl⟩ := step_requestVote hs
    obtain ⟨hargs, hreplies⟩ := h.voteCalls c (List.mem_of_getElem? hk)
    have hreply : P reply.term := by
      have hnode := hnodes c.dst
      rw [setVoteCall_nodes, setNode_self] at hnode
      rwa [requestVote_reply hr]
    refine ⟨hnodes, forall_mem_set h.voteCalls ⟨hargs, ?_⟩, h.appendCalls⟩
    exact List.forall_mem_append.mpr ⟨hreplies, List.forall_mem_singleton.mpr hreply⟩
  | getVoteAnswer k r =>
    obtain ⟨c, reply, nd, got, hk, _, _, _, rfl⟩ := step_getVoteAnswer hs
    have hcall := h.voteCalls c (List.mem_of_getElem? hk)
    exact ⟨hnodes, forall_mem_set h.voteCalls hcall, h.appendCalls⟩
  | collectVote k =>
    obtain ⟨c, nd, count, hk, _, _, rfl⟩ := step_collectVote hs
    have hcall := h.voteCalls c (List.mem_of_getElem? hk)
    exact ⟨hnodes, forall_mem_set h.voteCalls hcall, h.appendCalls⟩
  | sendHeartBeats i =>
    obtain ⟨args, ha, rfl⟩ := step_sendHeartBeats hs
    refine ⟨hnodes, h.voteCalls, List.forall_mem_append.mpr ⟨h.appendCalls, ?_⟩⟩
    intro c hc
    obtain ⟨p, hp, rfl⟩ := List.mem_map.mp hc
    refine ⟨?_, List.forall_mem_nil _⟩
    rw [sendHeartBeats_term ha p hp]
    exact h.nodes i
  | appendEntries k =>
    obtain ⟨c, nd, reply, hk, hr, rfl⟩ := step_appendEntries hs
    obtain ⟨hargs, hreplies⟩ := h.appendCalls c (List.mem_of_getElem? hk)
    have hreply : P reply.term := by
      have hnode := hnodes c.dst
      rw [setAppendCall_nodes, setNode_self] at hnode
      rwa [appendEntries_reply hr]
    refine ⟨hnodes, h.voteCalls, forall_mem_set h.appendCalls ⟨hargs, ?_⟩⟩
    exact List.forall_mem_append.mpr ⟨hreplies, List.forall_mem_singleton.mpr hreply⟩
  | handleAppendEntries k r =>
    obtain ⟨c, reply, nd, hk, _, _, rfl⟩ := step_handleAppendEntries hs
    have hcall := h.appendCalls c (List.mem_of_getElem? hk)
    exact ⟨hnodes, h.voteCalls, forall_mem_set h.appendCalls hcall⟩

end Cluster
end TinyKv
