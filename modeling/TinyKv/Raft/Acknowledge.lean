import TinyKv.Raft.Roles
import TinyKv.Raft.Steps

/-!
# Raft.Acknowledge

Whether a node that has acknowledged a leader is its follower.

`AppendEntries` makes the receiver a follower only when it moves on to the term of the request. A
node that is in the term already keeps its role: a candidate acknowledges the leader and stays a
candidate.

* `ReadyToAck`: a request of the node's own term that matches its log meets a follower.
* `followsAcked_iff`: acknowledged leaders are followed all along a run exactly if its steps are
  ready so.
-/

namespace TinyKv

open Lib RaftNode

variable {n : Nat}

namespace Cluster

variable {dup : Bool} {s s' : Cluster n (List Entry)} {a : Action n}

/-- A node that has acknowledged a leader of its term is a follower. -/
def FollowsAcked (s : Cluster n (List Entry)) : Prop :=
  ∀ v T, s.Acked v T → (s.nodes v).currentTerm = T → (s.nodes v).role = .follower

def ReadyToAck (s : Cluster n (List Entry)) : Action n → Prop
  | .appendEntries k => ∀ c, s.appendCalls[k]? = some c →
      c.args.term = (s.nodes c.dst).currentTerm → (s.nodes c.dst).Matches c.args →
      (s.nodes c.dst).role = .follower
  | _ => True

/-- No node acknowledges a term that it has not reached. -/
structure AckInv (s : Cluster n (List Entry)) : Prop where
  term : ∀ v T, s.Acked v T → T ≤ (s.nodes v).currentTerm
  follows : s.FollowsAcked

theorem init_ackInv (logs : Fin n → List Entry) : (init logs).AckInv where
  term := fun v T ⟨c, hc, _⟩ => by cases hc
  follows := fun v T ⟨c, hc, _⟩ => by cases hc

theorem follower_stays (hs : s.step dup a = some s') {v : Fin n}
    (hterm : (s'.nodes v).currentTerm = (s.nodes v).currentTerm)
    (hrole : (s.nodes v).role = .follower) : (s'.nodes v).role = .follower := by
  cases step_role hs v with
  | follows hf _ => exact (hf.stays hterm).trans hrole
  | elect _ _ hup => omega
  | vote k c _ _ _ _ hfollower => exact hfollower
  | win hcand =>
    rw [hrole] at hcand
    cases hcand

theorem step_term (hs : s.step dup a = some s') (v : Fin n) :
    (s.nodes v).currentTerm ≤ (s'.nodes v).currentTerm := by
  cases step_role hs v with
  | follows hf _ => exact hf.term
  | elect _ _ hup => omega
  | vote k c _ _ _ hgrants _ hterm => exact hterm ▸ hgrants.term
  | win _ _ hterm => exact Int.le_of_eq hterm.symm

theorem step_ackInv (h : s.AckInv) (hready : s.ReadyToAck a) (hs : s.step dup a = some s') :
    s'.AckInv := by
  constructor
  · intro v T hv
    rcases acked_new hs hv with hv | ⟨k, c, nd, reply, rfl, _, _, rfl, hr, hyes, hnd⟩
    · exact Int.le_trans (h.term v T hv) (step_term hs v)
    · rw [hnd, appendEntries_success_term hr hyes]
  · intro v T hv hT
    rcases acked_new hs hv with hv | ⟨k, c, nd, reply, rfl, hk, rfl, rfl, hr, hyes, hnd⟩
    · have hle := h.term v T hv
      have hup := step_term hs v
      have hsame : (s.nodes v).currentTerm = T := by omega
      exact follower_stays hs (hT.trans hsame.symm) (h.follows v T hv hsame)
    · have hf := appendEntries_follows hr
      rw [hnd] at hT ⊢
      by_cases hsame : c.args.term = (s.nodes c.dst).currentTerm
      · have hmatches := (appendEntries_success_iff hr (Int.le_of_eq hsame.symm)).mp hyes
        exact (hf.stays (hT.trans hsame)).trans (hready c hk hsame hmatches)
      · -- the node has just moved on to the term of the request
        by_contra hne
        exact hsame (hT.symm.trans (hf.role hne).2)

theorem readyToAck_of_follows (h : s'.FollowsAcked) (hs : s.step dup a = some s') :
    s.ReadyToAck a := by
  cases a with
  | appendEntries k =>
    intro c hc hsame hmatches
    obtain ⟨c', nd, reply, hk, hr, rfl⟩ := step_appendEntries hs
    obtain rfl : c' = c := Option.some.inj (hk.symm.trans hc)
    have hyes := (appendEntries_success_iff hr (Int.le_of_eq hsame.symm)).mpr hmatches
    have hterm := appendEntries_success_term hr hyes
    have hacked : ((s.setNode c'.dst nd).setAppendCall k
        { c' with replies := c'.replies ++ [reply] }).Acked c'.dst c'.args.term :=
      (acked_setCall (s := s.setNode c'.dst nd) hk).mpr (.inr ⟨rfl, rfl, hyes⟩)
    have hrole := h c'.dst c'.args.term hacked
    rw [setAppendCall_nodes, setNode_self] at hrole
    rw [← (appendEntries_follows hr).stays (hterm.trans hsame)]
    exact hrole hterm
  | elect i => trivial
  | requestVote k => trivial
  | getVoteAnswer k r => trivial
  | collectVote k => trivial
  | sendHeartBeats i => trivial
  | handleAppendEntries k r => trivial

/-- **Acknowledged leaders are followed** in every state of a run iff each request of a node's own
term that it acknowledges finds it a follower. -/
theorem followsAcked_iff (dup : Bool) (logs : Fin n → List Entry) (as : List (Action n)) :
    Along (fun _ _ s' => s'.FollowsAcked) (step dup) as (init logs) ↔
      Along (fun s a _ => s.ReadyToAck a) (step dup) as (init logs) := by
  refine along_congr (I := AckInv) ?_ ?_ (init_ackInv logs)
  · intro s a s' h hs
    exact ⟨fun hf => readyToAck_of_follows hf hs, fun hready => (step_ackInv h hready hs).follows⟩
  · intro s a s' h hready hs
    exact step_ackInv h hready hs

/-- Nodes 0 and 1 are candidates of term 1, node 0 wins, and node 1 acknowledges it. -/
theorem candidate_acks : ∃ s : Cluster 3 (List Entry),
    Reaches (step false) (init fun _ => [{}]) s ∧ s.Acked 1 1 ∧ (s.nodes 1).currentTerm = 1 ∧
      (s.nodes 1).role = .candidate := by
  have hrun : ((runs (step false) [.elect 0, .elect 1, .requestVote 1, .getVoteAnswer 1 0,
      .collectVote 1, .sendHeartBeats 0, .appendEntries 0]
      (init (fun _ => [{}] : Fin 3 → List Entry))).any fun s =>
        decide ((s.appendCalls[0]?.any fun c =>
            c.dst = 1 ∧ c.args.term = 1 ∧ c.replies.any AppendEntriesReply.success) = true ∧
          (s.nodes 1).currentTerm = 1 ∧ (s.nodes 1).role = .candidate)) = true := by decide
  obtain ⟨s, hr, hs⟩ := exists_of_runs hrun
  obtain ⟨hack, hterm, hrole⟩ := of_decide_eq_true hs
  simp only [Option.any_eq_true, Bool.decide_and, Bool.and_eq_true, decide_eq_true_eq,
    List.any_eq_true] at hack
  obtain ⟨c, hc, hdst, hT, r, hmem, hyes⟩ := hack
  exact ⟨s, hr, ⟨c, List.mem_of_getElem? hc, ⟨hdst, hT⟩, r, hmem, hyes⟩, hterm, hrole⟩

end Cluster
end TinyKv
