import TinyKv.Raft.Leader

/-!
# Raft.Steps

What a step of the cluster can do, once for all actions: to the log and the commit index of a node
(`NodeChange`, `step_node`), to the acknowledgements (`acked_step`, `acked_new`), to the votes
(`granted_step`) and to the requests (`calls_step`).
-/

namespace TinyKv

open Lib RaftNode

variable {n : Nat}

namespace Cluster

variable {logs : Fin n → List Entry} {s s' : Cluster n (List Entry)} {lead : Leaders}

/-- A node keeps its log and its commit index, takes in a request of some term's leader, or, as a
leader, finds a new commit index. -/
inductive NodeChange (lead : Leaders) (s s' : Cluster n (List Entry)) (v : Fin n) : Prop where
  | quiet (hlog : (s'.nodes v).log = (s.nodes v).log)
      (hcommit : (s'.nodes v).commitIndex = (s.nodes v).commitIndex)
      (hterm : (s.nodes v).currentTerm ≤ (s'.nodes v).currentTerm)
  | append (c : AppendCall n) (L : List Entry) (hc : c ∈ s.appendCalls)
      (hL : lead c.args.term = some L) (hge : (s.nodes v).currentTerm ≤ c.args.term)
      (hnd : s'.nodes v = { (s.nodes v).observeTerm c.args.term with
        log := adopt (s.nodes v).log L }.followCommit c.args.leaderCommit)
  | commit (c : AppendCall n) (idx : Int) (N : Nat) (hother : c.dst ≠ v)
      (hlead : (s.nodes v).role = .leader)
      (hN : ((s.nodes v).matched c.dst idx).commitScan ((s.nodes v).matched c.dst idx).lastIdx =
        some N)
      (hnd : s'.nodes v = { (s.nodes v).matched c.dst idx with commitIndex := N })

theorem NodeChange.of_eq {v : Fin n} (h : s'.nodes v = s.nodes v) : NodeChange lead s s' v :=
  .quiet (by rw [h]) (by rw [h]) (by rw [h])

theorem NodeChange.of_leavesLog {v : Fin n} {nd : RaftNode n (List Entry)} (hv : s'.nodes v = nd)
    (h : LeavesLog (s.nodes v) nd) : NodeChange lead s s' v :=
  .quiet (by rw [hv, h.log]) (by rw [hv, h.commitIndex]) (by rw [hv]; exact h.term)

theorem NodeChange.term {v : Fin n} (h : NodeChange lead s s' v) :
    (s.nodes v).currentTerm ≤ (s'.nodes v).currentTerm := by
  cases h with
  | quiet _ _ hterm => exact hterm
  | append c L _ _ hge hnd =>
    obtain ⟨ci, hci⟩ := followCommit_eq
      { (s.nodes v).observeTerm c.args.term with log := adopt (s.nodes v).log L }
      c.args.leaderCommit
    rw [hnd, hci]
    exact (observeTerm_follows _ _).term
  | commit c idx N _ _ _ hnd =>
    rw [hnd]
    exact Int.le_refl _

theorem NodeChange.log {v : Fin n} (h : NodeChange lead s s' v) :
    (s'.nodes v).log = (s.nodes v).log ∨ ∃ L, lead (s'.nodes v).currentTerm = some L ∧
      (s'.nodes v).log = adopt (s.nodes v).log L := by
  cases h with
  | quiet hlog _ _ => exact .inl hlog
  | append c L _ hL hge hnd =>
    obtain ⟨ci, hci⟩ := followCommit_eq
      { (s.nodes v).observeTerm c.args.term with log := adopt (s.nodes v).log L }
      c.args.leaderCommit
    have hterm : (s'.nodes v).currentTerm = c.args.term := by
      rw [hnd, hci]
      exact observeTerm_term (by omega)
    exact .inr ⟨L, by rw [hterm, hL], by rw [hnd, hci]⟩
  | commit c idx N _ _ _ hnd =>
    rw [hnd]
    exact .inl rfl

theorem nodeChange_setNode (i : Fin n) (nd : RaftNode n (List Entry))
    (hnodes : s'.nodes = (s.setNode i nd).nodes)
    (h : s'.nodes i = nd → NodeChange lead s s' i) (v : Fin n) : NodeChange lead s s' v := by
  by_cases hv : v = i
  · rw [hv]
    exact h (by rw [hnodes, setNode_self])
  · exact .of_eq (by rw [hnodes, setNode_ne _ _ hv])

theorem step_node (hm : ∀ i j, LogMatching Entry.term (logs i) (logs j)) {a : Action n}
    (h : s.LeaderInv logs lead) (hlogs : s.LogsInv logs) (hs : s.step false a = some s')
    (v : Fin n) : NodeChange lead s s' v := by
  cases a with
  | elect i =>
    obtain ⟨nd, args, hel, rfl⟩ := step_elect hs
    refine nodeChange_setNode i nd (by rfl) (fun hi => ?_) v
    exact .of_leavesLog hi (elect_leavesLog hel)
  | requestVote k =>
    obtain ⟨c, nd, reply, hk, hr, rfl⟩ := step_requestVote hs
    refine nodeChange_setNode c.dst nd (by rfl) (fun hi => ?_) v
    exact .of_leavesLog hi (requestVote_leavesLog hr)
  | getVoteAnswer k r =>
    obtain ⟨c, reply, nd, got, _, _, _, hv, rfl⟩ := step_getVoteAnswer hs
    refine nodeChange_setNode c.src nd (by rfl) (fun hi => ?_) v
    exact .of_leavesLog hi (getVoteAnswer_leavesLog hv)
  | collectVote k =>
    obtain ⟨c, nd, count, _, _, hv, rfl⟩ := step_collectVote hs
    refine nodeChange_setNode c.src nd (by rfl) (fun hi => ?_) v
    exact .of_leavesLog hi (collectVote_leavesLog hv)
  | sendHeartBeats i =>
    obtain ⟨args, _, rfl⟩ := step_sendHeartBeats hs
    exact .of_eq rfl
  | appendEntries k =>
    obtain ⟨c, nd, reply, hk, hr, rfl⟩ := step_appendEntries hs
    have hc := List.mem_of_getElem? hk
    obtain ⟨_, _, L, hL, hslice⟩ := h.calls c hc
    have hmatch := h.matching hlogs hm hL c.dst
    refine nodeChange_setNode c.dst nd (by rfl) (fun hi => ?_) v
    rcases appendEntries_slice (hlogs.snapshot c.dst) hmatch hslice hr with
      ⟨_, hnd⟩ | ⟨_, hge, hnd⟩
    · have hsame : nd.log = (s.nodes c.dst).log ∧
          nd.commitIndex = (s.nodes c.dst).commitIndex := by
        rcases hnd with hnd | ⟨_, hnd⟩ <;> simp [hnd]
      have hterm := (appendEntries_follows hr).term
      exact .quiet (by rw [hi, hsame.1]) (by rw [hi, hsame.2]) (by rw [hi]; exact hterm)
    · exact .append c L hc hL hge (hi.trans hnd)
  | handleAppendEntries k r =>
    obtain ⟨c, reply, nd, hk, hr, hnd, rfl⟩ := step_handleAppendEntries hs
    have hterm := (handleAppendEntries_follows hnd).term
    refine nodeChange_setNode c.src nd (by rfl) (fun hi => ?_) v
    rcases handleAppendEntries_spec hnd with hnd | ⟨_, hnd⟩ | ⟨next, hnd⟩ |
      ⟨hl, _, _, N, hN, hnd⟩
    · exact .of_eq (hi.trans hnd)
    · have hlog : nd.log = (s.nodes c.src).log ∧
          nd.commitIndex = (s.nodes c.src).commitIndex := by rw [hnd]; exact ⟨rfl, rfl⟩
      exact .quiet (by rw [hi, hlog.1]) (by rw [hi, hlog.2]) (by rw [hi]; exact hterm)
    · have hi := hi.trans hnd
      exact .quiet (by rw [hi]) (by rw [hi]) (by rw [hi])
    · exact .commit c _ N (h.calls c (List.mem_of_getElem? hk)).1 hl hN (hi.trans hnd)

theorem acked_step {a : Action n} (hs : s.step false a = some s') {v : Fin n} {T : Int}
    (hv : s.Acked v T) : s'.Acked v T := by
  cases a with
  | elect i =>
    obtain ⟨nd, args, _, rfl⟩ := step_elect hs
    exact hv
  | requestVote k =>
    obtain ⟨c, nd, reply, _, _, rfl⟩ := step_requestVote hs
    exact hv
  | getVoteAnswer k r =>
    obtain ⟨c, reply, nd, got, _, _, _, _, rfl⟩ := step_getVoteAnswer hs
    exact hv
  | collectVote k =>
    obtain ⟨c, nd, count, _, _, _, rfl⟩ := step_collectVote hs
    exact hv
  | sendHeartBeats i =>
    obtain ⟨args, _, rfl⟩ := step_sendHeartBeats hs
    obtain ⟨c, hc, hrest⟩ := hv
    exact ⟨c, List.mem_append_left _ hc, hrest⟩
  | appendEntries k =>
    obtain ⟨c, nd, reply, hk, _, rfl⟩ := step_appendEntries hs
    exact (acked_setCall (s := s.setNode c.dst nd) hk).mpr (.inl hv)
  | handleAppendEntries k r =>
    obtain ⟨c, reply, nd, hk, _, _, rfl⟩ := step_handleAppendEntries hs
    exact (acked_setAnswered (s := s.setNode c.src nd) hk).mpr hv

theorem acked_new {dup : Bool} {a : Action n} (hs : s.step dup a = some s') {v : Fin n} {T : Int}
    (hv : s'.Acked v T) : s.Acked v T ∨ ∃ k c nd reply, a = .appendEntries k ∧
      s.appendCalls[k]? = some c ∧ c.dst = v ∧ c.args.term = T ∧
      (s.nodes v).appendEntries c.args = some (nd, reply) ∧ reply.success = true ∧
      s'.nodes v = nd := by
  cases a with
  | elect i =>
    obtain ⟨nd, args, _, rfl⟩ := step_elect hs
    exact .inl hv
  | requestVote k =>
    obtain ⟨c, nd, reply, _, _, rfl⟩ := step_requestVote hs
    exact .inl hv
  | getVoteAnswer k r =>
    obtain ⟨c, reply, nd, got, _, _, _, _, rfl⟩ := step_getVoteAnswer hs
    exact .inl hv
  | collectVote k =>
    obtain ⟨c, nd, count, _, _, _, rfl⟩ := step_collectVote hs
    exact .inl hv
  | sendHeartBeats i =>
    obtain ⟨args, _, rfl⟩ := step_sendHeartBeats hs
    exact .inl (acked_addCalls.mp hv)
  | appendEntries k =>
    obtain ⟨c, nd, reply, hk, hr, rfl⟩ := step_appendEntries hs
    rcases (acked_setCall (s := s.setNode c.dst nd) hk).mp hv with hv | ⟨rfl, hterm, hyes⟩
    · exact .inl hv
    · exact .inr ⟨k, c, nd, reply, rfl, hk, rfl, hterm, hr, hyes, by simp⟩
  | handleAppendEntries k r =>
    obtain ⟨c, reply, nd, hk, _, _, rfl⟩ := step_handleAppendEntries hs
    exact .inl ((acked_setAnswered (s := s.setNode c.src nd) hk).mp hv)

/-- A new acknowledgement is of the term the node is in. -/
theorem acked_back {a : Action n} (hs : s.step false a = some s') {v : Fin n} {T : Int}
    (hv : s'.Acked v T) : s.Acked v T ∨ (s'.nodes v).currentTerm = T := by
  rcases acked_new hs hv with hv | ⟨k, c, nd, reply, _, _, _, hterm, hr, hyes, hnd⟩
  · exact .inl hv
  · refine .inr ?_
    rw [hnd, ← hterm]
    exact appendEntries_success_term hr hyes

theorem granted_step {a : Action n} (hs : s.step false a = some s') {c : VoteCall n}
    (hc : c ∈ s'.voteCalls) (hg : c.Granted) :
    ∃ c₀ ∈ s.voteCalls, c₀.src = c.src ∧ c₀.dst = c.dst ∧ c₀.args = c.args ∧ (c₀.Granted ∨
      ∃ k, a = .requestVote k ∧ s.voteCalls[k]? = some c₀ ∧
        (s.nodes c₀.dst).Grants c₀.args) := by
  have hold : c ∈ s.voteCalls → ∃ c₀ ∈ s.voteCalls, c₀.src = c.src ∧ c₀.dst = c.dst ∧
      c₀.args = c.args ∧ (c₀.Granted ∨ ∃ k, a = .requestVote k ∧ s.voteCalls[k]? = some c₀ ∧
        (s.nodes c₀.dst).Grants c₀.args) :=
    fun hc => ⟨c, hc, rfl, rfl, rfl, .inl hg⟩
  cases a with
  | elect i =>
    obtain ⟨nd, args, _, rfl⟩ := step_elect hs
    cases List.mem_append.mp hc with
    | inl hc =>
      exact hold hc
    | inr hc =>
      obtain ⟨r, hr, _⟩ := hg
      rw [(mem_voteCallsOf i hc).2.2.2.1] at hr
      cases hr
  | requestVote k =>
    obtain ⟨d, nd, reply, hk, hr, rfl⟩ := step_requestVote hs
    have hd := List.mem_of_getElem? hk
    rcases List.mem_or_eq_of_mem_set hc with hc | rfl
    · exact hold hc
    · cases granted_append.mp hg with
      | inl hg =>
        exact ⟨d, hd, rfl, rfl, rfl, .inl hg⟩
      | inr hyes =>
        rcases requestVote_spec hr with ⟨hno, _⟩ | ⟨_, hgr, _⟩
        · rw [hno] at hyes
          cases hyes
        · exact ⟨d, hd, rfl, rfl, rfl, .inr ⟨k, rfl, hk, hgr⟩⟩
  | getVoteAnswer k r =>
    obtain ⟨d, reply, nd, got, hk, _, _, _, rfl⟩ := step_getVoteAnswer hs
    rcases List.mem_or_eq_of_mem_set hc with hc | rfl
    · exact hold hc
    · exact ⟨d, List.mem_of_getElem? hk, rfl, rfl, rfl, .inl hg⟩
  | collectVote k =>
    obtain ⟨d, nd, count, hk, _, _, rfl⟩ := step_collectVote hs
    rcases List.mem_or_eq_of_mem_set hc with hc | rfl
    · exact hold hc
    · exact ⟨d, List.mem_of_getElem? hk, rfl, rfl, rfl, .inl hg⟩
  | sendHeartBeats i =>
    obtain ⟨args, _, rfl⟩ := step_sendHeartBeats hs
    exact hold hc
  | appendEntries k =>
    obtain ⟨d, nd, reply, _, _, rfl⟩ := step_appendEntries hs
    exact hold hc
  | handleAppendEntries k r =>
    obtain ⟨d, reply, nd, _, _, _, rfl⟩ := step_handleAppendEntries hs
    exact hold hc

theorem calls_step {a : Action n} (hlogs : s.LogsInv logs) (hs : s.step false a = some s')
    {c : AppendCall n} (hc : c ∈ s'.appendCalls) : (∃ c₀ ∈ s.appendCalls, c₀.args = c.args) ∨
      ∃ i, (s.nodes i).role = .leader ∧ c.args.term = (s.nodes i).currentTerm ∧
        c.args.leaderCommit = (s.nodes i).commitIndex := by
  cases a with
  | elect i =>
    obtain ⟨nd, args, _, rfl⟩ := step_elect hs
    exact .inl ⟨c, hc, rfl⟩
  | requestVote k =>
    obtain ⟨d, nd, reply, _, _, rfl⟩ := step_requestVote hs
    exact .inl ⟨c, hc, rfl⟩
  | getVoteAnswer k r =>
    obtain ⟨d, reply, nd, got, _, _, _, _, rfl⟩ := step_getVoteAnswer hs
    exact .inl ⟨c, hc, rfl⟩
  | collectVote k =>
    obtain ⟨d, nd, count, _, _, _, rfl⟩ := step_collectVote hs
    exact .inl ⟨c, hc, rfl⟩
  | sendHeartBeats i =>
    obtain ⟨args, ha, rfl⟩ := step_sendHeartBeats hs
    cases List.mem_append.mp hc with
    | inl hc =>
      exact .inl ⟨c, hc, rfl⟩
    | inr hc =>
      obtain ⟨p, hp, rfl⟩ := List.mem_map.mp hc
      obtain ⟨hl, _, _, hterm, hcommit⟩ := sendHeartBeats_spec (hlogs.snapshot i) ha p hp
      exact .inr ⟨i, hl, hterm, hcommit⟩
  | appendEntries k =>
    obtain ⟨d, nd, reply, hk, _, rfl⟩ := step_appendEntries hs
    rcases List.mem_or_eq_of_mem_set hc with hc | rfl
    · exact .inl ⟨c, hc, rfl⟩
    · exact .inl ⟨d, List.mem_of_getElem? hk, rfl⟩
  | handleAppendEntries k r =>
    obtain ⟨d, reply, nd, hk, _, _, rfl⟩ := step_handleAppendEntries hs
    rcases List.mem_or_eq_of_mem_set hc with hc | rfl
    · exact .inl ⟨c, hc, rfl⟩
    · exact .inl ⟨d, List.mem_of_getElem? hk, rfl⟩

end Cluster
end TinyKv
