import TinyKv.Raft.Convergence

/-!
# Raft.CommitHistory

Commits over time and across the nodes, and what can be committed at all.

* `Covered` facts outlive the state they are about (`CommitRecord`), so what one node had committed
  can be held against what another has committed later. `commits_final`, `leader_keeps_commits`.
* No function of the node makes an entry, and a leader commits by counting only for an entry of its
  own term: `nothing_new`, for any logs and also where replies are handled more than once.
-/

namespace TinyKv

open Lib RaftNode

variable {n : Nat}

namespace RaftNode

theorem le_commitScan (nd : RaftNode n (List Entry)) {k N : Nat} (hk : nd.commitIndex ≤ k)
    (h : nd.commitScan k = some N) : nd.commitIndex ≤ N := by
  induction k with
  | zero =>
    cases h
    exact hk
  | succ k ih =>
    unfold commitScan at h
    split at h
    · rename_i hgt
      simp only [Option.bind_eq_bind, Option.bind_eq_some_iff] at h
      obtain ⟨count, _, h⟩ := h
      split at h
      · cases h
        exact hk
      · exact ih (Nat.le_of_lt_succ hgt) h
    · cases h
      exact hk

theorem le_followCommit (nd : RaftNode n (List Entry)) (leaderCommit : Int)
    (h : nd.commitIndex ≤ nd.lastIdx) :
    nd.commitIndex ≤ (nd.followCommit leaderCommit).commitIndex := by
  unfold followCommit
  split
  · rename_i hgt
    split
    · exact h
    · rename_i hle
      unfold gtU64 at hgt hle
      simp only [asU64]
      split <;> omega
  · exact Nat.le_refl _

theorem mem_mergeEntries {e : Entry} {es : List Entry} :
    ∀ {xs ys : List Entry} {k : Nat}, mergeEntries xs k es = some ys → e ∈ ys →
      e ∈ xs ∨ e ∈ es := by
  induction es with
  | nil =>
    intro xs ys k h he
    cases h
    exact .inl he
  | cons x es ih =>
    intro xs ys k h he
    rw [mergeEntries] at h
    split at h
    · simp only [Option.bind_eq_bind, Option.bind_eq_some_iff] at h
      obtain ⟨cur, _, h⟩ := h
      split at h
      · simp only [truncateFrom_list, Option.bind_eq_some_iff, Option.some.injEq, foldlM_pushBack,
          exists_eq_left'] at h
        rw [← h] at he
        exact (List.mem_append.mp he).imp_left List.mem_of_mem_take
      · exact (ih h he).imp_right (List.mem_cons_of_mem x)
    · split at h
      · rw [foldlM_pushBack, Option.some.injEq] at h
        rw [← h] at he
        exact List.mem_append.mp he
      · exact (ih h he).imp_right (List.mem_cons_of_mem x)

theorem mem_appendEntries {nd nd' : RaftNode n (List Entry)} {request : AppendEntriesArgs}
    {reply : AppendEntriesReply} (h : nd.appendEntries request = some (nd', reply)) {e : Entry}
    (he : e ∈ nd'.log) : e ∈ nd.log ∨ e ∈ request.entries := by
  rcases appendEntries_spec h with ⟨_, rfl, _⟩ | ⟨_, rfl, _⟩ | ⟨_, _, _, log, _, _, hm, rfl, _⟩
  · exact .inl he
  · rw [observeTerm_log] at he
    exact .inl he
  · rw [followCommit_log] at he
    exact mem_mergeEntries hm he

theorem appendEntries_commit_zero {nd nd' : RaftNode n (List Entry)} {request : AppendEntriesArgs}
    {reply : AppendEntriesReply} (h : nd.appendEntries request = some (nd', reply))
    (hlc : request.leaderCommit = 0) : nd'.commitIndex = nd.commitIndex := by
  rcases appendEntries_spec h with ⟨_, rfl, _⟩ | ⟨_, rfl, _⟩ | ⟨_, _, _, log, _, _, _, rfl, _⟩
  · rfl
  · exact observeTerm_commitIndex nd _
  · rw [hlc, followCommit, if_neg (by unfold gtU64; omega)]
    exact observeTerm_commitIndex nd _

end RaftNode

namespace Cluster

variable {logs : Fin n → List Entry} {s s' : Cluster n (List Entry)} {lead lead' : Leaders}

/-! ## Commits are final -/

theorem Covered.lt {U : Int} {xs : List Entry} {k : Nat} (h : s.Covered lead U xs k)
    (hpos : 0 < xs.length) : k < xs.length := by
  rcases h with rfl | ⟨T, N, L, hc, _, hN, hpre⟩
  · exact hpos
  · obtain ⟨e, he, _⟩ := hc.entry
    have hlt := (List.getElem?_eq_some_iff.mp he).1
    have hle := hpre.length_le
    rw [List.length_take] at hle
    omega

theorem step_commitIndex (h0 : ∀ i, (logs i)[0]? = some ({} : Entry))
    (hm : ∀ i j, LogMatching Entry.term (logs i) (logs j)) {a : Action n}
    (hlogs : s.LogsInv logs) (hl : s.LeaderInv logs lead) (hc : s.CommitInv lead)
    (hs : s.step false a = some s') (v : Fin n) :
    (s.nodes v).commitIndex ≤ (s'.nodes v).commitIndex := by
  have hpos : ∀ i, 0 < (logs i).length := fun i => (List.getElem?_eq_some_iff.mp (h0 i)).1
  obtain ⟨m, hm'⟩ := hlogs.nodes v
  cases step_node hm hl hlogs hs v with
  | quiet _ hcommit _ => rw [hcommit]
  | append c L _ hL hge hnd =>
    have hadopt : 0 < (adopt (s.nodes v).log L).length := by
      obtain ⟨m', hL'⟩ := hl.initial _ L hL
      rcases adopt_eq_or (s.nodes v).log L with ha | ha
      · rw [ha, hm']
        exact hpos m
      · rw [ha, hL']
        exact hpos m'
    have hlt := (hc.covered_adopt (hc.nodes v) hge hL).lt hadopt
    have hle := le_followCommit { (s.nodes v).observeTerm c.args.term with
      log := adopt (s.nodes v).log L } c.args.leaderCommit (by
        simp only [observeTerm_commitIndex, lastIdx, virtualLogIdx, size_list]
        omega)
    rw [hnd]
    simpa using hle
  | commit c idx N _ _ hN hnd =>
    have hlt := (hc.nodes v).lt (by rw [hm']; exact hpos m)
    rw [hnd]
    refine le_commitScan ((s.nodes v).matched c.dst idx) ?_ hN
    show (s.nodes v).commitIndex ≤ (s.nodes v).log.length - 1 + (s.nodes v).lastIncludedIndex
    omega

/-- What holds in `s'`, reached from `s`, of what the nodes had committed in `s`. -/
structure CommitRecord (logs : Fin n → List Entry) (s s' : Cluster n (List Entry)) : Prop where
  electionInv : s'.ElectionInv
  logsInv : s'.LogsInv logs
  history : ∃ lead, s'.LeaderInv logs lead ∧ s'.CommitInv lead ∧ ∀ v,
    s'.Covered lead (s.nodes v).currentTerm (s.nodes v).log (s.nodes v).commitIndex
  grows : ∀ v, (s.nodes v).commitIndex ≤ (s'.nodes v).commitIndex

theorem reaches_commitRecord (h0 : ∀ i, (logs i)[0]? = some ({} : Entry))
    (hm : ∀ i j, LogMatching Entry.term (logs i) (logs j)) (h : s.SafetyInv logs)
    (hs : ReachesIf VoteAgrees (step false) s s') : CommitRecord logs s s' := by
  refine hs.inv (P := CommitRecord logs s) ?_ ?_
  · intro u a u' hu hok hstep
    obtain ⟨he, hlogs, ⟨lead, hl, hc, hcov⟩, hgrows⟩ := hu
    obtain ⟨lead', hl', hc', hg⟩ := step_commitInv hm he hlogs hl hc hok hstep
    refine ⟨step_electionInv he hstep, step_logsInv hm hlogs hstep, ⟨lead', hl', hc', ?_⟩, ?_⟩
    · exact fun v => (hcov v).step he hstep hg (Int.le_refl _)
    · exact fun v => Nat.le_trans (hgrows v) (step_commitIndex h0 hm hlogs hl hc hstep v)
  · obtain ⟨he, hlogs, lead, hl, hc⟩ := h
    exact ⟨he, hlogs, ⟨lead, hl, hc, hc.nodes⟩, fun _ => Nat.le_refl _⟩

/-- **Commits are final.** In a run whose votes agree with the voters' logs, a commit index never
goes back or past the end of the log, and what one node has committed is what any node, itself
included, has there whenever it has committed as far. -/
theorem commits_final (h0 : ∀ i, (logs i)[0]? = some ({} : Entry))
    (hm : ∀ i j, LogMatching Entry.term (logs i) (logs j))
    (hs : ReachesIf VoteAgrees (step false) (init logs) s)
    (hs' : ReachesIf VoteAgrees (step false) s s') (i j : Fin n) :
    (s.nodes i).commitIndex ≤ (s'.nodes i).commitIndex ∧
    (s'.nodes i).commitIndex < (s'.nodes i).log.length ∧
    ∀ k, k ≤ (s.nodes i).commitIndex → k ≤ (s'.nodes j).commitIndex →
      (s.nodes i).log[k]? = (s'.nodes j).log[k]? := by
  have hsafe := reaches_safetyInv hm hs
  obtain ⟨_, hlogs', ⟨lead, _, hc, hcov⟩, hgrows⟩ := reaches_commitRecord h0 hm hsafe hs'
  have hfirst := hsafe.logsInv.zero h0
  have hfirst' := hlogs'.zero h0
  have hpos : ∀ {xs : List Entry}, xs[0]? = some ({} : Entry) → 0 < xs.length := fun h =>
    (List.getElem?_eq_some_iff.mp h).1
  refine ⟨hgrows i, (hc.nodes i).lt (hpos (hfirst' i)), ?_⟩
  intro k hi hj
  by_cases hk : k = 0
  · rw [hk, hfirst, hfirst']
  · have hlti := (hcov i).lt (hpos (hfirst i))
    have hltj := (hc.nodes j).lt (hpos (hfirst' j))
    have hx := List.getElem?_eq_getElem (Nat.lt_of_le_of_lt hi hlti)
    have hy := List.getElem?_eq_getElem (Nat.lt_of_le_of_lt hj hltj)
    obtain ⟨_, _, _, hc₁, hk₁, hx₁⟩ := (hcov i).entry (by omega) hi hx
    obtain ⟨_, _, _, hc₂, hk₂, hy₂⟩ := (hc.nodes j).entry (by omega) hj hy
    rw [hx, hy, hc.committed_unique hc₁ hc₂ hk₁ hk₂ hx₁ hy₂]

/-- Node 0 commits its entry first; node 1 follows with the next heartbeat. -/
theorem commits_final_two :
    let logs : Fin 2 → List Entry := ![[{}, { term := 1 }], [{}]]
    ∃ s, ReachesIf VoteAgrees (step false) (init logs) s ∧
      (s.nodes 0).commitIndex = 1 ∧ (s.nodes 1).commitIndex = 0 ∧
      ∃ s', ReachesIf VoteAgrees (step false) s s' ∧ (s'.nodes 1).commitIndex = 1 ∧
        (s.nodes 0).log[1]? = (s'.nodes 1).log[1]? := by
  intro logs
  obtain ⟨s, hs, hp⟩ := exists_of_runsIf (s := init logs) (step false) voteAgrees_of_votesPrefix
    [.elect 0, .requestVote 0, .getVoteAnswer 0 0, .collectVote 0, .sendHeartBeats 0,
      .appendEntries 0, .handleAppendEntries 0 0, .sendHeartBeats 0, .appendEntries 1,
      .handleAppendEntries 1 0]
    (fun s => decide ((s.nodes 0).commitIndex = 1 ∧ (s.nodes 1).commitIndex = 0) &&
      (runs (fun s a => if s.votesPrefix a then step false s a else none)
        [.sendHeartBeats 0, .appendEntries 2] s).any fun s' => (s'.nodes 1).commitIndex = 1)
    (by decide +kernel)
  obtain ⟨hci, hrun⟩ := (Bool.and_eq_true _ _).mp hp
  obtain ⟨hci₀, hci₁⟩ := decide_eq_true_eq.mp hci
  obtain ⟨s', hs', hci'⟩ := exists_of_runsIf (step false) voteAgrees_of_votesPrefix _ _ hrun
  have hci' : (s'.nodes 1).commitIndex = 1 := decide_eq_true_eq.mp hci'
  have hfinal := (commits_final (by decide) (by decide) hs hs' 0 1).2.2
  exact ⟨s, hs, hci₀, hci₁, s', hs', hci', hfinal 1 (by omega) (by omega)⟩

/-- **A leader keeps what is committed.** Whatever a node has committed in a term up to the leader's
own, at that time or before, does not conflict with the leader's log. -/
theorem leader_keeps_commits (h0 : ∀ i, (logs i)[0]? = some ({} : Entry))
    (hm : ∀ i j, LogMatching Entry.term (logs i) (logs j))
    (hs : ReachesIf VoteAgrees (step false) (init logs) s)
    (hs' : ReachesIf VoteAgrees (step false) s s') {l : Fin n}
    (hl : (s'.nodes l).role = .leader) (i : Fin n)
    (hle : (s.nodes i).currentTerm ≤ (s'.nodes l).currentTerm) :
    Comparable ((s.nodes i).log.take ((s.nodes i).commitIndex + 1)) (s'.nodes l).log := by
  have hsafe := reaches_safetyInv hm hs
  obtain ⟨_, hlogs', ⟨lead, hlead, hc, hcov⟩, _⟩ := reaches_commitRecord h0 hm hsafe hs'
  rcases hcov i with hk | ⟨T, N, L, hcom, hT, hN, hpre⟩
  · have hi := hsafe.logsInv.zero h0 i
    have hfirst := hlogs'.zero h0 l
    rw [hk]
    refine .inl ?_
    match hxs : (s.nodes i).log, hys : (s'.nodes l).log with
    | x :: xs, y :: ys =>
      rw [hxs] at hi
      rw [hys] at hfirst
      cases hi
      cases hfirst
      exact List.prefix_cons_inj _ |>.mpr List.nil_prefix
    | [], _ =>
      rw [hxs] at hi
      cases hi
    | _ :: _, [] =>
      rw [hys] at hfirst
      cases hfirst
  · have hagree := hc.agrees hcom (Int.le_trans hT hle) (hlead.leader l hl)
    have htake : L.take ((s.nodes i).commitIndex + 1) <+: L.take (N + 1) :=
      List.take_prefix_take_left (by omega)
    obtain ⟨e, he, _⟩ := hcom.entry
    have hlt := (List.getElem?_eq_some_iff.mp he).1
    have heq : (s.nodes i).log.take ((s.nodes i).commitIndex + 1) =
        L.take ((s.nodes i).commitIndex + 1) := by
      rw [List.prefix_iff_eq_take.mp hpre, List.length_take]
      congr 1
      omega
    rw [heq]
    exact hagree.mono htake

/-- Node 0 has committed an entry of term 1 when node 1, which holds it, takes over in term 2. -/
theorem leader_keeps_commits_two :
    let logs : Fin 2 → List Entry := ![[{}, { term := 1 }], [{}]]
    ∃ s, ReachesIf VoteAgrees (step false) (init logs) s ∧ (s.nodes 0).commitIndex = 1 ∧
      ∃ s', ReachesIf VoteAgrees (step false) s s' ∧ (s'.nodes 1).role = .leader ∧
        Comparable ((s.nodes 0).log.take 2) (s'.nodes 1).log := by
  intro logs
  obtain ⟨s, hs, hp⟩ := exists_of_runsIf (s := init logs) (step false) voteAgrees_of_votesPrefix
    [.elect 0, .requestVote 0, .getVoteAnswer 0 0, .collectVote 0, .sendHeartBeats 0,
      .appendEntries 0, .handleAppendEntries 0 0, .sendHeartBeats 0, .appendEntries 1,
      .handleAppendEntries 1 0]
    (fun s => decide ((s.nodes 0).commitIndex = 1 ∧ (s.nodes 0).currentTerm = 1) &&
      (runs (fun s a => if s.votesPrefix a then step false s a else none)
        [.elect 1, .requestVote 1, .getVoteAnswer 1 0, .collectVote 1] s).any
          fun s' : Cluster 2 (List Entry) =>
            decide ((s'.nodes 1).role = .leader ∧ (s'.nodes 1).currentTerm = 2))
    (by decide +kernel)
  obtain ⟨hci, hrun⟩ := (Bool.and_eq_true _ _).mp hp
  obtain ⟨hci, hterm⟩ := decide_eq_true_eq.mp hci
  obtain ⟨s', hs', hl⟩ := exists_of_runsIf (step false) voteAgrees_of_votesPrefix _ _ hrun
  obtain ⟨hl, hterm'⟩ := decide_eq_true_eq.mp hl
  have hkeeps := leader_keeps_commits (by decide) (by decide) hs hs' hl 0 (by omega)
  rw [hci] at hkeeps
  exact ⟨s, hs, hci, s', hs', hl, hkeeps⟩

/-! ## Nothing new -/

/-- Every entry of the node's log is one of the initial logs', and so is every entry in flight. -/
structure EntriesInv (logs : Fin n → List Entry) (s : Cluster n (List Entry)) : Prop where
  snapshot : ∀ i, (s.nodes i).lastIncludedIndex = 0
  nodes : ∀ i, ∀ e ∈ (s.nodes i).log, ∃ m, e ∈ logs m
  calls : ∀ c ∈ s.appendCalls, ∀ e ∈ c.args.entries, ∃ m, e ∈ logs m

/-- No node has started a term without leaving the first one, and none has committed. A request goes
to another node, so there is one. -/
structure IdleInv (s : Cluster n (List Entry)) : Prop where
  terms : ∀ i, 0 ≤ (s.nodes i).currentTerm ∧
    ((s.nodes i).role ≠ .follower → 0 < (s.nodes i).currentTerm)
  commits : ∀ i, (s.nodes i).commitIndex = 0
  calls : ∀ c ∈ s.appendCalls, c.args.leaderCommit = 0 ∧ 2 ≤ n

theorem init_entriesInv (logs : Fin n → List Entry) : (init logs).EntriesInv logs where
  snapshot := fun _ => rfl
  nodes := fun i _ he => ⟨i, he⟩
  calls := fun c hc => by cases hc

theorem init_idleInv (logs : Fin n → List Entry) : (init logs).IdleInv where
  terms := fun _ => ⟨Int.le_refl _, fun h => absurd rfl h⟩
  commits := fun _ => rfl
  calls := fun c hc => by cases hc

section NothingNew

variable {dup : Bool} {a : Action n}

theorem EntriesInv.setNode (h : s.EntriesInv logs) {i : Fin n} {nd : RaftNode n (List Entry)}
    (hsnap : nd.lastIncludedIndex = (s.nodes i).lastIncludedIndex)
    (hlog : ∀ e ∈ nd.log, ∃ m, e ∈ logs m) : (s.setNode i nd).EntriesInv logs where
  snapshot := forall_setNode (P := fun _ nd => nd.lastIncludedIndex = 0)
    (hsnap.trans (h.snapshot i)) fun j _ => h.snapshot j
  nodes := forall_setNode (P := fun _ nd => ∀ e ∈ nd.log, ∃ m, e ∈ logs m) hlog
    fun j _ => h.nodes j
  calls := h.calls

theorem EntriesInv.frame_election (h : s.EntriesInv logs) {i : Fin n}
    {nd : RaftNode n (List Entry)} (hnd : LeavesLog (s.nodes i) nd)
    (hnodes : s'.nodes = (s.setNode i nd).nodes) (hcalls : s'.appendCalls = s.appendCalls) :
    s'.EntriesInv logs := by
  obtain ⟨hsnap, hlogs, hsent⟩ := h.setNode hnd.snapshot (hnd.log ▸ h.nodes i)
  constructor
  · rw [hnodes]
    exact hsnap
  · rw [hnodes]
    exact hlogs
  · rw [hcalls]
    exact hsent

theorem step_entriesInv (h : s.EntriesInv logs) (hs : s.step dup a = some s') :
    s'.EntriesInv logs := by
  cases a with
  | elect i =>
    obtain ⟨nd, args, he, rfl⟩ := step_elect hs
    exact h.frame_election (elect_leavesLog he) rfl rfl
  | requestVote k =>
    obtain ⟨c, nd, reply, _, hr, rfl⟩ := step_requestVote hs
    exact h.frame_election (requestVote_leavesLog hr) rfl rfl
  | getVoteAnswer k r =>
    obtain ⟨c, reply, nd, got, _, _, _, hv, rfl⟩ := step_getVoteAnswer hs
    exact h.frame_election (getVoteAnswer_leavesLog hv) rfl rfl
  | collectVote k =>
    obtain ⟨c, nd, count, _, _, hv, rfl⟩ := step_collectVote hs
    exact h.frame_election (collectVote_leavesLog hv) rfl rfl
  | sendHeartBeats i =>
    obtain ⟨args, ha, rfl⟩ := step_sendHeartBeats hs
    refine ⟨h.snapshot, h.nodes, ?_⟩
    intro c hc e he
    rcases List.mem_append.mp hc with hc | hc
    · exact h.calls c hc e he
    · obtain ⟨p, hp, rfl⟩ := List.mem_map.mp hc
      obtain ⟨_, _, hslice, _⟩ := sendHeartBeats_spec (h.snapshot i) ha p hp
      rw [hslice.entries] at he
      exact h.nodes i e (List.mem_of_mem_drop he)
  | appendEntries k =>
    obtain ⟨c, nd, reply, hk, hr, rfl⟩ := step_appendEntries hs
    have hmem := List.mem_of_getElem? hk
    have hlog : ∀ e ∈ nd.log, ∃ m, e ∈ logs m := by
      intro e he
      rcases mem_appendEntries hr he with he | he
      · exact h.nodes c.dst e he
      · exact h.calls c hmem e he
    have hnode := h.setNode (appendEntries_follows hr).snapshot hlog
    exact ⟨hnode.snapshot, hnode.nodes, forall_mem_set hnode.calls (h.calls c hmem)⟩
  | handleAppendEntries k r =>
    obtain ⟨c, reply, nd, hk, _, hnd, rfl⟩ := step_handleAppendEntries hs
    have hnode := h.setNode (handleAppendEntries_follows hnd).snapshot
      (handleAppendEntries_log hnd ▸ h.nodes c.src)
    exact ⟨hnode.snapshot, hnode.nodes,
      forall_mem_set hnode.calls (h.calls c (List.mem_of_getElem? hk))⟩

theorem RoleChange.idle {v : Fin n} {nd' : RaftNode n (List Entry)} (h : RoleChange s a v nd')
    (hv : 0 ≤ (s.nodes v).currentTerm ∧
      ((s.nodes v).role ≠ .follower → 0 < (s.nodes v).currentTerm)) :
    0 ≤ nd'.currentTerm ∧ (nd'.role ≠ .follower → 0 < nd'.currentTerm) := by
  cases h with
  | follows hf _ =>
    refine ⟨Int.le_trans hv.1 hf.term, fun hr => ?_⟩
    obtain ⟨hrole, hterm⟩ := hf.role hr
    rw [hterm]
    exact hv.2 (hrole ▸ hr)
  | elect _ _ hterm => omega
  | vote k c _ _ _ hgrants hrole hterm =>
    have := hgrants.term
    exact ⟨by omega, fun hr => absurd hrole hr⟩
  | win hcand _ hterm =>
    have hpos := hv.2 (by rw [hcand]; decide)
    exact ⟨by omega, fun _ => by omega⟩

theorem handleAppendEntries_idle (hn : 2 ≤ n) {nd nd' : RaftNode n (List Entry)} {target : Fin n}
    {args : AppendEntriesArgs} {reply : AppendEntriesReply}
    (h : nd.handleAppendEntries target args reply = some nd') (hci : nd.commitIndex = 0)
    (hold : nd.role = .leader → ∀ e ∈ nd.log, e.term < nd.currentTerm) : nd'.commitIndex = 0 := by
  rcases handleAppendEntries_spec h with rfl | ⟨_, rfl⟩ | ⟨next, rfl⟩ | ⟨hlead, _, _, N, hN, rfl⟩
  · exact hci
  · exact hci
  · exact hci
  · by_contra hne
    have hcur : nd.commitIndex < N := by
      simp only at hne
      omega
    obtain ⟨count, hcount, hmaj⟩ := (commitScan_spec hN).2 hcur
    obtain ⟨e, he, hterm⟩ := (commitCount_spec hcount).2 (by omega)
    have := hold hlead e (List.mem_of_getElem? he)
    exact absurd hterm (Int.ne_of_lt this)

theorem IdleInv.setNode (h : s.IdleInv) {i : Fin n} {nd : RaftNode n (List Entry)}
    (hterms : ∀ v, RoleChange s a v (s'.nodes v)) (hci : nd.commitIndex = 0)
    (hnodes : s'.nodes = (s.setNode i nd).nodes)
    (hcalls : ∀ c ∈ s'.appendCalls, c.args.leaderCommit = 0 ∧ 2 ≤ n) : s'.IdleInv where
  terms := fun v => (hterms v).idle (h.terms v)
  commits := by
    rw [hnodes]
    exact forall_setNode (P := fun _ nd => nd.commitIndex = 0) hci fun j _ => h.commits j
  calls := hcalls

theorem step_idleInv (hzero : ∀ m, ∀ e ∈ logs m, e.term ≤ 0)
    (he : s.EntriesInv logs) (h : s.IdleInv) (hs : s.step dup a = some s') : s'.IdleInv := by
  have hrole := step_role hs
  cases a with
  | elect i =>
    obtain ⟨nd, args, he, rfl⟩ := step_elect hs
    exact h.setNode hrole ((elect_leavesLog he).commitIndex.trans (h.commits i)) rfl h.calls
  | requestVote k =>
    obtain ⟨c, nd, reply, _, hr, rfl⟩ := step_requestVote hs
    exact h.setNode hrole ((requestVote_leavesLog hr).commitIndex.trans (h.commits c.dst)) rfl
      h.calls
  | getVoteAnswer k r =>
    obtain ⟨c, reply, nd, got, _, _, _, hv, rfl⟩ := step_getVoteAnswer hs
    exact h.setNode hrole ((getVoteAnswer_leavesLog hv).commitIndex.trans (h.commits c.src)) rfl
      h.calls
  | collectVote k =>
    obtain ⟨c, nd, count, _, _, hv, rfl⟩ := step_collectVote hs
    exact h.setNode hrole ((collectVote_leavesLog hv).commitIndex.trans (h.commits c.src)) rfl
      h.calls
  | sendHeartBeats i =>
    obtain ⟨args, ha, rfl⟩ := step_sendHeartBeats hs
    refine ⟨h.terms, h.commits, ?_⟩
    intro c hc
    rcases List.mem_append.mp hc with hc | hc
    · exact h.calls c hc
    · obtain ⟨p, hp, rfl⟩ := List.mem_map.mp hc
      obtain ⟨_, hpeer, _, _, hlc⟩ := sendHeartBeats_spec (he.snapshot i) ha p hp
      refine ⟨by rw [hlc, h.commits i]; rfl, ?_⟩
      have hval : p.1.val ≠ (s.nodes i).curNodeId.val := fun heq => hpeer (Fin.ext heq)
      omega
  | appendEntries k =>
    obtain ⟨c, nd, reply, hk, hr, rfl⟩ := step_appendEntries hs
    have hlc := h.calls c (List.mem_of_getElem? hk)
    exact h.setNode hrole ((appendEntries_commit_zero hr hlc.1).trans (h.commits c.dst)) rfl
      (forall_mem_set h.calls hlc)
  | handleAppendEntries k r =>
    obtain ⟨c, reply, nd, hk, _, hnd, rfl⟩ := step_handleAppendEntries hs
    have hlc := h.calls c (List.mem_of_getElem? hk)
    refine h.setNode hrole (handleAppendEntries_idle hlc.2 hnd (h.commits c.src) ?_) rfl
      (forall_mem_set h.calls hlc)
    intro hlead e hmem
    obtain ⟨m, hm⟩ := he.nodes c.src e hmem
    have hpos := (h.terms c.src).2 (by rw [hlead]; decide)
    have := hzero m e hm
    omega

/-- **No entry is ever made.** Every entry of every log is one of those the nodes started with, and
where these are all of terms up to 0, as the first entry is, no run ever commits anything. -/
theorem nothing_new (h : Reaches (step dup) (init logs) s) :
    (∀ i, ∀ e ∈ (s.nodes i).log, ∃ m, e ∈ logs m) ∧
    ((∀ m, ∀ e ∈ logs m, e.term ≤ 0) → ∀ i, (s.nodes i).commitIndex = 0) := by
  have hent : s.EntriesInv logs :=
    h.inv (fun _ _ _ hs hstep => step_entriesInv hs hstep) (init_entriesInv logs)
  refine ⟨hent.nodes, fun hzero => ?_⟩
  have hidle : s.EntriesInv logs ∧ s.IdleInv := by
    refine h.inv (P := fun s => s.EntriesInv logs ∧ s.IdleInv) ?_
      ⟨init_entriesInv logs, init_idleInv logs⟩
    exact fun _ _ _ hs hstep =>
      ⟨step_entriesInv hs.1 hstep, step_idleInv hzero hs.1 hs.2 hstep⟩
  exact hidle.2.commits

/-- Two nodes on fresh logs: node 0 leads and has heard from node 1, and nothing is committed. -/
theorem nothing_new_fresh :
    ∃ s, Reaches (step true) (init fun _ : Fin 2 => [({} : Entry)]) s ∧
      (s.nodes 0).role = .leader ∧ (s.nodes 0).matchIndex 1 = 0 ∧
      (∀ i, ∀ e ∈ (s.nodes i).log, e = {}) ∧ ∀ i, (s.nodes i).commitIndex = 0 := by
  have hrun : ((runs (step true) [.elect 0, .requestVote 0, .getVoteAnswer 0 0, .collectVote 0,
      .sendHeartBeats 0, .appendEntries 0, .handleAppendEntries 0 0]
      (init fun _ : Fin 2 => [({} : Entry)])).any fun s =>
        decide ((s.nodes 0).role = .leader ∧ (s.nodes 0).matchIndex 1 = 0)) = true := by
    decide +kernel
  obtain ⟨s, hs, hp⟩ := exists_of_runs hrun
  obtain ⟨hl, hmatch⟩ := decide_eq_true_eq.mp hp
  obtain ⟨hlogs, hcommits⟩ := nothing_new hs
  refine ⟨s, hs, hl, hmatch, ?_, hcommits ?_⟩
  · intro i e he
    obtain ⟨_, hm⟩ := hlogs i e he
    exact List.mem_singleton.mp hm
  · intro m e he
    rw [List.mem_singleton.mp he]

end NothingNew

end Cluster
end TinyKv
