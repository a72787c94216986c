import TinyKv.Raft.Append

/-!
# Raft.NodeSpec

What each function of the node does to its term, its vote and its role, for any log.

* `Follows nd nd'`: the node may have moved on to a newer term as a follower; within a term its
  vote and its role stay. Everything but `elect`, a granted vote and the last vote of
  an election is of this kind.
* `elect_spec`, `requestVote_spec`, `collectVote_spec` describe these three.
* `LeavesLog nd nd'`: what the functions of an election have in common.
-/

namespace TinyKv
namespace RaftNode

variable {n : Nat} {L : Type}

structure Follows (nd nd' : RaftNode n L) : Prop where
  id : nd'.curNodeId = nd.curNodeId
  snapshot : nd'.lastIncludedIndex = nd.lastIncludedIndex
  term : nd.currentTerm ≤ nd'.currentTerm
  vote : nd'.currentTerm = nd.currentTerm → nd'.votedFor = nd.votedFor
  role : nd'.role ≠ .follower → nd'.role = nd.role ∧ nd'.currentTerm = nd.currentTerm
  stays : nd'.currentTerm = nd.currentTerm → nd'.role = nd.role

theorem Follows.refl (nd : RaftNode n L) : Follows nd nd :=
  ⟨rfl, rfl, Int.le_refl _, fun _ => rfl, fun _ => ⟨rfl, rfl⟩, fun _ => rfl⟩

theorem Follows.trans {nd nd₁ nd₂ : RaftNode n L} (h : Follows nd nd₁) (h' : Follows nd₁ nd₂) :
    Follows nd nd₂ where
  id := h'.id.trans h.id
  snapshot := h'.snapshot.trans h.snapshot
  term := Int.le_trans h.term h'.term
  vote := by
    intro heq
    have hmid : nd₁.currentTerm = nd.currentTerm := by have := h.term; have := h'.term; omega
    exact (h'.vote (heq.trans hmid.symm)).trans (h.vote hmid)
  role := by
    intro hr
    obtain ⟨hrole, hterm⟩ := h'.role hr
    obtain ⟨hrole', hterm'⟩ := h.role (by rw [← hrole]; exact hr)
    exact ⟨hrole.trans hrole', hterm.trans hterm'⟩
  stays := by
    intro heq
    have hmid : nd₁.currentTerm = nd.currentTerm := by have := h.term; have := h'.term; omega
    exact (h'.stays (heq.trans hmid.symm)).trans (h.stays hmid)

theorem becomeFollower_follows {nd : RaftNode n L} {t : Int} (h : nd.currentTerm < t) :
    Follows nd (nd.becomeFollower t) where
  id := rfl
  snapshot := rfl
  term := Int.le_of_lt h
  vote := fun ht => absurd ht.symm (Int.ne_of_lt h)
  role := fun hr => absurd rfl hr
  stays := fun ht => absurd ht.symm (Int.ne_of_lt h)

theorem observeTerm_follows (nd : RaftNode n L) (t : Int) : Follows nd (nd.observeTerm t) := by
  unfold observeTerm
  split
  · rename_i h; exact becomeFollower_follows h
  · exact .refl nd

section Observe

variable (nd : RaftNode n L) (t : Int)

@[simp] theorem observeTerm_log : (nd.observeTerm t).log = nd.log := by
  unfold observeTerm; split <;> rfl

@[simp] theorem observeTerm_commitIndex : (nd.observeTerm t).commitIndex = nd.commitIndex := by
  unfold observeTerm; split <;> rfl

@[simp] theorem observeTerm_matchIndex : (nd.observeTerm t).matchIndex = nd.matchIndex := by
  unfold observeTerm; split <;> rfl

@[simp] theorem observeTerm_snapshot :
    (nd.observeTerm t).lastIncludedIndex = nd.lastIncludedIndex :=
  (observeTerm_follows nd t).snapshot

@[simp] theorem observeTerm_id : (nd.observeTerm t).curNodeId = nd.curNodeId :=
  (observeTerm_follows nd t).id

theorem observeTerm_term {nd : RaftNode n L} {t : Int} (h : ¬t < nd.currentTerm) :
    (nd.observeTerm t).currentTerm = t := by
  unfold observeTerm
  split
  · rfl
  · omega

theorem observeTerm_self : nd.observeTerm nd.currentTerm = nd := if_neg (Int.lt_irrefl _)

end Observe

theorem Follows.congr {nd nd₁ nd₂ : RaftNode n L} (h : Follows nd nd₁)
    (hid : nd₂.curNodeId = nd₁.curNodeId)
    (hsnap : nd₂.lastIncludedIndex = nd₁.lastIncludedIndex)
    (hterm : nd₂.currentTerm = nd₁.currentTerm) (hvote : nd₂.votedFor = nd₁.votedFor)
    (hrole : nd₂.role = nd₁.role) : Follows nd nd₂ where
  id := hid.trans h.id
  snapshot := hsnap.trans h.snapshot
  term := by rw [hterm]; exact h.term
  vote := by rw [hterm, hvote]; exact h.vote
  role := by rw [hterm, hrole]; exact h.role
  stays := by rw [hterm, hrole]; exact h.stays

variable [Log L]

/-! ## Elections -/

theorem elect_spec {nd nd' : RaftNode n L} {args : RequestVoteArgs}
    (h : nd.elect = some (nd', args)) : ∃ last, nd.lastTerm = some last ∧
      nd' = { nd with
        currentTerm := nd.currentTerm + 1, role := .candidate, votedFor := (nd.curNodeId : Nat) } ∧
      args = ⟨nd.currentTerm + 1, (nd.curNodeId : Nat), nd.lastIdx, last⟩ := by
  simp only [elect, Option.bind_eq_bind, Option.bind_eq_some_iff, Option.pure_def,
    Option.some.injEq, Prod.mk.injEq] at h
  obtain ⟨last, hlast, rfl, rfl⟩ := h
  exact ⟨last, hlast, rfl, rfl⟩

/-- The state in which `RequestVote` grants the vote. -/
structure Grants (nd : RaftNode n L) (request : RequestVoteArgs) : Prop where
  term : nd.currentTerm ≤ request.term
  free : nd.currentTerm = request.term → nd.votedFor = -1 ∨ nd.votedFor = request.candidateId
  upToDate : ∃ last, nd.lastTerm = some last ∧ upToDate request last nd.lastIdx

theorem requestVote_spec {nd nd' : RaftNode n L} {request : RequestVoteArgs}
    {reply : RequestVoteReply} (h : nd.requestVote request = some (nd', reply)) :
    (reply.voteGranted = false ∧ (nd' = nd ∨ nd' = nd.observeTerm request.term)) ∨
    (reply.voteGranted = true ∧ nd.Grants request ∧
      nd' = { nd with
        currentTerm := request.term, votedFor := request.candidateId, role := .follower }) := by
  unfold requestVote at h
  split at h
  · cases h
    exact .inl ⟨rfl, .inl rfl⟩
  · rename_i hge
    simp only at h
    split at h
    · rename_i hfree
      simp only [Option.bind_eq_bind, Option.bind_eq_some_iff] at h
      obtain ⟨last, hlast, h⟩ := h
      split at h
      · rename_i hup
        cases h
        refine .inr ⟨rfl, ⟨Int.not_lt.mp hge, ?_, last, ?_, ?_⟩, ?_⟩
        · intro heq
          rw [observeTerm, if_neg (by omega)] at hfree
          exact hfree
        · simpa [lastTerm] using hlast
        · simpa [lastIdx, virtualLogIdx] using hup
        · unfold observeTerm
          split <;> rfl
      · cases h
        exact .inl ⟨rfl, .inr rfl⟩
    · cases h
      exact .inl ⟨rfl, .inr rfl⟩

omit [Log L] in
theorem getVoteAnswer_spec {nd nd' : RaftNode n L} {request : RequestVoteArgs}
    {reply : RequestVoteReply} {got : Bool} (h : nd.getVoteAnswer request reply = (nd', got)) :
    (nd' = nd ∨ nd' = nd.observeTerm reply.term) ∧
      (got = true → reply.voteGranted = true) := by
  unfold getVoteAnswer at h
  split at h
  · cases h
    exact ⟨.inl rfl, fun h => by cases h⟩
  · split at h
    · rename_i hlt
      cases h
      exact ⟨.inr (by rw [observeTerm, if_pos hlt]), id⟩
    · cases h
      exact ⟨.inl rfl, id⟩

/-- The counter goes up by at most one; the node becomes leader only on the vote that makes the
majority, as a candidate of the term the votes are for. -/
theorem collectVote_spec {nd nd' : RaftNode n L} {args : RequestVoteArgs} {voteCount count : Nat}
    (h : nd.collectVote args voteCount = (nd', count)) :
    voteCount ≤ count ∧ count ≤ voteCount + 1 ∧
    (nd' = nd ∨ (nd.role = .candidate ∧ nd.currentTerm = args.term ∧ n / 2 < count ∧
      nd' = { nd with
        role := .leader
        nextIndex := fun _ => nd.virtualLogIdx (Log.size nd.log)
        matchIndex := fun _ => nd.lastIncludedIndex })) := by
  unfold collectVote at h
  split at h
  · cases h
    exact ⟨Nat.le_refl _, Nat.le_succ _, .inl rfl⟩
  · split at h
    · rename_i hmaj
      split at h
      · cases h
        exact ⟨Nat.le_succ _, Nat.le_refl _, .inl rfl⟩
      · rename_i hcand
        simp only [not_or, Decidable.not_not] at hcand
        cases h
        exact ⟨Nat.le_succ _, Nat.le_refl _, .inr ⟨hcand.1, hcand.2, hmaj, rfl⟩⟩
    · cases h
      exact ⟨Nat.le_succ _, Nat.le_refl _, .inl rfl⟩

/-- The functions of the election may raise the term; the log and what goes with it stay. -/
structure LeavesLog (nd nd' : RaftNode n L) : Prop where
  snapshot : nd'.lastIncludedIndex = nd.lastIncludedIndex
  log : nd'.log = nd.log
  commitIndex : nd'.commitIndex = nd.commitIndex
  term : nd.currentTerm ≤ nd'.currentTerm

omit [Log L] in
theorem LeavesLog.refl (nd : RaftNode n L) : LeavesLog nd nd := ⟨rfl, rfl, rfl, Int.le_refl _⟩

omit [Log L] in
theorem observeTerm_leavesLog (nd : RaftNode n L) (t : Int) : LeavesLog nd (nd.observeTerm t) :=
  ⟨observeTerm_snapshot nd t, observeTerm_log nd t, observeTerm_commitIndex nd t,
    (observeTerm_follows nd t).term⟩

theorem elect_leavesLog {nd nd' : RaftNode n L} {args : RequestVoteArgs}
    (h : nd.elect = some (nd', args)) : LeavesLog nd nd' := by
  obtain ⟨_, _, rfl, _⟩ := elect_spec h
  exact ⟨rfl, rfl, rfl, by simp only; omega⟩

theorem requestVote_leavesLog {nd nd' : RaftNode n L} {request : RequestVoteArgs}
    {reply : RequestVoteReply} (h : nd.requestVote request = some (nd', reply)) :
    LeavesLog nd nd' := by
  rcases requestVote_spec h with ⟨_, rfl | rfl⟩ | ⟨_, hgrants, rfl⟩
  · exact .refl nd'
  · exact observeTerm_leavesLog nd request.term
  · exact ⟨rfl, rfl, rfl, hgrants.term⟩

omit [Log L] in
theorem getVoteAnswer_leavesLog {nd nd' : RaftNode n L} {request : RequestVoteArgs}
    {reply : RequestVoteReply} {got : Bool} (h : nd.getVoteAnswer request reply = (nd', got)) :
    LeavesLog nd nd' := by
  rcases (getVoteAnswer_spec h).1 with rfl | rfl
  · exact .refl nd'
  · exact observeTerm_leavesLog nd reply.term

theorem collectVote_leavesLog {nd nd' : RaftNode n L} {args : RequestVoteArgs}
    {voteCount count : Nat} (h : nd.collectVote args voteCount = (nd', count)) :
    LeavesLog nd nd' := by
  rcases (collectVote_spec h).2.2 with rfl | ⟨_, _, _, rfl⟩
  · exact .refl nd'
  · exact ⟨rfl, rfl, rfl, Int.le_refl _⟩

/-! ## Replication -/

theorem followCommit_eq (nd : RaftNode n L) (leaderCommit : Int) :
    ∃ ci, nd.followCommit leaderCommit = { nd with commitIndex := ci } := by
  unfold followCommit
  split
  · split
    · exact ⟨_, rfl⟩
    · exact ⟨_, rfl⟩
  · exact ⟨nd.commitIndex, rfl⟩

theorem followCommit_follows (nd : RaftNode n L) (leaderCommit : Int) :
    Follows nd (nd.followCommit leaderCommit) := by
  obtain ⟨ci, hci⟩ := followCommit_eq nd leaderCommit
  rw [hci]
  exact (Follows.refl nd).congr rfl rfl rfl rfl rfl

theorem followCommit_log (nd : RaftNode n L) (leaderCommit : Int) :
    (nd.followCommit leaderCommit).log = nd.log := by
  obtain ⟨ci, hci⟩ := followCommit_eq nd leaderCommit
  rw [hci]

theorem followCommit_term (nd : RaftNode n L) (leaderCommit : Int) :
    (nd.followCommit leaderCommit).currentTerm = nd.currentTerm := by
  obtain ⟨ci, hci⟩ := followCommit_eq nd leaderCommit
  rw [hci]

theorem appendEntries_spec {nd nd' : RaftNode n L} {request : AppendEntriesArgs}
    {reply : AppendEntriesReply} (h : nd.appendEntries request = some (nd', reply)) :
    (request.term < nd.currentTerm ∧ nd' = nd ∧ reply.success = false) ∨
    (nd.currentTerm ≤ request.term ∧ nd' = nd.observeTerm request.term ∧
      (reply.success = true → ltU64 request.prevLogIndex nd.lastIncludedIndex)) ∨
    (nd.currentTerm ≤ request.term ∧
      ltU64 request.prevLogIndex (nd.virtualLogIdx (Log.size nd.log)) ∧
      ∃ e log, Log.get nd.log (nd.realLogIdx request.prevLogIndex.toNat) = some e ∧
        e.term = request.prevLogTerm ∧
        mergeEntries nd.log (nd.realLogIdx request.prevLogIndex.toNat + 1) request.entries =
          some log ∧
        nd' = { nd.observeTerm request.term with log := log }.followCommit request.leaderCommit ∧
        reply.success = true) := by
  unfold appendEntries at h
  split at h
  · rename_i hold
    cases h
    exact .inl ⟨hold, rfl, rfl⟩
  · rename_i hge
    have hge : nd.currentTerm ≤ request.term := Int.not_lt.mp hge
    simp only [observeTerm_snapshot, observeTerm_log, virtualLogIdx, realLogIdx] at h
    split at h
    · rename_i hsnap
      cases h
      exact .inr (.inl ⟨hge, rfl, fun _ => hsnap⟩)
    · split at h
      · cases h
        exact .inr (.inl ⟨hge, rfl, fun hs => by cases hs⟩)
      · rename_i hin
        simp only [Option.bind_eq_bind, Option.bind_eq_some_iff] at h
        obtain ⟨e, he, h⟩ := h
        split at h
        · simp only [Option.bind_eq_some_iff, Option.pure_def, Option.some.injEq,
            Prod.mk.injEq] at h
          obtain ⟨_, _, rfl, rfl⟩ := h
          exact .inr (.inl ⟨hge, rfl, fun hs => by cases hs⟩)
        · rename_i hterm
          simp only [Option.bind_eq_some_iff, Option.pure_def, Option.some.injEq,
            Prod.mk.injEq] at h
          obtain ⟨log, hlog, rfl, rfl⟩ := h
          exact .inr (.inr ⟨hge, Decidable.not_not.mp hin, e, log, he,
            Decidable.not_not.mp hterm, hlog, by simp, rfl⟩)

theorem appendEntries_follows {nd nd' : RaftNode n L} {request : AppendEntriesArgs}
    {reply : AppendEntriesReply} (h : nd.appendEntries request = some (nd', reply)) :
    Follows nd nd' := by
  have hobs := observeTerm_follows nd request.term
  rcases appendEntries_spec h with ⟨_, rfl, _⟩ | ⟨_, rfl, _⟩ | ⟨_, _, e, log, _, _, _, rfl, _⟩
  · exact .refl nd'
  · exact hobs
  · have hlog : Follows nd { nd.observeTerm request.term with log := log } :=
      hobs.congr rfl rfl rfl rfl rfl
    exact hlog.trans (followCommit_follows _ _)

/-- The log of the receiver matches the request at `prevLogIndex`, or a snapshot covers it. -/
def Matches (nd : RaftNode n L) (request : AppendEntriesArgs) : Prop :=
  ltU64 request.prevLogIndex nd.lastIncludedIndex ∨
  (ltU64 request.prevLogIndex (nd.virtualLogIdx (Log.size nd.log)) ∧
    ∃ e, Log.get nd.log (nd.realLogIdx request.prevLogIndex.toNat) = some e ∧
      e.term = request.prevLogTerm)

theorem appendEntries_success_iff {nd nd' : RaftNode n L} {request : AppendEntriesArgs}
    {reply : AppendEntriesReply} (h : nd.appendEntries request = some (nd', reply))
    (hge : nd.currentTerm ≤ request.term) : reply.success = true ↔ nd.Matches request := by
  unfold appendEntries at h
  rw [if_neg (Int.not_lt.mpr hge)] at h
  simp only [observeTerm_snapshot, observeTerm_log, virtualLogIdx, realLogIdx] at h
  unfold Matches virtualLogIdx realLogIdx
  split at h
  · rename_i hsnap
    cases h
    exact iff_of_true rfl (.inl hsnap)
  · rename_i hsnap
    rw [or_iff_right hsnap]
    split at h
    · rename_i hout
      cases h
      exact iff_of_false (by simp) fun hin => hout hin.1
    · rename_i hin
      rw [geU64, Decidable.not_not] at hin
      simp only [Option.bind_eq_bind, Option.bind_eq_some_iff] at h
      obtain ⟨e, he, h⟩ := h
      split at h
      · rename_i hterm
        simp only [Option.bind_eq_some_iff, Option.pure_def, Option.some.injEq,
          Prod.mk.injEq] at h
        obtain ⟨_, _, rfl, rfl⟩ := h
        refine iff_of_false (by simp) ?_
        rintro ⟨_, e', he', hterm'⟩
        rw [he] at he'
        cases he'
        exact hterm hterm'
      · rename_i hterm
        simp only [Option.bind_eq_some_iff, Option.pure_def, Option.some.injEq,
          Prod.mk.injEq] at h
        obtain ⟨_, _, rfl, rfl⟩ := h
        exact iff_of_true rfl ⟨hin, e, he, Decidable.not_not.mp hterm⟩

theorem appendEntries_term {nd nd' : RaftNode n L} {request : AppendEntriesArgs}
    {reply : AppendEntriesReply} (h : nd.appendEntries request = some (nd', reply)) :
    nd'.currentTerm = nd.currentTerm ∨ nd'.currentTerm = request.term := by
  rcases appendEntries_spec h with ⟨_, rfl, _⟩ | ⟨hge, rfl, _⟩ | ⟨hge, _, e, log, _, _, _, rfl, _⟩
  · exact .inl rfl
  · exact .inr (observeTerm_term (Int.not_lt.mpr hge))
  · refine .inr ?_
    rw [followCommit_term]
    exact observeTerm_term (Int.not_lt.mpr hge)

theorem appendEntries_success_term {nd nd' : RaftNode n L} {request : AppendEntriesArgs}
    {reply : AppendEntriesReply} (h : nd.appendEntries request = some (nd', reply))
    (hyes : reply.success = true) : nd'.currentTerm = request.term := by
  rcases appendEntries_spec h with ⟨_, _, hno⟩ | ⟨hge, rfl, _⟩ |
    ⟨hge, _, e, log, _, _, _, rfl, _⟩
  · rw [hno] at hyes
    cases hyes
  · exact observeTerm_term (Int.not_lt.mpr hge)
  · rw [followCommit_term]
    exact observeTerm_term (Int.not_lt.mpr hge)

/-- The node after a successful reply, before it looks for a new commit index. -/
def matched (nd : RaftNode n L) (target : Fin n) (newMatchIdx : Int) : RaftNode n L :=
  let idx := if gtU64 newMatchIdx (nd.matchIndex target) then asU64 newMatchIdx
    else nd.matchIndex target
  { nd with
    matchIndex := Function.update nd.matchIndex target idx
    nextIndex := Function.update nd.nextIndex target (idx + 1) }

theorem handleAppendEntries_spec {nd nd' : RaftNode n L} {target : Fin n}
    {args : AppendEntriesArgs} {reply : AppendEntriesReply}
    (h : nd.handleAppendEntries target args reply = some nd') :
    nd' = nd ∨ (nd.currentTerm < reply.term ∧ nd' = nd.becomeFollower reply.term) ∨
    (∃ next, nd' = { nd with nextIndex := next }) ∨
    (nd.role = .leader ∧ args.term = nd.currentTerm ∧ reply.success = true ∧
      let nd₁ := nd.matched target (args.prevLogIndex + args.entries.length)
      ∃ N, nd₁.commitScan nd₁.lastIdx = some N ∧ nd' = { nd₁ with commitIndex := N }) := by
  unfold handleAppendEntries at h
  split at h
  · cases h
    exact .inl rfl
  · rename_i hlead
    simp only [not_or, Decidable.not_not] at hlead
    split at h
    · rename_i hsucc
      simp only [Option.bind_eq_bind, Option.bind_eq_some_iff, Option.pure_def,
        Option.some.injEq] at h
      obtain ⟨N, hN, rfl⟩ := h
      exact .inr (.inr (.inr ⟨hlead.1, hlead.2, hsucc, N, hN, rfl⟩))
    · split at h
      · rename_i hlt
        cases h
        exact .inr (.inl ⟨hlt, rfl⟩)
      · split at h
        · simp only [Option.bind_eq_bind, Option.bind_eq_some_iff, Option.pure_def,
            Option.some.injEq] at h
          obtain ⟨next, _, rfl⟩ := h
          exact .inr (.inr (.inl ⟨_, rfl⟩))
        · cases h
          exact .inl rfl

theorem handleAppendEntries_follows {nd nd' : RaftNode n L} {target : Fin n}
    {args : AppendEntriesArgs} {reply : AppendEntriesReply}
    (h : nd.handleAppendEntries target args reply = some nd') : Follows nd nd' := by
  have hrefl := Follows.refl nd
  rcases handleAppendEntries_spec h with rfl | ⟨hlt, rfl⟩ | ⟨next, rfl⟩ | ⟨_, _, _, N, _, rfl⟩
  · exact hrefl
  · exact becomeFollower_follows hlt
  · exact hrefl.congr rfl rfl rfl rfl rfl
  · exact hrefl.congr rfl rfl rfl rfl rfl

theorem handleAppendEntries_log {nd nd' : RaftNode n L} {target : Fin n}
    {args : AppendEntriesArgs} {reply : AppendEntriesReply}
    (h : nd.handleAppendEntries target args reply = some nd') : nd'.log = nd.log := by
  rcases handleAppendEntries_spec h with rfl | ⟨_, rfl⟩ | ⟨next, rfl⟩ | ⟨_, _, _, N, _, rfl⟩
  all_goals rfl

/-- Node `i` is another node that holds index `N`, as far as the leader knows. -/
def holds (nd : RaftNode n L) (N : Nat) (i : Fin n) : Bool :=
  i ≠ nd.curNodeId ∧ N ≤ nd.matchIndex i

theorem countPeer_spec {nd : RaftNode n L} {N count count' : Nat} {i : Fin n}
    (h : nd.countPeer N count i = some count') : count' = count ∨
      (count' = count + 1 ∧ nd.holds N i = true ∧
        ∃ e, Log.get nd.log (nd.realLogIdx N) = some e ∧ e.term = nd.currentTerm) := by
  unfold countPeer at h
  split at h
  · cases h
    exact .inl rfl
  · rename_i hi
    split at h
    · rename_i hmi
      simp only [Option.bind_eq_bind, Option.bind_eq_some_iff, Option.pure_def,
        Option.some.injEq] at h
      obtain ⟨e, he, h⟩ := h
      split at h
      · rename_i hterm
        exact .inr ⟨h.symm, by simpa [holds] using ⟨hi, hmi⟩, e, he, hterm⟩
      · exact .inl h.symm
    · cases h
      exact .inl rfl

theorem foldlM_countPeer {nd : RaftNode n L} {N count : Nat} :
    ∀ {peers : List (Fin n)} {count₀ : Nat}, peers.foldlM (nd.countPeer N) count₀ = some count →
      count ≤ count₀ + (peers.filter (nd.holds N)).length ∧ (count₀ < count →
        ∃ e, Log.get nd.log (nd.realLogIdx N) = some e ∧ e.term = nd.currentTerm) := by
  intro peers
  induction peers with
  | nil =>
    intro count₀ h
    cases h
    exact ⟨by simp, fun hlt => absurd hlt (Nat.lt_irrefl _)⟩
  | cons i peers ih =>
    intro count₀ h
    simp only [List.foldlM_cons, Option.bind_eq_bind, Option.bind_eq_some_iff] at h
    obtain ⟨count₁, h₁, h⟩ := h
    obtain ⟨hle, hterm⟩ := ih h
    cases countPeer_spec h₁ with
    | inl hsame =>
      subst hsame
      have hmore : (peers.filter (nd.holds N)).length ≤
          ((i :: peers).filter (nd.holds N)).length :=
        ((List.sublist_cons_self i peers).filter _).length_le
      exact ⟨by omega, hterm⟩
    | inr hone =>
      obtain ⟨hone, hholds, hcur⟩ := hone
      rw [List.filter_cons_of_pos hholds, List.length_cons]
      exact ⟨by omega, fun _ => hcur⟩

theorem commitCount_spec {nd : RaftNode n L} {N count : Nat} (h : nd.commitCount N = some count) :
    count ≤ 1 + ((List.finRange n).filter (nd.holds N)).length ∧ (1 < count →
      ∃ e, Log.get nd.log (nd.realLogIdx N) = some e ∧ e.term = nd.currentTerm) :=
  foldlM_countPeer h

theorem commitScan_spec {nd : RaftNode n L} :
    ∀ {k N : Nat}, nd.commitScan k = some N → N ≤ k ∧
      (nd.commitIndex < N → ∃ count, nd.commitCount N = some count ∧ n / 2 < count) := by
  intro k
  induction k with
  | zero =>
    intro N h
    cases h
    exact ⟨Nat.le_refl _, fun hlt => absurd hlt (Nat.not_lt_zero _)⟩
  | succ k ih =>
    intro N h
    unfold commitScan at h
    split at h
    · simp only [Option.bind_eq_bind, Option.bind_eq_some_iff] at h
      obtain ⟨count, hcount, h⟩ := h
      split at h
      · rename_i hmaj
        cases h
        exact ⟨Nat.le_refl _, fun _ => ⟨count, hcount, hmaj⟩⟩
      · obtain ⟨hle, hmaj⟩ := ih h
        exact ⟨by omega, hmaj⟩
    · rename_i hnot
      cases h
      exact ⟨Nat.le_refl _, fun hlt => absurd hlt hnot⟩

end RaftNode
end TinyKv
