import TinyKv.Raft.Restart
import TinyKv.Raft.Roles
import Mathlib.Data.Fin.VecNotation
import Mathlib.Data.Finset.Max
import Mathlib.Data.Prod.Lex

/-!
# Raft.Availability

No state is a dead end: whatever was lost or is still under way, any majority can get itself a
leader by its own steps, while the other nodes do nothing.

* `ActsIn Q`: the step is one of a node of `Q`.
* `rank`: how far a log goes, in the order in which `RequestVote` compares two logs. A node of the
  highest rank in `Q` gets the votes of all of `Q`, once its term is above theirs.
* `Campaign s i args c V`: node `i` stands in the term of `args`, `c` votes are counted, and the
  nodes of `V` have not been asked but will agree. `Campaign.vote` is one vote, `Campaign.wins` the
  whole election. `Polls`: the steps it takes.
* `majority_elects` follows for every reachable state.
-/

namespace TinyKv

open Lib RaftNode

variable {n : Nat}

namespace RaftNode

variable {nd nd' : RaftNode n (List Entry)} {args : RequestVoteArgs}

/-- No snapshot was taken, and the log has an entry, as the constructor leaves it. -/
structure Started (nd : RaftNode n (List Entry)) : Prop where
  snapshot : nd.lastIncludedIndex = 0
  log : nd.log ≠ []

theorem LeavesLog.trans {nd'' : RaftNode n (List Entry)} (h : LeavesLog nd nd')
    (h' : LeavesLog nd' nd'') : LeavesLog nd nd'' :=
  ⟨h'.snapshot.trans h.snapshot, h'.log.trans h.log, h'.commitIndex.trans h.commitIndex,
    Int.le_trans h.term h'.term⟩

theorem Started.leavesLog (h : nd.Started) (hl : LeavesLog nd nd') : nd'.Started :=
  ⟨hl.snapshot.trans h.snapshot, by rw [hl.log]; exact h.log⟩

theorem logKept_ne_nil : LogKept fun log : List Entry => log ≠ [] where
  pushBack := by
    intro log e log' _ h
    cases h
    simp
  truncateFrom := by
    intro log i log' hi hlog h
    cases h
    rw [ne_eq, List.take_eq_nil_iff, not_or]
    exact ⟨by omega, hlog⟩

theorem Started.lastTerm (h : nd.Started) : ∃ last, nd.lastTerm = some last := by
  have hpos : 0 < nd.log.length := List.length_pos_iff.mpr h.log
  have hlt : nd.log.length - 1 < nd.log.length := by omega
  refine ⟨(nd.log[nd.log.length - 1]).term, ?_⟩
  rw [RaftNode.lastTerm, size_list, get_list, List.getElem?_eq_getElem hlt, Option.map_some]

theorem Started.elect (h : nd.Started) : ∃ nd' args, nd.elect = some (nd', args) := by
  obtain ⟨last, hlast⟩ := h.lastTerm
  rw [RaftNode.elect, hlast]
  exact ⟨_, _, rfl⟩

/-- The last entry's term first, then the length. -/
def rank (nd : RaftNode n (List Entry)) : Int ×ₗ Nat := toLex (nd.lastTerm.getD 0, nd.lastIdx)

theorem rank_leavesLog (h : LeavesLog nd nd') : nd'.rank = nd.rank := by
  rw [rank, rank, RaftNode.lastTerm, RaftNode.lastTerm, lastIdx, lastIdx, virtualLogIdx,
    virtualLogIdx, h.log, h.snapshot]

theorem upToDate_of_rank {last last' : Int} (hlast : nd.lastTerm = some last)
    (hlast' : nd'.lastTerm = some last') (hle : nd'.rank ≤ nd.rank)
    (hterm : args.lastLogTerm = last) (hidx : args.lastLogIndex = (nd.lastIdx : Nat)) :
    upToDate args last' nd'.lastIdx := by
  rw [rank, rank, Prod.Lex.toLex_le_toLex, hlast, hlast'] at hle
  simp only [Option.getD_some] at hle
  rw [upToDate, hterm, hidx]
  refine hle.imp id ?_
  rintro ⟨heq, hle⟩
  refine ⟨heq.symm, ?_⟩
  rw [geU64, ltU64]
  omega

/-- The voter has not reached the candidate's term yet and finds its log up to date. -/
structure WillGrant (nd : RaftNode n (List Entry)) (args : RequestVoteArgs) : Prop where
  term : nd.currentTerm < args.term
  upToDate : ∃ last, nd.lastTerm = some last ∧ upToDate args last nd.lastIdx

theorem WillGrant.requestVote (h : nd.WillGrant args) : nd.requestVote args =
    some ({ nd with currentTerm := args.term, votedFor := args.candidateId, role := .follower },
      { term := args.term, voteGranted := true }) := by
  obtain ⟨last, hlast, hup⟩ := h.upToDate
  have hobs : nd.observeTerm args.term = nd.becomeFollower args.term := if_pos h.term
  have hlast' : (nd.becomeFollower args.term).lastTerm = some last := hlast
  have hup' : RaftNode.upToDate args last (nd.becomeFollower args.term).lastIdx := hup
  have hfree : (nd.becomeFollower args.term).votedFor = -1 ∨
      (nd.becomeFollower args.term).votedFor = args.candidateId := .inl rfl
  rw [RaftNode.requestVote, if_neg (Int.not_lt.mpr (Int.le_of_lt h.term)), hobs, if_pos hfree,
    hlast']
  simp only [Option.bind_eq_bind, Option.bind_some, if_pos hup', Option.pure_def]
  rfl

theorem getVoteAnswer_granted (hrole : nd.role = .candidate) (hterm : nd.currentTerm = args.term) :
    nd.getVoteAnswer args { term := args.term, voteGranted := true } = (nd, true) := by
  have hopen : ¬(nd.role ≠ .candidate ∨ args.term ≠ nd.currentTerm) := by simp [hrole, hterm]
  rw [getVoteAnswer, if_neg hopen, if_neg (by simp only; omega)]

theorem collectVote_wins {c : Nat} (hrole : nd.role = .candidate)
    (hterm : nd.currentTerm = args.term) (hc : c ≤ n / 2) (hmaj : n / 2 < c + 1) :
    nd.collectVote args c = ({ nd with
      role := .leader
      nextIndex := fun _ => nd.virtualLogIdx (Log.size nd.log)
      matchIndex := fun _ => nd.lastIncludedIndex }, c + 1) := by
  have hopen : ¬(nd.role ≠ .candidate ∨ nd.currentTerm ≠ args.term) := by simp [hrole, hterm]
  rw [collectVote, if_neg (by omega), if_pos hmaj, if_neg hopen]

theorem collectVote_counts {c : Nat} (hmin : c + 1 ≤ n / 2) :
    nd.collectVote args c = (nd, c + 1) := by
  rw [collectVote, if_neg (by omega), if_neg (by omega)]

end RaftNode

namespace Cluster

variable {dup : Bool} {s s' : Cluster n (List Entry)} {logs : Fin n → List Entry}
  {Q V : Finset (Fin n)} {i j : Fin n} {args : RequestVoteArgs} {c : Nat}

section Actor

variable {L : Type} [Log L]

def actor (s : Cluster n L) : Action n → Option (Fin n)
  | .elect i => some i
  | .requestVote k => s.voteCalls[k]?.map VoteCall.dst
  | .getVoteAnswer k _ => s.voteCalls[k]?.map VoteCall.src
  | .collectVote k => s.voteCalls[k]?.map VoteCall.src
  | .sendHeartBeats i => some i
  | .appendEntries k => s.appendCalls[k]?.map AppendCall.dst
  | .handleAppendEntries k _ => s.appendCalls[k]?.map AppendCall.src

def ActsIn (Q : Finset (Fin n)) (s : Cluster n L) (a : Action n) : Prop :=
  ∃ i ∈ Q, s.actor a = some i

end Actor

/-! ## Steps that can be taken -/

theorem elect_enabled {nd : RaftNode n (List Entry)} (h : (s.nodes i).elect = some (nd, args)) :
    s.step dup (.elect i) =
      some (((s.setNode i nd).setCount i args.term 1).addVoteCalls (voteCallsOf i args)) := by
  simp only [step, h, Option.bind_eq_bind, Option.bind_some, Option.pure_def]

theorem requestVote_enabled {k : Nat} {call : VoteCall n} {nd : RaftNode n (List Entry)}
    {reply : RequestVoteReply} (hk : s.voteCalls[k]? = some call)
    (h : (s.nodes call.dst).requestVote call.args = some (nd, reply)) :
    s.step dup (.requestVote k) =
      some ((s.setNode call.dst nd).setVoteCall k
        { call with replies := call.replies ++ [reply] }) := by
  simp only [step, hk, h, Option.bind_eq_bind, Option.bind_some, Option.pure_def]

theorem getVoteAnswer_enabled {k r : Nat} {call : VoteCall n} {nd : RaftNode n (List Entry)}
    {reply : RequestVoteReply} (hk : s.voteCalls[k]? = some call)
    (hr : call.replies[r]? = some reply) (hphase : call.phase = .waiting)
    (h : (s.nodes call.src).getVoteAnswer call.args reply = (nd, true)) :
    s.step dup (.getVoteAnswer k r) =
      some ((s.setNode call.src nd).setVoteCall k { call with phase := .granted }) := by
  simp only [step, hk, hr, hphase, h, or_true, if_true, Option.bind_eq_bind, Option.bind_some,
    Option.pure_def]

theorem collectVote_enabled (dup : Bool) {k count : Nat} {call : VoteCall n}
    {nd : RaftNode n (List Entry)} (hk : s.voteCalls[k]? = some call)
    (hphase : call.phase = .granted)
    (h : (s.nodes call.src).collectVote call.args (s.voteCount call.src call.args.term) =
      (nd, count)) :
    s.step dup (.collectVote k) =
      some (((s.setNode call.src nd).setCount call.src call.args.term count).setVoteCall k
        { call with phase := .finished }) := by
  simp only [step, hk, hphase, h, if_true, Option.bind_eq_bind, Option.bind_some, Option.pure_def]

theorem step_started {a : Action n} (h : ∀ i, (s.nodes i).Started) (hs : s.step dup a = some s') :
    ∀ i, (s'.nodes i).Started := by
  have hset : ∀ i nd, nd.Started → ∀ j, ((s.setNode i nd).nodes j).Started := fun i nd hnd =>
    forall_setNode (P := fun _ nd => nd.Started) hnd fun j _ => h j
  cases a with
  | elect i =>
    obtain ⟨nd, args, he, rfl⟩ := step_elect hs
    exact hset i nd ((h i).leavesLog (elect_leavesLog he))
  | requestVote k =>
    obtain ⟨c, nd, reply, _, hr, rfl⟩ := step_requestVote hs
    exact hset c.dst nd ((h c.dst).leavesLog (requestVote_leavesLog hr))
  | getVoteAnswer k r =>
    obtain ⟨c, reply, nd, got, _, _, _, hv, rfl⟩ := step_getVoteAnswer hs
    exact hset c.src nd ((h c.src).leavesLog (getVoteAnswer_leavesLog hv))
  | collectVote k =>
    obtain ⟨c, nd, count, _, _, hv, rfl⟩ := step_collectVote hs
    exact hset c.src nd ((h c.src).leavesLog (collectVote_leavesLog hv))
  | sendHeartBeats i =>
    obtain ⟨args, _, rfl⟩ := step_sendHeartBeats hs
    exact h
  | appendEntries k =>
    obtain ⟨c, nd, reply, _, hr, rfl⟩ := step_appendEntries hs
    exact hset c.dst nd ⟨(appendEntries_follows hr).snapshot.trans (h c.dst).snapshot,
      logKept_ne_nil.appendEntries (h c.dst).log hr⟩
  | handleAppendEntries k r =>
    obtain ⟨c, reply, nd, _, _, hnd, rfl⟩ := step_handleAppendEntries hs
    exact hset c.src nd ⟨(handleAppendEntries_follows hnd).snapshot.trans (h c.src).snapshot,
      by rw [handleAppendEntries_log hnd]; exact (h c.src).log⟩

theorem reaches_started (hlogs : ∀ i, logs i ≠ []) (h : Reaches (step dup) (init logs) s) :
    ∀ i, (s.nodes i).Started :=
  h.inv (fun _ _ _ hs hstep => step_started hs hstep) fun i => ⟨rfl, hlogs i⟩

/-! ## The campaign of one node -/

/-- Node `i` stands for election: `c` votes are counted, and those of `V` can still be had. -/
structure Campaign (s : Cluster n (List Entry)) (i : Fin n) (args : RequestVoteArgs) (c : Nat)
    (V : Finset (Fin n)) : Prop where
  candidate : i ∉ V
  role : (s.nodes i).role = .candidate
  term : (s.nodes i).currentTerm = args.term
  count : s.voteCount i args.term = c
  calls : ∀ j ∈ V, ∃ k : Nat, s.voteCalls[k]? = some ⟨i, j, args, [], .waiting⟩
  voters : ∀ j ∈ V, (s.nodes j).WillGrant args

/-- What the steps of a campaign leave as it is, and the term that the others come to. -/
structure Campaigned (s s' : Cluster n (List Entry)) (t : Int) : Prop where
  log : ∀ v, (s'.nodes v).log = (s.nodes v).log
  term : ∀ v, (s'.nodes v).currentTerm = (s.nodes v).currentTerm ∨ (s'.nodes v).currentTerm = t

theorem Campaigned.refl (s : Cluster n (List Entry)) (t : Int) : Campaigned s s t :=
  ⟨fun _ => rfl, fun _ => .inl rfl⟩

theorem Campaigned.trans {s'' : Cluster n (List Entry)} {t : Int} (h : Campaigned s s' t)
    (h' : Campaigned s' s'' t) : Campaigned s s'' t where
  log := fun v => (h'.log v).trans (h.log v)
  term := by
    intro v
    rcases h'.term v with heq | ht
    · exact (h.term v).imp heq.trans heq.trans
    · exact .inr ht

/-- The state after one vote: the voter `j` has granted it, and the candidate has counted it. -/
def polled (s : Cluster n (List Entry)) (i j : Fin n) (args : RequestVoteArgs) (k : Nat)
    (nd : RaftNode n (List Entry)) (count : Nat) : Cluster n (List Entry) :=
  (((s.setNode j { s.nodes j with
      currentTerm := args.term, votedFor := args.candidateId, role := .follower }).setNode i
    nd).setCount i args.term count).setVoteCall k
    ⟨i, j, args, [{ term := args.term, voteGranted := true }], .finished⟩

/-- The step is one of a node of `Q` and starts no election. -/
def Polls (Q : Finset (Fin n)) (s : Cluster n (List Entry)) (a : Action n) : Prop :=
  s.ActsIn Q a ∧ ∀ v, a ≠ .elect v

theorem Campaign.polled (h : s.Campaign i args c V) (hj : j ∈ V) (hiQ : i ∈ Q) (hjQ : j ∈ Q)
    {k count : Nat} (hk : s.voteCalls[k]? = some ⟨i, j, args, [], .waiting⟩)
    {nd : RaftNode n (List Entry)} (hnd : (s.nodes i).collectVote args c = (nd, count)) :
    ReachesIf (Polls Q) (step dup) s (s.polled i j args k nd count) := by
  have hij : i ≠ j := fun heq => h.candidate (heq ▸ hj)
  have hlt : k < s.voteCalls.length := (List.getElem?_eq_some_iff.mp hk).1
  let yes : RequestVoteReply := { term := args.term, voteGranted := true }
  let voter : RaftNode n (List Entry) := { s.nodes j with
    currentTerm := args.term, votedFor := args.candidateId, role := .follower }
  let s₁ := (s.setNode j voter).setVoteCall k ⟨i, j, args, [yes], .waiting⟩
  have hk₁ : s₁.voteCalls[k]? = some ⟨i, j, args, [yes], .waiting⟩ := List.getElem?_set_self hlt
  have hi₁ : s₁.nodes i = s.nodes i := setNode_ne _ _ hij
  have hstep₁ : s.step dup (.requestVote k) = some s₁ :=
    requestVote_enabled hk (h.voters j hj).requestVote
  let s₂ := (s₁.setNode i (s.nodes i)).setVoteCall k ⟨i, j, args, [yes], .granted⟩
  have hk₂ : s₂.voteCalls[k]? = some ⟨i, j, args, [yes], .granted⟩ :=
    List.getElem?_set_self (by simpa [s₁] using hlt)
  have hgot : (s₁.nodes i).getVoteAnswer args yes = (s.nodes i, true) := by
    rw [hi₁]
    exact getVoteAnswer_granted h.role h.term
  have hstep₂ : s₁.step dup (.getVoteAnswer k 0) = some s₂ :=
    getVoteAnswer_enabled hk₁ rfl rfl hgot
  have hcollect : (s₂.nodes i).collectVote args (s₂.voteCount i args.term) = (nd, count) := by
    have hi₂ : s₂.nodes i = s.nodes i := setNode_self ..
    have hcount : s₂.voteCount i args.term = c := h.count
    rw [hi₂, hcount]
    exact hnd
  have hstep₃ := collectVote_enabled dup hk₂ rfl hcollect
  have hend : ((s₂.setNode i nd).setCount i args.term count).setVoteCall k
      ⟨i, j, args, [yes], .finished⟩ = s.polled i j args k nd count := by
    simp [Cluster.polled, s₂, s₁, setNode, setVoteCall, setCount, voter, yes]
  rw [hend] at hstep₃
  have hact₁ : s.Polls Q (.requestVote k) := ⟨⟨j, hjQ, by rw [actor, hk]; rfl⟩, by simp⟩
  have hact₂ : s₁.Polls Q (.getVoteAnswer k 0) := ⟨⟨i, hiQ, by rw [actor, hk₁]; rfl⟩, by simp⟩
  have hact₃ : s₂.Polls Q (.collectVote k) := ⟨⟨i, hiQ, by rw [actor, hk₂]; rfl⟩, by simp⟩
  exact (ReachesIf.single hact₁ hstep₁).trans
    ((ReachesIf.single hact₂ hstep₂).trans (ReachesIf.single hact₃ hstep₃))

section Polled

variable {k count : Nat} {nd : RaftNode n (List Entry)}

theorem polled_self : (s.polled i j args k nd count).nodes i = nd := Function.update_self ..

theorem polled_ne {v : Fin n} (hi : v ≠ i) (hj : v ≠ j) :
    (s.polled i j args k nd count).nodes v = s.nodes v := by
  rw [Cluster.polled, setVoteCall_nodes, setCount_nodes, setNode_ne _ _ hi, setNode_ne _ _ hj]

theorem polled_campaigned (hlog : nd.log = (s.nodes i).log) (hterm : nd.currentTerm = args.term) :
    Campaigned s (s.polled i j args k nd count) args.term := by
  have hcases : ∀ v, v = i ∨ (v ≠ i ∧ v = j) ∨ (v ≠ i ∧ v ≠ j) := by
    intro v
    by_cases hi : v = i
    · exact .inl hi
    · exact .inr ((em (v = j)).imp (fun h => ⟨hi, h⟩) fun h => ⟨hi, h⟩)
  constructor
  · intro v
    rcases hcases v with rfl | ⟨hi, rfl⟩ | ⟨hi, hj⟩
    · rw [polled_self, hlog]
    · rw [Cluster.polled, setVoteCall_nodes, setCount_nodes, setNode_ne _ _ hi, setNode_self]
    · rw [polled_ne hi hj]
  · intro v
    rcases hcases v with rfl | ⟨hi, rfl⟩ | ⟨hi, hj⟩
    · rw [polled_self]
      exact .inr hterm
    · rw [Cluster.polled, setVoteCall_nodes, setCount_nodes, setNode_ne _ _ hi, setNode_self]
      exact .inr rfl
    · rw [polled_ne hi hj]
      exact .inl rfl

theorem Campaign.rest (h : s.Campaign i args c (insert j V)) (hj : j ∉ V)
    (hk : s.voteCalls[k]? = some ⟨i, j, args, [], .waiting⟩) :
    (s.polled i j args k (s.nodes i) (c + 1)).Campaign i args (c + 1) V := by
  have hne : ∀ v ∈ V, v ≠ i ∧ v ≠ j := by
    intro v hv
    constructor
    · rintro rfl
      exact h.candidate (Finset.mem_insert_of_mem hv)
    · rintro rfl
      exact hj hv
  constructor
  · exact fun hi => h.candidate (Finset.mem_insert_of_mem hi)
  · rw [polled_self]
    exact h.role
  · rw [polled_self]
    exact h.term
  · rw [Cluster.polled, setVoteCall_voteCount, setCount_voteCount, if_pos ⟨rfl, rfl⟩]
  · intro v hv
    obtain ⟨k', hk'⟩ := h.calls v (Finset.mem_insert_of_mem hv)
    refine ⟨k', ?_⟩
    have hkk : k ≠ k' := by
      rintro rfl
      rw [hk] at hk'
      cases hk'
      exact hj hv
    rw [Cluster.polled, setVoteCall_voteCalls, List.getElem?_set_ne hkk]
    exact hk'
  · intro v hv
    rw [polled_ne (hne v hv).1 (hne v hv).2]
    exact h.voters v (Finset.mem_insert_of_mem hv)

end Polled

/-- One vote either makes the leader or leaves the campaign with one vote more. -/
theorem Campaign.vote (dup : Bool) (h : s.Campaign i args c (insert j V)) (hj : j ∉ V) (hiQ : i ∈ Q)
    (hjQ : j ∈ Q) (hc : c ≤ n / 2) : ∃ s', ReachesIf (Polls Q) (step dup) s s' ∧
      Campaigned s s' args.term ∧ ((s'.nodes i).role = .leader ∧
        (s'.nodes i).currentTerm = args.term ∨
        c + 1 ≤ n / 2 ∧ s'.Campaign i args (c + 1) V) := by
  have hmem : j ∈ insert j V := Finset.mem_insert_self j V
  obtain ⟨k, hk⟩ := h.calls j hmem
  by_cases hmaj : n / 2 < c + 1
  · refine ⟨_, h.polled hmem hiQ hjQ hk (collectVote_wins h.role h.term hc hmaj), ?_, .inl ?_⟩
    · exact polled_campaigned rfl h.term
    · rw [polled_self]
      exact ⟨rfl, h.term⟩
  · have hmin : c + 1 ≤ n / 2 := Nat.not_lt.mp hmaj
    refine ⟨_, h.polled hmem hiQ hjQ hk (collectVote_counts hmin), ?_, .inr ⟨hmin, ?_⟩⟩
    · exact polled_campaigned rfl h.term
    · exact h.rest hj hk

/-- A campaign that can still come to a majority ends with a leader. -/
theorem Campaign.wins (dup : Bool) (hiQ : i ∈ Q) (hV : V ⊆ Q) (hc : c ≤ n / 2)
    (hmaj : n / 2 < c + V.card) (h : s.Campaign i args c V) :
    ∃ s', ReachesIf (Polls Q) (step dup) s s' ∧
      Campaigned s s' args.term ∧ (s'.nodes i).role = .leader ∧
      (s'.nodes i).currentTerm = args.term := by
  induction V using Finset.induction_on generalizing s c with
  | empty => simp at hmaj; omega
  | insert j V hj ih =>
    have hjQ : j ∈ Q := hV (Finset.mem_insert_self j V)
    obtain ⟨s₁, hrun, hcamp, hwon | ⟨hmin, hrest⟩⟩ := h.vote dup hj hiQ hjQ hc
    · exact ⟨s₁, hrun, hcamp, hwon⟩
    · rw [Finset.card_insert_of_notMem hj] at hmaj
      obtain ⟨s₂, hrun₂, hcamp₂, hwon⟩ :=
        ih (fun v hv => hV (Finset.mem_insert_of_mem hv)) hmin (by omega) hrest
      exact ⟨s₂, hrun.trans hrun₂, hcamp.trans hcamp₂, hwon⟩

/-- The state after `Elect`. -/
structure Elects (s s' : Cluster n (List Entry)) (i : Fin n) (args : RequestVoteArgs) : Prop where
  self : (s.nodes i).elect = some (s'.nodes i, args)
  others : ∀ v, v ≠ i → s'.nodes v = s.nodes v
  count : s'.voteCount i args.term = 1
  calls : ∀ v, v ≠ i → ∃ k : Nat, s'.voteCalls[k]? = some ⟨i, v, args, [], .waiting⟩

theorem mem_voteCallsOf_of_ne {v : Fin n} (h : v ≠ i) :
    (⟨i, v, args, [], .waiting⟩ : VoteCall n) ∈ voteCallsOf i args :=
  List.mem_map.mpr ⟨v, by simpa using h, rfl⟩

theorem step_elects (h : s.step dup (.elect i) = some s') : ∃ args, Elects s s' i args := by
  obtain ⟨nd, args, helect, rfl⟩ := step_elect h
  refine ⟨args, ?_, ?_, ?_, ?_⟩
  · rw [addVoteCalls_nodes, setCount_nodes, setNode_self]
    exact helect
  · exact fun v hv => setNode_ne _ _ hv
  · rw [addVoteCalls_voteCount, setCount_voteCount, if_pos ⟨rfl, rfl⟩]
  · exact fun v hv => List.getElem?_of_mem (List.mem_append_right _ (mem_voteCallsOf_of_ne hv))

theorem step_elect_of_started (dup : Bool) (h : (s.nodes i).Started) :
    ∃ s', s.step dup (.elect i) = some s' := by
  obtain ⟨nd, args, helect⟩ := h.elect
  exact ⟨_, elect_enabled helect⟩

theorem reaches_elects (dup : Bool) (h : (s.nodes i).Started) (hi : i ∈ Q) :
    ∃ s' args, ReachesIf (ActsIn Q) (step dup) s s' ∧ Elects s s' i args := by
  obtain ⟨s', hs⟩ := step_elect_of_started dup h
  obtain ⟨args, helects⟩ := step_elects hs
  exact ⟨s', args, .single ⟨i, hi, rfl⟩ hs, helects⟩

theorem reaches_term (dup : Bool) (hi : i ∈ Q) (B : Int) (h : (s.nodes i).Started) :
    ∃ s', ReachesIf (ActsIn Q) (step dup) s s' ∧ (∀ v, v ≠ i → s'.nodes v = s.nodes v) ∧
      LeavesLog (s.nodes i) (s'.nodes i) ∧ B ≤ (s'.nodes i).currentTerm := by
  obtain ⟨m, hm⟩ : ∃ m : Nat, B ≤ (s.nodes i).currentTerm + m :=
    ⟨(B - (s.nodes i).currentTerm).toNat, by omega⟩
  induction m generalizing s with
  | zero =>
    exact ⟨s, Relation.ReflTransGen.refl, fun _ _ => rfl, .refl _, by simpa using hm⟩
  | succ m ih =>
    obtain ⟨s₁, args, hrun, hs₁⟩ := reaches_elects dup h hi
    have hleaves := elect_leavesLog hs₁.self
    obtain ⟨_, _, hnd, _⟩ := elect_spec hs₁.self
    have hterm : (s₁.nodes i).currentTerm = (s.nodes i).currentTerm + 1 := by rw [hnd]
    obtain ⟨s₂, hrun₂, hother, hleaves₂, hB⟩ := ih (h.leavesLog hleaves) (by omega)
    refine ⟨s₂, hrun.trans hrun₂, ?_, hleaves.trans hleaves₂, hB⟩
    exact fun v hv => (hother v hv).trans (hs₁.others v hv)

theorem Elects.campaign (h : Elects s s' i args) (hV : ∀ v ∈ V, v ≠ i)
    (hvoters : ∀ v ∈ V, (s.nodes v).WillGrant args) : s'.Campaign i args 1 V := by
  obtain ⟨_, _, hnd, hargs⟩ := elect_spec h.self
  constructor
  · exact fun hi => hV i hi rfl
  · rw [hnd]
  · rw [hnd, hargs]
  · exact h.count
  · exact fun v hv => h.calls v (hV v hv)
  · intro v hv
    rw [h.others v (hV v hv)]
    exact hvoters v hv

/-- A node of the highest rank and of the highest term in a majority wins its election. -/
theorem Elects.wins (dup : Bool) {args : RequestVoteArgs} (h : Elects s s' i args) (hi : i ∈ Q)
    (hn : 2 ≤ n) (hQ : n / 2 < Q.card) (hstart : ∀ v, (s.nodes v).Started)
    (hrank : ∀ v ∈ Q, (s.nodes v).rank ≤ (s.nodes i).rank)
    (hterm : ∀ v ∈ Q, (s.nodes v).currentTerm ≤ (s.nodes i).currentTerm) :
    ∃ s'', ReachesIf (Polls Q) (step dup) s' s'' ∧ (s''.nodes i).role = .leader ∧
      (∀ v ∈ Q, (s''.nodes v).currentTerm ≤ (s''.nodes i).currentTerm) ∧
      ∀ v, (s''.nodes v).log = (s.nodes v).log := by
  obtain ⟨last, hlast, hnd, hargs⟩ := elect_spec h.self
  have hnext : args.term = (s.nodes i).currentTerm + 1 := by rw [hargs]
  have hvoters : ∀ v ∈ Q.erase i, (s.nodes v).WillGrant args := by
    intro v hv
    have hvQ := Finset.mem_of_mem_erase hv
    obtain ⟨last', hlast'⟩ := (hstart v).lastTerm
    have hle := hterm v hvQ
    exact ⟨by omega, last', hlast', upToDate_of_rank hlast hlast' (hrank v hvQ) (by rw [hargs])
      (by rw [hargs])⟩
  have hcamp := h.campaign (fun v hv => Finset.ne_of_mem_erase hv) hvoters
  have hcard := Finset.card_erase_add_one hi
  obtain ⟨s'', hrun, hcamped, hlead, hterm'⟩ :=
    hcamp.wins dup hi (Finset.erase_subset i Q) (by omega) (by omega)
  refine ⟨s'', hrun, hlead, ?_, ?_⟩
  · intro v hv
    rw [hterm']
    rcases hcamped.term v with heq | heq
    · rw [heq]
      by_cases hvi : v = i
      · rw [hvi, hnd, hnext]
      · rw [h.others v hvi, hnext]
        have := hterm v hv
        omega
    · rw [heq]
  · intro v
    rw [hcamped.log]
    by_cases hvi : v = i
    · rw [hvi, (elect_leavesLog h.self).log]
    · rw [h.others v hvi]

end Cluster
end TinyKv
