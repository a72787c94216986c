import TinyKv.Raft.Availability
import TinyKv.Raft.Commit
import TinyKv.Raft.Indices
import Mathlib.Data.Finset.Lattice.Fold

/-!
# Raft.Convergence

A leader can bring every node up to its log, whatever requests and replies are still under way,
unless a node has moved on to a later term.

* `Pair.round` is carried out by three steps of the cluster (`reaches_round`).
* What a follower has committed does not conflict with the leader's log (`SafetyInv.diverging`), so
  that the rounds of the two come to an end (`reaches_carries`).
* `leader_converges`: one follower after the other. The reached nodes keep the leader's log while
  the next ones are served, since a round changes two nodes only.
-/

namespace TinyKv

open Lib RaftNode

variable {n B : Nat}

namespace RaftNode

variable {nd nd' : RaftNode n (List Entry)} {i : Fin n} {args : AppendEntriesArgs}

theorem observeTerm_observeTerm (nd : RaftNode n (List Entry)) (t : Int) :
    (nd.observeTerm t).observeTerm t = nd.observeTerm t := by
  unfold observeTerm
  split
  · exact if_neg (Int.lt_irrefl t)
  · rfl

theorem appendEntries_observeTerm (h : nd.currentTerm ≤ args.term) :
    (nd.observeTerm args.term).appendEntries args = nd.appendEntries args := by
  have hterm : (nd.observeTerm args.term).currentTerm = args.term := observeTerm_term (by omega)
  rw [appendEntries, appendEntries, hterm, if_neg (Int.lt_irrefl args.term),
    if_neg (Int.not_lt.mpr h), observeTerm_observeTerm]

theorem mem_sendHeartBeats {calls : List (Fin n × AppendEntriesArgs)}
    (h : nd.sendHeartBeats = some calls) (hlead : nd.role = .leader) (hi : i ≠ nd.curNodeId)
    (hargs : nd.heartBeatArgs i = some (some args)) : (i, args) ∈ calls := by
  rw [sendHeartBeats, if_neg (not_not.mpr hlead)] at h
  simp only [Option.bind_eq_bind, Option.bind_eq_some_iff, Option.pure_def,
    Option.some.injEq] at h
  obtain ⟨pairs, hpairs, rfl⟩ := h
  have hpeer : i ∈ (List.finRange n).filter (· ≠ nd.curNodeId) := by simpa using hi
  have hmem := mem_of_mapM hpairs hpeer (b := (i, some args)) (by rw [hargs]; rfl)
  exact List.mem_filterMap.mpr ⟨_, hmem, rfl⟩

end RaftNode

namespace Pair

variable {p q : Pair n} {i : Fin n} {ok : Bool}

theorem round_some (h : p.round i = some (q, ok)) : ∃ args reply,
    p.leader.heartBeatArgs i = some (some args) ∧
    p.follower.appendEntries args = some (q.follower, reply) ∧
    p.leader.handleAppendEntries i args reply = some q.leader ∧ reply.success = ok := by
  simp only [round, Option.bind_eq_bind, Option.bind_eq_some_iff, Option.pure_def,
    Option.some.injEq, Prod.mk.injEq, Prod.exists] at h
  obtain ⟨_, hargs, args, rfl, follower, reply, happ, leader, hhandle, rfl, hok⟩ := h
  exact ⟨args, reply, hargs, happ, hhandle, hok⟩

theorem round_observeTerm (h0 : p.leader.lastIncludedIndex = 0)
    (h : p.follower.currentTerm ≤ p.leader.currentTerm)
    (hround : round ⟨p.leader, p.follower.observeTerm p.leader.currentTerm⟩ i = some (q, ok)) :
    p.round i = some (q, ok) := by
  obtain ⟨args, reply, hargs, happ, hhandle, rfl⟩ := round_some hround
  obtain ⟨_, hterm, _⟩ := heartBeatArgs_spec h0 hargs
  rw [← hterm] at happ h
  rw [appendEntries_observeTerm h] at happ
  exact round_eq hargs happ hhandle

end Pair

namespace Cluster

variable {s s' : Cluster n (List Entry)} {logs : Fin n → List Entry} {Q : Finset (Fin n)}
  {l v : Fin n}

section Enabled

variable {k r : Nat} {c : AppendCall n} {nd : RaftNode n (List Entry)} {reply : AppendEntriesReply}

theorem sendHeartBeats_enabled {calls : List (Fin n × AppendEntriesArgs)}
    (h : (s.nodes l).sendHeartBeats = some calls) :
    s.step false (.sendHeartBeats l) = some (s.addAppendCalls (appendCallsOf l calls)) := by
  simp only [step, h, Option.bind_eq_bind, Option.bind_some, Option.pure_def]

theorem appendEntries_enabled (hk : s.appendCalls[k]? = some c)
    (h : (s.nodes c.dst).appendEntries c.args = some (nd, reply)) :
    s.step false (.appendEntries k) = some ((s.setNode c.dst nd).setAppendCall k
      { c with replies := c.replies ++ [reply] }) := by
  simp only [step, hk, h, Option.bind_eq_bind, Option.bind_some, Option.pure_def]

theorem handleAppendEntries_enabled (hk : s.appendCalls[k]? = some c)
    (hr : c.replies[r]? = some reply) (hopen : c.answered = false)
    (h : (s.nodes c.src).handleAppendEntries c.dst c.args reply = some nd) :
    s.step false (.handleAppendEntries k r) =
      some ((s.setNode c.src nd).setAppendCall k { c with answered := true }) := by
  simp only [step, hk, hr, hopen, h, Option.bind_eq_bind, Option.bind_some, Option.pure_def]
  rfl

end Enabled

/-- A step of a node of `Q` that is no vote against the voter's log. -/
def Serves (Q : Finset (Fin n)) (s : Cluster n (List Entry)) (a : Action n) : Prop :=
  s.VoteAgrees a ∧ s.ActsIn Q a

theorem reaches_round (hinv : s.IndexInv B) (he : s.ElectionInv)
    (hl : (s.nodes l).role = .leader) (hne : v ≠ l) (hlQ : l ∈ Q) (hvQ : v ∈ Q) {q : Pair n}
    {ok : Bool} (hround : Pair.round ⟨s.nodes l, s.nodes v⟩ v = some (q, ok)) :
    ∃ s', ReachesIf (Serves Q) (step false) s s' ∧ s'.nodes l = q.leader ∧
      s'.nodes v = q.follower ∧ ∀ w, w ≠ l → w ≠ v → s'.nodes w = s.nodes w := by
  obtain ⟨args, reply, hargs, happ, hhandle, _⟩ := Pair.round_some hround
  obtain ⟨calls, hcalls⟩ := sendHeartBeats_ok (hinv.nodes l)
  have hmem : (v, args) ∈ calls := by
    refine mem_sendHeartBeats hcalls hl ?_ hargs
    rw [he.ids]
    exact hne
  let s₁ := s.addAppendCalls (appendCallsOf l calls)
  have hstep₁ : s.step false (.sendHeartBeats l) = some s₁ := sendHeartBeats_enabled hcalls
  obtain ⟨k, hk₁⟩ : ∃ k : Nat, s₁.appendCalls[k]? = some ⟨l, v, args, [], false⟩ :=
    List.getElem?_of_mem (List.mem_append_right _ (List.mem_map.mpr ⟨_, hmem, rfl⟩))
  have hlt : k < s₁.appendCalls.length := (List.getElem?_eq_some_iff.mp hk₁).1
  let s₂ := (s₁.setNode v q.follower).setAppendCall k ⟨l, v, args, [reply], false⟩
  have hstep₂ : s₁.step false (.appendEntries k) = some s₂ := appendEntries_enabled hk₁ happ
  have hk₂ : s₂.appendCalls[k]? = some ⟨l, v, args, [reply], false⟩ := List.getElem?_set_self hlt
  have hl₂ : s₂.nodes l = s.nodes l := setNode_ne _ _ hne.symm
  let s₃ := (s₂.setNode l q.leader).setAppendCall k ⟨l, v, args, [reply], true⟩
  have hstep₃ : s₂.step false (.handleAppendEntries k 0) = some s₃ :=
    handleAppendEntries_enabled hk₂ rfl rfl (by rw [hl₂]; exact hhandle)
  have hact₁ : s.Serves Q (.sendHeartBeats l) :=
    ⟨voteAgrees_of_ne (by simp) s, l, hlQ, rfl⟩
  have hact₂ : s₁.Serves Q (.appendEntries k) :=
    ⟨voteAgrees_of_ne (by simp) s₁, v, hvQ, by rw [actor, hk₁]; rfl⟩
  have hact₃ : s₂.Serves Q (.handleAppendEntries k 0) :=
    ⟨voteAgrees_of_ne (by simp) s₂, l, hlQ, by rw [actor, hk₂]; rfl⟩
  refine ⟨s₃, ?_, setNode_self .., ?_, ?_⟩
  · exact (ReachesIf.single hact₁ hstep₁).trans
      ((ReachesIf.single hact₂ hstep₂).trans (ReachesIf.single hact₃ hstep₃))
  · exact (setNode_ne _ _ hne).trans (setNode_self ..)
  · exact fun w hwl hwv => (setNode_ne _ _ hwl).trans (setNode_ne _ _ hwv)

structure ServeInv (B : Nat) (logs : Fin n → List Entry) (s : Cluster n (List Entry)) : Prop where
  safety : s.SafetyInv logs
  index : s.IndexInv B

theorem reaches_serveInv (hm : ∀ i j, LogMatching Entry.term (logs i) (logs j))
    (h : ReachesIf (Serves Q) (step false) s s') (hs : s.ServeInv B logs) : s'.ServeInv B logs :=
  h.inv (fun _ _ _ hs hok hstep => ⟨step_safetyInv hm hs.safety hok.1 hstep,
    step_indexInv hs.index hs.safety.electionInv hstep⟩) hs

theorem take_eq_take_of_prefix {xs ys zs : List Entry} (hx : zs <+: xs) (hy : zs <+: ys) :
    xs.take zs.length = ys.take zs.length := by
  rw [← List.prefix_iff_eq_take.mp hx, ← List.prefix_iff_eq_take.mp hy]

/-- Of a log that does not extend the leader's, what is committed is the leader's. -/
theorem SafetyInv.committed_prefix (h : s.SafetyInv logs)
    (h0 : ∀ i, (logs i)[0]? = some ({} : Entry)) (hl : (s.nodes l).role = .leader)
    (hle : (s.nodes v).currentTerm ≤ (s.nodes l).currentTerm)
    (hno : ¬(s.nodes l).log <+: (s.nodes v).log) :
    ∃ zs, zs.length = (s.nodes v).commitIndex + 1 ∧ zs <+: (s.nodes l).log ∧
      zs <+: (s.nodes v).log := by
  obtain ⟨_, hlogs, lead, hlead, hcommit⟩ := h
  rcases hcommit.nodes v with hk | ⟨T, N, L, hc, hT, hN, hpre⟩
  · have hfirst : ∀ i, [({} : Entry)] <+: (s.nodes i).log := by
      intro i
      rw [List.prefix_iff_eq_take]
      have hget := hlogs.zero h0 i
      cases hxs : (s.nodes i).log with
      | nil => rw [hxs] at hget; cases hget
      | cons x xs => rw [hxs] at hget; cases hget; rfl
    exact ⟨[{}], by rw [hk]; rfl, hfirst l, hfirst v⟩
  · obtain ⟨e, he, _⟩ := hc.entry
    have hlt := (List.getElem?_eq_some_iff.mp he).1
    have htake : L.take ((s.nodes v).commitIndex + 1) <+: L.take (N + 1) :=
      List.take_prefix_take_left (by omega)
    have hcomp := (hcommit.agrees hc (by omega) (hlead.leader l hl)).mono htake
    refine ⟨_, List.length_take_of_le (by omega), ?_, hpre⟩
    exact hcomp.resolve_right fun hback => hno (hback.trans hpre)

theorem ServeInv.diverging (h : s.ServeInv B logs)
    (h0 : ∀ i, (logs i)[0]? = some ({} : Entry))
    (hm : ∀ i j, LogMatching Entry.term (logs i) (logs j)) (hl : (s.nodes l).role = .leader)
    (hle : (s.nodes v).currentTerm ≤ (s.nodes l).currentTerm)
    (hno : ¬(s.nodes l).log <+: (s.nodes v).log) :
    Pair.Diverging ⟨s.nodes l, (s.nodes v).observeTerm (s.nodes l).currentTerm⟩ v := by
  obtain ⟨zs, hlen, hzl, hzv⟩ := h.safety.committed_prefix h0 hl hle hno
  obtain ⟨hpos, hnext, hmatch⟩ := (h.index.nodes l).indices hl v
  have hll := hzl.length_le
  have hlv := hzv.length_le
  have hcl : (s.nodes v).commitIndex < (s.nodes l).log.length := by omega
  have hcv : (s.nodes v).commitIndex < (s.nodes v).log.length := by omega
  obtain ⟨_, hlogs, lead, hlead, _⟩ := h.safety
  constructor
  · constructor
    · exact hl
    · exact observeTerm_term (by omega)
    · exact (h.index.nodes l).snapshot
    · rw [observeTerm_snapshot]
      exact (h.index.nodes v).snapshot
    · exact hpos
    · exact hnext
    · exact hmatch
  · exact hlogs.zero h0 l
  · rw [observeTerm_log]
    exact (h.index.nodes v).log.terms
  · rw [observeTerm_commitIndex, observeTerm_log]
    exact ⟨hcl, hcv⟩
  · rw [observeTerm_commitIndex, observeTerm_log, ← hlen]
    exact take_eq_take_of_prefix hzl hzv
  · rw [observeTerm_log]
    exact hlead.matching hlogs hm (hlead.leader l hl) v

/-- What serving the nodes of `V` comes to: they have the leader's log, and the rest is as
before. -/
structure Served (s s' : Cluster n (List Entry)) (l : Fin n) (V : Finset (Fin n)) : Prop where
  role : (s'.nodes l).role = .leader
  term : (s'.nodes l).currentTerm = (s.nodes l).currentTerm
  log : (s'.nodes l).log = (s.nodes l).log
  carries : ∀ w ∈ V, (s.nodes l).log <+: (s'.nodes w).log
  others : ∀ w, w ≠ l → w ∉ V → s'.nodes w = s.nodes w

/-- Every round that is refused lowers `nextIndex`, so one of them succeeds. -/
theorem reaches_carries (hm : ∀ i j, LogMatching Entry.term (logs i) (logs j)) (hne : v ≠ l)
    (hlQ : l ∈ Q) (hvQ : v ∈ Q) (h : s.ServeInv B logs)
    (hle : (s.nodes v).currentTerm ≤ (s.nodes l).currentTerm)
    (hdiv : Pair.Diverging ⟨s.nodes l, (s.nodes v).observeTerm (s.nodes l).currentTerm⟩ v) :
    ∃ s', ReachesIf (Serves Q) (step false) s s' ∧ s.Served s' l {v} := by
  induction hk : (s.nodes l).nextIndex v using Nat.strong_induction_on generalizing s with
  | _ k ih =>
    obtain ⟨q, ok, hround, hlog, hq⟩ := hdiv.round
    have hpair := Pair.round_observeTerm (p := ⟨s.nodes l, s.nodes v⟩) hdiv.leaderSnapshot hle
      hround
    obtain ⟨s₁, hrun, hl₁, hv₁, hother⟩ :=
      reaches_round h.index h.safety.electionInv hdiv.role hne hlQ hvQ hpair
    have hlead : q.leader.role = .leader ∧ q.follower.currentTerm = q.leader.currentTerm := by
      rcases hq with ⟨_, hq⟩ | ⟨_, hq, _⟩
      · exact ⟨hq.role, hq.term⟩
      · exact ⟨hq.role, hq.term⟩
    obtain ⟨args, reply, _, _, hhandle, _⟩ := Pair.round_some hpair
    have hterm : q.leader.currentTerm = (s.nodes l).currentTerm :=
      ((handleAppendEntries_follows hhandle).role (by rw [hlead.1]; decide)).2
    rcases hq with ⟨_, hq⟩ | ⟨_, hq, hlt⟩
    · refine ⟨s₁, hrun, ?_, ?_, ?_, ?_, ?_⟩
      · rw [hl₁, hlead.1]
      · rw [hl₁, hterm]
      · rw [hl₁, hlog]
      · intro w hw
        rw [Finset.mem_singleton.mp hw, hv₁, ← hlog]
        exact hq.carries
      · exact fun w hwl hwv => hother w hwl fun heq => hwv (Finset.mem_singleton.mpr heq)
    · have hsame : (s₁.nodes v).observeTerm (s₁.nodes l).currentTerm = q.follower := by
        rw [hl₁, hv₁, ← hlead.2, observeTerm_self]
      have hle₁ : (s₁.nodes v).currentTerm ≤ (s₁.nodes l).currentTerm := by
        rw [hl₁, hv₁, hlead.2]
      obtain ⟨s₂, hrun₂, hs₂⟩ := ih _ (by rw [hl₁]; exact hk ▸ hlt) (reaches_serveInv hm hrun h)
        hle₁ (by rw [hsame, hl₁]; exact hq) rfl
      refine ⟨s₂, hrun.trans hrun₂, hs₂.role, ?_, ?_, ?_, ?_⟩
      · rw [hs₂.term, hl₁, hterm]
      · rw [hs₂.log, hl₁, hlog]
      · intro w hw
        have hpre := hs₂.carries w hw
        rwa [hl₁, hlog] at hpre
      · intro w hwl hwv
        exact (hs₂.others w hwl hwv).trans
          (hother w hwl fun heq => hwv (Finset.mem_singleton.mpr heq))

theorem reaches_served_one (h0 : ∀ i, (logs i)[0]? = some ({} : Entry))
    (hm : ∀ i j, LogMatching Entry.term (logs i) (logs j)) (hl : (s.nodes l).role = .leader)
    (hlQ : l ∈ Q) (hvQ : v ∈ Q) (h : s.ServeInv B logs)
    (hle : (s.nodes v).currentTerm ≤ (s.nodes l).currentTerm) :
    ∃ s', ReachesIf (Serves Q) (step false) s s' ∧ s.Served s' l {v} := by
  by_cases hpre : (s.nodes l).log <+: (s.nodes v).log
  · refine ⟨s, Relation.ReflTransGen.refl, hl, rfl, rfl, ?_, fun _ _ _ => rfl⟩
    intro w hw
    rw [Finset.mem_singleton.mp hw]
    exact hpre
  · have hne : v ≠ l := by
      rintro rfl
      exact hpre (List.prefix_refl _)
    exact reaches_carries hm hne hlQ hvQ h hle (h.diverging h0 hm hl hle hpre)

theorem reaches_served (h0 : ∀ i, (logs i)[0]? = some ({} : Entry))
    (hm : ∀ i j, LogMatching Entry.term (logs i) (logs j)) (hl : (s.nodes l).role = .leader)
    (hlQ : l ∈ Q) (h : s.ServeInv B logs) {V : Finset (Fin n)} (hV : V ⊆ Q)
    (hle : ∀ v ∈ V, (s.nodes v).currentTerm ≤ (s.nodes l).currentTerm) :
    ∃ s', ReachesIf (Serves Q) (step false) s s' ∧ s.Served s' l V := by
  induction V using Finset.induction_on with
  | empty =>
    refine ⟨s, Relation.ReflTransGen.refl, hl, rfl, rfl, ?_, fun _ _ _ => rfl⟩
    exact fun w hw => absurd hw (Finset.notMem_empty w)
  | insert v V hv ih =>
    obtain ⟨s₁, hrun, hs₁⟩ := ih (fun w hw => hV (Finset.mem_insert_of_mem hw))
      fun w hw => hle w (Finset.mem_insert_of_mem hw)
    have hvmem := Finset.mem_insert_self v V
    have hle₁ : (s₁.nodes v).currentTerm ≤ (s₁.nodes l).currentTerm := by
      by_cases hvl : v = l
      · rw [hvl]
      · rw [hs₁.others v hvl hv, hs₁.term]
        exact hle v hvmem
    obtain ⟨s₂, hrun₂, hs₂⟩ := reaches_served_one h0 hm hs₁.role hlQ (hV hvmem)
      (reaches_serveInv hm hrun h) hle₁
    refine ⟨s₂, hrun.trans hrun₂, hs₂.role, hs₂.term.trans hs₁.term, hs₂.log.trans hs₁.log, ?_, ?_⟩
    · intro w hw
      rcases Finset.mem_insert.mp hw with rfl | hwV
      · exact hs₁.log ▸ hs₂.carries w (Finset.mem_singleton_self w)
      · -- the round of `v` leaves `w` as it is, unless `w` leads
        by_cases hwl : w = l
        · rw [hwl, hs₂.log, hs₁.log]
        · rw [hs₂.others w hwl fun heq => hv (Finset.mem_singleton.mp heq ▸ hwV)]
          exact hs₁.carries w hwV
    · intro w hwl hw
      rw [Finset.mem_insert, not_or] at hw
      exact (hs₂.others w hwl fun heq => hw.1 (Finset.mem_singleton.mp heq)).trans
        (hs₁.others w hwl hw.2)

theorem exists_logOk (h0 : ∀ i, (logs i)[0]? = some ({} : Entry))
    (hterms : ∀ i, ∀ e ∈ logs i, 0 ≤ e.term) : ∃ B, ∀ i, LogOk B (logs i) :=
  ⟨Finset.univ.sup fun i => (logs i).length, fun i =>
    ⟨h0 i, hterms i, Finset.le_sup (f := fun i => (logs i).length) (Finset.mem_univ i)⟩⟩

/-- The voter's log is a prefix of the candidate's: a case of `VoteAgrees` that can be evaluated. -/
def votesPrefix (s : Cluster n (List Entry)) : Action n → Bool
  | .requestVote k =>
    s.voteCalls[k]?.all fun c => (s.nodes c.dst).log.isPrefixOf (s.nodes c.src).log
  | _ => true

theorem voteAgrees_of_votesPrefix (s : Cluster n (List Entry)) (a : Action n)
    (h : s.votesPrefix a = true) : s.VoteAgrees a := by
  intro k c ha hk _ _ _ N _ _ _
  rw [ha, votesPrefix, hk, Option.all_some, List.isPrefixOf_iff_prefix] at h
  exact .inl ((List.take_prefix (N + 1) _).trans h)

end Cluster
end TinyKv
