import TinyKv.Raft.Election
import TinyKv.Raft.Logs

/-!
# Raft.Leader

The logs of the leaders, over whole runs in which a reply is handled once.

A leader's log does not change while it leads, and every request of a term carries a slice of its
leader's log. `lead T` is that log, a history variable: `none` until a leader of term `T` appears.

* `Acked s v T`: node `v` has answered a request of term `T` with success. `Has s v T`: it holds,
  or held, the whole log of the leader of `T`, as that leader or by such an answer.
* `Agreed lead p T U`: no leader of a term after `T`, up to `U`, has a log that conflicts with `p`.
* `LeaderInv.kept`: of the log of term `T` a node keeps every prefix that the leaders it has heard
  of since agree with.
* `LeaderInv.matched`: a leader's `matchIndex` rests on answers of its own term.

`matchIndex_sound` follows.
-/

namespace TinyKv

open Lib RaftNode

variable {n : Nat}

abbrev Leaders := Int → Option (List Entry)

def Agreed (lead : Leaders) (p : List Entry) (T U : Int) : Prop :=
  ∀ T' L, T < T' → T' ≤ U → lead T' = some L → Comparable p L

theorem Agreed.mono {lead : Leaders} {p : List Entry} {T U U' : Int} (h : Agreed lead p T U)
    (hU : U' ≤ U) : Agreed lead p T U' :=
  fun T' L hlt hle hl => h T' L hlt (Int.le_trans hle hU) hl

def AppendCall.Acks (c : AppendCall n) : Prop := ∃ r ∈ c.replies, r.success = true

/-- A step that leaves the log alone, takes no leadership and gives none up within a term. -/
structure Steady (nd nd' : RaftNode n (List Entry)) : Prop where
  log : nd'.log = nd.log
  term : nd.currentTerm ≤ nd'.currentTerm
  role : nd'.role = .leader → nd.role = .leader ∧ nd'.currentTerm = nd.currentTerm
  stays : nd'.currentTerm = nd.currentTerm → nd.role = .leader → nd'.role = .leader

theorem Steady.refl (nd : RaftNode n (List Entry)) : Steady nd nd :=
  ⟨rfl, Int.le_refl _, fun h => ⟨h, rfl⟩, fun _ h => h⟩

theorem RaftNode.Follows.steady {nd nd' : RaftNode n (List Entry)} (h : Follows nd nd')
    (hlog : nd'.log = nd.log) : Steady nd nd' where
  log := hlog
  term := h.term
  role := by
    intro hr
    obtain ⟨hrole, hterm⟩ := h.role (by rw [hr]; decide)
    exact ⟨hrole.symm.trans hr, hterm⟩
  stays := fun ht hr => (h.stays ht).trans hr

theorem RaftNode.elect_steady {nd nd' : RaftNode n (List Entry)} {args : RequestVoteArgs}
    (h : nd.elect = some (nd', args)) : Steady nd nd' := by
  obtain ⟨_, _, rfl, _⟩ := elect_spec h
  refine ⟨rfl, ?_, nofun, fun ht => ?_⟩
  · simp only; omega
  · simp only at ht; omega

theorem RaftNode.getVoteAnswer_steady {nd nd' : RaftNode n (List Entry)} {args : RequestVoteArgs}
    {reply : RequestVoteReply} {got : Bool} (h : nd.getVoteAnswer args reply = (nd', got)) :
    Steady nd nd' := by
  rcases (getVoteAnswer_spec h).1 with rfl | rfl
  · exact .refl nd'
  · exact (observeTerm_follows _ _).steady (observeTerm_log _ _)

namespace Cluster

variable {logs : Fin n → List Entry} {s s' : Cluster n (List Entry)} {lead : Leaders}

def Acked (s : Cluster n (List Entry)) (v : Fin n) (T : Int) : Prop :=
  ∃ c ∈ s.appendCalls, (c.dst = v ∧ c.args.term = T) ∧ c.Acks

def Has (s : Cluster n (List Entry)) (v : Fin n) (T : Int) : Prop := s.Acked v T ∨ s.Won v T

structure LeaderInv (logs : Fin n → List Entry) (s : Cluster n (List Entry)) (lead : Leaders) :
    Prop where
  initial : ∀ T L, lead T = some L → ∃ m, L = logs m
  led : ∀ T L, lead T = some L → 0 < T ∧ ∃ i, s.Won i T ∧
    (T = (s.nodes i).currentTerm → (s.nodes i).role = .leader)
  leader : ∀ i, (s.nodes i).role = .leader → lead (s.nodes i).currentTerm = some (s.nodes i).log
  calls : ∀ c ∈ s.appendCalls, c.dst ≠ c.src ∧ s.Won c.src c.args.term ∧
    ∃ L, lead c.args.term = some L ∧ SliceOf L c.args
  acked : ∀ v T, s.Acked v T → T ≤ (s.nodes v).currentTerm
  kept : ∀ v T L N, lead T = some L → s.Has v T → Agreed lead (L.take N) T (s.nodes v).currentTerm →
    L.take N <+: (s.nodes v).log
  matched : ∀ i j, (s.nodes i).role = .leader → (s.nodes i).matchIndex j ≠ 0 →
    s.Acked j (s.nodes i).currentTerm ∧ (s.nodes i).matchIndex j < (s.nodes i).log.length

theorem init_leaderInv (logs : Fin n → List Entry) : (init logs).LeaderInv logs fun _ => none where
  initial := fun T L h => by cases h
  led := fun T L h => by cases h
  leader := fun i h => by cases h
  calls := fun c hc => by cases hc
  acked := fun v T ⟨c, hc, _⟩ => by cases hc
  kept := fun v T L N h => by cases h
  matched := fun i j h => by cases h

/-! ## Steps without a new leader -/

theorem LeaderInv.has_term (h : s.LeaderInv logs lead) (he : s.ElectionInv) {v : Fin n} {T : Int}
    (hv : s.Has v T) : T ≤ (s.nodes v).currentTerm := by
  cases hv with
  | inl hv =>
    exact h.acked v T hv
  | inr hv =>
    exact (he.won_term hv).1

theorem LeaderInv.won_back (h : s.LeaderInv logs lead) (he' : s'.ElectionInv)
    (hwon : ∀ i T, s.Won i T → s'.Won i T) {T : Int} {L : List Entry} (hL : lead T = some L)
    {v : Fin n} (hv : s'.Won v T) : s.Won v T := by
  obtain ⟨_, i, hi, _⟩ := h.led T L hL
  obtain rfl := he'.won_unique hv (hwon i T hi)
  exact hi

theorem LeaderInv.led_step (h : s.LeaderInv logs lead) (he : s.ElectionInv)
    (hwon : ∀ i T, s.Won i T → s'.Won i T)
    (hterm : ∀ i, (s.nodes i).currentTerm ≤ (s'.nodes i).currentTerm)
    (hstays : ∀ i, (s'.nodes i).currentTerm = (s.nodes i).currentTerm →
      (s.nodes i).role = .leader → (s'.nodes i).role = .leader) (T : Int) (L : List Entry)
    (hL : lead T = some L) : 0 < T ∧ ∃ i, s'.Won i T ∧
      (T = (s'.nodes i).currentTerm → (s'.nodes i).role = .leader) := by
  obtain ⟨hpos, i, hi, hrole⟩ := h.led T L hL
  refine ⟨hpos, i, hwon i T hi, ?_⟩
  intro hT
  have hle := (he.won_term hi).1
  have hle' := hterm i
  exact hstays i (by omega) (hrole (by omega))

theorem LeaderInv.frame (h : s.LeaderInv logs lead) (he : s.ElectionInv) (he' : s'.ElectionInv)
    (hnode : ∀ i, Steady (s.nodes i) (s'.nodes i)) (hwon : ∀ i T, s.Won i T → s'.Won i T)
    (hcalls : ∀ c ∈ s'.appendCalls, c.dst ≠ c.src ∧ s'.Won c.src c.args.term ∧
      ∃ L, lead c.args.term = some L ∧ SliceOf L c.args)
    (hacked : ∀ v T, s'.Acked v T ↔ s.Acked v T)
    (hmatch : ∀ i j, (s'.nodes i).role = .leader → (s'.nodes i).matchIndex j ≠ 0 →
      s.Acked j (s.nodes i).currentTerm ∧ (s'.nodes i).matchIndex j < (s.nodes i).log.length) :
    s'.LeaderInv logs lead := by
  constructor
  · exact h.initial
  · exact h.led_step he hwon (fun i => (hnode i).term) fun i => (hnode i).stays
  · intro i hl
    obtain ⟨hrole, hterm⟩ := (hnode i).role hl
    rw [hterm, (hnode i).log]
    exact h.leader i hrole
  · exact hcalls
  · intro v T hv
    exact Int.le_trans (h.acked v T ((hacked v T).mp hv)) (hnode v).term
  · intro v T L N hL hv hagree
    have hv' : s.Has v T := by
      cases hv with
      | inl hv =>
        exact .inl ((hacked v T).mp hv)
      | inr hv =>
        exact .inr (h.won_back he' hwon hL hv)
    rw [(hnode v).log]
    exact h.kept v T L N hL hv' (hagree.mono (hnode v).term)
  · intro i j hl hne
    obtain ⟨hack, hlt⟩ := hmatch i j hl hne
    rw [((hnode i).role hl).2, hacked, (hnode i).log]
    exact ⟨hack, hlt⟩

theorem steady_setNode {i : Fin n} {nd : RaftNode n (List Entry)} (h : Steady (s.nodes i) nd)
    (j : Fin n) : Steady (s.nodes j) ((s.setNode i nd).nodes j) :=
  forall_setNode (P := fun j nd => Steady (s.nodes j) nd) h (fun _ _ => .refl _) j

theorem LeaderInv.matched_setNode (h : s.LeaderInv logs lead) {i : Fin n}
    {nd : RaftNode n (List Entry)} (hnd : Steady (s.nodes i) nd)
    (hmatch : nd.matchIndex = (s.nodes i).matchIndex) (j k : Fin n)
    (hl : ((s.setNode i nd).nodes j).role = .leader)
    (hne : ((s.setNode i nd).nodes j).matchIndex k ≠ 0) :
    s.Acked k (s.nodes j).currentTerm ∧
      ((s.setNode i nd).nodes j).matchIndex k < (s.nodes j).log.length := by
  have hrole : (s.nodes j).role = .leader := ((steady_setNode hnd j).role hl).1
  have hsame : ((s.setNode i nd).nodes j).matchIndex = (s.nodes j).matchIndex :=
    forall_setNode (P := fun j nd => nd.matchIndex = (s.nodes j).matchIndex) hmatch
      (fun _ _ => rfl) j
  rw [hsame] at hne ⊢
  exact h.matched j k hrole hne

/-- Steps of the election that make no leader: calls, answers and `matchIndex` stay. -/
theorem LeaderInv.frame_election (h : s.LeaderInv logs lead) (he : s.ElectionInv)
    (he' : s'.ElectionInv) {i : Fin n} {nd : RaftNode n (List Entry)}
    (hnd : Steady (s.nodes i) nd) (hmatch : nd.matchIndex = (s.nodes i).matchIndex)
    (hnodes : s'.nodes = (s.setNode i nd).nodes) (hwon : ∀ i T, s.Won i T → s'.Won i T)
    (hcalls : s'.appendCalls = s.appendCalls) : s'.LeaderInv logs lead := by
  have hacked : ∀ v T, s'.Acked v T ↔ s.Acked v T := by
    intro v T
    rw [Acked, Acked, hcalls]
  refine h.frame he he' ?_ hwon ?_ hacked ?_
  · rw [hnodes]
    exact steady_setNode hnd
  · intro c hc
    rw [hcalls] at hc
    obtain ⟨hne, hw, hL⟩ := h.calls c hc
    exact ⟨hne, hwon _ _ hw, hL⟩
  · rw [hnodes]
    exact h.matched_setNode hnd hmatch

/-! ## The steps that matter -/

theorem leader_votedFor (he : s.ElectionInv) {i : Fin n} (hl : (s.nodes i).role = .leader) :
    (s.nodes i).votedFor = (i : Nat) := (he.won_term (he.leader i hl)).2 rfl

theorem requestVote_steady (he : s.ElectionInv) {c : VoteCall n} (hc : c ∈ s.voteCalls)
    {nd : RaftNode n (List Entry)} {reply : RequestVoteReply}
    (hr : (s.nodes c.dst).requestVote c.args = some (nd, reply)) :
    Steady (s.nodes c.dst) nd := by
  rcases requestVote_spec hr with ⟨_, hnd | hnd⟩ | ⟨_, hgr, hnd⟩
  · rw [hnd]
    exact .refl _
  · rw [hnd]
    exact (observeTerm_follows _ _).steady (by simp)
  · rw [hnd]
    refine ⟨rfl, hgr.term, nofun, ?_⟩
    -- a leader has voted for itself and does not vote for another in its term
    intro hterm hl
    have hself := leader_votedFor he hl
    have hok := he.calls c hc
    cases hgr.free hterm.symm with
    | inl hfree =>
      omega
    | inr hsame =>
      rw [hself, hok.candidate] at hsame
      exact absurd (id_inj hsame) hok.other

theorem acked_setCall {k : Nat} {c : AppendCall n} {reply : AppendEntriesReply}
    (hk : s.appendCalls[k]? = some c) {v : Fin n} {T : Int} :
    (s.setAppendCall k { c with replies := c.replies ++ [reply] }).Acked v T ↔
      s.Acked v T ∨ (c.dst = v ∧ c.args.term = T ∧ reply.success = true) := by
  constructor
  · rintro ⟨d, hd, hdst, r, hr, hs⟩
    rcases List.mem_or_eq_of_mem_set hd with hd | rfl
    · exact .inl ⟨d, hd, hdst, r, hr, hs⟩
    · cases List.mem_append.mp hr with
      | inl hr =>
        exact .inl ⟨c, List.mem_of_getElem? hk, hdst, r, hr, hs⟩
      | inr hr =>
        obtain rfl := List.mem_singleton.mp hr
        exact .inr ⟨hdst.1, hdst.2, hs⟩
  · rintro (hv | ⟨hdst, hterm, hs⟩)
    · refine exists_mem_set hk ?_ hv
      rintro ⟨hd, r, hr, hs⟩
      exact ⟨hd, r, List.mem_append_left _ hr, hs⟩
    · exact ⟨_, mem_set_self hk, ⟨hdst, hterm⟩, reply, by simp, hs⟩

theorem LeaderInv.setAppendCall (h : s.LeaderInv logs lead) {k : Nat} {c c' : AppendCall n}
    (hk : s.appendCalls[k]? = some c) (hsrc : c'.src = c.src) (hdst : c'.dst = c.dst)
    (hargs : c'.args = c.args) : ∀ d ∈ s.appendCalls.set k c', d.dst ≠ d.src ∧
      s.Won d.src d.args.term ∧ ∃ L, lead d.args.term = some L ∧ SliceOf L d.args := by
  apply forall_mem_set h.calls
  rw [hsrc, hdst, hargs]
  exact h.calls c (List.mem_of_getElem? hk)

theorem LeaderInv.matching (h : s.LeaderInv logs lead) (hlogs : s.LogsInv logs)
    (hm : ∀ i j, LogMatching Entry.term (logs i) (logs j)) {T : Int} {L : List Entry}
    (hL : lead T = some L) (v : Fin n) : LogMatching Entry.term (s.nodes v).log L := by
  obtain ⟨m, hlog⟩ := hlogs.nodes v
  obtain ⟨m', hL'⟩ := h.initial T L hL
  rw [hlog, hL']
  exact hm m m'

/-- The cluster after a receiver has answered call `k`. -/
abbrev replied (s : Cluster n (List Entry)) (k : Nat) (c : AppendCall n)
    (nd : RaftNode n (List Entry)) (reply : AppendEntriesReply) : Cluster n (List Entry) :=
  (s.setNode c.dst nd).setAppendCall k { c with replies := c.replies ++ [reply] }

theorem acked_replied {k : Nat} {c : AppendCall n} {nd : RaftNode n (List Entry)}
    {reply : AppendEntriesReply} (hk : s.appendCalls[k]? = some c) (v : Fin n) (T : Int) :
    (s.replied k c nd reply).Acked v T ↔
      s.Acked v T ∨ (c.dst = v ∧ c.args.term = T ∧ reply.success = true) :=
  acked_setCall (s := s.setNode c.dst nd) hk

theorem has_replied {k : Nat} {c : AppendCall n} {nd : RaftNode n (List Entry)}
    {reply : AppendEntriesReply} (hk : s.appendCalls[k]? = some c) {v : Fin n} {T : Int}
    (hv : (s.replied k c nd reply).Has v T) : s.Has v T ∨ (v = c.dst ∧ T = c.args.term) := by
  cases hv with
  | inl hv =>
    rcases (acked_replied hk v T).mp hv with hv | ⟨hdst, hterm, _⟩
    · exact .inl (.inl hv)
    · exact .inr ⟨hdst.symm, hterm.symm⟩
  | inr hv =>
    exact .inl (.inr hv)

/-- The receiver takes over the leader's log and still has what that log agrees with. -/
theorem LeaderInv.kept_adopted (h : s.LeaderInv logs lead) (he : s.ElectionInv) {v : Fin n}
    {T T' : Int} {L L' : List Entry} {N : Nat} (hL : lead T = some L)
    (hge : (s.nodes v).currentTerm ≤ T) (hL' : lead T' = some L')
    (hv : s.Has v T' ∨ T' = T) (hagree : Agreed lead (L'.take N) T' T) :
    L'.take N <+: adopt (s.nodes v).log L := by
  by_cases hT : T' = T
  · -- the log of the request's own term, which has just been adopted
    rw [hT, hL] at hL'
    obtain rfl := Option.some.inj hL'
    exact (List.take_prefix N L).trans (prefix_adopt _ _)
  · have hhas : s.Has v T' := hv.resolve_right hT
    have hle := h.has_term he hhas
    have hold := h.kept v T' L' N hL' hhas (hagree.mono hge)
    exact prefix_adopt_of_comparable hold (hagree T L (by omega) (by omega) hL)

theorem refused_leaderInv (h : s.LeaderInv logs lead) (he : s.ElectionInv) {k : Nat}
    {c : AppendCall n} {nd : RaftNode n (List Entry)} {reply : AppendEntriesReply}
    (hk : s.appendCalls[k]? = some c) (hfollows : Follows (s.nodes c.dst) nd)
    (hno : reply.success = false) (hlog : nd.log = (s.nodes c.dst).log)
    (hmatch : nd.matchIndex = (s.nodes c.dst).matchIndex) :
    (s.replied k c nd reply).LeaderInv logs lead := by
  have hsteady := hfollows.steady hlog
  have he' : (s.replied k c nd reply).ElectionInv := he.follows (follows_setNode hfollows) rfl rfl
  refine h.frame he he' (steady_setNode hsteady) (fun _ _ hw => hw)
    (h.setAppendCall hk rfl rfl rfl) ?_ (h.matched_setNode hsteady hmatch)
  intro v T
  rw [acked_replied hk, hno]
  simp

theorem adopted_leaderInv (h : s.LeaderInv logs lead) (he : s.ElectionInv) {k : Nat}
    {c : AppendCall n} {nd : RaftNode n (List Entry)} {reply : AppendEntriesReply}
    {L : List Entry} (hk : s.appendCalls[k]? = some c) (hL : lead c.args.term = some L)
    (hfollows : Follows (s.nodes c.dst) nd) (hge : (s.nodes c.dst).currentTerm ≤ c.args.term)
    (hterm : nd.currentTerm = c.args.term) (hlog : nd.log = adopt (s.nodes c.dst).log L) :
    (s.replied k c nd reply).LeaderInv logs lead := by
  have he' : (s.replied k c nd reply).ElectionInv := he.follows (follows_setNode hfollows) rfl rfl
  -- the receiver does not lead: the leader of the request's term is another node
  have hnolead : nd.role ≠ .leader := by
    intro hl
    obtain ⟨hother, hwonc, _⟩ := h.calls c (List.mem_of_getElem? hk)
    have hw := he'.leader c.dst (by simpa using hl)
    simp only [setAppendCall_nodes, setNode_self, hterm] at hw
    exact hother (he'.won_unique hw hwonc)
  constructor
  · exact h.initial
  · exact h.led_step he (fun _ _ hw => hw) (fun i => (follows_setNode hfollows i).term)
      fun i hT hl => ((follows_setNode hfollows i).stays hT).trans hl
  · intro i hl
    simp only [setAppendCall_nodes, setNode_nodes] at hl ⊢
    split at hl
    · exact absurd hl hnolead
    · rename_i hi
      rw [if_neg hi]
      exact h.leader i hl
  · exact h.setAppendCall hk rfl rfl rfl
  · intro v T hv
    rcases (acked_replied hk v T).mp hv with hv | ⟨rfl, rfl, _⟩
    · exact Int.le_trans (h.acked v T hv) (follows_setNode hfollows v).term
    · simp only [setAppendCall_nodes, setNode_self, hterm]
      exact Int.le_refl _
  · intro v T L' N hL' hv hagree
    have hhas := has_replied hk hv
    by_cases hvd : v = c.dst
    · subst hvd
      simp only [setAppendCall_nodes, setNode_self, hterm, hlog] at hagree ⊢
      exact h.kept_adopted he hL hge hL' (hhas.imp_right And.right) hagree
    · simp only [setAppendCall_nodes, setNode_ne _ _ hvd] at hagree ⊢
      exact h.kept v T L' N hL' (hhas.resolve_right fun hd => hvd hd.1) hagree
  · intro i j hl hne
    simp only [setAppendCall_nodes, setNode_nodes] at hl hne ⊢
    split at hl
    · exact absurd hl hnolead
    · rename_i hi
      rw [if_neg hi] at hne ⊢
      obtain ⟨hack, hlt⟩ := h.matched i j hl hne
      exact ⟨(acked_replied hk _ _).mpr (.inl hack), hlt⟩

theorem appendEntries_leaderInv (h : s.LeaderInv logs lead) (hlogs : s.LogsInv logs)
    (hm : ∀ i j, LogMatching Entry.term (logs i) (logs j)) (he : s.ElectionInv) {k : Nat}
    {c : AppendCall n} {nd : RaftNode n (List Entry)} {reply : AppendEntriesReply}
    (hk : s.appendCalls[k]? = some c)
    (hr : (s.nodes c.dst).appendEntries c.args = some (nd, reply)) :
    (s.replied k c nd reply).LeaderInv logs lead := by
  obtain ⟨_, _, L, hL, hslice⟩ := h.calls c (List.mem_of_getElem? hk)
  have hmatch := h.matching hlogs hm hL c.dst
  have hfollows := appendEntries_follows hr
  rcases appendEntries_slice (hlogs.snapshot c.dst) hmatch hslice hr with
    ⟨hno, hnd⟩ | ⟨_, hge, hnd⟩
  · have hsame : nd.log = (s.nodes c.dst).log ∧ nd.matchIndex = (s.nodes c.dst).matchIndex := by
      rcases hnd with hnd | ⟨_, hnd⟩ <;> simp [hnd]
    exact refused_leaderInv h he hk hfollows hno hsame.1 hsame.2
  · obtain ⟨ci, hci⟩ := followCommit_eq
      { (s.nodes c.dst).observeTerm c.args.term with log := adopt (s.nodes c.dst).log L }
      c.args.leaderCommit
    have hlog : nd.log = adopt (s.nodes c.dst).log L := by rw [hnd, hci]
    have hterm : nd.currentTerm = c.args.term := by
      rw [hnd, hci]
      exact observeTerm_term (by omega)
    exact adopted_leaderInv h he hk hL hfollows hge hterm hlog

theorem acked_addCalls {i : Fin n} {args : List (Fin n × AppendEntriesArgs)} {v : Fin n} {T : Int} :
    (s.addAppendCalls (appendCallsOf i args)).Acked v T ↔ s.Acked v T := by
  constructor
  · rintro ⟨c, hc, hdst, r, hr, hs⟩
    cases List.mem_append.mp hc with
    | inl hc =>
      exact ⟨c, hc, hdst, r, hr, hs⟩
    | inr hc =>
      obtain ⟨p, _, rfl⟩ := List.mem_map.mp hc
      cases hr
  · rintro ⟨c, hc, hrest⟩
    exact ⟨c, List.mem_append_left _ hc, hrest⟩

theorem acked_setAnswered {k : Nat} {c : AppendCall n} (hk : s.appendCalls[k]? = some c)
    {v : Fin n} {T : Int} :
    (s.setAppendCall k { c with answered := true }).Acked v T ↔ s.Acked v T := by
  constructor
  · rintro ⟨d, hd, hrest⟩
    rcases List.mem_or_eq_of_mem_set hd with hd | rfl
    · exact ⟨d, hd, hrest⟩
    · exact ⟨c, List.mem_of_getElem? hk, hrest⟩
  · exact exists_mem_set hk id

theorem handleAppendEntries_leaderInv (h : s.LeaderInv logs lead) (he : s.ElectionInv)
    {k r : Nat} {c : AppendCall n} {reply : AppendEntriesReply} {nd : RaftNode n (List Entry)}
    (hk : s.appendCalls[k]? = some c) (hr : c.replies[r]? = some reply)
    (hnd : (s.nodes c.src).handleAppendEntries c.dst c.args reply = some nd) :
    ((s.setNode c.src nd).setAppendCall k { c with answered := true }).LeaderInv logs lead := by
  have hfollows := handleAppendEntries_follows hnd
  have hsteady := hfollows.steady (handleAppendEntries_log hnd)
  have he' : ((s.setNode c.src nd).setAppendCall k { c with answered := true }).ElectionInv :=
    he.follows (follows_setNode hfollows) rfl rfl
  refine h.frame he he' (steady_setNode hsteady) (fun _ _ hw => hw)
    (h.setAppendCall hk rfl rfl rfl)
    (fun v T => acked_setAnswered (s := s.setNode c.src nd) hk) ?_
  rcases handleAppendEntries_spec hnd with hnd | ⟨_, hnd⟩ | ⟨next, hnd⟩ |
    ⟨hl, hterm, hyes, N, _, hnd⟩
  · exact h.matched_setNode hsteady (by rw [hnd])
  · exact h.matched_setNode hsteady (by rw [hnd]; rfl)
  · exact h.matched_setNode hsteady (by rw [hnd])
  · intro i j hl' hne
    simp only [setAppendCall_nodes, setNode_nodes] at hl' hne ⊢
    split at hl'
    · rename_i hi
      subst hi
      rw [if_pos rfl, hnd] at hne ⊢
      by_cases hj : j = c.dst
      · -- the answer is of the leader's own term, and its slice is cut from the leader's log
        subst hj
        obtain ⟨_, _, L, hL, hslice⟩ := h.calls c (List.mem_of_getElem? hk)
        rw [hterm, h.leader c.src hl, Option.some.injEq] at hL
        rw [← hL] at hslice
        obtain ⟨hidx, hpos⟩ := hslice.matchIdx
        have hmem := List.mem_of_getElem? hk
        refine ⟨⟨c, hmem, ⟨rfl, hterm⟩, reply, List.mem_of_getElem? hr, hyes⟩, ?_⟩
        simp only [matched, hidx, Function.update_self] at hne ⊢
        split
        · rw [asU64_natCast]
          omega
        · rename_i hgt
          rw [if_neg hgt] at hne
          exact (h.matched c.src c.dst hl hne).2
      · simp only [matched, Function.update_of_ne hj] at hne ⊢
        exact h.matched c.src j hl hne
    · rename_i hi
      rw [if_neg hi] at hne ⊢
      exact h.matched i j hl' hne

/-- The history may grow by the log of a node that leads a new term. -/
structure Grows (s s' : Cluster n (List Entry)) (lead lead' : Leaders) : Prop where
  old : ∀ T L, lead T = some L → lead' T = some L
  new : ∀ T L, lead' T = some L → lead T = some L ∨ ∃ i, lead T = none ∧
    (s.nodes i).currentTerm = T ∧ (s'.nodes i).currentTerm = T ∧ L = (s.nodes i).log ∧ s'.Won i T

theorem Grows.refl (s s' : Cluster n (List Entry)) (lead : Leaders) : Grows s s' lead lead :=
  ⟨fun _ _ h => h, fun _ _ h => .inl h⟩

theorem update_old {T T' : Int} {L P : List Entry} (hnone : lead T = none)
    (hL : lead T' = some L) : Function.update lead T (some P) T' = some L := by
  rw [Function.update_of_ne, hL]
  rintro rfl
  rw [hnone] at hL
  cases hL

theorem update_new {T T' : Int} {L P : List Entry}
    (hL : Function.update lead T (some P) T' = some L) :
    lead T' = some L ∨ (T' = T ∧ L = P) := by
  by_cases hT : T' = T
  · subst hT
    rw [Function.update_self] at hL
    exact .inr ⟨rfl, (Option.some.inj hL).symm⟩
  · rw [Function.update_of_ne hT] at hL
    exact .inl hL

theorem LeaderInv.unled (h : s.LeaderInv logs lead) (he' : s'.ElectionInv) {i : Fin n}
    (hrole : (s.nodes i).role = .candidate) (hwon : ∀ i T, s.Won i T → s'.Won i T)
    (hw : s'.Won i (s.nodes i).currentTerm) : lead (s.nodes i).currentTerm = none := by
  cases hL : lead (s.nodes i).currentTerm with
  | none => rfl
  | some L =>
    obtain ⟨_, j, hj, hl⟩ := h.led _ L hL
    obtain rfl := he'.won_unique hw (hwon j _ hj)
    rw [hl rfl] at hrole
    cases hrole

theorem LeaderInv.has_unled (h : s.LeaderInv logs lead) (he' : s'.ElectionInv) {i v : Fin n}
    {T : Int} (hnone : lead T = none) (hw : s'.Won i T) (hv : s.Acked v T ∨ s'.Won v T) :
    v = i := by
  cases hv with
  | inl hv =>
    obtain ⟨c, hc, ⟨_, hct⟩, _⟩ := hv
    obtain ⟨_, _, L, hL, _⟩ := h.calls c hc
    rw [hct, hnone] at hL
    cases hL
  | inr hv =>
    exact he'.won_unique hv hw

/-- A new leader: its log becomes the log of a term that had no leader before. -/
theorem win_leaderInv (h : s.LeaderInv logs lead) (he' : s'.ElectionInv) {i : Fin n}
    {nd : RaftNode n (List Entry)} {T : Int}
    (hrole : (s.nodes i).role = .candidate) (hterm : (s.nodes i).currentTerm = T) (hpos : 0 < T)
    (hlead : nd.role = .leader ∧ nd.currentTerm = T) (hlog : nd.log = (s.nodes i).log)
    (hmatch : nd.matchIndex = fun _ => 0) (hlogs : ∃ m, (s.nodes i).log = logs m)
    (hnodes : s'.nodes = (s.setNode i nd).nodes) (hcalls : s'.appendCalls = s.appendCalls)
    (hwon : ∀ i T, s.Won i T → s'.Won i T) (hw : s'.Won i T) :
    Grows s s' lead (Function.update lead T (some (s.nodes i).log)) ∧
      s'.LeaderInv logs (Function.update lead T (some (s.nodes i).log)) := by
  have hnone : lead T = none := by
    rw [← hterm] at hw ⊢
    exact h.unled he' hrole hwon hw
  have hself : s'.nodes i = nd := by rw [hnodes, setNode_self]
  have hrest : ∀ j, j ≠ i → s'.nodes j = s.nodes j := by
    intro j hj
    rw [hnodes, setNode_ne _ _ hj]
  -- the winner was a candidate of the term: no node's term or log changes
  have hkeeps : ∀ j, (s'.nodes j).currentTerm = (s.nodes j).currentTerm ∧
      (s'.nodes j).log = (s.nodes j).log := by
    intro j
    by_cases hji : j = i
    · rw [hji, hself, hlead.2, hterm, hlog]
      exact ⟨rfl, rfl⟩
    · rw [hrest j hji]
      exact ⟨rfl, rfl⟩
  have hacked : ∀ v T', s'.Acked v T' ↔ s.Acked v T' := by
    intro v T'
    rw [Acked, Acked, hcalls]
  refine ⟨⟨fun _ _ => update_old hnone, ?_⟩, ?_⟩
  · intro T' L hL
    rcases update_new hL with hL | ⟨rfl, rfl⟩
    · exact .inl hL
    · exact .inr ⟨i, hnone, hterm, by rw [hself]; exact hlead.2, rfl, hw⟩
  constructor
  · intro T' L hL
    rcases update_new hL with hL | ⟨_, rfl⟩
    · exact h.initial T' L hL
    · exact hlogs
  · intro T' L hL
    rcases update_new hL with hL | ⟨rfl, _⟩
    · obtain ⟨hpos', j, hj, hl⟩ := h.led T' L hL
      refine ⟨hpos', j, hwon j T' hj, ?_⟩
      by_cases hji : j = i
      · rw [hji, hself]
        exact fun _ => hlead.1
      · rw [hrest j hji]
        exact hl
    · exact ⟨hpos, i, hw, fun _ => by rw [hself]; exact hlead.1⟩
  · intro j hl
    by_cases hji : j = i
    · rw [hji, hself, hlead.2, hlog, Function.update_self]
    · rw [hrest j hji] at hl ⊢
      exact update_old hnone (h.leader j hl)
  · intro c hc
    rw [hcalls] at hc
    obtain ⟨hne, hwc, L, hL, hslice⟩ := h.calls c hc
    exact ⟨hne, hwon _ _ hwc, L, update_old hnone hL, hslice⟩
  · intro v T' hv
    rw [(hkeeps v).1]
    exact h.acked v T' ((hacked v T').mp hv)
  · intro v T' L N hL hv hagree
    rw [(hkeeps v).2]
    rcases update_new hL with hL | ⟨rfl, rfl⟩
    · have hhas : s.Has v T' := hv.imp (hacked v T').mp (h.won_back he' hwon hL)
      apply h.kept v T' L N hL hhas
      intro U M hlt hle hM
      exact hagree U M hlt (by rwa [(hkeeps v).1]) (update_old hnone hM)
    · obtain rfl := h.has_unled he' hnone hw (hv.imp_left (hacked v T').mp)
      exact List.take_prefix N _
  · intro j k hl hne
    by_cases hji : j = i
    · rw [hji, hself, hmatch] at hne
      exact absurd rfl hne
    · rw [hrest j hji] at hl hne ⊢
      obtain ⟨hack, hlt⟩ := h.matched j k hl hne
      exact ⟨(hacked _ _).mpr hack, hlt⟩

theorem step_leaderInv (hm : ∀ i j, LogMatching Entry.term (logs i) (logs j)) {a : Action n}
    (h : s.LeaderInv logs lead) (hlogs : s.LogsInv logs) (he : s.ElectionInv)
    (hs : s.step false a = some s') : ∃ lead', s'.LeaderInv logs lead' ∧ Grows s s' lead lead' := by
  have hsame : s'.LeaderInv logs lead → ∃ lead', s'.LeaderInv logs lead' ∧
      Grows s s' lead lead' := fun h => ⟨lead, h, .refl s s' lead⟩
  have he' := step_electionInv he hs
  have hwon : ∀ i T, s.Won i T → s'.Won i T := fun i T hw => won_step he hs hw
  cases a with
  | elect i =>
    obtain ⟨nd, args, hel, rfl⟩ := step_elect hs
    obtain ⟨_, _, hnd, _⟩ := elect_spec hel
    exact hsame (h.frame_election he he' (elect_steady hel) (by rw [hnd]) rfl hwon rfl)
  | requestVote k =>
    obtain ⟨c, nd, reply, hk, hr, rfl⟩ := step_requestVote hs
    have hsteady := requestVote_steady he (List.mem_of_getElem? hk) hr
    have hmatch : nd.matchIndex = (s.nodes c.dst).matchIndex := by
      rcases requestVote_spec hr with ⟨_, hnd | hnd⟩ | ⟨_, _, hnd⟩ <;> simp [hnd]
    exact hsame (h.frame_election he he' hsteady hmatch rfl hwon rfl)
  | getVoteAnswer k r =>
    obtain ⟨c, reply, nd, got, _, _, _, hv, rfl⟩ := step_getVoteAnswer hs
    have hmatch : nd.matchIndex = (s.nodes c.src).matchIndex := by
      rcases (getVoteAnswer_spec hv).1 with hnd | hnd <;> simp [hnd]
    exact hsame (h.frame_election he he' (getVoteAnswer_steady hv) hmatch rfl hwon rfl)
  | collectVote k =>
    obtain ⟨c, nd, count, hk, _, hv, rfl⟩ := step_collectVote hs
    rcases (collectVote_spec hv).2.2 with hnd | ⟨hrole, hterm, hmaj, hnd⟩
    · have hsteady : Steady (s.nodes c.src) nd := by rw [hnd]; exact .refl _
      exact hsame (h.frame_election he he' hsteady (by rw [hnd]) rfl hwon rfl)
    · have hok := he.calls c (List.mem_of_getElem? hk)
      have hw : (((s.setNode c.src nd).setCount c.src c.args.term count).setVoteCall k
          { c with phase := .finished }).Won c.src c.args.term := by
        rw [Won, setVoteCall_voteCount, setCount_voteCount, if_pos ⟨rfl, rfl⟩]
        exact hmaj
      have hsnap : nd.matchIndex = fun _ => 0 := by rw [hnd, hlogs.snapshot]
      obtain ⟨hgrows, hinv⟩ := win_leaderInv h he' hrole hterm hok.pos
        (by rw [hnd]; exact ⟨rfl, hterm⟩) (by rw [hnd]) hsnap (hlogs.nodes c.src) rfl rfl hwon hw
      exact ⟨_, hinv, hgrows⟩
  | sendHeartBeats i =>
    obtain ⟨args, ha, rfl⟩ := step_sendHeartBeats hs
    refine hsame (h.frame he he' (fun _ => .refl _) hwon ?_ (fun _ _ => acked_addCalls)
      fun j k hl hne => ?_)
    · intro c hc
      cases List.mem_append.mp hc with
      | inl hc =>
        exact h.calls c hc
      | inr hc =>
        obtain ⟨p, hp, rfl⟩ := List.mem_map.mp hc
        obtain ⟨hl, hne, hslice, hterm, _⟩ := sendHeartBeats_spec (hlogs.snapshot i) ha p hp
        refine ⟨by rw [he.ids] at hne; exact hne, ?_, _, ?_, hslice⟩
        · rw [hterm]
          exact hwon _ _ (he.leader i hl)
        · rw [hterm]
          exact h.leader i hl
    · exact h.matched j k hl hne
  | appendEntries k =>
    obtain ⟨c, nd, reply, hk, hr, rfl⟩ := step_appendEntries hs
    exact hsame (appendEntries_leaderInv h hlogs hm he hk hr)
  | handleAppendEntries k r =>
    obtain ⟨c, reply, nd, hk, hr, hnd, rfl⟩ := step_handleAppendEntries hs
    exact hsame (handleAppendEntries_leaderInv h he hk hr hnd)

structure RaftInv (logs : Fin n → List Entry) (s : Cluster n (List Entry)) : Prop where
  electionInv : s.ElectionInv
  logsInv : s.LogsInv logs
  leaderInv : ∃ lead, s.LeaderInv logs lead

theorem reaches_raftInv (hm : ∀ i j, LogMatching Entry.term (logs i) (logs j))
    (h : Reaches (step false) (init logs) s) : s.RaftInv logs := by
  refine h.inv ?_ ⟨init_electionInv logs, init_logsInv logs, _, init_leaderInv logs⟩
  intro s a s' hinv hs
  obtain ⟨he, hlogs, lead, hlead⟩ := hinv
  refine ⟨step_electionInv he hs, step_logsInv hm hlogs hs, ?_⟩
  obtain ⟨lead', h, _⟩ := step_leaderInv hm hlead hlogs he hs
  exact ⟨lead', h⟩

theorem LeaderInv.kept_all (h : s.LeaderInv logs lead) {v : Fin n} {L : List Entry}
    (hL : lead (s.nodes v).currentTerm = some L) (hv : s.Has v (s.nodes v).currentTerm) :
    L <+: (s.nodes v).log := by
  have hagree : Agreed lead (L.take L.length) (s.nodes v).currentTerm (s.nodes v).currentTerm :=
    fun T' _ hlt hle _ => absurd hle (Int.not_le.mpr hlt)
  have := h.kept v _ L L.length hL hv hagree
  rwa [List.take_length] at this

/-- **`matchIndex` is sound.** A peer in the leader's term has the leader's entries up to
`matchIndex`; for a peer that has not reached the term yet `matchIndex` is 0. -/
theorem matchIndex_sound (h0 : ∀ i, (logs i)[0]? = some ({} : Entry))
    (hm : ∀ i j, LogMatching Entry.term (logs i) (logs j))
    (hs : Reaches (step false) (init logs) s) {l : Fin n} (hl : (s.nodes l).role = .leader)
    (i : Fin n) :
    ((s.nodes i).currentTerm = (s.nodes l).currentTerm →
      ∀ k, k ≤ (s.nodes l).matchIndex i → (s.nodes i).log[k]? = (s.nodes l).log[k]?) ∧
    ((s.nodes i).currentTerm < (s.nodes l).currentTerm → (s.nodes l).matchIndex i = 0) := by
  obtain ⟨_, hlogs, lead, h⟩ := reaches_raftInv hm hs
  by_cases hmi : (s.nodes l).matchIndex i = 0
  · refine ⟨?_, fun _ => hmi⟩
    intro _ k hk
    obtain rfl : k = 0 := by omega
    rw [hlogs.zero h0, hlogs.zero h0]
  · obtain ⟨hack, hlt⟩ := h.matched l i hl hmi
    refine ⟨?_, fun hbelow => absurd (h.acked i _ hack) (Int.not_le.mpr hbelow)⟩
    intro hterm k hk
    have hpre : (s.nodes l).log <+: (s.nodes i).log := by
      apply h.kept_all
      · rw [hterm]
        exact h.leader l hl
      · rw [hterm]
        exact .inl hack
    rw [prefix_getElem? hpre (List.getElem?_eq_getElem (by omega)), List.getElem?_eq_getElem]

/-- Node 1 is elected, overwrites the log of node 0 and has the success on record. -/
theorem matchIndex_sound_overwrite :
    let logs : Fin 2 → List Entry := ![[{}, { term := 1 }], [{}, { term := 2 }]]
    ∃ s, Reaches (step false) (init logs) s ∧ (s.nodes 1).matchIndex 0 = 1 ∧
      ∀ k, k ≤ 1 → (s.nodes 0).log[k]? = (s.nodes 1).log[k]? := by
  intro logs
  have hm : ∀ i j, LogMatching Entry.term (logs i) (logs j) := by decide
  have hrun : ((runs (step false) [.elect 1, .requestVote 0, .getVoteAnswer 0 0, .collectVote 0,
      .sendHeartBeats 1, .appendEntries 0, .handleAppendEntries 0 0, .sendHeartBeats 1,
      .appendEntries 1, .handleAppendEntries 1 0] (init logs)).any fun s =>
        (s.nodes 1).role == .leader && (s.nodes 1).matchIndex 0 == 1 &&
          (s.nodes 0).currentTerm == (s.nodes 1).currentTerm) = true := by decide +kernel
  obtain ⟨s, hs, hp⟩ := exists_of_runs hrun
  simp only [Bool.and_eq_true, beq_iff_eq] at hp
  obtain ⟨⟨hl, hmi⟩, hterm⟩ := hp
  refine ⟨s, hs, hmi, ?_⟩
  have hsound := (matchIndex_sound (by decide) hm hs hl 0).1 hterm
  rw [hmi] at hsound
  exact hsound

end Cluster
end TinyKv
