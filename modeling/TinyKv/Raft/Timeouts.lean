import TinyKv.Lib.Refine
import TinyKv.Raft.Availability
import TinyKv.Raft.Timed

/-!
# Raft.Timeouts

What the timers allow. They put off what a node does, but they exclude nothing for good.

* `ticked_iff`: with the clock and without, the same states can be reached.
* `Quiet`: nothing sets the timer of a node in the step. `quiet_stands`: a node that hears of nobody
  for `MaxElectTimeOut` stands for election.
* `majority_elects_in_time`: from every reachable state, any majority can get itself a leader within
  two election timeouts.
-/

namespace TinyKv

open Lib RaftNode

variable {n : Nat} {L : Type}

theorem Ticked.raft_enabled [Log L] {s : Ticked n L} {a : Action n} {c : Cluster n L}
    (hne : ∀ v, a ≠ .elect v) (hc : s.cluster.step false a = some c) :
    s.step (.raft a) = some { s with cluster := c } := by
  cases a with
  | elect v => exact absurd rfl (hne v)
  | requestVote k => simp [step, hc]
  | getVoteAnswer k r => simp [step, hc]
  | collectVote k => simp [step, hc]
  | sendHeartBeats v => simp [step, hc]
  | appendEntries k => simp [step, hc]
  | handleAppendEntries k r => simp [step, hc]

theorem RaftNode.Started.hears {nd : RaftNode n (List Entry)} {args : RequestVoteArgs}
    (h : nd.Started) (hlt : nd.currentTerm < args.term) : ∃ nd' reply,
      nd.requestVote args = some (nd', reply) ∧ nd'.role = .follower ∧
        nd'.currentTerm = args.term := by
  obtain ⟨last, hlast⟩ := h.lastTerm
  by_cases hup : upToDate args last nd.lastIdx
  · have hgrant : nd.WillGrant args := ⟨hlt, last, hlast, hup⟩
    exact ⟨_, _, hgrant.requestVote, rfl, rfl⟩
  · have hobs : nd.observeTerm args.term = nd.becomeFollower args.term := if_pos hlt
    have hlast' : (nd.becomeFollower args.term).lastTerm = some last := hlast
    have hup' : ¬upToDate args last (nd.becomeFollower args.term).lastIdx := hup
    have hfree : (nd.becomeFollower args.term).votedFor = -1 ∨
        (nd.becomeFollower args.term).votedFor = args.candidateId := .inl rfl
    refine ⟨nd.becomeFollower args.term, { term := args.term, voteGranted := false }, ?_, rfl, rfl⟩
    rw [requestVote, if_neg (Int.not_lt.mpr (Int.le_of_lt hlt)), hobs]
    simp only [if_pos hfree, hlast', Option.bind_eq_bind, Option.bind_some, if_neg hup',
      Option.pure_def]
    rfl

namespace Timed

variable [Log L] {logs : Fin n → L} {s s' : Timed n L}

/-! ## How far ahead the timers are set -/

/-- No timer is set further ahead than `MaxElectTimeOut`. -/
def DeadlineInv (s : Timed n L) : Prop :=
  ∀ i, (s.timers i).voteTimer.deadline ≤ s.clock + maxElectTimeOut

theorem step_deadlineInv {a : TimedAction n} (h : s.DeadlineInv) (hs : s.step a = some s') :
    s'.DeadlineInv := by
  cases a with
  | tick d =>
    cases hs
    exact fun i => (h i).trans (by simp only; omega)
  | expire j =>
    obtain ⟨_, rfl⟩ := step_expire hs
    intro i
    rw [setTimer_timers]
    split
    · exact h j
    · exact h i
  | ticker j rdTimeout =>
    obtain ⟨_, hrd, rfl⟩ := step_ticker hs
    intro i
    simp only [setTimer_timers]
    split
    · exact Nat.add_le_add_left hrd.2 s.clock
    · exact h i
  | raft b rdTimeout =>
    obtain ⟨hrd, ticked, _, rfl⟩ := step_raft hs
    intro i
    simp only [timersAfter]
    split
    · exact Nat.add_le_add_left hrd.2 s.clock
    · split
      · exact Nat.add_le_add_left (by decide) s.clock
      · exact h i

theorem reaches_deadlineInv (h : Reaches step (init logs) s) : s.DeadlineInv :=
  h.inv (fun _ _ _ hi hs => step_deadlineInv hi hs) fun _ => Nat.zero_le _

/-- Time passes, or a node of `Q` does something. -/
def ActsIn (Q : Finset (Fin n)) (s : Timed n L) : TimedAction n → Prop
  | .tick _ => True
  | .expire i => i ∈ Q
  | .ticker i _ => i ∈ Q
  | .raft a _ => s.ticked.cluster.ActsIn Q a

variable {Q : Finset (Fin n)} {i : Fin n}

theorem reaches_due (hi : i ∈ Q) (hclock : tickerDelay ≤ s.clock)
    (hdue : (s.timers i).voteTimer.deadline ≤ s.clock) : ∃ s', ReachesIf (ActsIn Q) step s s' ∧
      s'.ticked = s.ticked ∧ s'.clock = s.clock ∧ (s'.timers i).due = true ∧
      (s'.timers i).elections = (s.timers i).elections := by
  by_cases hwaits : (s.timers i).due = true
  · exact ⟨s, Relation.ReflTransGen.refl, rfl, rfl, hwaits, rfl⟩
  · have hstep : s.step (.expire i) = some (s.setTimer i { s.timers i with due := true }) :=
      if_pos ⟨Bool.eq_false_of_not_eq_true hwaits, hclock, hdue⟩
    refine ⟨_, .single (a := .expire i) hi hstep, rfl, rfl, ?_⟩
    rw [setTimer_timers, if_pos rfl]
    exact ⟨rfl, rfl⟩

theorem reaches_turn (hi : i ∈ Q) (hclock : tickerDelay ≤ s.clock)
    (hdue : (s.timers i).voteTimer.deadline ≤ s.clock) : ∃ s', ReachesIf (ActsIn Q) step s s' ∧
      s'.ticked = s.ticked.ticker i ∧ s'.clock = s.clock ∧
      ((s.ticked.cluster.nodes i).role ≠ .leader →
        (s'.timers i).elections = s.clock :: (s.timers i).elections) := by
  obtain ⟨t, hrun, hticked, hnow, hwaits, hpast⟩ := reaches_due hi hclock hdue
  have hstep : t.step (.ticker i minElectTimeOut) =
      some { t.setTimer i ((t.timers i).ticker (t.leads i) t.clock minElectTimeOut) with
        ticked := t.ticked.ticker i } := if_pos ⟨hwaits, by decide⟩
  refine ⟨_, hrun.trans (.single (a := .ticker i minElectTimeOut) hi hstep), ?_, hnow, ?_⟩
  · rw [hticked]
  · intro hrole
    have hleads : t.leads i = false := by
      rw [leads, hticked]
      exact decide_eq_false hrole
    simp [setTimer_timers, VoteClock.ticker, hleads, hnow, hpast]

/-- After `MaxElectTimeOut` every timer has run out that was not set again. -/
def waited (s : Timed n L) : Timed n L := { s with clock := s.clock + maxElectTimeOut }

theorem step_waited (s : Timed n L) : s.step (.tick maxElectTimeOut) = some s.waited := rfl

omit [Log L] in
theorem waited_clock (s : Timed n L) : tickerDelay ≤ s.waited.clock := Nat.le_add_left ..

/-! ## The same states as without a clock -/

theorem raft_enabled {a : Action n} {ticked : Ticked n L}
    (h : s.ticked.step (.raft a) = some ticked) : s.step (.raft a minElectTimeOut) =
      some { s with ticked := ticked, timers := s.timersAfter a minElectTimeOut } := by
  have hrd : ElectTimeOut minElectTimeOut := by decide
  simp only [step, if_pos hrd, h, Option.bind_eq_bind, Option.bind_some, Option.pure_def]

theorem step_ticked {a : TimedAction n} (h : s.step a = some s') :
    Reaches Ticked.step s.ticked s'.ticked := by
  cases a with
  | tick d => cases h; exact .refl
  | expire i => rw [(step_expire h).2]; exact .refl
  | ticker i rdTimeout => rw [(step_ticker h).2.2]; exact .single (a := .ticker i) rfl
  | raft a rdTimeout =>
    obtain ⟨_, ticked, ht, rfl⟩ := step_raft h
    exact .single ht

theorem reaches_ticked {b : TickedAction n} {ticked : Ticked n L} (h : s.DeadlineInv)
    (hb : s.ticked.step b = some ticked) : ∃ s', Reaches step s s' ∧ s'.ticked = ticked := by
  cases b with
  | ticker i =>
    cases hb
    obtain ⟨s', hrun, hticked, _⟩ := reaches_turn (s := s.waited) (Finset.mem_univ i)
      s.waited_clock (h i)
    exact ⟨s', (Reaches.single s.step_waited).trans hrun.reaches, hticked⟩
  | raft a => exact ⟨_, .single (raft_enabled hb), rfl⟩

/-- **The clock excludes nothing.** A state of the cluster and its tickers can be reached with the
clock iff it can be reached without. -/
theorem ticked_iff (logs : Fin n → L) (ticked : Ticked n L) :
    (∃ s, Reaches step (init logs) s ∧ s.ticked = ticked) ↔
      Reaches Ticked.step (Ticked.init logs) ticked := by
  constructor
  · rintro ⟨s, hs, rfl⟩
    refine hs.inv (P := fun s => Reaches Ticked.step (Ticked.init logs) s.ticked) ?_ .refl
    exact fun s a s' hrun hstep => hrun.trans (step_ticked hstep)
  · intro h
    have hlift : ∀ (ticked : Ticked n L) (s : Timed n L) (b : TickedAction n)
        (ticked' : Ticked n L), s.ticked = ticked ∧ s.DeadlineInv →
        Ticked.step ticked b = some ticked' →
        ∃ s', Reaches step s s' ∧ s'.ticked = ticked' ∧ s'.DeadlineInv := by
      rintro _ s b ticked' ⟨rfl, hinv⟩ hb
      obtain ⟨s', hrun, hticked⟩ := reaches_ticked hinv hb
      exact ⟨s', hrun, hticked, hrun.inv (fun _ _ _ hi hs => step_deadlineInv hi hs) hinv⟩
    have hinit : (init logs).ticked = Ticked.init logs ∧ (init logs).DeadlineInv :=
      ⟨rfl, fun _ => Nat.zero_le _⟩
    obtain ⟨s, hs, heq, _⟩ := h.lift hlift hinit
    exact ⟨s, hs, heq⟩

/-! ## Elections in time -/

section Elections

variable {logs : Fin n → List Entry} {t t' : Timed n (List Entry)}

theorem reaches_stands (hi : i ∈ Q) (hclock : tickerDelay ≤ t.clock)
    (hdue : (t.timers i).voteTimer.deadline ≤ t.clock)
    (hnode : (t.ticked.cluster.nodes i).Started)
    (hrole : (t.ticked.cluster.nodes i).role ≠ .leader) :
    ∃ t' args, ReachesIf (ActsIn Q) step t t' ∧ t'.clock = t.clock ∧
      (t'.timers i).elections = t.clock :: (t.timers i).elections ∧
      t.ticked.cluster.Elects t'.ticked.cluster i args := by
  obtain ⟨t₁, hrun, hticked, hnow, helections⟩ := reaches_turn hi hclock hdue
  have hcluster : t₁.ticked.cluster = t.ticked.cluster := by
    rw [hticked, Ticked.ticker_cluster]
  have hwaits : t₁.ticked.pending i ≠ 0 := by
    rw [hticked, Ticked.ticker_pending, if_pos ⟨rfl, hrole⟩]
    exact Nat.succ_ne_zero _
  -- the thread finds the node as the ticker has left it
  obtain ⟨c, hc⟩ := Cluster.step_elect_of_started false hnode
  obtain ⟨args, helects⟩ := Cluster.step_elects hc
  have hrunElect : t₁.ticked.step (.raft (.elect i)) =
      some ⟨c, Function.update t₁.ticked.pending i (t₁.ticked.pending i - 1)⟩ := by
    simp only [Ticked.step, Ticked.runElect, if_neg hwaits, hcluster, hc, Option.bind_eq_bind,
      Option.bind_some, Option.pure_def]
  refine ⟨_, args, hrun.trans (.single (a := .raft (.elect i) minElectTimeOut) ⟨i, hi, rfl⟩
    (raft_enabled hrunElect)), hnow, ?_, helects⟩
  rw [timersAfter_elections]
  exact helections hrole

/-- Nothing sets the timer of node `i` in the step. -/
def Quiet (i : Fin n) (s : Timed n L) : TimedAction n → Prop
  | .tick _ => True
  | .expire _ => True
  | .ticker j _ => j ≠ i
  | .raft a _ => s.ticked.cluster.resetsVoteTimer a ≠ some i ∧
      s.ticked.cluster.resetsHeartTimer a ≠ some i

theorem step_quiet {a : TimedAction n} {i : Fin n} (hq : s.Quiet i a) (hs : s.step a = some s') :
    (s'.timers i).voteTimer = (s.timers i).voteTimer := by
  cases a with
  | tick d => cases hs; rfl
  | expire j =>
    obtain ⟨_, rfl⟩ := step_expire hs
    rw [setTimer_timers]
    split
    · rename_i hi
      rw [hi]
    · rfl
  | ticker j rdTimeout =>
    obtain ⟨_, _, rfl⟩ := step_ticker hs
    have hne : i ≠ j := fun hi => hq hi.symm
    simp only [setTimer_timers, if_neg hne]
  | raft b rdTimeout =>
    obtain ⟨_, ticked, _, rfl⟩ := step_raft hs
    simp only [timersAfter, if_neg hq.1, if_neg hq.2]

theorem reaches_polls {c : Cluster n (List Entry)}
    (h : ReachesIf (Cluster.Polls Q) (Cluster.step false) t.ticked.cluster c) :
    ∃ t', ReachesIf (ActsIn Q) step t t' ∧ t'.ticked.cluster = c ∧ t'.clock = t.clock := by
  have hlift : ∀ (c : Cluster n (List Entry)) (u : Timed n (List Entry)) (a : Action n)
      (c' : Cluster n (List Entry)), u.ticked.cluster = c ∧ u.clock = t.clock → c.Polls Q a →
      c.step false a = some c' →
      ∃ u', ReachesIf (ActsIn Q) step u u' ∧ u'.ticked.cluster = c' ∧ u'.clock = t.clock := by
    rintro _ u a c' ⟨rfl, hclock⟩ ⟨hact, hpoll⟩ hc
    have hticked := Ticked.raft_enabled hpoll hc
    exact ⟨_, .single (a := .raft a minElectTimeOut) hact (raft_enabled hticked), rfl, hclock⟩
  exact h.lift hlift ⟨rfl, rfl⟩

theorem elects_in_time (hlogs : ∀ i, logs i ≠ []) (h : Reaches step (init logs) t) (hi : i ∈ Q)
    (hrole : (t.ticked.cluster.nodes i).role ≠ .leader) :
    ∃ t' args, ReachesIf (ActsIn Q) step t t' ∧ t'.clock = t.clock + maxElectTimeOut ∧
      t.ticked.cluster.Elects t'.ticked.cluster i args := by
  have hstarted := Cluster.reaches_started hlogs (reaches_cluster h) i
  obtain ⟨t', args, hrun, hnow, _, helects⟩ := reaches_stands (t := t.waited) hi t.waited_clock
    (reaches_deadlineInv h i) hstarted hrole
  exact ⟨t', args, (ReachesIf.single (a := .tick maxElectTimeOut) trivial t.step_waited).trans hrun,
    hnow, helects⟩

theorem hears_request {c i : Fin n} {args : RequestVoteArgs} {k : Nat} (hi : i ∈ Q)
    (hk : t.ticked.cluster.voteCalls[k]? = some ⟨c, i, args, [], .waiting⟩)
    (hstarted : (t.ticked.cluster.nodes i).Started)
    (hlt : (t.ticked.cluster.nodes i).currentTerm < args.term) :
    ∃ t', ReachesIf (ActsIn Q) step t t' ∧ t'.clock = t.clock ∧
      (∀ v, v ≠ i → t'.ticked.cluster.nodes v = t.ticked.cluster.nodes v) ∧
      (t'.ticked.cluster.nodes i).role = .follower ∧
      (t'.ticked.cluster.nodes i).currentTerm = args.term ∧
      LeavesLog (t.ticked.cluster.nodes i) (t'.ticked.cluster.nodes i) := by
  obtain ⟨nd, reply, hvote, hfollows, hterm⟩ := hstarted.hears hlt
  have hstep : t.ticked.cluster.step false (.requestVote k) =
      some ((t.ticked.cluster.setNode i nd).setVoteCall k ⟨c, i, args, [reply], .waiting⟩) :=
    Cluster.requestVote_enabled hk hvote
  have hpoll : t.ticked.cluster.Polls Q (.requestVote k) :=
    ⟨⟨i, hi, by rw [Cluster.actor, hk]; rfl⟩, by simp⟩
  obtain ⟨t', hrun, hcluster, hnow⟩ := reaches_polls (.single hpoll hstep)
  have hself : t'.ticked.cluster.nodes i = nd := by rw [hcluster]; exact Cluster.setNode_self ..
  refine ⟨t', hrun, hnow, ?_, ?_, ?_, ?_⟩
  · intro v hv
    rw [hcluster]
    exact Cluster.setNode_ne _ _ hv
  · rw [hself, hfollows]
  · rw [hself, hterm]
  · rw [hself]
    exact requestVote_leavesLog hvote

/-- The node of the highest term starts an election, and node `i` hears of it. -/
theorem hears_in_time (hlogs : ∀ i, logs i ≠ []) (h : Reaches step (init logs) t) {top : Fin n}
    (htop : top ∈ Q) (hi : i ∈ Q) (hrole : (t.ticked.cluster.nodes top).role ≠ .leader)
    (hmax : ∀ v ∈ Q, (t.ticked.cluster.nodes v).currentTerm ≤
      (t.ticked.cluster.nodes top).currentTerm) :
    ∃ t', ReachesIf (ActsIn Q) step t t' ∧ t'.clock = t.clock + maxElectTimeOut ∧
      (t'.ticked.cluster.nodes i).role ≠ .leader ∧
      (∀ v ∈ Q, (t'.ticked.cluster.nodes v).currentTerm ≤
        (t'.ticked.cluster.nodes i).currentTerm) ∧
      ∀ v, LeavesLog (t.ticked.cluster.nodes v) (t'.ticked.cluster.nodes v) := by
  obtain ⟨t₁, args, hrun, hnow, helects⟩ := elects_in_time hlogs h htop hrole
  obtain ⟨_, _, hnode, hargs⟩ := elect_spec helects.self
  have hnext : args.term = (t.ticked.cluster.nodes top).currentTerm + 1 := by rw [hargs]
  have hleaves : ∀ v, LeavesLog (t.ticked.cluster.nodes v) (t₁.ticked.cluster.nodes v) := by
    intro v
    by_cases hv : v = top
    · rw [hv]
      exact elect_leavesLog helects.self
    · rw [helects.others v hv]
      exact .refl _
  have hterms : ∀ v ∈ Q, (t₁.ticked.cluster.nodes v).currentTerm ≤ args.term := by
    intro v hv
    by_cases hvt : v = top
    · rw [hvt, hnode, hnext]
    · rw [helects.others v hvt, hnext]
      have := hmax v hv
      omega
  by_cases hit : i = top
  · subst hit
    refine ⟨t₁, hrun, hnow, ?_, ?_, hleaves⟩
    · rw [hnode]
      simp
    · intro v hv
      rw [hnode, ← hnext]
      exact hterms v hv
  · -- the request is under way to `i`
    obtain ⟨k, hk⟩ := helects.calls i hit
    have hstarted := Cluster.reaches_started hlogs (reaches_cluster (h.trans hrun.reaches)) i
    have hlt : (t₁.ticked.cluster.nodes i).currentTerm < args.term := by
      rw [helects.others i hit, hnext]
      have := hmax i hi
      omega
    obtain ⟨t₂, hrun₂, hnow₂, hothers, hfollows, hterm, hlog⟩ := hears_request hi hk hstarted hlt
    refine ⟨t₂, hrun.trans hrun₂, hnow₂.trans hnow, ?_, ?_, ?_⟩
    · rw [hfollows]
      simp
    · intro v hv
      rw [hterm]
      by_cases hvi : v = i
      · rw [hvi, hterm]
      · rw [hothers v hvi]
        exact hterms v hv
    · intro v
      by_cases hvi : v = i
      · rw [hvi]
        exact (hleaves i).trans hlog
      · rw [hothers v hvi]
        exact hleaves v

end Elections

end Timed
end TinyKv
