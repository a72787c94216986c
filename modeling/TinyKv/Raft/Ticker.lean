import TinyKv.Raft.Roles

/-!
# Raft.Ticker

The cluster with its tickers. A ticker looks at the role of its node and, unless the node leads,
starts `Elect` as a thread of its own. The thread runs later, when the node may have become leader.

* `Ticked.step`: a turn of a ticker, or a step of the cluster; `Elect` needs a thread that waits.
* `KeepsLead`: a leader loses its role or its term only to a higher term that it processes.
* `keepsLead_iff`: this holds all along a run exactly if no thread starts its election on a leader.
-/

namespace TinyKv

open Lib RaftNode

variable {n : Nat} {L : Type}

/-- `pending i` threads of node `i` are about to run `Elect`. -/
structure Ticked (n : Nat) (L : Type) where
  cluster : Cluster n L
  pending : Fin n → Nat

inductive TickedAction (n : Nat) where
  | ticker (i : Fin n)
  | raft (a : Action n)

namespace Ticked

def init (logs : Fin n → L) : Ticked n L where
  cluster := .init logs
  pending _ := 0

/-- One turn of `RaftNode::ticker`. -/
def ticker (s : Ticked n L) (i : Fin n) : Ticked n L :=
  if (s.cluster.nodes i).role ≠ .leader then
    { s with pending := Function.update s.pending i (s.pending i + 1) }
  else s

variable [Log L]

/-- A waiting thread runs `Elect`, without another look at the role. -/
def runElect (s : Ticked n L) (i : Fin n) : Option (Ticked n L) :=
  if s.pending i = 0 then none
  else do
    let cluster ← s.cluster.step false (.elect i)
    return ⟨cluster, Function.update s.pending i (s.pending i - 1)⟩

def step (s : Ticked n L) : TickedAction n → Option (Ticked n L)
  | .ticker i => some (s.ticker i)
  | .raft (.elect i) => s.runElect i
  | .raft a => do
    let cluster ← s.cluster.step false a
    return { s with cluster := cluster }

/-- The term of the request or the reply that node `v` processes in the step. -/
def carried (s : Ticked n L) (v : Fin n) : TickedAction n → Option Int
  | .ticker _ => none
  | .raft a => s.cluster.carried v a

def KeepsLead (s : Ticked n L) (a : TickedAction n) (s' : Ticked n L) : Prop :=
  ∀ v, (s.cluster.nodes v).role = .leader →
    ((s'.cluster.nodes v).role = .leader ∧
      (s'.cluster.nodes v).currentTerm = (s.cluster.nodes v).currentTerm) ∨
    ∃ t, s.carried v a = some t ∧ (s.cluster.nodes v).currentTerm < t

/-- No election starts on a leader. -/
def ElectOk (s : Ticked n L) : TickedAction n → Prop
  | .raft (.elect i) => (s.cluster.nodes i).role ≠ .leader
  | _ => True

variable {s s' : Ticked n L} {a : TickedAction n}

omit [Log L] in
theorem ticker_cluster (s : Ticked n L) (i : Fin n) : (s.ticker i).cluster = s.cluster := by
  unfold ticker
  split
  · rfl
  · rfl

theorem runElect_cluster {i : Fin n} (h : s.runElect i = some s') :
    s.cluster.step false (.elect i) = some s'.cluster := by
  unfold runElect at h
  split at h
  · cases h
  · simp only [Option.bind_eq_bind, Option.bind_eq_some_iff, Option.pure_def,
      Option.some.injEq] at h
    obtain ⟨cluster, hc, rfl⟩ := h
    exact hc

theorem step_raft {a : Action n} (h : s.step (.raft a) = some s') :
    s.cluster.step false a = some s'.cluster := by
  have hother : (do
      let cluster ← s.cluster.step false a
      return { s with cluster := cluster }) = some s' →
      s.cluster.step false a = some s'.cluster := by
    intro h
    simp only [Option.bind_eq_bind, Option.bind_eq_some_iff, Option.pure_def,
      Option.some.injEq] at h
    obtain ⟨cluster, hc, rfl⟩ := h
    exact hc
  cases a with
  | elect i => exact runElect_cluster h
  | requestVote k => exact hother h
  | getVoteAnswer k r => exact hother h
  | collectVote k => exact hother h
  | sendHeartBeats i => exact hother h
  | appendEntries k => exact hother h
  | handleAppendEntries k r => exact hother h

theorem step_cluster (h : s.step a = some s') :
    s'.cluster = s.cluster ∨ ∃ b, a = .raft b ∧ s.cluster.step false b = some s'.cluster := by
  cases a with
  | ticker i =>
    cases h
    exact .inl (ticker_cluster s i)
  | raft b => exact .inr ⟨b, rfl, step_raft h⟩

theorem step_electionInv (h : s.cluster.ElectionInv) (hs : s.step a = some s') :
    s'.cluster.ElectionInv := by
  rcases step_cluster hs with heq | ⟨b, _, hb⟩
  · rw [heq]
    exact h
  · exact Cluster.step_electionInv h hb

theorem leader_grants {c : Cluster n L} (h : c.ElectionInv) {call : VoteCall n}
    (hcall : call ∈ c.voteCalls) (hl : (c.nodes call.dst).role = .leader)
    (hgrants : (c.nodes call.dst).Grants call.args) :
    (c.nodes call.dst).currentTerm < call.args.term := by
  have hself : (c.nodes call.dst).votedFor = (call.dst : Nat) :=
    (h.won_term (h.leader call.dst hl)).2 rfl
  have hok := h.calls call hcall
  have hle := hgrants.term
  have hne : (c.nodes call.dst).currentTerm ≠ call.args.term := by
    intro heq
    cases hgrants.free heq with
    | inl hfree =>
      omega
    | inr hsame =>
      rw [hself, hok.candidate] at hsame
      exact hok.other (Cluster.id_inj hsame)
  omega

theorem keepsLead_of_electOk (h : s.cluster.ElectionInv) (hok : s.ElectOk a)
    (hs : s.step a = some s') : s.KeepsLead a s' := by
  intro v hl
  rcases step_cluster hs with heq | ⟨b, rfl, hb⟩
  · rw [heq]
    exact .inl ⟨hl, rfl⟩
  · cases Cluster.step_role hb v with
    | follows hf hterm =>
      cases hterm with
      | inl hsame => exact .inl ⟨(hf.stays hsame).trans hl, hsame⟩
      | inr hcarried =>
        by_cases hsame : (s'.cluster.nodes v).currentTerm = (s.cluster.nodes v).currentTerm
        · exact .inl ⟨(hf.stays hsame).trans hl, hsame⟩
        · have hle := hf.term
          exact .inr ⟨_, hcarried, by omega⟩
    | elect ha =>
      subst ha
      exact absurd hl hok
    | vote k c ha hk hdst hgrants =>
      subst ha hdst
      refine .inr ⟨c.args.term, ?_, leader_grants h (List.mem_of_getElem? hk) hl hgrants⟩
      simp [carried, Cluster.carried, hk]
    | win hcand =>
      rw [hl] at hcand
      cases hcand

theorem electOk_of_keepsLead (h : s.KeepsLead a s') (hs : s.step a = some s') : s.ElectOk a := by
  cases a with
  | ticker i => trivial
  | raft b =>
    cases b with
    | elect i =>
      intro hl
      obtain ⟨nd, args, he, heq⟩ := Cluster.step_elect (runElect_cluster hs)
      obtain ⟨_, _, hnd, _⟩ := elect_spec he
      have hrole : (s'.cluster.nodes i).role = .candidate := by
        rw [heq, Cluster.addVoteCalls_nodes, Cluster.setCount_nodes, Cluster.setNode_self, hnd]
      rcases h i hl with ⟨hl', _⟩ | ⟨t, hcarried, _⟩
      · rw [hrole] at hl'
        cases hl'
      · cases hcarried
    | requestVote k => trivial
    | getVoteAnswer k r => trivial
    | collectVote k => trivial
    | sendHeartBeats i => trivial
    | appendEntries k => trivial
    | handleAppendEntries k r => trivial

/-- **Leaders are deposed by higher terms only** in a run iff none of its elections starts on a
leader. -/
theorem keepsLead_iff (logs : Fin n → L) (as : List (TickedAction n)) :
    Along KeepsLead step as (init logs) ↔ Along (fun s a _ => s.ElectOk a) step as (init logs) := by
  refine along_congr (I := fun s => s.cluster.ElectionInv) ?_ ?_ (Cluster.init_electionInv logs)
  · intro s a s' h hs
    exact ⟨fun hk => electOk_of_keepsLead hk hs, fun hok => keepsLead_of_electOk h hok hs⟩
  · intro s a s' h _ hs
    exact step_electionInv h hs

/-- Two turns of the ticker before the first election; the second election deposes the winner of
the first. -/
theorem pending_elect_deposes : ∃ s s' : Ticked 2 (List Entry),
    Reaches step (init fun _ => [{}]) s ∧ (s.cluster.nodes 0).role = .leader ∧
      (s.cluster.nodes 0).currentTerm = 1 ∧ s.step (.raft (.elect 0)) = some s' ∧
      (s'.cluster.nodes 0).role = .candidate ∧ (s'.cluster.nodes 0).currentTerm = 2 ∧
      ¬s.KeepsLead (.raft (.elect 0)) s' := by
  have hrun : ((runs step [.ticker 0, .ticker 0, .raft (.elect 0), .raft (.requestVote 0),
      .raft (.getVoteAnswer 0 0), .raft (.collectVote 0)]
      (init (fun _ => [{}] : Fin 2 → List Entry))).any fun s =>
        decide ((s.cluster.nodes 0).role = .leader ∧ (s.cluster.nodes 0).currentTerm = 1) &&
          (s.step (.raft (.elect 0))).any fun s' =>
            decide ((s'.cluster.nodes 0).role = .candidate ∧
              (s'.cluster.nodes 0).currentTerm = 2)) = true := by decide
  obtain ⟨s, hr, hs⟩ := exists_of_runs hrun
  simp only [Bool.and_eq_true, decide_eq_true_eq, Option.any_eq_true] at hs
  obtain ⟨⟨hl, hterm⟩, s', hs', hrole', hterm'⟩ := hs
  exact ⟨s, s', hr, hl, hterm, hs', hrole', hterm', fun h => electOk_of_keepsLead h hs' hl⟩

end Ticked
end TinyKv
