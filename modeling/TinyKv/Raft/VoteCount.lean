import TinyKv.Lib.Run
import TinyKv.Raft.NodeSpec

/-!
# Raft.VoteCount

One election of one node: `Elect` gives the node its own vote, and a thread for every other node
asks for another one.

* `Tally.step`: a reply comes in (`GetVoteAnswer`), or a thread that was granted the vote goes on in
  `collectVote`. Between these, other threads may do to the node whatever keeps its role and term.
* `Tally.TallyInv`: the counter and the threads on their way to it are the own vote and the grants;
  up to half of the nodes the node is a candidate, from then on a leader.
* `Reinitialises`: a call that assigns `nextIndex` and `matchIndex`, whatever they held. `reinits`
  counts the calls of `collectVote` that do.
* `majority_iff`: a majority makes the leader in every cluster but that of one node, where the own
  vote is the majority and no thread looks at it.
-/

namespace TinyKv

open Lib RaftNode

variable {n : Nat} {L : Type}

namespace RaftNode

def withIndices (nd : RaftNode n L) (next matched : Fin n → Nat) : RaftNode n L :=
  { nd with nextIndex := next, matchIndex := matched }

/-- The call assigns both indices of all nodes: what it leaves there is the same for all values that
were there before. -/
def Reinitialises (call : RaftNode n L → RaftNode n L) (nd : RaftNode n L) : Prop :=
  ∀ next matched, (call (nd.withIndices next matched)).nextIndex = (call nd).nextIndex ∧
    (call (nd.withIndices next matched)).matchIndex = (call nd).matchIndex

/-- The vote that makes the majority, while the node is a candidate in the term of the election. -/
def WinsWith (nd : RaftNode n L) (args : RequestVoteArgs) (voteCount : Nat) : Prop :=
  voteCount ≤ n / 2 ∧ n / 2 < voteCount + 1 ∧ nd.role = .candidate ∧ nd.currentTerm = args.term

instance (nd : RaftNode n L) (args : RequestVoteArgs) (voteCount : Nat) :
    Decidable (nd.WinsWith args voteCount) := inferInstanceAs (Decidable (_ ∧ _ ∧ _ ∧ _))

variable [Log L] {nd : RaftNode n L} {args : RequestVoteArgs} {voteCount : Nat}

theorem collectVote_won (h : nd.WinsWith args voteCount) : nd.collectVote args voteCount =
    ({ nd with
      role := .leader
      nextIndex := fun _ => nd.virtualLogIdx (Log.size nd.log)
      matchIndex := fun _ => nd.lastIncludedIndex }, voteCount + 1) := by
  obtain ⟨hfew, hmaj, hrole, hterm⟩ := h
  rw [collectVote, if_neg (Nat.not_lt.mpr hfew), if_pos hmaj,
    if_neg (fun h => h.elim (absurd hrole) (absurd hterm))]

theorem collectVote_not_won (h : ¬nd.WinsWith args voteCount) :
    (nd.collectVote args voteCount).1 = nd := by
  unfold collectVote
  split
  · rfl
  · rename_i hfew
    split
    · rename_i hmaj
      split
      · rfl
      · rename_i hcand
        rw [not_or, not_not, not_not] at hcand
        exact absurd ⟨Nat.not_lt.mp hfew, hmaj, hcand⟩ h
    · rfl

theorem reinitialises_iff :
    Reinitialises (fun nd => (nd.collectVote args voteCount).1) nd ↔
      nd.WinsWith args voteCount := by
  constructor
  · intro hre
    by_contra hno
    have hnext := congrFun (hre (fun i => nd.nextIndex i + 1) nd.matchIndex).1 nd.curNodeId
    have hno' : ¬(nd.withIndices (fun i => nd.nextIndex i + 1) nd.matchIndex).WinsWith
      args voteCount := hno
    simp only [collectVote_not_won hno, collectVote_not_won hno'] at hnext
    exact absurd hnext (Nat.succ_ne_self _)
  · intro hwin next matched
    have hwin' : (nd.withIndices next matched).WinsWith args voteCount := hwin
    simp only [collectVote_won hwin, collectVote_won hwin']
    exact ⟨rfl, rfl⟩

instance : Decidable (Reinitialises (fun nd => (nd.collectVote args voteCount).1) nd) :=
  decidable_of_iff _ reinitialises_iff.symm

end RaftNode

/-- The election as far as it has come. `waiting` are the nodes that have not answered, `holding`
counts the threads between a granted answer and `collectVote`. `grants` and `reinits` are what has
happened: replies that grant the vote, and calls of `collectVote` that assigned the indices. -/
structure Tally (n : Nat) (L : Type) where
  node : RaftNode n L
  voteCount : Nat
  waiting : List (Fin n)
  holding : Nat := 0
  grants : Nat := 0
  reinits : Nat := 0

inductive TallyAction (n : Nat) (L : Type) where
  | answer (j : Fin n) (reply : RequestVoteReply)
  | collect
  | other (nd : RaftNode n L)

namespace Tally

/-- After `Elect`, which has left the node as `nd`. -/
def start (nd : RaftNode n L) : Tally n L where
  node := nd
  voteCount := 1
  waiting := (List.finRange n).filter (· ≠ nd.curNodeId)

variable [Log L]

def step (args : RequestVoteArgs) (s : Tally n L) : TallyAction n L → Option (Tally n L)
  | .answer j reply =>
    if j ∈ s.waiting then
      let (nd, got) := s.node.getVoteAnswer args reply
      some { s with
        node := nd
        waiting := s.waiting.erase j
        holding := if got then s.holding + 1 else s.holding
        grants := if reply.voteGranted then s.grants + 1 else s.grants }
    else none
  | .collect =>
    if s.holding = 0 then none
    else
      let (nd, count) := s.node.collectVote args s.voteCount
      some { s with
        node := nd
        voteCount := count
        holding := s.holding - 1
        reinits :=
          if Reinitialises (fun nd => (nd.collectVote args s.voteCount).1) s.node then s.reinits + 1
          else s.reinits }
  | .other nd =>
    if nd.role = s.node.role ∧ nd.currentTerm = s.node.currentTerm ∧
        nd.curNodeId = s.node.curNodeId then
      some { s with node := nd }
    else none

variable {args : RequestVoteArgs} {s s' : Tally n L}

theorem step_answer {j : Fin n} {reply : RequestVoteReply}
    (h : s.step args (.answer j reply) = some s') :
    ∃ nd got, j ∈ s.waiting ∧ s.node.getVoteAnswer args reply = (nd, got) ∧ s' = { s with
      node := nd
      waiting := s.waiting.erase j
      holding := if got then s.holding + 1 else s.holding
      grants := if reply.voteGranted then s.grants + 1 else s.grants } := by
  simp only [step] at h
  split at h
  · rename_i hj
    cases h
    exact ⟨_, _, hj, rfl, rfl⟩
  · cases h

theorem step_collect (h : s.step args .collect = some s') : s.holding ≠ 0 ∧ s' = { s with
    node := (s.node.collectVote args s.voteCount).1
    voteCount := (s.node.collectVote args s.voteCount).2
    holding := s.holding - 1
    reinits := if s.node.WinsWith args s.voteCount then s.reinits + 1 else s.reinits } := by
  simp only [step] at h
  split at h
  · cases h
  · rename_i hholding
    cases h
    exact ⟨hholding, by simp only [reinitialises_iff]⟩

theorem step_other {nd : RaftNode n L} (h : s.step args (.other nd) = some s') :
    nd.role = s.node.role ∧ nd.currentTerm = s.node.currentTerm ∧ s' = { s with node := nd } := by
  simp only [step] at h
  split at h
  · rename_i hsame
    cases h
    exact ⟨hsame.1, hsame.2.1, rfl⟩
  · cases h

/-- What a call of `collectVote` does to the indices: it leaves them, or it makes the candidate a
leader and assigns them. -/
def IndexStep (s s' : Tally n L) : Prop :=
  (s'.reinits = s.reinits ∧ s'.node.nextIndex = s.node.nextIndex ∧
    s'.node.matchIndex = s.node.matchIndex) ∨
  (s'.reinits = s.reinits + 1 ∧ s.node.role = .candidate ∧ s'.node.role = .leader ∧
    s'.node.nextIndex = (fun _ => s.node.virtualLogIdx (Log.size s.node.log)) ∧
    s'.node.matchIndex = fun _ => s.node.lastIncludedIndex)

theorem collect_indexStep (h : s.step args .collect = some s') : IndexStep s s' := by
  obtain ⟨_, rfl⟩ := step_collect h
  by_cases hwin : s.node.WinsWith args s.voteCount
  · rw [IndexStep, if_pos hwin, collectVote_won hwin]
    exact .inr ⟨rfl, hwin.2.2.1, rfl, rfl, rfl⟩
  · rw [IndexStep, if_neg hwin, collectVote_not_won hwin]
    exact .inl ⟨rfl, rfl, rfl⟩

/-- Still a candidate: every grant is counted, or held by a thread. -/
structure Counting (s : Tally n L) : Prop where
  role : s.node.role = .candidate
  count : s.voteCount + s.holding = 1 + s.grants
  half : s.voteCount ≤ n / 2
  reinits : s.reinits = 0

structure Won (s : Tally n L) : Prop where
  role : s.node.role = .leader
  majority : n / 2 < s.voteCount
  count : s.voteCount ≤ 1 + s.grants
  reinits : s.reinits = 1

/-- As long as the node has the term of the election. -/
structure TallyInv (args : RequestVoteArgs) (s : Tally n L) : Prop where
  term : args.term ≤ s.node.currentTerm
  tally : s.node.currentTerm = args.term → s.Counting ∨ s.Won

theorem start_tallyInv {nd nd' : RaftNode n L} (h : nd.elect = some (nd', args)) (hn : n ≠ 1) :
    TallyInv args (start nd') := by
  obtain ⟨_, _, rfl, rfl⟩ := elect_spec h
  have hpos : 0 < n := Fin.pos nd.curNodeId
  have hhalf : 1 ≤ n / 2 := by omega
  exact ⟨Int.le_refl _, fun _ => .inl ⟨rfl, rfl, hhalf, rfl⟩⟩

theorem answer_tallyInv {j : Fin n} {reply : RequestVoteReply} (h : s.TallyInv args)
    (hs : s.step args (.answer j reply) = some s') : s'.TallyInv args := by
  obtain ⟨nd, got, _, hget, rfl⟩ := step_answer hs
  unfold getVoteAnswer at hget
  split at hget
  · -- the answer comes too late
    rename_i hlate
    cases hget
    refine ⟨h.term, ?_⟩
    intro hterm
    rcases h.tally hterm with hc | hw
    · cases hlate with
      | inl hrole => exact absurd hc.role hrole
      | inr hne => exact absurd hterm.symm hne
    · refine .inr ⟨hw.role, hw.majority, ?_, hw.reinits⟩
      have hcount := hw.count
      show s.voteCount ≤ 1 + if reply.voteGranted then s.grants + 1 else s.grants
      split <;> omega
  · rename_i hcand
    simp only [not_or, Decidable.not_not] at hcand
    split at hget
    · rename_i hnewer
      cases hget
      have hterm := h.term
      refine ⟨by show args.term ≤ reply.term; omega, ?_⟩
      intro heq
      replace heq : reply.term = args.term := heq
      omega
    · cases hget
      refine ⟨h.term, ?_⟩
      intro hterm
      rcases h.tally hterm with hc | hw
      · refine .inl ⟨hc.role, ?_, hc.half, hc.reinits⟩
        have hcount := hc.count
        show s.voteCount + (if reply.voteGranted then s.holding + 1 else s.holding) =
          1 + if reply.voteGranted then s.grants + 1 else s.grants
        split <;> omega
      · rw [hw.role] at hcand
        cases hcand.1

theorem collect_tallyInv (h : s.TallyInv args) (hs : s.step args .collect = some s') :
    s'.TallyInv args := by
  obtain ⟨hholding, rfl⟩ := step_collect hs
  by_cases hwin : s.node.WinsWith args s.voteCount
  · -- this vote makes the majority
    obtain ⟨hfew, hmaj, hrole, hterm⟩ := hwin
    simp only [if_pos (show s.node.WinsWith args s.voteCount from ⟨hfew, hmaj, hrole, hterm⟩),
      collectVote_won ⟨hfew, hmaj, hrole, hterm⟩]
    refine ⟨h.term, fun _ => ?_⟩
    rcases h.tally hterm with hc | hw
    · have hcount := hc.count
      refine .inr ⟨rfl, hmaj, ?_, congrArg (· + 1) hc.reinits⟩
      show s.voteCount + 1 ≤ 1 + s.grants
      omega
    · rw [hw.role] at hrole
      cases hrole
  · simp only [if_neg hwin, collectVote_not_won hwin]
    refine ⟨h.term, fun hterm => ?_⟩
    rcases h.tally hterm with hc | hw
    · have hcount := hc.count
      have hfew : ¬n / 2 < s.voteCount + 1 := fun hmaj => hwin ⟨hc.half, hmaj, hc.role, hterm⟩
      have hnext : (s.node.collectVote args s.voteCount).2 = s.voteCount + 1 := by
        rw [collectVote, if_neg (Nat.not_lt.mpr hc.half), if_neg hfew]
      rw [hnext]
      refine .inl ⟨hc.role, ?_, Nat.not_lt.mp hfew, hc.reinits⟩
      show s.voteCount + 1 + (s.holding - 1) = 1 + s.grants
      omega
    · have hsame : (s.node.collectVote args s.voteCount).2 = s.voteCount := by
        rw [collectVote, if_pos hw.majority]
      rw [hsame]
      exact .inr ⟨hw.role, hw.majority, hw.count, hw.reinits⟩

theorem step_tallyInv {a : TallyAction n L} (h : s.TallyInv args)
    (hs : s.step args a = some s') : s'.TallyInv args := by
  cases a with
  | answer j reply => exact answer_tallyInv h hs
  | collect => exact collect_tallyInv h hs
  | other nd =>
    obtain ⟨hrole, hterm, rfl⟩ := step_other hs
    refine ⟨by show args.term ≤ nd.currentTerm; rw [hterm]; exact h.term, ?_⟩
    intro heq
    rcases h.tally (hterm.symm.trans heq) with hc | hw
    · exact .inl ⟨hrole.trans hc.role, hc.count, hc.half, hc.reinits⟩
    · exact .inr ⟨hrole.trans hw.role, hw.majority, hw.count, hw.reinits⟩

/-- **A majority of votes makes a leader**, and the indices are assigned once and for that, in a
cluster iff it has more than one node. No step but those of the election changes the term, and no
thread is halfway through. -/
theorem majority_iff {nd nd' : RaftNode n L} (h : nd.elect = some (nd', args)) :
    (∀ s, Reaches (step args) (start nd') s →
      (s.node.currentTerm = args.term → s.holding = 0 →
        (s.node.role = .leader ↔ n < 2 * (1 + s.grants)) ∧
        (s.node.role = .leader → s.reinits = 1)) ∧
      ∀ s', s.step args .collect = some s' → IndexStep s s') ↔ n ≠ 1 := by
  constructor
  · rintro hall rfl
    obtain ⟨_, _, rfl, rfl⟩ := elect_spec h
    have hrole := (((hall _ .refl).1 rfl rfl).1.mpr (by simp [start]) :
      RaftState.candidate = .leader)
    cases hrole
  · intro hn s hrun
    refine ⟨fun hterm hdone => ?_, fun s' hs => collect_indexStep hs⟩
    have hinv : s.TallyInv args :=
      hrun.inv (fun _ _ _ hinv hs => step_tallyInv hinv hs) (start_tallyInv h hn)
    rcases hinv.tally hterm with hc | hw
    · have hcount := hc.count
      have hhalf := hc.half
      have hnot : s.node.role ≠ .leader := by rw [hc.role]; decide
      refine ⟨⟨fun hl => absurd hl hnot, fun hmaj => ?_⟩, fun hl => absurd hl hnot⟩
      omega
    · have hmaj := hw.majority
      have hcount := hw.count
      exact ⟨⟨fun _ => by omega, fun _ => hw.role⟩, fun _ => hw.reinits⟩

section Example

/-- An election among three nodes. -/
theorem majority_three : ∃ nd args, (RaftNode.init (0 : Fin 3) [({} : Entry)]).elect =
    some (nd, args) ∧ ∀ s, Reaches (step args) (start nd) s → s.node.currentTerm = args.term →
      s.holding = 0 → (s.node.role = .leader ↔ 3 < 2 * (1 + s.grants)) ∧
        (s.node.role = .leader → s.reinits = 1) :=
  ⟨_, _, rfl, fun s hs => ((majority_iff
    (rfl : (RaftNode.init (0 : Fin 3) [({} : Entry)]).elect = _)).mpr (by decide) s hs).1⟩

/-- The only node of a cluster has its own vote, which is the majority, and stays a candidate. -/
theorem lone_candidate : ∃ nd args, (RaftNode.init (0 : Fin 1) [({} : Entry)]).elect =
    some (nd, args) ∧ ∀ s, Reaches (step args) (start nd) s →
      s.node.role = .candidate ∧ s.holding = 0 ∧ 1 < 2 * (1 + s.grants) := by
  refine ⟨_, _, rfl, ?_⟩
  intro s hrun
  have hinv : s.node.role = .candidate ∧ s.holding = 0 ∧ s.waiting = [] := by
    refine hrun.inv (P := fun s => s.node.role = .candidate ∧ s.holding = 0 ∧ s.waiting = []) ?_
      ⟨rfl, rfl, rfl⟩
    intro s a s' ⟨hrole, hdone, hnone⟩ hs
    cases a with
    | answer j reply =>
      obtain ⟨_, _, hj, _⟩ := step_answer hs
      rw [hnone] at hj
      cases hj
    | collect => exact absurd hdone (step_collect hs).1
    | other nd =>
      obtain ⟨hsame, _, rfl⟩ := step_other hs
      exact ⟨hsame.trans hrole, hdone, hnone⟩
  exact ⟨hinv.1, hinv.2.1, by omega⟩

end Example

end Tally
end TinyKv
