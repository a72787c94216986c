import TinyKv.Lib.Spaced
import TinyKv.Raft.Pace
import TinyKv.Raft.Terms
import TinyKv.Raft.Ticker
import Mathlib.Algebra.BigOperators.Fin
import Mathlib.Algebra.Order.BigOperators.Group.Finset

/-!
# Raft.Timed

The cluster with its tickers and a clock. Every node has a `voteTimer`; its ticker takes a turn when
the timer has run out, and both the ticker and the Raft functions set it again.

* `Cluster.resetsVoteTimer`, `Cluster.resetsHeartTimer`: whose `ResetVoteTimer`, `ResetHeartTimer`
  a step calls. Both set `voteTimer`.
* `Timed.step`: time passes, a timer runs out, a ticker takes its turn, or a step of the cluster.
* `VoteClock.Paced`: the elections of a node so far are apart, and so will be the next one.
* `TermsInv`: the number of elections that have run bounds the terms, and the clock bounds the
  number of elections.

`kill` is not modelled. `voteTimer` is never stopped while the node lives.
-/

namespace TinyKv

open Lib RaftNode

variable {n : Nat} {L : Type}

section Resets

variable [Log L]

/-- `RequestVote` sets the timer where it grants its vote. -/
def RaftNode.requestVoteResets (nd : RaftNode n L) (request : RequestVoteArgs) : Bool :=
  (nd.requestVote request).any fun r => r.2.voteGranted

omit [Log L] in
/-- `AppendEntries` sets it once the term is not an old one, whatever it replies. -/
def RaftNode.appendEntriesResets (nd : RaftNode n L) (request : AppendEntriesArgs) : Bool :=
  !decide (request.term < nd.currentTerm)

/-- `handleAppendEntries` sets it where a reply deposes the leader. -/
def RaftNode.handleAppendEntriesResets (nd : RaftNode n L) (args : AppendEntriesArgs)
    (reply : AppendEntriesReply) : Bool :=
  decide (nd.role = .leader ∧ args.term = nd.currentTerm ∧ reply.success = false ∧
    reply.term > nd.currentTerm)

/-- The node that calls `ResetVoteTimer` in the step. -/
def Cluster.resetsVoteTimer (s : Cluster n L) : Action n → Option (Fin n)
  | .requestVote k => do
    let c ← s.voteCalls[k]?
    if (s.nodes c.dst).requestVoteResets c.args then some c.dst else none
  | .appendEntries k => do
    let c ← s.appendCalls[k]?
    if (s.nodes c.dst).appendEntriesResets c.args then some c.dst else none
  | .handleAppendEntries k r => do
    let c ← s.appendCalls[k]?
    let reply ← c.replies[r]?
    if (s.nodes c.src).handleAppendEntriesResets c.args reply then some c.src else none
  | _ => none

/-- The node that calls `ResetHeartTimer` in the step. -/
def Cluster.resetsHeartTimer (s : Cluster n L) : Action n → Option (Fin n)
  | .sendHeartBeats i => if (s.nodes i).role = .leader then some i else none
  | _ => none

end Resets

/-! ## The timers -/

/-- The election timer of a node. `due`: `voteTimer.wait()` has returned and the ticker waits for
the lock. `elections` are the times at which the ticker has started `Elect`, the latest first;
`beaten`: the node has ended a round of heart beats. -/
structure VoteClock where
  voteTimer : Timer := {}
  due : Bool := false
  elections : List Nat := []
  beaten : Bool := false
  deriving DecidableEq

namespace VoteClock

def resetVoteTimer (t : VoteClock) (now rdTimeout : Nat) : VoteClock :=
  { t with voteTimer := t.voteTimer.reset now rdTimeout }

def resetHeartTimer (t : VoteClock) (now : Nat) : VoteClock :=
  { t with voteTimer := t.voteTimer.reset now heartBeatTimeOut, beaten := true }

/-- One turn of the ticker at a node that leads or not. -/
def ticker (t : VoteClock) (leads : Bool) (now rdTimeout : Nat) : VoteClock :=
  { t.resetVoteTimer now rdTimeout with
    due := false
    elections := if leads then t.elections else now :: t.elections }

end VoteClock

structure Timed (n : Nat) (L : Type) where
  ticked : Ticked n L
  clock : Nat
  timers : Fin n → VoteClock

/-- `rdTimeout` is the number that `GetRandomElectTimeOut` returns, should the step ask for it. -/
inductive TimedAction (n : Nat) where
  | tick (d : Nat)
  | expire (i : Fin n)
  | ticker (i : Fin n) (rdTimeout : Nat)
  | raft (a : Action n) (rdTimeout : Nat)

/-- What `GetRandomElectTimeOut` returns. -/
def ElectTimeOut (rdTimeout : Nat) : Prop :=
  minElectTimeOut ≤ rdTimeout ∧ rdTimeout ≤ maxElectTimeOut

instance (rdTimeout : Nat) : Decidable (ElectTimeOut rdTimeout) :=
  inferInstanceAs (Decidable (_ ∧ _))

/-- How long `start_ticker` sleeps. -/
def tickerDelay : Nat := 1000

namespace Timed

def init (logs : Fin n → L) : Timed n L where
  ticked := .init logs
  clock := 0
  timers _ := {}

def leads (s : Timed n L) (i : Fin n) : Bool :=
  decide ((s.ticked.cluster.nodes i).role = .leader)

def setTimer (s : Timed n L) (i : Fin n) (t : VoteClock) : Timed n L :=
  { s with timers := Function.update s.timers i t }

variable [Log L]

/-- The timers after a step of the cluster. -/
def timersAfter (s : Timed n L) (a : Action n) (rdTimeout : Nat) (i : Fin n) : VoteClock :=
  if s.ticked.cluster.resetsVoteTimer a = some i then
    (s.timers i).resetVoteTimer s.clock rdTimeout
  else if s.ticked.cluster.resetsHeartTimer a = some i then
    (s.timers i).resetHeartTimer s.clock
  else s.timers i

/-- The ticker of no node runs before its node is `tickerDelay` old; the clock is at least as
old. -/
def step (s : Timed n L) : TimedAction n → Option (Timed n L)
  | .tick d => some { s with clock := s.clock + d }
  | .expire i =>
    if (s.timers i).due = false ∧ tickerDelay ≤ s.clock ∧
        (s.timers i).voteTimer.deadline ≤ s.clock then
      some (s.setTimer i { s.timers i with due := true })
    else none
  | .ticker i rdTimeout =>
    if (s.timers i).due = true ∧ ElectTimeOut rdTimeout then
      some { s.setTimer i ((s.timers i).ticker (s.leads i) s.clock rdTimeout) with
        ticked := s.ticked.ticker i }
    else none
  | .raft a rdTimeout =>
    if ElectTimeOut rdTimeout then do
      let ticked ← s.ticked.step (.raft a)
      return { s with ticked := ticked, timers := s.timersAfter a rdTimeout }
    else none

variable {logs : Fin n → L} {s s' : Timed n L} {i : Fin n} {rdTimeout : Nat}

theorem step_expire (h : s.step (.expire i) = some s') :
    (s.timers i).voteTimer.deadline ≤ s.clock ∧
      s' = s.setTimer i { s.timers i with due := true } := by
  simp only [step] at h
  split at h
  · rename_i hdue
    cases h
    exact ⟨hdue.2.2, rfl⟩
  · cases h

theorem step_ticker (h : s.step (.ticker i rdTimeout) = some s') :
    (s.timers i).due = true ∧ ElectTimeOut rdTimeout ∧
      s' = { s.setTimer i ((s.timers i).ticker (s.leads i) s.clock rdTimeout) with
        ticked := s.ticked.ticker i } := by
  simp only [step] at h
  split at h
  · rename_i hdue
    cases h
    exact ⟨hdue.1, hdue.2, rfl⟩
  · cases h

theorem step_raft {a : Action n} (h : s.step (.raft a rdTimeout) = some s') :
    ElectTimeOut rdTimeout ∧ ∃ ticked, s.ticked.step (.raft a) = some ticked ∧
      s' = { s with ticked := ticked, timers := s.timersAfter a rdTimeout } := by
  simp only [step] at h
  split at h
  · rename_i hrd
    simp only [Option.bind_eq_bind, Option.bind_eq_some_iff, Option.pure_def,
      Option.some.injEq] at h
    obtain ⟨ticked, ht, rfl⟩ := h
    exact ⟨hrd, ticked, ht, rfl⟩
  · cases h

omit [Log L] in
theorem setTimer_timers (s : Timed n L) (i j : Fin n) (t : VoteClock) :
    (s.setTimer i t).timers j = if j = i then t else s.timers j := Function.update_apply ..

theorem step_cluster {a : TimedAction n} (h : s.step a = some s') :
    s'.ticked.cluster = s.ticked.cluster ∨ ∃ b rdTimeout, a = .raft b rdTimeout ∧
      s.ticked.cluster.step false b = some s'.ticked.cluster := by
  cases a with
  | tick d => cases h; exact .inl rfl
  | expire i => rw [(step_expire h).2]; exact .inl rfl
  | ticker i rdTimeout =>
    rw [(step_ticker h).2.2]
    exact .inl (Ticked.ticker_cluster s.ticked i)
  | raft b rdTimeout =>
    obtain ⟨_, ticked, ht, rfl⟩ := step_raft h
    exact .inr ⟨b, rdTimeout, rfl, Ticked.step_raft ht⟩

theorem reaches_cluster (h : Reaches step (init logs) s) :
    Reaches (Cluster.step false) (Cluster.init logs) s.ticked.cluster := by
  refine h.inv (P := fun s => Reaches (Cluster.step false) (Cluster.init logs) s.ticked.cluster)
    ?_ .refl
  intro s a s' hc hs
  rcases step_cluster hs with heq | ⟨b, _, _, hb⟩
  · rw [heq]
    exact hc
  · exact hc.trans (.single hb)

end Timed

/-! ## The pace of the elections -/

namespace VoteClock

variable {t : VoteClock} {now now' rdTimeout : Nat}

/-- The shortest time that `voteTimer` is set to. -/
def gap (t : VoteClock) : Nat := if t.beaten then heartBeatTimeOut else minElectTimeOut

theorem gap_le (t : VoteClock) : t.gap ≤ minElectTimeOut := by
  unfold gap
  split
  · simp [heartBeatTimeOut, minElectTimeOut]
  · exact Nat.le_refl _

theorem le_gap (t : VoteClock) : heartBeatTimeOut ≤ t.gap := by
  unfold gap
  split
  · exact Nat.le_refl _
  · simp [heartBeatTimeOut, minElectTimeOut]

/-- The elections were apart, and the timer keeps the next one apart from them. -/
structure Paced (now : Nat) (t : VoteClock) : Prop where
  apart : Spaced t.gap t.elections
  past : ∀ u ∈ t.elections, u ≤ now
  deadline : ∀ u ∈ t.elections, u + t.gap ≤ t.voteTimer.deadline
  due : t.due = true → ∀ u ∈ t.elections, u + t.gap ≤ now

theorem Paced.tick (h : Paced now t) (hle : now ≤ now') : Paced now' t where
  apart := h.apart
  past := fun u hu => (h.past u hu).trans hle
  deadline := h.deadline
  due := fun hdue u hu => (h.due hdue u hu).trans hle

theorem Paced.expire (h : Paced now t) (hdue : t.voteTimer.deadline ≤ now) :
    Paced now { t with due := true } where
  apart := h.apart
  past := h.past
  deadline := h.deadline
  due := fun _ u hu => (h.deadline u hu).trans hdue

theorem Paced.resetVoteTimer (h : Paced now t) (hrd : ElectTimeOut rdTimeout) :
    Paced now (t.resetVoteTimer now rdTimeout) where
  apart := h.apart
  past := h.past
  deadline := fun u hu => Nat.add_le_add (h.past u hu) (t.gap_le.trans hrd.1)
  due := h.due

/-- A round of heart beats shortens the gap, also between the elections that have been. -/
theorem Paced.resetHeartTimer (h : Paced now t) : Paced now (t.resetHeartTimer now) where
  apart := h.apart.mono t.le_gap
  past := h.past
  deadline := fun u hu => Nat.add_le_add_right (h.past u hu) heartBeatTimeOut
  due := fun hdue u hu => (Nat.add_le_add_left t.le_gap u).trans (h.due hdue u hu)

theorem Paced.ticker (h : Paced now t) (hdue : t.due = true) (hrd : ElectTimeOut rdTimeout)
    (leads : Bool) : Paced now (t.ticker leads now rdTimeout) := by
  have hreset := h.resetVoteTimer hrd
  cases leads with
  | true => exact ⟨hreset.apart, hreset.past, hreset.deadline, fun h => by cases h⟩
  | false =>
    refine ⟨h.apart.cons (h.due hdue), ?_, ?_, fun h => by cases h⟩
    · exact List.forall_mem_cons.mpr ⟨Nat.le_refl now, h.past⟩
    · have hnow : now + t.gap ≤ now + rdTimeout := Nat.add_le_add_left (t.gap_le.trans hrd.1) now
      exact List.forall_mem_cons.mpr ⟨hnow, hreset.deadline⟩

end VoteClock

namespace Timed

variable [Log L] {logs : Fin n → L} {s s' : Timed n L}

def PaceInv (s : Timed n L) : Prop := ∀ i, (s.timers i).Paced s.clock

omit [Log L] in
theorem init_paceInv (logs : Fin n → L) : (init logs).PaceInv :=
  fun _ => ⟨.nil, List.forall_mem_nil _, List.forall_mem_nil _, fun h => by cases h⟩

omit [Log L] in
theorem PaceInv.setTimer (h : s.PaceInv) {i : Fin n} {t : VoteClock} (ht : t.Paced s.clock) :
    (s.setTimer i t).PaceInv := by
  intro j
  rw [setTimer_timers]
  split
  · exact ht
  · exact h j

theorem step_paceInv {a : TimedAction n} (h : s.PaceInv) (hs : s.step a = some s') :
    s'.PaceInv := by
  cases a with
  | tick d =>
    cases hs
    exact fun i => (h i).tick (Nat.le_add_right _ d)
  | expire i =>
    obtain ⟨hdue, rfl⟩ := step_expire hs
    exact h.setTimer ((h i).expire hdue)
  | ticker i rdTimeout =>
    obtain ⟨hdue, hrd, rfl⟩ := step_ticker hs
    exact h.setTimer ((h i).ticker hdue hrd _)
  | raft a rdTimeout =>
    obtain ⟨hrd, ticked, _, rfl⟩ := step_raft hs
    intro i
    simp only [timersAfter]
    split
    · exact (h i).resetVoteTimer hrd
    · split
      · exact (h i).resetHeartTimer
      · exact h i

theorem reaches_paceInv (h : Reaches step (init logs) s) : s.PaceInv :=
  h.inv (fun _ _ _ hi hs => step_paceInv hi hs) (init_paceInv logs)

/-- **Elections are apart.** No node starts two elections within `HeartBeatTimeOut`, and one that
has never sent a round of heart beats none within `MinElectTimeOut`. -/
theorem elections_paced (h : Reaches step (init logs) s) (i : Fin n) :
    Spaced heartBeatTimeOut (s.timers i).elections ∧
      ((s.timers i).beaten = false → Spaced minElectTimeOut (s.timers i).elections) := by
  have hpaced := (reaches_paceInv h i).apart
  refine ⟨hpaced.mono (s.timers i).le_gap, ?_⟩
  intro hbeaten
  rwa [VoteClock.gap, hbeaten] at hpaced

/-- A round of heart beats, and another node's election: 155 ms lie between two elections. -/
theorem elections_paced_beaten : ∃ s : Timed 2 (List Entry),
    Reaches step (init fun i => if i = 0 then [{}, {}] else [{}]) s ∧
      (s.timers 0).elections = [1155, 1000] ∧
      Spaced heartBeatTimeOut (s.timers 0).elections ∧
      ((s.timers 0).beaten = false → Spaced minElectTimeOut (s.timers 0).elections) := by
  have hrun : ((runs step [.tick 1000, .expire 0, .expire 1, .ticker 0 600, .ticker 1 600,
      .raft (.elect 0) 600, .raft (.requestVote 0) 600, .raft (.getVoteAnswer 0 0) 600,
      .raft (.collectVote 0) 600, .raft (.sendHeartBeats 0) 600, .raft (.elect 1) 600,
      .raft (.requestVote 1) 600, .tick 155, .expire 0, .ticker 0 600]
      (init (fun i => if i = 0 then [{}, {}] else [{}] : Fin 2 → List Entry))).any fun s =>
        decide ((s.timers 0).elections = [1155, 1000])) = true := by decide
  obtain ⟨s, hr, hs⟩ := exists_of_runs hrun
  exact ⟨s, hr, of_decide_eq_true hs, elections_paced hr 0⟩

end Timed

/-! ## Terms and the clock -/

theorem Ticked.ticker_pending (s : Ticked n L) (i j : Fin n) : (s.ticker i).pending j =
    s.pending j + if j = i ∧ (s.cluster.nodes i).role ≠ .leader then 1 else 0 := by
  unfold ticker
  split
  · rename_i hrole
    by_cases hj : j = i
    · rw [hj, if_pos ⟨rfl, hrole⟩]
      exact Function.update_self ..
    · rw [if_neg (fun h => hj h.1)]
      exact Function.update_of_ne hj ..
  · rename_i hrole
    rw [if_neg (fun h => hrole h.2)]
    rfl

/-- An election of node `i`. -/
def Action.elects (i : Fin n) : Action n → Bool
  | .elect j => decide (j = i)
  | _ => false

theorem Ticked.runElect_pending [Log L] {s s' : Ticked n L} {j : Fin n}
    (h : s.runElect j = some s') (i : Fin n) :
    s.pending i = s'.pending i + if j = i then 1 else 0 := by
  unfold runElect at h
  split at h
  · cases h
  · rename_i hwaits
    simp only [Option.bind_eq_bind, Option.bind_eq_some_iff, Option.pure_def,
      Option.some.injEq] at h
    obtain ⟨cluster, _, rfl⟩ := h
    by_cases hj : j = i
    · subst hj
      simp only [Function.update_self, if_pos]
      omega
    · simp [Function.update_of_ne (Ne.symm hj), hj]

theorem Ticked.step_pending [Log L] {s s' : Ticked n L} {a : Action n}
    (h : s.step (.raft a) = some s') (i : Fin n) :
    s.pending i = s'.pending i + if a.elects i then 1 else 0 := by
  have hother : (do
      let cluster ← s.cluster.step false a
      return { s with cluster := cluster }) = some s' → s.pending i = s'.pending i := by
    intro h
    simp only [Option.bind_eq_bind, Option.bind_eq_some_iff, Option.pure_def,
      Option.some.injEq] at h
    obtain ⟨_, _, rfl⟩ := h
    rfl
  cases a with
  | elect j => simpa [Action.elects] using runElect_pending h i
  | requestVote k => exact hother h
  | getVoteAnswer k r => exact hother h
  | collectVote k => exact hother h
  | sendHeartBeats i => exact hother h
  | appendEntries k => exact hother h
  | handleAppendEntries k r => exact hother h

namespace Timed

variable [Log L] {logs : Fin n → L} {s s' : Timed n L}

/-- How many elections of node `i` have run; the other threads that its ticker has started wait. -/
def ran (s : Timed n L) (i : Fin n) : Int :=
  (s.timers i).elections.length - s.ticked.pending i

theorem timersAfter_elections (s : Timed n L) (a : Action n) (rdTimeout : Nat) (i : Fin n) :
    (s.timersAfter a rdTimeout i).elections = (s.timers i).elections := by
  unfold timersAfter
  split
  · rfl
  · split
    · rfl
    · rfl

omit [Log L] in
theorem ticker_elections (s : Timed n L) (i : Fin n) (rdTimeout : Nat) :
    ((s.timers i).ticker (s.leads i) s.clock rdTimeout).elections.length =
      (s.timers i).elections.length +
        if (s.ticked.cluster.nodes i).role ≠ .leader then 1 else 0 := by
  by_cases hl : (s.ticked.cluster.nodes i).role = .leader
  · simp [VoteClock.ticker, leads, hl]
  · simp [VoteClock.ticker, leads, hl]

def elects (i : Fin n) : TimedAction n → Bool
  | .raft a _ => a.elects i
  | _ => false

theorem step_ran {a : TimedAction n} (hs : s.step a = some s') (i : Fin n) :
    s'.ran i = s.ran i + if elects i a then 1 else 0 := by
  cases a with
  | tick d =>
    cases hs
    simp [ran, elects]
  | expire j =>
    obtain ⟨_, rfl⟩ := step_expire hs
    simp only [ran, elects, setTimer_timers]
    split
    · rename_i hi
      simp [hi, setTimer]
    · simp [setTimer]
  | ticker j rdTimeout =>
    obtain ⟨_, _, rfl⟩ := step_ticker hs
    simp only [ran, elects, setTimer_timers, Ticked.ticker_pending]
    by_cases hi : i = j
    · subst hi
      simp only [if_pos, true_and, ticker_elections]
      simp
    · simp [hi]
  | raft b rdTimeout =>
    obtain ⟨_, ticked, ht, rfl⟩ := step_raft hs
    have hpending := Ticked.step_pending ht i
    have hsame : elects i (.raft b rdTimeout) = b.elects i := rfl
    rw [hsame]
    simp only [ran, timersAfter_elections]
    by_cases helects : b.elects i = true
    · rw [if_pos helects] at hpending ⊢
      omega
    · rw [if_neg helects] at hpending ⊢
      omega

/-- There are no more terms than elections that have run. -/
def TermsInv (s : Timed n L) : Prop :=
  s.ticked.cluster.TermsIn fun t => 0 ≤ t ∧ t ≤ ∑ i, s.ran i

omit [Log L] in
theorem init_termsInv (logs : Fin n → L) : (init logs).TermsInv where
  nodes := fun i => by simp [init, ran, Ticked.init, Cluster.init, RaftNode.init]
  voteCalls := List.forall_mem_nil _
  appendCalls := List.forall_mem_nil _

theorem step_termsInv {a : TimedAction n} (h : s.TermsInv) (hs : s.step a = some s') :
    s'.TermsInv := by
  have hsum : ∑ i, s.ran i ≤ ∑ i, s'.ran i := by
    apply Finset.sum_le_sum
    intro i _
    rw [step_ran hs i]
    split
    · omega
    · omega
  have hle : s.ticked.cluster.TermsIn fun t => 0 ≤ t ∧ t ≤ ∑ i, s'.ran i :=
    h.mono fun t ht => ⟨ht.1, ht.2.trans hsum⟩
  rcases step_cluster hs with heq | ⟨b, rdTimeout, rfl, hb⟩
  · rw [TermsInv, heq]
    exact hle
  · refine hle.step ?_ hb
    rintro i rfl
    obtain ⟨hpos, hterm⟩ := h.nodes i
    have hrun : ∑ j, s'.ran j = ∑ j, s.ran j + 1 := by
      simp only [step_ran hs, elects, Action.elects, decide_eq_true_eq, Finset.sum_add_distrib]
      simp
    exact ⟨by omega, by omega⟩

theorem reaches_termsInv (h : Reaches step (init logs) s) : s.TermsInv :=
  h.inv (fun _ _ _ hi hs => step_termsInv hi hs) (init_termsInv logs)

/-- **Terms are bounded by the clock**, those of the nodes and of all messages. Up to `2 ^ 31` no
`int` term overflows. -/
theorem terms_bounded (h : Reaches step (init logs) s) : s.ticked.cluster.TermsIn fun t =>
    0 ≤ t ∧ t ≤ n * (s.clock / heartBeatTimeOut + 1 : Nat) := by
  apply (reaches_termsInv h).mono
  intro t ht
  refine ⟨ht.1, ht.2.trans ?_⟩
  have hran : ∀ i, s.ran i ≤ (s.clock / heartBeatTimeOut + 1 : Nat) := by
    intro i
    have hpaced := reaches_paceInv h i
    have hlen := (hpaced.apart.mono (s.timers i).le_gap).length_le (by decide) hpaced.past
    unfold ran
    omega
  have hsum := Finset.sum_le_sum fun i (_ : i ∈ Finset.univ) => hran i
  simpa using hsum

/-- Two elections in 1600 ms; two nodes could start 22. -/
theorem terms_bounded_two : ∃ s : Timed 2 (List Entry), Reaches step (init fun _ => [{}]) s ∧
    s.clock = 1600 ∧ (s.ticked.cluster.nodes 0).currentTerm = 2 ∧
      s.ticked.cluster.TermsIn fun t =>
        0 ≤ t ∧ t ≤ (2 : Nat) * (s.clock / heartBeatTimeOut + 1 : Nat) := by
  have hrun : ((runs step [.tick 1000, .expire 0, .ticker 0 600, .raft (.elect 0) 600, .tick 600,
      .expire 0, .ticker 0 600, .raft (.elect 0) 600]
      (init (fun _ => [{}] : Fin 2 → List Entry))).any fun s =>
        decide (s.clock = 1600 ∧ (s.ticked.cluster.nodes 0).currentTerm = 2)) = true := by decide
  obtain ⟨s, hr, hs⟩ := exists_of_runs hrun
  obtain ⟨hclock, hterm⟩ := of_decide_eq_true hs
  exact ⟨s, hr, hclock, hterm, terms_bounded hr⟩

end Timed
end TinyKv
