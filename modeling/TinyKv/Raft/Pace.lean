import TinyKv.Lib.Run
import Mathlib.Data.List.Count

/-!
# Raft.Pace

The two timers of a node that leads, and the loop of `SendHeartBeats`.

A `Timer` is its deadline; `wait` returns once the clock has reached it. The loop waits on
`heartTimer`, but `ResetHeartTimer` sets `voteTimer`, and nothing ever sets `heartTimer`
(`runs_heartTimer`): from its first deadline on, a round can follow the other at once, and each
round puts the election off or brings it forward.

* `Pacing.step`: time passes, some thread resets `voteTimer`, a round starts, a round ends.
* `paced_iff`: however time passes, `k` rounds are paced iff there is at most one, and they leave
  `voteTimer` alone iff there is none.
-/

namespace TinyKv

open Lib

/-- Times are in milliseconds. -/
structure Timer where
  deadline : Nat := 0
  deriving DecidableEq

def Timer.reset (_ : Timer) (now delay : Nat) : Timer := ⟨now + delay⟩

def heartBeatTimeOut : Nat := 155

def minElectTimeOut : Nat := 600

def maxElectTimeOut : Nat := 1000

/-- The clock and the timers of a leader. `inRound` holds from the end of `wait` to the end of the
loop body; `starts` are the times at which rounds have started, the latest first. -/
structure Pacing where
  clock : Nat := 0
  voteTimer : Timer := {}
  heartTimer : Timer := {}
  inRound : Bool := false
  starts : List Nat := []
  deriving DecidableEq

inductive PaceAction where
  | tick (d : Nat)
  | resetVoteTimer (rdTimeout : Nat)
  | startRound
  | endRound
  deriving DecidableEq

namespace Pacing

/-- `RaftNode::ResetVoteTimer`, with the number that `GetRandomElectTimeOut` returned. -/
def resetVoteTimer (s : Pacing) (rdTimeout : Nat) : Pacing :=
  { s with voteTimer := s.voteTimer.reset s.clock rdTimeout }

def resetHeartTimer (s : Pacing) (timeout : Nat) : Pacing :=
  { s with voteTimer := s.voteTimer.reset s.clock timeout }

/-- `startRound` is the return of `heartTimer.wait()`, `endRound` the call of `ResetHeartTimer` at
the end of the body. -/
def step (s : Pacing) : PaceAction → Option Pacing
  | .tick d => some { s with clock := s.clock + d }
  | .resetVoteTimer rdTimeout =>
    if minElectTimeOut ≤ rdTimeout ∧ rdTimeout ≤ maxElectTimeOut then
      some (s.resetVoteTimer rdTimeout)
    else none
  | .startRound =>
    if s.inRound = false ∧ s.heartTimer.deadline ≤ s.clock then
      some { s with inRound := true, starts := s.clock :: s.starts }
    else none
  | .endRound =>
    if s.inRound then some { s.resetHeartTimer heartBeatTimeOut with inRound := false } else none

/-- A round starts no earlier than `HeartBeatTimeOut` after the one before. -/
def Paced (s : Pacing) (a : PaceAction) (_ : Pacing) : Prop :=
  a = .startRound → ∀ t ∈ s.starts.head?, t + heartBeatTimeOut ≤ s.clock

/-- A round leaves the deadline of `voteTimer` as it is. -/
def KeepsVoteTimer (s : Pacing) (a : PaceAction) (s' : Pacing) : Prop :=
  a = .startRound ∨ a = .endRound → s'.voteTimer.deadline = s.voteTimer.deadline

/-- The head of the loop, before its first round. -/
def AtHead (s : Pacing) : Prop := s.inRound = false ∧ s.starts = []

instance (s : Pacing) : Decidable s.AtHead := inferInstanceAs (Decidable (_ ∧ _))

def rounds (as : List PaceAction) : Nat := as.count .startRound

variable {s s' : Pacing} {a : PaceAction} {as : List PaceAction}

theorem step_startRound (h : s.step .startRound = some s') :
    s.inRound = false ∧ s.heartTimer.deadline ≤ s.clock ∧
      s' = { s with inRound := true, starts := s.clock :: s.starts } := by
  simp only [step] at h
  split at h
  · rename_i hdue
    cases h
    exact ⟨hdue.1, hdue.2, rfl⟩
  · cases h

theorem step_endRound (h : s.step .endRound = some s') :
    s.inRound = true ∧ s' = { s.resetHeartTimer heartBeatTimeOut with inRound := false } := by
  simp only [step] at h
  split at h
  · rename_i hround
    cases h
    exact ⟨hround, rfl⟩
  · cases h

theorem step_resetVoteTimer {rdTimeout : Nat} (h : s.step (.resetVoteTimer rdTimeout) = some s') :
    s' = s.resetVoteTimer rdTimeout := by
  simp only [step] at h
  split at h
  · cases h
    rfl
  · cases h

theorem step_heartTimer (h : s.step a = some s') : s'.heartTimer = s.heartTimer := by
  cases a with
  | tick d => cases h; rfl
  | resetVoteTimer rdTimeout => rw [step_resetVoteTimer h]; rfl
  | startRound => rw [(step_startRound h).2.2]
  | endRound => rw [(step_endRound h).2]; rfl

theorem runs_heartTimer (h : Reaches step s s') : s'.heartTimer = s.heartTimer :=
  h.inv (P := fun s' => s'.heartTimer = s.heartTimer)
    (fun _ _ _ heq hs => (step_heartTimer hs).trans heq) rfl

theorem step_starts (hne : a ≠ .startRound) (h : s.step a = some s') : s'.starts = s.starts := by
  cases a with
  | tick d => cases h; rfl
  | resetVoteTimer rdTimeout => rw [step_resetVoteTimer h]; rfl
  | startRound => exact absurd rfl hne
  | endRound => rw [(step_endRound h).2]; rfl

theorem paced_of_rounds (as : List PaceAction) : ∀ {s : Pacing},
    rounds as + s.starts.length ≤ 1 → Along Paced step as s := by
  induction as with
  | nil => intro s _; trivial
  | cons a as ih =>
    intro s hle s' hs
    by_cases ha : a = .startRound
    · subst ha
      have hcount : rounds (.startRound :: as) = rounds as + 1 := List.count_cons_self
      have hnil : s.starts = [] := List.eq_nil_of_length_eq_zero (by omega)
      obtain ⟨_, _, rfl⟩ := step_startRound hs
      refine ⟨?_, ih ?_⟩
      · intro _ t ht
        rw [hnil] at ht
        cases ht
      · rw [hnil] at hle ⊢
        simp only [List.length_cons, List.length_nil] at hle ⊢
        omega
    · have hcount : rounds (a :: as) = rounds as := List.count_cons_of_ne ha
      refine ⟨fun heq => absurd heq ha, ih ?_⟩
      rw [step_starts ha hs]
      omega

theorem keepsVoteTimer_of_rounds (as : List PaceAction) : ∀ {s : Pacing},
    s.inRound = false → rounds as = 0 → Along KeepsVoteTimer step as s := by
  induction as with
  | nil => intro s _ _; trivial
  | cons a as ih =>
    intro s hout h0 s' hs
    have hmem : PaceAction.startRound ∉ a :: as := List.count_eq_zero.mp h0
    rw [List.mem_cons, not_or] at hmem
    have hrest : rounds as = 0 := List.count_eq_zero.mpr hmem.2
    cases a with
    | tick d =>
      cases hs
      exact ⟨fun h => by simp at h, ih hout hrest⟩
    | resetVoteTimer rdTimeout =>
      obtain rfl := step_resetVoteTimer hs
      exact ⟨fun h => by simp at h, ih hout hrest⟩
    | startRound => exact absurd rfl hmem.1
    | endRound =>
      rw [(step_endRound hs).1] at hout
      cases hout

/-- `k` rounds without a pause. -/
def burst : Nat → List PaceAction
  | 0 => []
  | k + 1 => .startRound :: .endRound :: burst k

@[simp] theorem rounds_burst (k : Nat) : rounds (burst k) = k := by
  induction k with
  | zero => rfl
  | succ k ih =>
    rw [rounds, burst, List.count_cons_self, List.count_cons_of_ne (by decide)]
    exact congrArg (· + 1) ih

theorem round_step (hout : s.inRound = false) (hdue : s.heartTimer.deadline ≤ s.clock) :
    ∃ s₁ s₂, s.step .startRound = some s₁ ∧ s₁.step .endRound = some s₂ ∧ s₂.inRound = false ∧
      s₂.clock = s.clock ∧ s₂.heartTimer = s.heartTimer ∧ s₁.voteTimer = s.voteTimer ∧
      s₂.voteTimer.deadline = s.clock + heartBeatTimeOut ∧ s₂.starts = s.clock :: s.starts :=
  ⟨_, _, if_pos ⟨hout, hdue⟩, rfl, rfl, rfl, rfl, rfl, rfl, rfl⟩

theorem burst_isSome (k : Nat) : ∀ {s : Pacing}, s.inRound = false →
    s.heartTimer.deadline ≤ s.clock → (runs step (burst k) s).isSome = true := by
  induction k with
  | zero => intro s _ _; rfl
  | succ k ih =>
    intro s hout hdue
    obtain ⟨s₁, s₂, h₁, h₂, hout', hclock, hheart, _⟩ := round_step hout hdue
    simp only [burst, runs, h₁, h₂]
    apply ih hout'
    rw [hheart, hclock]
    exact hdue

/-- Both timers are due. -/
def waited (s : Pacing) : Pacing :=
  { s with clock := s.clock + (s.heartTimer.deadline + s.voteTimer.deadline) }

/-- Time passes until both timers are due; then come the rounds. -/
def flood (s : Pacing) (k : Nat) : List PaceAction :=
  .tick (s.heartTimer.deadline + s.voteTimer.deadline) :: burst k

theorem rounds_flood (s : Pacing) (k : Nat) : rounds (s.flood k) = k := by
  rw [rounds, flood, List.count_cons_of_ne (by simp)]
  exact rounds_burst k

theorem step_tick_waited (s : Pacing) :
    s.step (.tick (s.heartTimer.deadline + s.voteTimer.deadline)) = some s.waited := rfl

theorem waited_due (s : Pacing) : s.waited.heartTimer.deadline ≤ s.waited.clock := by
  simp only [waited]
  omega

theorem flood_isSome (hout : s.inRound = false) (k : Nat) :
    (runs step (s.flood k) s).isSome = true := by
  rw [flood, runs, step_tick_waited]
  exact burst_isSome k hout s.waited_due

theorem flood_not_paced (hout : s.inRound = false) (k : Nat) :
    ¬Along Paced step (s.flood (k + 2)) s := by
  intro h
  obtain ⟨s₁, s₂, h₁, h₂, hout', hclock, hheart, _, _, hstarts⟩ :=
    round_step (s := s.waited) hout s.waited_due
  obtain ⟨s₃, _, h₃, _⟩ := round_step hout' (by rw [hheart, hclock]; exact s.waited_due)
  obtain ⟨_, hburst⟩ := h _ s.step_tick_waited
  obtain ⟨_, hend⟩ := hburst s₁ h₁
  obtain ⟨_, hsecond⟩ := hend s₂ h₂
  obtain ⟨hpaced, _⟩ := hsecond s₃ h₃
  have hlate : s₂.clock + heartBeatTimeOut ≤ s₂.clock :=
    hpaced rfl s₂.clock (by rw [hstarts, hclock]; rfl)
  exact absurd hlate (by simp [heartBeatTimeOut])

theorem flood_not_keepsVoteTimer (hout : s.inRound = false) (k : Nat) :
    ¬Along KeepsVoteTimer step (s.flood (k + 1)) s := by
  intro h
  obtain ⟨s₁, s₂, h₁, h₂, _, _, _, hvote, hset, _⟩ :=
    round_step (s := s.waited) hout s.waited_due
  obtain ⟨_, hburst⟩ := h _ s.step_tick_waited
  obtain ⟨_, hend⟩ := hburst s₁ h₁
  obtain ⟨hkeeps, _⟩ := hend s₂ h₂
  have hsame := hkeeps (.inr rfl)
  rw [hset, hvote] at hsame
  simp only [waited, heartBeatTimeOut] at hsame
  omega

/-- **The pace of the heart beats.** From the head of the loop, whatever the timers are set to: all
runs of `k` rounds are paced iff `k ≤ 1`, and all leave `voteTimer` to the other threads iff
`k = 0`. -/
theorem paced_iff {s : Pacing} (h : s.AtHead) (k : Nat) :
    ((∀ as, (runs step as s).isSome = true → rounds as = k → Along Paced step as s) ↔ k ≤ 1) ∧
    ((∀ as, (runs step as s).isSome = true → rounds as = k → Along KeepsVoteTimer step as s) ↔
      k = 0) := by
  obtain ⟨hout, hstarts⟩ := h
  constructor
  · constructor
    · intro hall
      by_contra hk
      obtain ⟨j, rfl⟩ : ∃ j, k = j + 2 := ⟨k - 2, by omega⟩
      exact flood_not_paced hout j (hall _ (flood_isSome hout _) (rounds_flood s _))
    · intro hk as _ hrounds
      apply paced_of_rounds
      rw [hstarts, List.length_nil]
      omega
  · constructor
    · intro hall
      by_contra hk
      obtain ⟨j, rfl⟩ : ∃ j, k = j + 1 := ⟨k - 1, by omega⟩
      exact flood_not_keepsVoteTimer hout j (hall _ (flood_isSome hout _) (rounds_flood s _))
    · intro hk as _ hrounds
      exact keepsVoteTimer_of_rounds as hout (hrounds.trans hk)

/-- One round is paced, and only without a round is the other timer left alone. -/
theorem paced_once : (({} : Pacing).AtHead ∧
    ∀ as, (runs step as {}).isSome = true → rounds as = 1 → Along Paced step as {}) ∧
    ∀ as, (runs step as {}).isSome = true → rounds as = 0 → Along KeepsVoteTimer step as {} :=
  ⟨⟨by decide, (paced_iff (s := {}) (by decide) 1).1.mpr (Nat.le_refl 1)⟩,
    (paced_iff (s := {}) (by decide) 0).2.mpr rfl⟩

/-- Two rounds at once, and the election timeout is that of a heart beat. -/
theorem two_rounds_at_once :
    (runs step [.resetVoteTimer 600, .startRound, .endRound, .startRound] {}).any
        (fun s => decide (s.starts = [0, 0] ∧ s.voteTimer.deadline = 155)) = true ∧
    ¬Along Paced step [.resetVoteTimer 600, .startRound, .endRound, .startRound] {} ∧
    ¬Along KeepsVoteTimer step [.resetVoteTimer 600, .startRound, .endRound, .startRound] {} := by
  refine ⟨by decide, ?_, ?_⟩
  · intro h
    obtain ⟨_, h⟩ := h _ rfl
    obtain ⟨_, h⟩ := h _ rfl
    obtain ⟨_, h⟩ := h _ rfl
    obtain ⟨h, _⟩ := h _ rfl
    exact absurd (h rfl 0 rfl) (by decide)
  · intro h
    obtain ⟨_, h⟩ := h _ rfl
    obtain ⟨_, h⟩ := h _ rfl
    obtain ⟨h, _⟩ := h _ rfl
    exact absurd (h (.inr rfl)) (by decide)

end Pacing
end TinyKv
