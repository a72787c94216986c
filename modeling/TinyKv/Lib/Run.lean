import Mathlib.Logic.Relation

/-!
# Lib.Run

Runs of a partial step function `step : σ → α → Option σ`: `step s a` is the state after action
`a`, or `none` when `a` is not enabled in `s`.

* `Reaches step s s'`: `s'` is reached from `s` by finitely many steps.
* `ReachesIf ok step s s'`: the same, every step satisfying the guard `ok` in the state before it.
* `runs step as s`: the executable run along a given list of actions.
* `Along Q step as s`: every step of that run satisfies `Q`.
* `answers call s as`: what a system that answers its calls answers to `as`.

An invariant is proved once per step; `Reaches.inv` and `ReachesIf.inv` carry it over whole runs.
`along_congr` carries an equivalence over whole runs that holds at each step, `answers_congr` an
equality of the answers.
-/

namespace TinyKv
namespace Lib

variable {σ α : Type} {step : σ → α → Option σ} {ok : σ → α → Prop}

def ReachesIf (ok : σ → α → Prop) (step : σ → α → Option σ) : σ → σ → Prop :=
  Relation.ReflTransGen fun s s' => ∃ a, ok s a ∧ step s a = some s'

def Reaches (step : σ → α → Option σ) : σ → σ → Prop :=
  Relation.ReflTransGen fun s s' => ∃ a, step s a = some s'

theorem Reaches.refl {s : σ} : Reaches step s s := Relation.ReflTransGen.refl

theorem Reaches.single {s s' : σ} {a : α} (h : step s a = some s') : Reaches step s s' :=
  Relation.ReflTransGen.single ⟨a, h⟩

theorem Reaches.trans {s s' s'' : σ} (h₁ : Reaches step s s') (h₂ : Reaches step s' s'') :
    Reaches step s s'' := Relation.ReflTransGen.trans h₁ h₂

/-- What every step preserves, every run preserves. -/
theorem Reaches.inv {P : σ → Prop} (hstep : ∀ s a s', P s → step s a = some s' → P s')
    {s s' : σ} (h : Reaches step s s') (hs : P s) : P s' := by
  induction h with
  | refl => exact hs
  | tail _ hlast ih =>
    obtain ⟨a, ha⟩ := hlast
    exact hstep _ a _ ih ha

/-- What every step that meets the guard preserves, every guarded run preserves. -/
theorem ReachesIf.inv {P : σ → Prop}
    (hstep : ∀ s a s', P s → ok s a → step s a = some s' → P s')
    {s s' : σ} (h : ReachesIf ok step s s') (hs : P s) : P s' := by
  induction h with
  | refl => exact hs
  | tail _ hlast ih =>
    obtain ⟨a, hok, ha⟩ := hlast
    exact hstep _ a _ ih hok ha

/-- The state after the actions `as`, `none` as soon as one of them is not enabled. -/
def runs (step : σ → α → Option σ) : List α → σ → Option σ
  | [], s => some s
  | a :: as, s =>
    match step s a with
    | some s' => runs step as s'
    | none => none

theorem reaches_of_runs {as : List α} :
    ∀ {s s' : σ}, runs step as s = some s' → Reaches step s s' := by
  induction as with
  | nil => intro s s' h; simp only [runs, Option.some.injEq] at h; subst h; exact .refl
  | cons a as ih =>
    intro s s' h
    simp only [runs] at h
    split at h
    · rename_i s1 h1; exact (Reaches.single h1).trans (ih h)
    · cases h

theorem ReachesIf.single {s s' : σ} {a : α} (hok : ok s a) (h : step s a = some s') :
    ReachesIf ok step s s' := Relation.ReflTransGen.single ⟨a, hok, h⟩

theorem ReachesIf.trans {s s' s'' : σ} (h₁ : ReachesIf ok step s s')
    (h₂ : ReachesIf ok step s' s'') : ReachesIf ok step s s'' := Relation.ReflTransGen.trans h₁ h₂

theorem ReachesIf.reaches {s s' : σ} (h : ReachesIf ok step s s') : Reaches step s s' :=
  Relation.ReflTransGen.mono (fun _ _ ⟨a, _, ha⟩ => ⟨a, ha⟩) _ _ h

theorem ReachesIf.mono {ok' : σ → α → Prop} {s s' : σ} (h : ReachesIf ok step s s')
    (hok : ∀ s a, ok s a → ok' s a) : ReachesIf ok' step s s' :=
  Relation.ReflTransGen.mono (fun _ _ ⟨a, ha, hs⟩ => ⟨a, hok _ a ha, hs⟩) _ _ h

theorem reachesIf_of_runs {as : List α} : ∀ {s s' : σ}, (∀ a ∈ as, ∀ s, ok s a) →
    runs step as s = some s' → ReachesIf ok step s s' := by
  induction as with
  | nil =>
    intro s s' _ h
    simp only [runs, Option.some.injEq] at h
    subst h
    exact Relation.ReflTransGen.refl
  | cons a as ih =>
    intro s s' hok h
    simp only [runs] at h
    split at h
    · rename_i s1 h1
      have hrest := ih (fun b hb => hok b (List.mem_cons_of_mem a hb)) h
      exact (ReachesIf.single (hok a (List.mem_cons_self ..) s) h1).trans hrest
    · cases h

/-- A run that ends in a state with a decidable property, found by evaluation. -/
theorem exists_of_runs {as : List α} {s : σ} {p : σ → Bool}
    (h : (runs step as s).any p = true) : ∃ s', Reaches step s s' ∧ p s' = true := by
  cases hr : runs step as s with
  | none => rw [hr] at h; cases h
  | some s' => rw [hr] at h; exact ⟨s', reaches_of_runs hr, h⟩

/-- The same where an evaluable check stands for the guard. -/
theorem exists_of_runsIf (step : σ → α → Option σ) {check : σ → α → Bool}
    (hcheck : ∀ s a, check s a = true → ok s a) (as : List α) {s : σ} (p : σ → Bool)
    (h : (runs (fun s a => if check s a then step s a else none) as s).any p = true) :
    ∃ s', ReachesIf ok step s s' ∧ p s' = true := by
  obtain ⟨s', hs, hp⟩ := exists_of_runs h
  refine ⟨s', Relation.ReflTransGen.mono ?_ _ _ hs, hp⟩
  rintro u u' ⟨a, ha⟩
  obtain ⟨hok, ha⟩ := Option.ite_none_right_eq_some.mp ha
  exact ⟨a, hcheck u a hok, ha⟩

/-- Every step `s → s'` of the run along `as` satisfies `Q`, as far as the actions are enabled. -/
def Along (Q : σ → α → σ → Prop) (step : σ → α → Option σ) : List α → σ → Prop
  | [], _ => True
  | a :: as, s => ∀ s', step s a = some s' → Q s a s' ∧ Along Q step as s'

/-- Two properties of a step that agree under an invariant agree along every run. -/
theorem along_congr {Q R : σ → α → σ → Prop} {I : σ → Prop}
    (hiff : ∀ s a s', I s → step s a = some s' → (Q s a s' ↔ R s a s'))
    (hinv : ∀ s a s', I s → R s a s' → step s a = some s' → I s') {as : List α} :
    ∀ {s : σ}, I s → (Along Q step as s ↔ Along R step as s) := by
  induction as with
  | nil => intro s _; exact .rfl
  | cons a as ih =>
    intro s hs
    constructor
    · intro h s' hs'
      obtain ⟨hq, hrest⟩ := h s' hs'
      have hr := (hiff s a s' hs hs').mp hq
      exact ⟨hr, (ih (hinv s a s' hs hr hs')).mp hrest⟩
    · intro h s' hs'
      obtain ⟨hr, hrest⟩ := h s' hs'
      exact ⟨(hiff s a s' hs hs').mpr hr, (ih (hinv s a s' hs hr hs')).mpr hrest⟩

/-- The state after the calls `as`, and the answers. -/
def answers {β : Type} (call : σ → α → σ × β) : σ → List α → σ × List β
  | s, [] => (s, [])
  | s, a :: as =>
    let (s', b) := call s a
    let (s'', bs) := answers call s' as
    (s'', b :: bs)

/-- Two systems that answer alike under an invariant give the same answers all along. -/
theorem answers_congr {β : Type} {call call' : σ → α → σ × β} {I : σ → Prop} {ok : α → Prop}
    {ok' : β → Prop} (heq : ∀ s a, I s → ok a → ok' (call' s a).2 → call s a = call' s a)
    (hinv : ∀ s a, I s → ok a → I (call' s a).1) {as : List α} : ∀ {s : σ}, I s →
    (∀ a ∈ as, ok a) → (∀ b ∈ (answers call' s as).2, ok' b) →
    answers call s as = answers call' s as := by
  induction as with
  | nil => intro s _ _ _; rfl
  | cons a as ih =>
    intro s hs hok hok'
    obtain ⟨ha, has⟩ := List.forall_mem_cons.mp hok
    obtain ⟨hb, hbs⟩ := List.forall_mem_cons.mp hok'
    simp only [answers, heq s a hs ha hb, ih (hinv s a hs ha) has hbs]

end Lib
end TinyKv
