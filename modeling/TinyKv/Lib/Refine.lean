import TinyKv.Lib.Run

/-!
# Lib.Refine

Refinement of partial computations and of the runs made of them.

* `Refines R x y`: where the concrete computation `x` has a result, the abstract one `y` has a
  result that `R` relates to it. `Refines.bind` is the rule for `do` blocks, `Refines.foldlM` that
  for loops.
* `Reaches.lift`, `ReachesIf.lift`: a run has one of another system beside it if every step has.
  `Reaches.refines` is the case of a step beside every step.
-/

namespace TinyKv
namespace Lib

variable {α β γ δ ι : Type} {R : α → β → Prop} {S : γ → δ → Prop} {x : Option α} {y : Option β}
  {a : α} {b : β}

def Refines (R : α → β → Prop) (x : Option α) (y : Option β) : Prop :=
  ∀ a, x = some a → ∃ b, y = some b ∧ R a b

theorem Refines.none : Refines R none y := fun _ h => by cases h

theorem Refines.some (h : R a b) : Refines R (some a) (some b) := by
  intro a' ha
  cases ha
  exact ⟨b, rfl, h⟩

theorem Refines.bind {f : α → Option γ} {g : β → Option δ} (h : Refines R x y)
    (hf : ∀ a b, R a b → Refines S (f a) (g b)) : Refines S (x >>= f) (y >>= g) := by
  intro c hc
  obtain ⟨a, ha, hfa⟩ := Option.bind_eq_some_iff.mp hc
  obtain ⟨b, hb, hab⟩ := h a ha
  obtain ⟨d, hd, hcd⟩ := hf a b hab c hfa
  exact ⟨d, Option.bind_eq_some_iff.mpr ⟨b, hb, hd⟩, hcd⟩

theorem Refines.bind_same {f : α → Option γ} {g : α → Option δ}
    (hf : ∀ a, x = .some a → Refines S (f a) (g a)) : Refines S (x >>= f) (x >>= g) := by
  intro c hc
  obtain ⟨a, ha, hfa⟩ := Option.bind_eq_some_iff.mp hc
  obtain ⟨d, hd, hcd⟩ := hf a ha c hfa
  exact ⟨d, Option.bind_eq_some_iff.mpr ⟨a, ha, hd⟩, hcd⟩

theorem Refines.map_right {f : α → β} (h : ∀ a, x = .some a → R a (f a)) :
    Refines R x (x.map f) := by
  intro a ha
  exact ⟨f a, by rw [ha]; rfl, h a ha⟩

theorem Refines.foldlM {f : α → ι → Option α} {g : β → ι → Option β} (is : List ι) :
    ∀ {a : α} {b : β}, (∀ i ∈ is, ∀ a b, R a b → Refines R (f a i) (g b i)) → R a b →
      Refines R (is.foldlM f a) (is.foldlM g b) := by
  induction is with
  | nil => intro a b _ h; exact .some h
  | cons i is ih =>
    intro a b hf h
    rw [List.foldlM_cons, List.foldlM_cons]
    refine (hf i List.mem_cons_self a b h).bind fun a' b' h' => ?_
    exact ih (fun j hj => hf j (List.mem_cons_of_mem i hj)) h'

section Runs

variable {σ τ κ : Type} {step : σ → ι → Option σ} {step' : τ → κ → Option τ} {ok : σ → ι → Prop}
  {ok' : τ → κ → Prop} {R : σ → τ → Prop} {s s' : σ} {t : τ}

theorem Reaches.lift (hstep : ∀ s t i s', R s t → step s i = some s' →
    ∃ t', Reaches step' t t' ∧ R s' t') (h : Reaches step s s') (hr : R s t) :
    ∃ t', Reaches step' t t' ∧ R s' t' := by
  induction h with
  | refl => exact ⟨t, .refl, hr⟩
  | tail _ hlast ih =>
    obtain ⟨i, hi⟩ := hlast
    obtain ⟨t₁, ht₁, hr₁⟩ := ih
    obtain ⟨t₂, ht₂, hr₂⟩ := hstep _ t₁ i _ hr₁ hi
    exact ⟨t₂, ht₁.trans ht₂, hr₂⟩

theorem ReachesIf.lift (hstep : ∀ s t i s', R s t → ok s i → step s i = some s' →
    ∃ t', ReachesIf ok' step' t t' ∧ R s' t') (h : ReachesIf ok step s s') (hr : R s t) :
    ∃ t', ReachesIf ok' step' t t' ∧ R s' t' := by
  induction h with
  | refl => exact ⟨t, Relation.ReflTransGen.refl, hr⟩
  | tail _ hlast ih =>
    obtain ⟨i, hok, hi⟩ := hlast
    obtain ⟨t₁, ht₁, hr₁⟩ := ih
    obtain ⟨t₂, ht₂, hr₂⟩ := hstep _ t₁ i _ hr₁ hok hi
    exact ⟨t₂, ht₁.trans ht₂, hr₂⟩

/-- A simulation step by step is one of whole runs. -/
theorem Reaches.refines {step' : τ → ι → Option τ}
    (hstep : ∀ s t i, R s t → Refines R (step s i) (step' t i)) (h : Reaches step s s')
    (hr : R s t) : ∃ t', Reaches step' t t' ∧ R s' t' := by
  refine h.lift ?_ hr
  intro s t i s' hr hs
  obtain ⟨t', ht, hr'⟩ := hstep s t i hr s' hs
  exact ⟨t', .single ht, hr'⟩

end Runs

end Lib
end TinyKv
