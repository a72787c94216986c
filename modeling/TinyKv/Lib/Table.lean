import Mathlib.Data.List.Nodup

/-!
# Lib.Table

A table of records as a list: rows are added at the end and changed in place. What all rows
satisfy, what some row satisfies and the keys of the rows, before and after one row is changed, and
folds over the rows in two orders.
-/

namespace TinyKv
namespace Lib

variable {α κ : Type} {xs : List α} {k : Nat} {x y : α} {P : α → Prop}

theorem mem_set_self (h : xs[k]? = some x) : y ∈ xs.set k y := by
  have hk : k < xs.length := (List.getElem?_eq_some_iff.mp h).1
  exact List.mem_set hk y

theorem forall_mem_set (h : ∀ z ∈ xs, P z) (hy : P y) : ∀ z ∈ xs.set k y, P z := by
  intro z hz
  rcases List.mem_or_eq_of_mem_set hz with hz | rfl
  · exact h z hz
  · exact hy

theorem exists_mem_set (hk : xs[k]? = some x) (hxy : P x → P y) (h : ∃ z ∈ xs, P z) :
    ∃ z ∈ xs.set k y, P z := by
  obtain ⟨z, hz, hP⟩ := h
  obtain ⟨i, hi⟩ := List.getElem?_of_mem hz
  by_cases hik : i = k
  · subst hik
    obtain rfl : x = z := Option.some.inj (hk.symm.trans hi)
    exact ⟨y, mem_set_self hk, hxy hP⟩
  · refine ⟨z, List.mem_of_getElem? (i := i) ?_, hP⟩
    rw [List.getElem?_set_ne (Ne.symm hik), hi]

theorem map_set_key {key : α → κ} (hk : xs[k]? = some x) (hkey : key y = key x) :
    (xs.set k y).map key = xs.map key := by
  obtain ⟨hlt, rfl⟩ := List.getElem?_eq_some_iff.mp hk
  have hlt' : k < (xs.map key).length := by simpa using hlt
  rw [List.map_set, hkey, ← List.getElem_map key (h := hlt'), List.set_getElem_self hlt']

theorem forall_mem_modify {f : α → α} (h : ∀ z ∈ xs, P z) (hf : ∀ z ∈ xs, P (f z)) :
    ∀ z ∈ xs.modify k f, P z := by
  intro z hz
  obtain ⟨i, hi⟩ := List.getElem?_of_mem hz
  by_cases hik : k = i
  · subst hik
    rw [List.getElem?_modify_eq] at hi
    obtain ⟨a, ha, rfl⟩ := Option.map_eq_some_iff.mp hi
    exact hf a (List.mem_of_getElem? ha)
  · rw [List.getElem?_modify_ne _ _ hik] at hi
    exact h z (List.mem_of_getElem? hi)

/-- A change in place goes through a map that it commutes with. -/
theorem map_modify {β : Type} {f : α → α} {g : α → β} {h : β → β} (hfg : ∀ a, g (f a) = h (g a)) :
    (xs.modify k f).map g = (xs.map g).modify k h := by
  induction xs generalizing k with
  | nil => simp
  | cons a xs ih =>
    cases k with
    | zero => simp [hfg]
    | succ k => simp [ih]

theorem map_modify_same {β : Type} {f : α → α} {g : α → β} (hf : ∀ a, g (f a) = g a) :
    (xs.modify k f).map g = xs.map g := by
  rw [map_modify (h := id) hf, List.modify_id]

theorem eq_of_key_eq {key : α → κ} (h : (xs.map key).Nodup) (hx : x ∈ xs) (hy : y ∈ xs)
    (hkey : key x = key y) : x = y := List.inj_on_of_nodup_map h hx hy hkey

/-- A relation that holds along a rising list holds of any two of its elements in order. -/
theorem rel_of_rising {R : Nat → Nat → Prop} {l : List Nat} (hs : l.Pairwise (· < ·))
    (hR : l.Pairwise R) {i j : Nat} (hi : i ∈ l) (hj : j ∈ l) (hlt : i < j) : R i j := by
  have hforward : l.Pairwise fun i j => i < j → R i j := by
    refine hR.imp ?_
    exact fun h _ => h
  have hback : l.Pairwise (flip fun i j => i < j → R i j) :=
    hs.imp fun h h' => absurd h (Nat.lt_asymm h')
  have hself : ∀ i ∈ l, i < i → R i i := fun i _ h => absurd h (Nat.lt_irrefl i)
  exact List.Pairwise.forall_of_forall_of_flip hself hforward hback hi hj hlt

/-- Where two turns commute up to `R`, so do folds over a list in two orders. -/
theorem foldl_perm {σ : Type} {f : σ → α → σ} {R : σ → σ → Prop} {l l' : List α}
    (hperm : l.Perm l') (hrefl : ∀ s, R s s) (htrans : ∀ s s' s'', R s s' → R s' s'' → R s s'')
    (hcongr : ∀ a s s', R s s' → R (f s a) (f s' a))
    (hcomm : ∀ a ∈ l, ∀ b ∈ l, ∀ s, R (f (f s a) b) (f (f s b) a)) :
    ∀ s, R (l.foldl f s) (l'.foldl f s) := by
  induction hperm with
  | nil => exact hrefl
  | cons a _ ih =>
    intro s
    exact ih (fun b hb c hc => hcomm b (.tail a hb) c (.tail a hc)) (f s a)
  | swap a b l =>
    intro s
    have hswap : R (f (f s b) a) (f (f s a) b) := hcomm b (by simp) a (by simp) s
    exact List.foldl_rel hswap fun c _ s s' => hcongr c s s'
  | trans hfirst _ ih₁ ih₂ =>
    intro s
    refine htrans _ _ _ (ih₁ hcomm s) (ih₂ ?_ s)
    exact fun a ha b hb => hcomm a (hfirst.mem_iff.mpr ha) b (hfirst.mem_iff.mpr hb)

theorem exists_mapM {β : Type} {f : α → Option β} (h : ∀ a ∈ xs, ∃ b, f a = some b) :
    ∃ ys, xs.mapM f = some ys := by
  induction xs with
  | nil => exact ⟨[], rfl⟩
  | cons a xs ih =>
    obtain ⟨b, hb⟩ := h a List.mem_cons_self
    obtain ⟨ys, hys⟩ := ih fun a ha => h a (List.mem_cons_of_mem _ ha)
    refine ⟨b :: ys, ?_⟩
    rw [List.mapM_cons, hb, hys]
    rfl

theorem mem_of_mapM {β : Type} {f : α → Option β} {a : α} {b : β} :
    ∀ {xs : List α} {ys : List β}, xs.mapM f = some ys → a ∈ xs → f a = some b → b ∈ ys := by
  intro xs
  induction xs with
  | nil => intro ys _ ha; cases ha
  | cons x xs ih =>
    intro ys h ha hf
    simp only [List.mapM_cons, Option.bind_eq_bind, Option.bind_eq_some_iff, Option.pure_def,
      Option.some.injEq] at h
    obtain ⟨b₀, hx, bs, hbs, rfl⟩ := h
    rcases List.mem_cons.mp ha with rfl | ha
    · rw [hf, Option.some.injEq] at hx
      exact hx ▸ List.mem_cons_self
    · exact List.mem_cons_of_mem b₀ (ih hbs ha hf)

theorem exists_of_mem_mapM {β : Type} {f : α → Option β} :
    ∀ {xs : List α} {ys : List β}, xs.mapM f = some ys → ∀ b ∈ ys, ∃ a ∈ xs, f a = some b := by
  intro xs
  induction xs with
  | nil =>
    intro ys h b hb
    cases h
    cases hb
  | cons a xs ih =>
    intro ys h b hb
    simp only [List.mapM_cons, Option.bind_eq_bind, Option.bind_eq_some_iff, Option.pure_def,
      Option.some.injEq] at h
    obtain ⟨b₀, ha, bs, hbs, rfl⟩ := h
    rcases List.mem_cons.mp hb with rfl | hb
    · exact ⟨a, by simp, ha⟩
    · obtain ⟨a', ha', hf⟩ := ih hbs b hb
      exact ⟨a', List.mem_cons_of_mem a ha', hf⟩

end Lib
end TinyKv
