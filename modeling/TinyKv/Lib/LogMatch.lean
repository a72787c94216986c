import Mathlib.Data.List.Infix
import Mathlib.Data.Nat.Find

/-!
# Lib.LogMatch

Replicated logs as lists.

* `LogMatching term xs ys`: entries of one term at one index have the same past in both lists.
* `Comparable xs ys`: one list is a prefix of the other, so that they nowhere differ.
* `adopt xs ys`: `xs` after it has been brought in line with `ys`: itself if it extends `ys`,
  else `ys`. It extends `ys` (`prefix_adopt`) and keeps every part that is comparable with `ys`
  (`prefix_adopt_of_comparable`).
* `AgreesAt term xs i ys k`: `xs` has, from index `i` on, the `k`-th term of `ys`. Replacing `xs`
  from the first index where it does not makes it agree with all of `ys` (`agreesAt_splice`).
-/

namespace TinyKv
namespace Lib

variable {α τ : Type} {xs ys zs : List α}

def LogMatching (term : α → τ) (xs ys : List α) : Prop :=
  ∀ k x y, xs[k]? = some x → ys[k]? = some y → term x = term y →
    xs.take (k + 1) = ys.take (k + 1)

theorem logMatching_iff {term : α → τ} : LogMatching term xs ys ↔ ∀ k < xs.length,
    xs[k]?.map term = ys[k]?.map term → xs.take (k + 1) = ys.take (k + 1) := by
  constructor
  · intro h k hk ht
    have hx : xs[k]? = some xs[k] := List.getElem?_eq_getElem hk
    rw [hx, Option.map_some, eq_comm, Option.map_eq_some_iff] at ht
    obtain ⟨y, hy, ht⟩ := ht
    exact h k _ y hx hy ht.symm
  · intro h k x y hx hy ht
    have hk := (List.getElem?_eq_some_iff.mp hx).1
    exact h k hk (by rw [hx, hy, Option.map_some, ht, Option.map_some])

instance [DecidableEq α] [DecidableEq τ] (term : α → τ) : Decidable (LogMatching term xs ys) :=
  decidable_of_iff _ logMatching_iff.symm

def Comparable (xs ys : List α) : Prop := xs <+: ys ∨ ys <+: xs

theorem Comparable.mono (h : Comparable xs ys) (hz : zs <+: xs) : Comparable zs ys := by
  cases h with
  | inl h =>
    exact .inl (hz.trans h)
  | inr h =>
    exact List.prefix_or_prefix_of_prefix hz h

theorem prefix_getElem? (h : xs <+: ys) {k : Nat} {x : α} (hx : xs[k]? = some x) :
    ys[k]? = some x := by
  obtain ⟨hk, rfl⟩ := List.getElem?_eq_some_iff.mp hx
  exact List.prefix_iff_getElem?.mp h k hk

theorem logMatching_of_extends {term : α → τ} (h : ys <+: xs) : LogMatching term xs ys := by
  intro k _ y _ hy _
  have hlen : (ys.take (k + 1)).length = k + 1 := by
    rw [List.length_take]
    have := (List.getElem?_eq_some_iff.mp hy).1
    omega
  have hpre := List.prefix_iff_eq_take.mp ((List.take_prefix (k + 1) ys).trans h)
  rw [hlen] at hpre
  exact hpre.symm

theorem Comparable.getElem?_eq (h : Comparable xs ys) {k : Nat} {x y : α} (hx : xs[k]? = some x)
    (hy : ys[k]? = some y) : x = y := by
  cases h with
  | inl h =>
    exact Option.some.inj ((prefix_getElem? h hx).symm.trans hy)
  | inr h =>
    exact Option.some.inj (hx.symm.trans (prefix_getElem? h hy))

section Splice

variable {term : α → τ} {i k : Nat}

def AgreesAt (term : α → τ) (xs : List α) (i : Nat) (ys : List α) (k : Nat) : Prop :=
  ∃ x y, xs[i + k]? = some x ∧ ys[k]? = some y ∧ term x = term y

theorem AgreesAt.lt (h : AgreesAt term xs i ys k) : i + k < xs.length := by
  obtain ⟨x, _, hx, _⟩ := h
  exact (List.getElem?_eq_some_iff.mp hx).1

theorem agreesAt_cons {y : α} :
    AgreesAt term xs i (y :: ys) (k + 1) ↔ AgreesAt term xs (i + 1) ys k := by
  unfold AgreesAt
  rw [List.getElem?_cons_succ, Nat.add_right_comm, Nat.add_assoc]

/-- A list agrees with the whole slice, or there is a first index where it does not. -/
theorem agrees_or_first (term : α → τ) (xs : List α) (i : Nat) (ys : List α) :
    (∀ k < ys.length, AgreesAt term xs i ys k) ∨
    ∃ k < ys.length, (∀ j < k, AgreesAt term xs i ys j) ∧ ¬AgreesAt term xs i ys k := by
  classical
  by_cases h : ∃ k, k < ys.length ∧ ¬AgreesAt term xs i ys k
  · obtain ⟨hlt, hno⟩ := Nat.find_spec h
    refine .inr ⟨Nat.find h, hlt, fun j hj => ?_, hno⟩
    by_contra hdiff
    exact Nat.find_min h hj ⟨Nat.lt_trans hj hlt, hdiff⟩
  · refine .inl fun k hk => ?_
    by_contra hdiff
    exact h ⟨k, hk, hdiff⟩

theorem le_of_agrees (hi : i ≤ xs.length) (h : ∀ j < k, AgreesAt term xs i ys j) :
    i + k ≤ xs.length := by
  cases k with
  | zero => exact hi
  | succ k => exact (h k (Nat.lt_succ_self k)).lt

theorem agreesAt_splice (hi : i ≤ xs.length) (h : ∀ j < k, AgreesAt term xs i ys j) :
    ∀ j < ys.length, AgreesAt term (xs.take (i + k) ++ ys.drop k) i ys j := by
  intro j hj
  have hle := le_of_agrees hi h
  have hlen : (xs.take (i + k)).length = i + k := by rw [List.length_take, Nat.min_eq_left hle]
  by_cases hjk : j < k
  · obtain ⟨x, y, hx, hy, hterm⟩ := h j hjk
    refine ⟨x, y, ?_, hy, hterm⟩
    rw [List.getElem?_append_left (by omega), List.getElem?_take_of_lt (by omega), hx]
  · have hget : ys[j]? = some ys[j] := List.getElem?_eq_getElem hj
    refine ⟨ys[j], ys[j], ?_, hget, rfl⟩
    rw [List.getElem?_append_right (by omega), hlen, List.getElem?_drop, ← hget]
    congr 1
    omega

end Splice

/-! ## Bringing a log in line with another -/

variable [DecidableEq α]

def adopt (xs ys : List α) : List α := if ys <+: xs then xs else ys

theorem adopt_extends (h : ys <+: xs) : adopt xs ys = xs := if_pos h

theorem adopt_other (h : ¬ys <+: xs) : adopt xs ys = ys := if_neg h

theorem adopt_eq_or (xs ys : List α) : adopt xs ys = xs ∨ adopt xs ys = ys := by
  unfold adopt
  split
  · exact .inl rfl
  · exact .inr rfl

theorem prefix_adopt (xs ys : List α) : ys <+: adopt xs ys := by
  unfold adopt
  split
  · assumption
  · exact List.prefix_refl ys

theorem prefix_adopt_of_comparable (hz : zs <+: xs) (h : Comparable zs ys) :
    zs <+: adopt xs ys := by
  by_cases hy : ys <+: xs
  · rw [adopt_extends hy]
    exact hz
  · rw [adopt_other hy]
    cases h with
    | inl h =>
      exact h
    | inr h =>
      exact absurd (h.trans hz) hy

end Lib
end TinyKv
