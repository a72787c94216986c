import Mathlib.Data.List.Perm.Basic
import Mathlib.Logic.Function.Basic

/-!
# Lib.Store

A key value store and the commands on it, over any keys and values.

What a list of commands leaves under a key is decided by its commands on that key, in their order
(`applyAll_on`). So two lists with the same commands on every key leave the same store
(`applyAll_eq`), and commands on different keys may come in any order (`filter_eq_of_perm`).
-/

namespace TinyKv
namespace Lib

inductive Command (K V : Type) where
  | put (k : K) (v : V)
  | get (k : K)
  | delete (k : K)

def Command.key {K V : Type} : Command K V → K
  | .put k _ => k
  | .get k => k
  | .delete k => k

/-- What a command makes of the value under its key. -/
def Command.effect {K V : Type} : Command K V → Option V → Option V
  | .put _ v, _ => some v
  | .get _, x => x
  | .delete _, _ => none

abbrev Store (K V : Type) : Type := K → Option V

namespace Store

variable {K V : Type} [DecidableEq K]

def apply (st : Store K V) (c : Command K V) : Store K V :=
  Function.update st c.key (c.effect (st c.key))

def applyAll (st : Store K V) (cs : List (Command K V)) : Store K V := cs.foldl apply st

variable {st st' : Store K V} {c : Command K V} {cs ds : List (Command K V)} {k : K}

theorem applyAll_append : st.applyAll (cs ++ ds) = (st.applyAll cs).applyAll ds :=
  List.foldl_append

theorem apply_ne (h : k ≠ c.key) : st.apply c k = st k := Function.update_of_ne h _ _

theorem apply_congr (c : Command K V) (h : st k = st' k) : st.apply c k = st'.apply c k := by
  by_cases hk : k = c.key
  · subst hk
    rw [apply, apply, Function.update_self, Function.update_self, h]
  · rw [apply_ne hk, apply_ne hk, h]

theorem applyAll_congr (cs : List (Command K V)) : ∀ {st st' : Store K V}, st k = st' k →
    st.applyAll cs k = st'.applyAll cs k := by
  induction cs with
  | nil => intro st st' h; exact h
  | cons c cs ih => intro st st' h; exact ih (apply_congr c h)

theorem applyAll_on (cs : List (Command K V)) : ∀ st : Store K V,
    st.applyAll cs k = st.applyAll (cs.filter (·.key = k)) k := by
  induction cs with
  | nil => intro st; rfl
  | cons c cs ih =>
    intro st
    by_cases hk : c.key = k
    · rw [List.filter_cons_of_pos (by simpa using hk)]
      exact ih (st.apply c)
    · rw [List.filter_cons_of_neg (by simpa using hk)]
      have hsame : st.apply c k = st k := apply_ne (Ne.symm hk)
      exact (ih (st.apply c)).trans (applyAll_congr (cs.filter (·.key = k)) hsame)

/-- The same commands on every key leave the same store. -/
theorem applyAll_eq (h : ∀ k, cs.filter (·.key = k) = ds.filter (·.key = k)) (st : Store K V) :
    st.applyAll cs = st.applyAll ds := by
  funext k
  rw [applyAll_on cs, applyAll_on ds, h k]

end Store

/-- Where all keys differ, a permutation has the same elements on every key, in the same order. -/
theorem filter_eq_of_perm {α K : Type} [DecidableEq K] {key : α → K} {xs ys : List α}
    (hperm : xs.Perm ys) (hd : xs.Pairwise fun a b => key a ≠ key b) (k : K) :
    xs.filter (key · = k) = ys.filter (key · = k) := by
  have hf : (xs.filter (key · = k)).Perm (ys.filter (key · = k)) := hperm.filter _
  have hd' := hd.filter (key · = k)
  have hkeys : ∀ a ∈ xs.filter (key · = k), key a = k := fun a ha => by
    simpa using (List.mem_filter.mp ha).2
  match hxs : xs.filter (key · = k) with
  | [] =>
    rw [hxs] at hf
    exact hf.nil_eq
  | [a] =>
    rw [hxs] at hf
    rw [List.singleton_perm.mp hf]
  | a :: b :: rest =>
    rw [hxs] at hd' hkeys
    have hne := (List.pairwise_cons.mp hd').1 b List.mem_cons_self
    rw [hkeys a (by simp), hkeys b (by simp)] at hne
    exact absurd rfl hne

end Lib
end TinyKv
