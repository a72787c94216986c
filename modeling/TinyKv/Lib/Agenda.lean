import Mathlib.Data.List.Perm.Basic
import Mathlib.Order.Basic

/-!
# Lib.Agenda

A priority queue next to the list of what has been taken from it. The order in `queue` has no
meaning; `taken` is in the order of taking.

* `Kept`: what was added has been taken or waits, each element as often as it was added.
* `InOrder`: the elements were taken in the order of their keys. Taking the least one keeps it,
  and so does adding an element whose key none of those already taken passes.
-/

namespace TinyKv
namespace Lib

variable {α β : Type} {added taken queue : List α} {x : α} {k : Nat}

def Kept (added taken queue : List α) : Prop := added.Perm (taken ++ queue)

theorem Kept.add (h : Kept added taken queue) (x : α) :
    Kept (added ++ [x]) taken (queue ++ [x]) := by
  unfold Kept at *
  rw [← List.append_assoc]
  exact h.append_right [x]

theorem Kept.take (h : Kept added taken queue) (hx : queue[k]? = some x) :
    Kept added (taken ++ [x]) (queue.eraseIdx k) := by
  obtain ⟨hk, rfl⟩ := List.getElem?_eq_some_iff.mp hx
  unfold Kept at *
  rw [List.append_assoc]
  exact h.trans ((List.getElem_cons_eraseIdx_perm hk).symm.append_left taken)

section Order

variable [Preorder β] {key : α → β}

structure InOrder (key : α → β) (taken queue : List α) : Prop where
  sorted : taken.Pairwise fun x y => key x ≤ key y
  waits : ∀ x ∈ taken, ∀ y ∈ queue, key x ≤ key y

theorem InOrder.nil (queue : List α) : InOrder key [] queue where
  sorted := List.Pairwise.nil
  waits := fun _ hx => by cases hx

theorem InOrder.add (h : InOrder key taken queue) (hx : ∀ y ∈ taken, key y ≤ key x) :
    InOrder key taken (queue ++ [x]) where
  sorted := h.sorted
  waits := by
    intro y hy z hz
    rcases List.mem_append.mp hz with hz | hz
    · exact h.waits y hy z hz
    · rw [List.mem_singleton.mp hz]
      exact hx y hy

theorem InOrder.take (h : InOrder key taken queue) (hx : queue[k]? = some x)
    (hmin : ∀ y ∈ queue, key x ≤ key y) : InOrder key (taken ++ [x]) (queue.eraseIdx k) where
  sorted := by
    rw [List.pairwise_append]
    refine ⟨h.sorted, List.pairwise_singleton _ _, ?_⟩
    intro y hy z hz
    rw [List.mem_singleton.mp hz]
    exact h.waits y hy x (List.mem_of_getElem? hx)
  waits := by
    intro y hy z hz
    have hz := List.mem_of_mem_eraseIdx hz
    rcases List.mem_append.mp hy with hy | hy
    · exact h.waits y hy z hz
    · rw [List.mem_singleton.mp hy]
      exact hmin z hz

end Order

end Lib
end TinyKv
