import Mathlib.Data.Fintype.Card

/-!
# Lib.Quorum

Majorities of a finite set of nodes. Two majorities share a node.
-/

namespace TinyKv
namespace Lib

variable {α : Type} [Fintype α]

/-- More than half of all nodes, in the form the integer test `count > n / 2` takes. -/
def Majority (Q : Finset α) : Prop := Fintype.card α / 2 < Q.card

theorem Majority.meet [DecidableEq α] {Q Q' : Finset α} (h : Majority Q) (h' : Majority Q') :
    ∃ a, a ∈ Q ∧ a ∈ Q' := by
  have hcard : (Finset.univ : Finset α).card < Q.card + Q'.card := by
    rw [Finset.card_univ]
    unfold Majority at h h'
    omega
  obtain ⟨a, ha⟩ := Finset.inter_nonempty_of_card_lt_card_add_card
    (Finset.subset_univ Q) (Finset.subset_univ Q') hcard
  exact ⟨a, (Finset.mem_inter.mp ha).1, (Finset.mem_inter.mp ha).2⟩

end Lib
end TinyKv
