import Mathlib.Data.List.Pairwise
import Mathlib.Tactic.Common

/-!
# Lib.Spaced

Times at which something has happened, the latest first, any two at least `gap` apart.

* `Spaced.cons`: one more, at least `gap` after each of the others.
* `Spaced.length_le`: how many there can be up to a given time.
-/

namespace TinyKv
namespace Lib

variable {gap gap' now : Nat} {times : List Nat}

def Spaced (gap : Nat) (times : List Nat) : Prop :=
  times.Pairwise fun late early => early + gap ≤ late

instance (gap : Nat) (times : List Nat) : Decidable (Spaced gap times) :=
  inferInstanceAs (Decidable (List.Pairwise _ _))

theorem Spaced.nil : Spaced gap [] := List.Pairwise.nil

theorem Spaced.cons (h : Spaced gap times) (hnow : ∀ t ∈ times, t + gap ≤ now) :
    Spaced gap (now :: times) := List.pairwise_cons.mpr ⟨hnow, h⟩

theorem Spaced.mono (h : Spaced gap times) (hle : gap' ≤ gap) : Spaced gap' times :=
  List.Pairwise.imp (fun hab => by omega) h

theorem Spaced.length_le (hpos : 0 < gap) : ∀ {times : List Nat} {now : Nat}, Spaced gap times →
    (∀ t ∈ times, t ≤ now) → times.length ≤ now / gap + 1 := by
  intro times
  induction times with
  | nil => intro now _ _; exact Nat.zero_le _
  | cons t times ih =>
    intro now h hnow
    obtain ⟨hbefore, hrest⟩ := List.pairwise_cons.mp h
    have ht : t ≤ now := hnow t (List.mem_cons_self ..)
    cases times with
    | nil => simp
    | cons u times =>
      have hu : u + gap ≤ t := hbefore u (List.mem_cons_self ..)
      -- the others lie in the first `now - gap`
      have hlen : (u :: times).length ≤ (now - gap) / gap + 1 := by
        apply ih hrest
        intro v hv
        have hv := hbefore v hv
        omega
      rw [List.length_cons, Nat.div_eq_sub_div hpos (by omega)]
      omega

end Lib
end TinyKv
