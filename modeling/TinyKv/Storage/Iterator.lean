import TinyKv.Storage.Refinement

/-!
# Storage.Iterator

The other operators of `LogVecIterator`, and the laws that tie them together.

The prefix forms look at the direction. The postfix forms look at it too and then call a prefix
form, which looks at it once more, so in reverse they step the wrong way; `operator+` and
`operator-` do not look at it at all. `iteratorLaws_iff`: the laws hold of the forward iterators
only. `reverse_operators` is what the operators do in reverse.
-/

namespace TinyKv

open Lib

namespace LogVecIterator

/-- `operator--`. -/
def decr (it : LogVecIterator) : LogVecIterator :=
  if it.isReverse then { it with idx := it.idx + 1 } else { it with idx := it.idx - 1 }

/-- `operator++(int)`: the old iterator, and where the iterator is then. -/
def postIncr (it : LogVecIterator) : LogVecIterator × LogVecIterator :=
  (it, if it.isReverse then it.decr else it.incr)

/-- `operator--(int)`. -/
def postDecr (it : LogVecIterator) : LogVecIterator × LogVecIterator :=
  (it, if it.isReverse then it.incr else it.decr)

/-- `operator+(int)`, and what `operator+=` makes of the iterator. -/
def add (it : LogVecIterator) (n : Int) : LogVecIterator := { it with idx := it.idx + n }

/-- `operator-(int)`, and what `operator-=` makes of the iterator. -/
def sub (it : LogVecIterator) (n : Int) : LogVecIterator := { it with idx := it.idx - n }

/-- `operator-` on two iterators of one log. -/
def diff (it other : LogVecIterator) : Int := it.idx - other.idx

structure IteratorLaws (it : LogVecIterator) (n : Nat) : Prop where
  postIncr : it.postIncr = (it, it.incr)
  postDecr : it.postDecr = (it, it.decr)
  decr_incr : it.incr.decr = it
  add : it.add n = incr^[n] it
  sub : it.sub n = decr^[n] it
  diff : (it.add n).diff it = n

variable {it : LogVecIterator}

theorem iterate_incr (it : LogVecIterator) (n : Nat) :
    incr^[n] it = if it.isReverse then it.sub n else it.add n := by
  induction n with
  | zero => simp [add, sub]
  | succ n ih =>
    rw [Function.iterate_succ_apply', ih]
    cases hdir : it.isReverse with
    | false =>
      simp only [incr, add, hdir, Bool.false_eq_true, if_false, LogVecIterator.mk.injEq, and_true]
      omega
    | true =>
      simp only [incr, sub, hdir, if_true, LogVecIterator.mk.injEq, and_true]
      omega

theorem iterate_decr (it : LogVecIterator) (n : Nat) :
    decr^[n] it = if it.isReverse then it.add n else it.sub n := by
  induction n with
  | zero => simp [add, sub]
  | succ n ih =>
    rw [Function.iterate_succ_apply', ih]
    cases hdir : it.isReverse with
    | false =>
      simp only [decr, sub, hdir, Bool.false_eq_true, if_false, LogVecIterator.mk.injEq, and_true]
      omega
    | true =>
      simp only [decr, add, hdir, if_true, LogVecIterator.mk.injEq, and_true]
      omega

theorem decr_incr (it : LogVecIterator) : it.incr.decr = it := by
  obtain ⟨idx, isReverse⟩ := it
  cases isReverse with
  | false => simp [incr, decr]
  | true => simp [incr, decr]

theorem add_diff (it : LogVecIterator) (n : Int) : (it.add n).diff it = n := by
  simp only [add, diff]
  omega

theorem incr_ne_decr (it : LogVecIterator) : it.incr ≠ it.decr := by
  intro heq
  have hidx : it.incr.idx = it.decr.idx := congrArg idx heq
  cases hdir : it.isReverse with
  | false =>
    simp only [incr, decr, hdir, Bool.false_eq_true, if_false] at hidx
    omega
  | true =>
    simp only [incr, decr, hdir, if_true] at hidx
    omega

/-- In reverse, the postfix forms and the jumps go the other way. -/
theorem reverse_operators (h : it.isReverse = true) (n : Nat) :
    it.postIncr = (it, it.decr) ∧ it.postDecr = (it, it.incr) ∧
    it.add n = decr^[n] it ∧ it.sub n = incr^[n] it := by
  rw [postIncr, postDecr, iterate_decr, iterate_incr, h]
  exact ⟨rfl, rfl, rfl, rfl⟩

/-- **The iterator laws** hold of an iterator and a distance iff the iterator is a forward one. -/
theorem iteratorLaws_iff (it : LogVecIterator) (n : Nat) :
    IteratorLaws it n ↔ it.isReverse = false := by
  constructor
  · intro h
    rw [← Bool.not_eq_true]
    intro hdir
    have hback : it.postIncr = (it, it.decr) := (reverse_operators hdir n).1
    exact incr_ne_decr it (Prod.mk.inj (h.postIncr.symm.trans hback)).2
  · intro hdir
    constructor
    · rw [LogVecIterator.postIncr, hdir]
      rfl
    · rw [LogVecIterator.postDecr, hdir]
      rfl
    · exact LogVecIterator.decr_incr it
    · rw [iterate_incr, hdir]
      rfl
    · rw [iterate_decr, hdir]
      rfl
    · exact add_diff it n

end LogVecIterator

/-- `rbegin()++` on a log of two entries: past the end of the log, and not where `++rbegin()` is. -/
theorem rbegin_postIncr_leaves :
    let _ := byteFiles
    let _ := wireCodec
    ∃ lv, runs LogVec.runOp [.pushBack {}, .pushBack { seq := 1 }] (LogVec.create {}) = some lv ∧
      (lv.rbegin.postIncr.2.fetch lv).isNone = true ∧ (lv.rbegin.incr.fetch lv).isSome = true ∧
      ¬lv.rbegin.IteratorLaws 1 := by
  intro _ _
  have hrun : ((runs LogVec.runOp [.pushBack {}, .pushBack { seq := 1 }]
      (LogVec.create {})).any fun lv => (lv.rbegin.postIncr.2.fetch lv).isNone &&
        (lv.rbegin.incr.fetch lv).isSome) = true := by decide +kernel
  obtain ⟨lv, hlv, hboth⟩ := (Option.any_eq_true _ _).mp hrun
  rw [Bool.and_eq_true] at hboth
  refine ⟨lv, hlv, hboth.1, hboth.2, ?_⟩
  intro hlaws
  have hback : lv.rbegin.postIncr = (lv.rbegin, lv.rbegin.decr) := rfl
  exact LogVecIterator.incr_ne_decr _ (Prod.mk.inj (hlaws.postIncr.symm.trans hback)).2

end TinyKv
