/-!
# Lib.Lock

Code of one thread that locks a mutex which is not recursive.

* `Code σ`: a piece of code on the state `σ`, told whether the thread holds the mutex.
* `locked c`: `c` under the mutex. A thread that holds it already waits for itself
  (`Outcome.selfDeadlock`, with the state in which it stopped).
* `update`, `andThen`, `whenever`: an assignment, a sequence, a conditional.
-/

namespace TinyKv
namespace Lib

variable {σ : Type}

inductive Outcome (σ : Type) where
  | done (s : σ)
  | selfDeadlock (s : σ)
  deriving DecidableEq

def Outcome.state : Outcome σ → σ
  | .done s => s
  | .selfDeadlock s => s

abbrev Code (σ : Type) := Bool → σ → Outcome σ

namespace Code

def update (f : σ → σ) : Code σ := fun _ s => .done (f s)

def locked (c : Code σ) : Code σ := fun held s => if held then .selfDeadlock s else c true s

def andThen (c d : Code σ) : Code σ := fun held s =>
  match c held s with
  | .done s' => d held s'
  | .selfDeadlock s' => .selfDeadlock s'

def whenever (p : σ → Prop) [DecidablePred p] (c : Code σ) : Code σ := fun held s =>
  if p s then c held s else .done s

variable {c d : Code σ} {held : Bool} {s s' : σ}

@[simp] theorem update_apply (f : σ → σ) : update f held s = .done (f s) := rfl

@[simp] theorem locked_free : locked c false s = c true s := rfl

@[simp] theorem locked_held : locked c true s = .selfDeadlock s := rfl

theorem andThen_done (h : c held s = .done s') : andThen c d held s = d held s' := by
  simp only [andThen, h]

theorem andThen_selfDeadlock (h : c held s = .selfDeadlock s') :
    andThen c d held s = .selfDeadlock s' := by
  simp only [andThen, h]

@[simp] theorem update_andThen (f : σ → σ) : andThen (update f) d held s = d held (f s) := rfl

theorem whenever_pos {p : σ → Prop} [DecidablePred p] (h : p s) :
    whenever p c held s = c held s := if_pos h

theorem whenever_neg {p : σ → Prop} [DecidablePred p] (h : ¬p s) :
    whenever p c held s = .done s := if_neg h

end Code

end Lib
end TinyKv
