import Mathlib.Data.List.Perm.Basic
import Mathlib.Order.Basic

/-!
# Lib.Register

Histories of one register and their linearizations.

* `Linearizable v ops`: the required operations, with some of the others, can be put in an order
  that respects real time and in which every read returns the value last written, `v` at first.
* `search` looks for such an order: it takes an operation that no required one precedes, drops what
  precedes it, and goes on. `search_iff` says that it finds one whenever there is one.
* `linearizable_writes`, `linearizable_read`: writes alone can always be ordered; a required read
  needs a write of its value.
-/

namespace TinyKv
namespace Lib

inductive OpKind where
  | read
  | write
  deriving DecidableEq

/-- `value` is what was written or returned; `finish` is `none` as long as the operation runs. -/
structure RegisterOp (V T : Type) where
  kind : OpKind
  value : V
  start : T
  finish : Option T
  required : Bool

variable {V T : Type}

namespace RegisterOp

/-- `a` has finished before `b` starts. -/
def Precedes [LT T] (a b : RegisterOp V T) : Prop :=
  match a.finish with
  | some f => f < b.start
  | none => False

instance [LT T] [DecidableLT T] (a b : RegisterOp V T) : Decidable (a.Precedes b) :=
  match h : a.finish with
  | some f => decidable_of_iff (f < b.start) (by rw [Precedes, h])
  | none => isFalse (by rw [Precedes, h]; exact id)

theorem precedes_iff [LT T] {a b : RegisterOp V T} :
    a.Precedes b ↔ ∃ f, a.finish = some f ∧ f < b.start := by
  unfold Precedes
  split
  · rename_i f hf
    simp [hf]
  · rename_i hf
    simp [hf]

/-- A read returns the value of the register. -/
def Fits (v : V) (op : RegisterOp V T) : Prop := op.kind = .read → op.value = v

instance [DecidableEq V] (v : V) (op : RegisterOp V T) : Decidable (op.Fits v) :=
  inferInstanceAs (Decidable (_ → _))

/-- The value of the register after the operation. -/
def next (v : V) (op : RegisterOp V T) : V :=
  match op.kind with
  | .read => v
  | .write => op.value

end RegisterOp

open RegisterOp

def Legal (v : V) : List (RegisterOp V T) → Prop
  | [] => True
  | op :: ops => op.Fits v ∧ Legal (op.next v) ops

def Linearizable [LT T] (v : V) (ops : List (RegisterOp V T)) : Prop :=
  ∃ order dropped, (order ++ dropped).Perm ops ∧ (∀ op ∈ dropped, op.required = false) ∧
    order.Pairwise (fun a b => ¬b.Precedes a) ∧ Legal v order

/-- Each element with the others. -/
def picks {α : Type} : List α → List (α × List α)
  | [] => []
  | a :: as => (a, as) :: (picks as).map fun p => (p.1, a :: p.2)

theorem perm_of_mem_picks {α : Type} {as : List α} {p : α × List α} (h : p ∈ picks as) :
    (p.1 :: p.2).Perm as := by
  induction as generalizing p with
  | nil => cases h
  | cons a as ih =>
    rcases List.mem_cons.mp h with rfl | h
    · exact .refl _
    · obtain ⟨q, hq, rfl⟩ := List.mem_map.mp h
      exact (List.Perm.swap a q.1 q.2).trans ((ih hq).cons a)

theorem exists_mem_picks {α : Type} {as : List α} {a : α} (h : a ∈ as) :
    ∃ rest, (a, rest) ∈ picks as := by
  induction as with
  | nil => cases h
  | cons b as ih =>
    rcases List.mem_cons.mp h with rfl | h
    · exact ⟨as, List.mem_cons_self⟩
    · obtain ⟨rest, hrest⟩ := ih h
      exact ⟨b :: rest, List.mem_cons_of_mem _ (List.mem_map.mpr ⟨_, hrest, rfl⟩)⟩

section Search

variable [LT T] [DecidableLT T]

/-- What is left once `op` is the next of the order: what precedes it can only be dropped. -/
def leaves (op : RegisterOp V T) (rest : List (RegisterOp V T)) : List (RegisterOp V T) :=
  rest.filter fun b => ¬b.Precedes op

def search [DecidableEq V] : Nat → V → List (RegisterOp V T) → Bool
  | 0, _, ops => ops.all fun op => !op.required
  | fuel + 1, v, ops => (ops.all fun op => !op.required) || (picks ops).any fun p =>
      (p.2.all fun b => !(b.required && decide (b.Precedes p.1))) && decide (p.1.Fits v) &&
        search fuel (p.1.next v) (leaves p.1 p.2)

omit [DecidableLT T] in
theorem linearizable_of_optional {v : V} {ops : List (RegisterOp V T)}
    (h : ∀ op ∈ ops, op.required = false) : Linearizable v ops :=
  ⟨[], ops, .refl _, h, .nil, trivial⟩

theorem Linearizable.cons {v : V} {ops rest : List (RegisterOp V T)} {op : RegisterOp V T}
    (hperm : (op :: rest).Perm ops)
    (hmin : ∀ b ∈ rest, b.Precedes op → b.required = false) (hfits : op.Fits v)
    (h : Linearizable (op.next v) (leaves op rest)) : Linearizable v ops := by
  obtain ⟨order, dropped, hp, hopt, hord, hlegal⟩ := h
  refine ⟨op :: order, dropped ++ rest.filter (fun b => b.Precedes op), ?_, ?_, ?_, hfits, hlegal⟩
  · -- the order, what the rest of it drops, and what precedes `op`
    have hsplit : (leaves op rest ++ rest.filter fun b => b.Precedes op).Perm rest := by
      have happ := List.filter_append_perm (fun b => decide (b.Precedes op)) rest
      simp only [leaves, decide_not]
      exact List.perm_append_comm.trans happ
    rw [List.cons_append, ← List.append_assoc]
    exact (((hp.append_right _).trans hsplit).cons op).trans hperm
  · intro b hb
    rcases List.mem_append.mp hb with hb | hb
    · exact hopt b hb
    · obtain ⟨hmem, hpre⟩ := List.mem_filter.mp hb
      exact hmin b hmem (of_decide_eq_true hpre)
  · refine List.pairwise_cons.mpr ⟨?_, hord⟩
    intro b hb
    have hmem : b ∈ leaves op rest := hp.subset (List.mem_append_left _ hb)
    exact of_decide_eq_true (List.mem_filter.mp hmem).2

/-- A linearization starts with an operation that no required one precedes. -/
theorem Linearizable.split {v : V} {ops : List (RegisterOp V T)} (h : Linearizable v ops) :
    (∀ op ∈ ops, op.required = false) ∨ ∃ p ∈ picks ops,
      (∀ b ∈ p.2, b.Precedes p.1 → b.required = false) ∧ p.1.Fits v ∧
        Linearizable (p.1.next v) (leaves p.1 p.2) := by
  obtain ⟨order, dropped, hp, hopt, hord, hlegal⟩ := h
  cases order with
  | nil =>
    refine .inl fun op hop => ?_
    exact hopt op (hp.mem_iff.mpr hop)
  | cons op order =>
    obtain ⟨hfirst, hord⟩ := List.pairwise_cons.mp hord
    have hmem : op ∈ ops := hp.subset List.mem_cons_self
    obtain ⟨rest, hpick⟩ := exists_mem_picks hmem
    have hrest : (order ++ dropped).Perm rest :=
      (hp.trans (perm_of_mem_picks hpick).symm).cons_inv
    refine .inr ⟨(op, rest), hpick, ?_, hlegal.1, order,
      dropped.filter (fun b => ¬b.Precedes op), ?_, ?_, hord, hlegal.2⟩
    · intro b hb hpre
      rcases List.mem_append.mp (hrest.mem_iff.mpr hb) with hb | hb
      · exact absurd hpre (hfirst b hb)
      · exact hopt b hb
    · have hkeep : order.filter (fun b => ¬b.Precedes op) = order := by
        rw [List.filter_eq_self]
        intro b hb
        exact decide_eq_true (hfirst b hb)
      rw [← hkeep, ← List.filter_append]
      exact hrest.filter _
    · intro b hb
      exact hopt b (List.mem_of_mem_filter hb)

/-- **The search is complete**: it decides linearizability. -/
theorem search_iff [DecidableEq V] {fuel : Nat} {v : V} {ops : List (RegisterOp V T)}
    (h : ops.length ≤ fuel) : search fuel v ops = true ↔ Linearizable v ops := by
  induction fuel generalizing v ops with
  | zero =>
    obtain rfl : ops = [] := List.eq_nil_of_length_eq_zero (Nat.le_zero.mp h)
    exact iff_of_true rfl (linearizable_of_optional (by simp))
  | succ fuel ih =>
    simp only [search, Bool.or_eq_true, List.all_eq_true, Bool.not_eq_true', List.any_eq_true,
      Bool.and_eq_true, decide_eq_true_eq, Bool.and_eq_false_iff, decide_eq_false_iff_not]
    have hshort : ∀ p ∈ picks ops, (leaves p.1 p.2).length ≤ fuel := by
      intro p hp
      have hlen := (perm_of_mem_picks hp).length_eq
      have hle : (leaves p.1 p.2).length ≤ p.2.length := List.length_filter_le _ _
      rw [List.length_cons] at hlen
      omega
    constructor
    · rintro (hopt | ⟨p, hp, ⟨hmin, hfits⟩, hrest⟩)
      · exact linearizable_of_optional hopt
      · refine .cons (perm_of_mem_picks hp) ?_ hfits ((ih (hshort p hp)).mp hrest)
        intro b hb hpre
        exact (hmin b hb).resolve_right fun hno => hno hpre
    · intro hlin
      rcases hlin.split with hopt | ⟨p, hp, hmin, hfits, hrest⟩
      · exact .inl hopt
      · refine .inr ⟨p, hp, ⟨?_, hfits⟩, (ih (hshort p hp)).mpr hrest⟩
        intro b hb
        by_cases hpre : b.Precedes p.1
        · exact .inl (hmin b hb hpre)
        · exact .inr hpre

instance [DecidableEq V] (v : V) (ops : List (RegisterOp V T)) : Decidable (Linearizable v ops) :=
  decidable_of_iff _ (search_iff (Nat.le_refl ops.length))

end Search

theorem legal_writes {v : V} {ops : List (RegisterOp V T)} (h : ∀ op ∈ ops, op.kind = .write) :
    Legal v ops := by
  induction ops generalizing v with
  | nil => trivial
  | cons op ops ih =>
    obtain ⟨hop, hops⟩ := List.forall_mem_cons.mp h
    refine ⟨fun hr => ?_, ih hops⟩
    rw [hop] at hr
    cases hr

theorem linearizable_writes [LT T] {v : V} {ops : List (RegisterOp V T)}
    (hord : ops.Pairwise fun a b => ¬b.Precedes a) (hw : ∀ op ∈ ops, op.kind = .write) :
    Linearizable v ops :=
  ⟨ops, [], .of_eq (List.append_nil ops), (fun op h => by cases h), hord, legal_writes hw⟩

theorem Legal.read {v : V} {order : List (RegisterOp V T)} (h : Legal v order) {op : RegisterOp V T}
    (hop : op ∈ order) (hr : op.kind = .read) :
    op.value = v ∨ ∃ w ∈ order, w.kind = .write ∧ w.value = op.value := by
  induction order generalizing v with
  | nil => cases hop
  | cons a order ih =>
    rcases List.mem_cons.mp hop with rfl | hop
    · exact .inl (h.1 hr)
    · rcases ih h.2 hop with hval | ⟨w, hw, hkind, hval⟩
      · cases ha : a.kind with
        | read =>
          refine .inl (hval.trans ?_)
          rw [next, ha]
        | write =>
          refine .inr ⟨a, List.mem_cons_self, ha, ?_⟩
          rw [hval, next, ha]
      · exact .inr ⟨w, List.mem_cons_of_mem _ hw, hkind, hval⟩

theorem linearizable_read [LT T] {v : V} {ops : List (RegisterOp V T)} (h : Linearizable v ops)
    {op : RegisterOp V T} (hop : op ∈ ops) (hr : op.kind = .read) (hreq : op.required = true) :
    op.value = v ∨ ∃ w ∈ ops, w.kind = .write ∧ w.value = op.value := by
  obtain ⟨order, dropped, hp, hopt, _, hlegal⟩ := h
  have hmem : op ∈ order := by
    rcases List.mem_append.mp (hp.mem_iff.mpr hop) with hmem | hdrop
    · exact hmem
    · rw [hopt op hdrop] at hreq
      cases hreq
  rcases hlegal.read hmem hr with hval | ⟨w, hw, hkind, hval⟩
  · exact .inl hval
  · exact .inr ⟨w, hp.subset (List.mem_append_left _ hw), hkind, hval⟩

end Lib
end TinyKv
