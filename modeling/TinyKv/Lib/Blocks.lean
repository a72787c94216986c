import Mathlib.Data.List.MinMax
import Mathlib.Order.WithBot
import TinyKv.Lib.Register

/-!
# Lib.Blocks

Linearizability of a register in terms of real time, with no order and no search.

A block is a write with reads of its value. `Explained` distributes the operations over blocks, and
over reads of the first value, such that no read precedes the write of its block, nothing precedes
a read of the first value, and of two blocks at most one has an operation that precedes one of the
other. `linearizable_iff_explained`: this is all that an order needs, since blocks that are right
in pairs can be put one after the other (`exists_order`).
-/

namespace TinyKv
namespace Lib

open RegisterOp

/-! ## Orders from thresholds -/

section Order

variable {α β : Type} [LinearOrder β] {f g : α → β}

/-- `a` goes before `b` if `f a < g b`. Where this never holds both ways, some element has none
that goes before it: one with the least `g`, or one with the least `f`. -/
theorem exists_first {l : List α} (hne : l ≠ [])
    (h : l.Pairwise fun a b => ¬(f a < g b ∧ f b < g a)) :
    ∃ p ∈ picks l, ∀ b ∈ p.2, ¬f b < g p.1 := by
  have hmin : ∀ k : α → β, ∃ m ∈ l, ∀ a ∈ l, k m ≤ k a := by
    intro k
    obtain ⟨m, hm⟩ := Option.ne_none_iff_exists'.mp (mt (List.argmin_eq_none (f := k)).mp hne)
    exact ⟨m, List.argmin_mem hm, fun a ha => List.le_of_mem_argmin ha hm⟩
  obtain ⟨m, hm, hfm⟩ := hmin f
  obtain ⟨s, hs, hgs⟩ := hmin g
  by_cases hle : g s ≤ f m
  · obtain ⟨rest, hpick⟩ := exists_mem_picks hs
    refine ⟨(s, rest), hpick, fun b hb => not_lt.mpr ?_⟩
    have hbl : b ∈ l := (perm_of_mem_picks hpick).subset (List.mem_cons_of_mem _ hb)
    exact hle.trans (hfm b hbl)
  · obtain ⟨rest, hpick⟩ := exists_mem_picks hm
    have hperm := perm_of_mem_picks hpick
    have hpair := (hperm.pairwise_iff fun h hc => h hc.symm).mpr h
    refine ⟨(m, rest), hpick, fun b hb hlt => ?_⟩
    have hbl : b ∈ l := hperm.subset (List.mem_cons_of_mem _ hb)
    exact (List.pairwise_cons.mp hpair).1 b hb ⟨(not_le.mp hle).trans_le (hgs b hbl), hlt⟩

theorem exists_order {l : List α} (h : l.Pairwise fun a b => ¬(f a < g b ∧ f b < g a)) :
    ∃ l' : List α, l'.Perm l ∧ l'.Pairwise fun a b => ¬f b < g a := by
  induction hn : l.length generalizing l with
  | zero =>
    rw [List.eq_nil_of_length_eq_zero hn]
    exact ⟨[], .refl _, .nil⟩
  | succ n ih =>
    have hne : l ≠ [] := by
      rintro rfl
      cases hn
    obtain ⟨⟨a, rest⟩, hpick, hfirst⟩ := exists_first hne h
    have hperm := perm_of_mem_picks hpick
    have hpair := (hperm.pairwise_iff fun h hc => h hc.symm).mpr h
    have hlen : rest.length = n := by
      have hlen := hperm.length_eq
      rw [List.length_cons, hn] at hlen
      exact Nat.succ.inj hlen
    obtain ⟨l', hl', hord⟩ := ih (List.pairwise_cons.mp hpair).2 hlen
    refine ⟨a :: l', (hl'.cons a).trans hperm, List.pairwise_cons.mpr ⟨fun b hb => ?_, hord⟩⟩
    exact hfirst b (hl'.subset hb)

end Order

structure Block (V T : Type) where
  write : RegisterOp V T
  reads : List (RegisterOp V T)

variable {V T : Type}

def Block.ops (b : Block V T) : List (RegisterOp V T) := b.write :: b.reads

section Explained

variable [LT T]

/-- Something in `as` precedes something in `bs`. -/
def Before (as bs : List (RegisterOp V T)) : Prop := ∃ a ∈ as, ∃ b ∈ bs, a.Precedes b

structure Block.WellFormed (b : Block V T) : Prop where
  write : b.write.kind = .write
  reads : ∀ r ∈ b.reads, r.kind = .read ∧ r.value = b.write.value
  after : ∀ r ∈ b.reads, ¬r.Precedes b.write

/-- The reads `initial` return the first value `v`, all others that of their block. -/
structure Explains (v : V) (initial : List (RegisterOp V T)) (blocks : List (Block V T)) :
    Prop where
  reads : ∀ r ∈ initial, r.kind = .read ∧ r.value = v
  wellFormed : ∀ b ∈ blocks, b.WellFormed
  first : ∀ b ∈ blocks, ¬Before b.ops initial
  apart : blocks.Pairwise fun b c => ¬(Before b.ops c.ops ∧ Before c.ops b.ops)

/-- The required operations, with some of the others, are explained. -/
def Explained (v : V) (ops : List (RegisterOp V T)) : Prop :=
  ∃ initial blocks dropped, (initial ++ blocks.flatMap Block.ops ++ dropped).Perm ops ∧
    (∀ op ∈ dropped, op.required = false) ∧ Explains v initial blocks

end Explained

/-! ## From an order to blocks -/

theorem Legal.blocks {order : List (RegisterOp V T)} : ∀ {v : V}, Legal v order →
    ∃ initial, ∃ blocks : List (Block V T), order = initial ++ blocks.flatMap Block.ops ∧
      (∀ r ∈ initial, r.kind = .read ∧ r.value = v) ∧
      ∀ b ∈ blocks, b.write.kind = .write ∧
        ∀ r ∈ b.reads, r.kind = .read ∧ r.value = b.write.value := by
  induction order with
  | nil =>
    intro v _
    exact ⟨[], [], rfl, List.forall_mem_nil _, List.forall_mem_nil _⟩
  | cons op order ih =>
    intro v h
    obtain ⟨initial, blocks, rfl, hinitial, hblocks⟩ := ih h.2
    cases hk : op.kind with
    | read =>
      have hsame : op.next v = v := by rw [next, hk]
      rw [hsame] at hinitial
      exact ⟨op :: initial, blocks, rfl, List.forall_mem_cons.mpr ⟨⟨hk, h.1 hk⟩, hinitial⟩, hblocks⟩
    | write =>
      have hnew : op.next v = op.value := by rw [next, hk]
      rw [hnew] at hinitial
      exact ⟨[], ⟨op, initial⟩ :: blocks, rfl, List.forall_mem_nil _,
        List.forall_mem_cons.mpr ⟨⟨hk, hinitial⟩, hblocks⟩⟩

theorem Linearizable.explained [LT T] {v : V} {ops : List (RegisterOp V T)}
    (h : Linearizable v ops) : Explained v ops := by
  obtain ⟨order, dropped, hperm, hopt, hord, hlegal⟩ := h
  obtain ⟨initial, blocks, rfl, hinitial, hblocks⟩ := hlegal.blocks
  rw [List.pairwise_append, List.pairwise_flatMap] at hord
  obtain ⟨_, ⟨hinside, hacross⟩, hfirst⟩ := hord
  refine ⟨initial, blocks, dropped, hperm, hopt, hinitial, ?_, ?_, ?_⟩
  · intro b hb
    exact ⟨(hblocks b hb).1, (hblocks b hb).2, (List.pairwise_cons.mp (hinside b hb)).1⟩
  · rintro b hb ⟨x, hx, r, hr, hpre⟩
    exact hfirst r hr x (List.mem_flatMap.mpr ⟨b, hb, hx⟩) hpre
  · refine hacross.imp ?_
    rintro b c hbc ⟨_, x, hx, y, hy, hpre⟩
    exact hbc y hy x hx hpre

/-! ## From blocks to an order -/

theorem legal_reads {v : V} {reads rest : List (RegisterOp V T)}
    (h : ∀ r ∈ reads, r.kind = .read ∧ r.value = v) (hrest : Legal v rest) :
    Legal v (reads ++ rest) := by
  induction reads with
  | nil => exact hrest
  | cons r reads ih =>
    obtain ⟨⟨hkind, hvalue⟩, hreads⟩ := List.forall_mem_cons.mp h
    have hsame : r.next v = v := by rw [next, hkind]
    refine ⟨fun _ => hvalue, ?_⟩
    rw [hsame]
    exact ih hreads

section Thresholds

variable [LinearOrder T]

/-- The time at which the operation has finished, `⊤` as long as it runs. -/
def RegisterOp.finishTime (op : RegisterOp V T) : WithTop T := op.finish.elim ⊤ (↑)

theorem precedes_iff_lt {a b : RegisterOp V T} :
    a.Precedes b ↔ a.finishTime < (b.start : WithTop T) := by
  rw [precedes_iff, finishTime]
  cases a.finish with
  | none => simp
  | some f => simp

/-- When the first of the operations has finished. -/
def firstFinish (ops : List (RegisterOp V T)) : WithTop T :=
  ops.foldr (fun op t => min op.finishTime t) ⊤

/-- When the last operation of the block starts. -/
def Block.lastStart (b : Block V T) : T := b.reads.foldr (fun op t => max op.start t) b.write.start

theorem firstFinish_lt {ops : List (RegisterOp V T)} {t : WithTop T} :
    firstFinish ops < t ↔ ∃ op ∈ ops, op.finishTime < t := by
  induction ops with
  | nil => simp [firstFinish]
  | cons op ops ih =>
    have hcons : firstFinish (op :: ops) = min op.finishTime (firstFinish ops) := rfl
    rw [hcons, min_lt_iff, ih, List.exists_mem_cons_iff]

theorem lt_lastStart {b : Block V T} {t : WithTop T} :
    t < (b.lastStart : WithTop T) ↔ ∃ op ∈ b.ops, t < (op.start : WithTop T) := by
  obtain ⟨write, reads⟩ := b
  induction reads with
  | nil => simp [Block.lastStart, Block.ops]
  | cons op reads ih =>
    have hcons : (⟨write, op :: reads⟩ : Block V T).lastStart =
        max op.start (⟨write, reads⟩ : Block V T).lastStart := rfl
    rw [hcons, WithTop.coe_max, lt_max_iff, ih]
    simp only [Block.ops, List.exists_mem_cons_iff]
    exact or_left_comm

theorem before_iff_lt {b c : Block V T} :
    Before b.ops c.ops ↔ firstFinish b.ops < (c.lastStart : WithTop T) := by
  simp only [Before, firstFinish_lt, lt_lastStart, precedes_iff_lt]
  constructor
  · rintro ⟨x, hx, y, hy, hlt⟩
    exact ⟨y, hy, x, hx, hlt⟩
  · rintro ⟨y, hy, x, hx, hlt⟩
    exact ⟨x, hx, y, hy, hlt⟩

/-- The operation starts before it finishes. -/
def RegisterOp.Spans (op : RegisterOp V T) : Prop := (op.start : WithTop T) ≤ op.finishTime

theorem exists_order_of_spans {ops : List (RegisterOp V T)} (h : ∀ op ∈ ops, op.Spans) :
    ∃ order : List (RegisterOp V T), order.Perm ops ∧ order.Pairwise fun a b => ¬b.Precedes a := by
  have hpair : ops.Pairwise fun a b => ¬(a.finishTime < (b.start : WithTop T) ∧
      b.finishTime < (a.start : WithTop T)) := by
    refine List.pairwise_of_forall_mem_list fun a ha b hb hboth => ?_
    exact absurd (((h a ha).trans_lt hboth.1).trans_le (h b hb)) (not_lt.mpr hboth.2.le)
  obtain ⟨order, hperm, hord⟩ := exists_order hpair
  exact ⟨order, hperm, hord.imp fun h => mt precedes_iff_lt.mp h⟩

theorem Block.WellFormed.exists_order {b : Block V T} (h : b.WellFormed)
    (hspans : ∀ op ∈ b.ops, op.Spans) :
    ∃ order : List (RegisterOp V T), order.Perm b.ops ∧
      order.Pairwise (fun x y => ¬y.Precedes x) ∧
      ∀ v rest, Legal b.write.value rest → Legal v (order ++ rest) := by
  obtain ⟨reads, hperm, hord⟩ :=
    exists_order_of_spans fun r hr => hspans r (List.mem_cons_of_mem _ hr)
  refine ⟨b.write :: reads, hperm.cons _, ?_, ?_⟩
  · exact List.pairwise_cons.mpr ⟨fun r hr => h.after r (hperm.subset hr), hord⟩
  · intro v rest hrest
    have hnew : b.write.next v = b.write.value := by rw [next, h.write]
    refine ⟨fun hr => ?_, ?_⟩
    · rw [h.write] at hr
      cases hr
    · rw [hnew]
      exact legal_reads (fun r hr => h.reads r (hperm.subset hr)) hrest

theorem exists_order_of_blocks {blocks : List (Block V T)}
    (hord : blocks.Pairwise fun b c => ¬Before c.ops b.ops) (hwf : ∀ b ∈ blocks, b.WellFormed)
    (hspans : ∀ b ∈ blocks, ∀ op ∈ b.ops, op.Spans) :
    ∃ order : List (RegisterOp V T), order.Perm (blocks.flatMap Block.ops) ∧
      order.Pairwise (fun x y => ¬y.Precedes x) ∧ ∀ v, Legal v order := by
  induction blocks with
  | nil => exact ⟨[], .refl _, .nil, fun _ => trivial⟩
  | cons b blocks ih =>
    obtain ⟨hfirst, hord⟩ := List.pairwise_cons.mp hord
    obtain ⟨hwf, hwfs⟩ := List.forall_mem_cons.mp hwf
    obtain ⟨hspan, hspans⟩ := List.forall_mem_cons.mp hspans
    obtain ⟨order, hperm, hpair, hlegal⟩ := ih hord hwfs hspans
    obtain ⟨own, hown, hpair', hlegal'⟩ := hwf.exists_order hspan
    refine ⟨own ++ order, hown.append hperm, ?_, fun v => hlegal' v _ (hlegal _)⟩
    refine List.pairwise_append.mpr ⟨hpair', hpair, fun x hx y hy hpre => ?_⟩
    obtain ⟨c, hc, hyc⟩ := List.mem_flatMap.mp (hperm.subset hy)
    exact hfirst c hc ⟨y, hyc, x, hown.subset hx, hpre⟩

theorem Explained.linearizable {v : V} {ops : List (RegisterOp V T)}
    (hspans : ∀ op ∈ ops, op.Spans) (h : Explained v ops) : Linearizable v ops := by
  obtain ⟨initial, blocks, dropped, hperm, hopt, hex⟩ := h
  have hmem : ∀ op ∈ initial ++ blocks.flatMap Block.ops, op.Spans := fun op hop =>
    hspans op (hperm.subset (List.mem_append_left _ hop))
  obtain ⟨reads, hreads, hfirst⟩ :=
    exists_order_of_spans fun r hr => hmem r (List.mem_append_left _ hr)
  -- blocks that are right in pairs have an order
  obtain ⟨blocks', hblocks, hord⟩ := exists_order
    (hex.apart.imp fun {b c} h => by rwa [before_iff_lt, before_iff_lt] at h)
  obtain ⟨order, horder, hpair, hlegal⟩ := exists_order_of_blocks
    (hord.imp fun {b c} h => mt before_iff_lt.mp h)
    (fun b hb => hex.wellFormed b (hblocks.subset hb))
    (fun b hb op hop => hmem op (List.mem_append_right _
      (List.mem_flatMap.mpr ⟨b, hblocks.subset hb, hop⟩)))
  have hall : order.Perm (blocks.flatMap Block.ops) := horder.trans (hblocks.flatMap_right _)
  refine ⟨reads ++ order, dropped, ((hreads.append hall).append_right _).trans hperm, hopt, ?_, ?_⟩
  · refine List.pairwise_append.mpr ⟨hfirst, hpair, fun r hr x hx hpre => ?_⟩
    obtain ⟨b, hb, hxb⟩ := List.mem_flatMap.mp (hall.subset hx)
    exact hex.first b hb ⟨x, hxb, r, hreads.subset hr, hpre⟩
  · exact legal_reads (fun r hr => hex.reads r (hreads.subset hr)) (hlegal v)

/-- **Linearizability without an order**: it is enough to find blocks that are right in pairs. -/
theorem linearizable_iff_explained {v : V} {ops : List (RegisterOp V T)}
    (hspans : ∀ op ∈ ops, op.Spans) : Linearizable v ops ↔ Explained v ops :=
  ⟨Linearizable.explained, Explained.linearizable hspans⟩

end Thresholds

end Lib
end TinyKv
