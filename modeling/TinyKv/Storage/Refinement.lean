import TinyKv.Storage.LogVecRep
import TinyKv.Storage.Proto

/-!
# Storage.Refinement

A `LogVec` refines a list of entries over whole runs of appends, truncations and clean restarts.

`LogOp.spec` is the abstract operation on the list. `run_rep` is the simulation: along a run the
files represent the list the abstract operations compute, and a run fails only when the bytes
written to the two files add up to the largest file size. `logVec_refines_list` reads the list off
the log at the end, by index and with both kinds of iterator.
-/

namespace TinyKv

open Lib EntryCodec FileSystem

inductive LogOp where
  | pushBack (e : Entry)
  | truncateFrom (idx : Nat)
  | reopen
  deriving DecidableEq

/-- What an operation does to the list of entries. -/
def LogOp.spec (xs : List Entry) : LogOp → List Entry
  | .pushBack e => xs ++ [e]
  | .truncateFrom idx => xs.take idx
  | .reopen => xs

theorem mem_spec {ops : List LogOp} : ∀ {xs : List Entry} {e : Entry},
    e ∈ ops.foldl LogOp.spec xs → e ∈ xs ∨ .pushBack e ∈ ops := by
  induction ops with
  | nil => intro xs e h; exact .inl h
  | cons op ops ih =>
    intro xs e h
    cases ih h with
    | inl h =>
      cases op with
      | pushBack e' =>
        cases List.mem_append.mp h with
        | inl h =>
          exact .inl h
        | inr h =>
          rw [List.mem_singleton] at h; subst h; exact .inr (by simp)
      | truncateFrom idx => exact .inl (List.mem_of_mem_take h)
      | reopen => exact .inl h
    | inr h =>
      exact .inr (List.mem_cons_of_mem _ h)

variable [FileSystem] [EntryCodec]

/-- What an operation does to the log; `reopen` closes it and opens its directory again. -/
def LogVec.runOp (lv : LogVec) : LogOp → Option LogVec
  | .pushBack e => lv.pushBack e
  | .truncateFrom idx => lv.truncateFrom idx
  | .reopen => some (create lv.close)

/-- The bytes an operation adds to the two files. -/
def LogOp.cost : LogOp → Nat
  | .pushBack e => (serializeToString e).length + 8
  | _ => 0

def opsCost (ops : List LogOp) : Nat := (ops.map LogOp.cost).sum

theorem runOp_rep {lv lv' : LogVec} {xs : List Entry} {op : LogOp} (h : Rep lv xs)
    (hr : lv.runOp op = some lv') : Rep lv' (op.spec xs) ∧
      size lv'.dataFile + size lv'.metaFile ≤
        size lv.dataFile + size lv.metaFile + op.cost := by
  cases op with
  | pushBack e =>
    have hrep := pushBack_rep h hr
    refine ⟨hrep, ?_⟩
    rw [hrep.dataSize, hrep.metaSize, h.dataSize, h.metaSize]
    have hlast : (xs ++ [e])[xs.length]? = some e := by simp
    have hnext : entryOffset (xs ++ [e]) (xs.length + 1) =
        entryOffset (xs ++ [e]) xs.length + (serializeToString e).length :=
      offset_succ serializeToString hlast
    have hold : entryOffset (xs ++ [e]) xs.length = entryOffset xs xs.length :=
      offset_append serializeToString (Nat.le_refl _)
    simp only [List.length_append, List.length_singleton, LogOp.cost]
    omega
  | truncateFrom idx =>
    obtain ⟨lv1, h1, hrep, hd, hm⟩ := truncateFrom_rep h idx
    obtain rfl : lv1 = lv' := Option.some.inj (h1.symm.trans hr)
    exact ⟨hrep, by simp only [LogOp.cost]; omega⟩
  | reopen =>
    obtain rfl : LogVec.create lv.close = lv' := Option.some.inj hr
    exact ⟨reopen_rep h, Nat.le_refl _⟩

theorem runOp_eq_none {lv : LogVec} {xs : List Entry} {op : LogOp} (h : Rep lv xs)
    (hr : lv.runOp op = none) :
    2 ^ 64 ≤ size lv.dataFile + size lv.metaFile + op.cost := by
  cases op with
  | pushBack e => have := pushBack_eq_none hr; simp only [LogOp.cost]; omega
  | truncateFrom idx =>
    obtain ⟨lv1, h1, _⟩ := truncateFrom_rep h idx
    rw [LogVec.runOp, h1] at hr; cases hr
  | reopen => cases hr

theorem run_rep : ∀ (ops : List LogOp) {lv : LogVec} {xs : List Entry}, Rep lv xs →
    (runs LogVec.runOp ops lv = none →
      2 ^ 64 ≤ size lv.dataFile + size lv.metaFile + opsCost ops) ∧
    ∀ lv', runs LogVec.runOp ops lv = some lv' → Rep lv' (ops.foldl LogOp.spec xs) := by
  intro ops
  induction ops with
  | nil =>
    intro lv xs h
    refine ⟨fun hr => by simp [runs] at hr, fun lv' hr => ?_⟩
    simp only [runs, Option.some.injEq] at hr
    subst hr; exact h
  | cons op ops ih =>
    intro lv xs h
    have hcost : opsCost (op :: ops) = op.cost + opsCost ops := by simp [opsCost]
    cases hop : lv.runOp op with
    | none =>
      have := runOp_eq_none h hop
      refine ⟨fun _ => by omega, fun lv' hr => ?_⟩
      simp [runs, hop] at hr
    | some lv1 =>
      obtain ⟨hrep, hsize⟩ := runOp_rep h hop
      obtain ⟨hnone, hsome⟩ := ih hrep
      simp only [runs, hop]
      exact ⟨fun hr => by have := hnone hr; omega, hsome⟩

/-- **The log refines a list.** A run of appends, truncations and restarts from the empty
directory fails only if the bytes it writes do not fit a file; otherwise size, indexing and both
iterations of the resulting log are those of the list the abstract operations compute. -/
theorem logVec_refines_list (ops : List LogOp)
    (ht : ∀ e, .pushBack e ∈ ops → parseFromArray (serializeToString e) = e) :
    (runs LogVec.runOp ops (LogVec.create {}) = none → 2 ^ 64 ≤ opsCost ops) ∧
    ∀ lv, runs LogVec.runOp ops (LogVec.create {}) = some lv →
      let xs := ops.foldl LogOp.spec []
      lv.entryCount = xs.length ∧ (∀ i, lv.get i = xs[i]?) ∧
      (∀ fuel, xs.length < fuel → lv.iterate lv.endIter fuel lv.beginIter = some xs) ∧
      (∀ fuel, xs.length < fuel → lv.iterate lv.rend fuel lv.rbegin = some xs.reverse) := by
  obtain ⟨hnone, hsome⟩ := run_rep ops create_rep
  refine ⟨fun hr => by simpa [LogVec.create, size_eq, bytes_openNew] using hnone hr, ?_⟩
  intro lv hr xs
  have hrep : Rep lv xs := hsome lv hr
  have htrips : ∀ e ∈ xs, e.RoundTrips := by
    intro e he
    cases mem_spec he with
    | inl h =>
      cases h
    | inr h =>
      exact ht e h
  refine ⟨hrep.count, get_rep hrep htrips, fun fuel hf => ?_, fun fuel hf => ?_⟩
  · have := iterate_forward hrep htrips xs.length 0 fuel (by omega) hf
    rw [List.drop_zero] at this
    exact this
  · have := iterate_reverse hrep htrips xs.length fuel (Nat.le_refl _) hf
    rw [List.take_length] at this
    rw [LogVec.rbegin, hrep.count]
    exact this

omit [FileSystem] [EntryCodec] in
theorem logVec_refines_list_reopened :
    let _ := byteFiles
    let _ := wireCodec
    let ops : List LogOp := [.pushBack {}, .pushBack { seq := 1, term := 2, value := [118] },
      .pushBack { term := 3 }, .truncateFrom 2, .reopen]
    ∃ lv, runs LogVec.runOp ops (LogVec.create {}) = some lv ∧
      lv.iterate lv.rend 3 lv.rbegin = some [{ seq := 1, term := 2, value := [118] }, {}] := by
  intro _ _ ops
  have hP : ∀ e, .pushBack e ∈ ops → e.InRange := by
    intro e he
    simp only [ops, List.mem_cons, LogOp.pushBack.injEq, reduceCtorEq, List.not_mem_nil,
      or_false] at he
    rcases he with rfl | rfl | rfl <;> decide
  have href := logVec_refines_list ops fun e he => wireCodec_lawful.roundTrip e (hP e he)
  have hrun : (runs LogVec.runOp ops (LogVec.create {})).isSome = true := by decide +kernel
  obtain ⟨lv, hlv⟩ := Option.isSome_iff_exists.mp hrun
  exact ⟨lv, hlv, (href.2 lv hlv).2.2.2 3 (by decide)⟩

end TinyKv
