import Mathlib.Data.Fintype.EquivFin
import TinyKv.Lib.Blocks
import TinyKv.Test.ConsistencyChecker

/-!
# Test.Soundness

When the checker is right to pass a history.

* `sound_iff`: for one history of calls, iff operations clash or the operations of each key are
  explained by blocks, a condition on what overlaps what in time.
* `reread`: the same history, its reads returning another value. `sound_for_all_reads_iff`: the
  answer is right for all such values iff operations clash or no read succeeds, since a read of an
  unseen value is explained by no block.
-/

namespace TinyKv

open Lib

namespace ConsistencyChecker

variable {c : ConsistencyChecker}

theorem mem_history {key : Bytes} {op : RegisterOp Bytes Nat} : op ∈ c.history key ↔
    ∃ r ∈ c.operations, (r.key = key ∧ (r.kind = .write ∨ r.success = true)) ∧ r.toOp = op := by
  simp only [history, List.mem_map, List.mem_filter, decide_eq_true_eq, and_assoc]

theorem linearizable_of_readsNothing {now : Nat} (h : CheckerInv now c) (hno : c.ReadsNothing)
    (key : Bytes) : Linearizable [] (c.history key) := by
  apply linearizable_writes
  · rw [history, List.pairwise_map]
    apply List.Pairwise.filter
    refine (List.pairwise_map.mp h.starts).imp_of_mem ?_
    intro r r' _ hr' hle hpre
    obtain ⟨f, hf, hlt⟩ := RegisterOp.precedes_iff.mp hpre
    by_cases hended : r'.ended = true
    · have hends := h.ends r' hr' hended
      rw [OperationRecord.toOp, if_pos hended] at hf
      cases hf
      exact absurd (Nat.le_trans hle hends) (Nat.not_le.mpr hlt)
    · rw [OperationRecord.toOp, if_neg hended] at hf
      cases hf
  · intro op hop
    obtain ⟨r, hr, ⟨_, hkind⟩, rfl⟩ := mem_history.mp hop
    rcases hkind with hwrite | hsuccess
    · exact hwrite
    · cases hk : r.kind with
      | write => exact hk
      | read =>
        rw [hno r hr hk] at hsuccess
        cases hsuccess

theorem history_spans {now : Nat} (h : CheckerInv now c) {key : Bytes} {op : RegisterOp Bytes Nat}
    (hop : op ∈ c.history key) : op.Spans := by
  obtain ⟨r, hr, _, rfl⟩ := mem_history.mp hop
  rw [RegisterOp.Spans, RegisterOp.finishTime, OperationRecord.toOp]
  by_cases hended : r.ended = true
  · rw [if_pos hended]
    exact WithTop.coe_le_coe.mpr (h.ends r hr hended)
  · rw [if_neg hended]
    exact le_top

theorem sound_iff_linearizable (h : c.Indexed) :
    c.Sound ↔ c.Overlaps ∨ ∀ key, Linearizable [] (c.history key) := by
  rw [Sound, checkLinearizability_iff h]
  exact imp_iff_not_or.trans (or_congr_left not_not)

end ConsistencyChecker

def OperationRecord.reread (value : Bytes) (record : OperationRecord) : OperationRecord :=
  { record with value := if record.kind = .read then value else record.value }

/-- The call, with another value returned if it records a read. -/
def CheckerCall.reread (value : Bytes) : CheckerCall → CheckerCall
  | .recordRead key _ success now fastPath => .recordRead key value success now fastPath
  | call => call

/-- The two histories differ at most in the values that the reads return. -/
def SameButReads (calls calls' : List CheckerCall) : Prop :=
  calls'.map (CheckerCall.reread []) = calls.map (CheckerCall.reread [])

theorem sameButReads_reread (value : Bytes) (calls : List CheckerCall) :
    SameButReads calls (calls.map (CheckerCall.reread value)) := by
  rw [SameButReads, List.map_map]
  apply List.map_congr_left
  intro call _
  cases call with
  | recordWriteStart => rfl
  | recordWriteEnd => rfl
  | recordRead => rfl

namespace ConsistencyChecker

variable {c : ConsistencyChecker}

def reread (value : Bytes) (c : ConsistencyChecker) : ConsistencyChecker :=
  { c with operations := c.operations.map (OperationRecord.reread value) }

theorem call_reread (value : Bytes) (c : ConsistencyChecker) (a : CheckerCall) :
    (c.reread value).call (a.reread value) = (c.call a).reread value := by
  cases a with
  | recordWriteStart key v now endTime fastPath =>
    show ((c.reread value).recordWriteStart key v now endTime fastPath).1 =
      (c.recordWriteStart key v now endTime fastPath).1.reread value
    unfold recordWriteStart reread
    split
    · rfl
    · simp [ConsistencyChecker.append, OperationRecord.reread]
  | recordWriteEnd opId success fastPath now =>
    show (c.reread value).recordWriteEnd opId success fastPath now =
      (c.recordWriteEnd opId success fastPath now).reread value
    have hindex : (c.reread value).opIdToIndex = c.opIdToIndex := rfl
    have henabled : (c.reread value).enabled = c.enabled := rfl
    rw [recordWriteEnd, recordWriteEnd, hindex, henabled]
    split
    · rfl
    · cases c.opIdToIndex.lookup opId with
      | none => rfl
      | some index =>
        have hops : (c.operations.modify index (·.setEnd now success fastPath)).map
            (OperationRecord.reread value) = (c.operations.map
            (OperationRecord.reread value)).modify index (·.setEnd now success fastPath) := by
          apply map_modify
          exact fun _ => rfl
        simp only [reread, hops]
  | recordRead key v success now fastPath =>
    show ((c.reread value).recordRead key value success now fastPath).1 =
      (c.recordRead key v success now fastPath).1.reread value
    unfold recordRead reread
    split
    · rfl
    · simp [ConsistencyChecker.append, OperationRecord.reread]

theorem feed_reread (value : Bytes) (calls : List CheckerCall) :
    feed (calls.map (CheckerCall.reread value)) = (feed calls).reread value := by
  have hfold : ∀ c : ConsistencyChecker, (calls.map (CheckerCall.reread value)).foldl call
      (c.reread value) = (calls.foldl call c).reread value := by
    induction calls with
    | nil => intro c; rfl
    | cons a calls ih =>
      intro c
      rw [List.map_cons, List.foldl_cons, call_reread, ih, List.foldl_cons]
  exact hfold {}

theorem overlaps_reread (value : Bytes) (c : ConsistencyChecker) :
    (c.reread value).Overlaps ↔ c.Overlaps := by
  unfold Overlaps reread
  rw [List.pairwise_map]
  refine not_congr (List.Pairwise.iff fun r r' => not_congr ?_)
  exact ⟨fun h => ⟨h.key, h.success, h.fastPath, h.time⟩,
    fun h => ⟨h.key, h.success, h.fastPath, h.time⟩⟩

theorem readsNothing_reread (value : Bytes) (c : ConsistencyChecker) :
    (c.reread value).ReadsNothing ↔ c.ReadsNothing := List.forall_mem_map

theorem Indexed.reread (h : c.Indexed) (value : Bytes) : (c.reread value).Indexed := by
  refine h.congr ?_ rfl
  rw [keys, ConsistencyChecker.reread, List.map_map]
  rfl

theorem same_reread {calls calls' : List CheckerCall} (h : SameButReads calls calls') :
    (feed calls').reread [] = (feed calls).reread [] := by
  rw [← feed_reread, ← feed_reread, h]

theorem inOrder_same {calls calls' : List CheckerCall} (hsame : SameButReads calls calls')
    (h : InOrder calls) : InOrder calls' := by
  have hnow : ∀ calls : List CheckerCall,
      (calls.map (CheckerCall.reread [])).map CheckerCall.now = calls.map CheckerCall.now := by
    intro calls
    rw [List.map_map]
    apply List.map_congr_left
    intro call _
    cases call with
    | recordWriteStart => rfl
    | recordWriteEnd => rfl
    | recordRead => rfl
  rw [InOrder, ← hnow, hsame, hnow]
  exact h

theorem exists_unseen (c : ConsistencyChecker) :
    ∃ value : Bytes, value ≠ [] ∧ ∀ r ∈ c.operations, r.value ≠ value := by
  obtain ⟨value, hvalue⟩ :=
    Infinite.exists_notMem_finset ([] :: c.operations.map OperationRecord.value).toFinset
  rw [List.mem_toFinset, List.mem_cons, not_or] at hvalue
  exact ⟨value, hvalue.1, fun r hr heq => hvalue.2 (List.mem_map.mpr ⟨r, hr, heq⟩)⟩

theorem readsNothing_of_sound (h : c.Indexed) (hno : ¬c.Overlaps)
    (hsound : ∀ value, (c.reread value).Sound) : c.ReadsNothing := by
  intro r hr hread
  by_contra hsuccess
  rw [Bool.not_eq_false] at hsuccess
  obtain ⟨value, hne, hunseen⟩ := c.exists_unseen
  have hcheck : (c.reread value).checkLinearizability.2 = true := by
    rw [checkLinearizability_iff (h.reread value), overlaps_reread]
    exact hno
  have hlin := hsound value hcheck r.key
  have hmem : (r.reread value).toOp ∈ (c.reread value).history r.key :=
    mem_history.mpr ⟨_, List.mem_map_of_mem hr, ⟨rfl, .inr hsuccess⟩, rfl⟩
  have hval : (r.reread value).value = value := if_pos hread
  rcases linearizable_read hlin hmem hread hsuccess with hempty | ⟨w, hw, hkind, hwrote⟩
  · exact hne (hval.symm.trans hempty)
  · -- the write is one of the recorded ones, with its own value
    obtain ⟨r₁, hr₁, _, rfl⟩ := mem_history.mp hw
    obtain ⟨r₂, hr₂, rfl⟩ := List.mem_map.mp hr₁
    have hkept : (r₂.reread value).value = r₂.value := by
      refine if_neg fun hk => ?_
      rw [show (r₂.reread value).toOp.kind = r₂.kind from rfl, hk] at hkind
      cases hkind
    exact hunseen r₂ hr₂ (hkept.symm.trans (hwrote.trans hval))

/-- Whatever the reads return, the answer is right iff operations clash or no read succeeds. -/
theorem sound_for_all_reads_iff (calls : List CheckerCall) (h : InOrder calls) :
    (∀ calls', SameButReads calls calls' → (feed calls').Sound) ↔
      (feed calls).Overlaps ∨ (feed calls).ReadsNothing := by
  obtain ⟨_, hinv⟩ := feed_checkerInv h
  constructor
  · intro hsound
    by_cases hover : (feed calls).Overlaps
    · exact .inl hover
    · refine .inr (readsNothing_of_sound hinv.indexed hover fun value => ?_)
      rw [← feed_reread]
      exact hsound _ (sameButReads_reread value calls)
  · intro hor calls' hsame
    obtain ⟨_, hinv'⟩ := feed_checkerInv (inOrder_same hsame h)
    rw [sound_iff_linearizable hinv'.indexed]
    rw [← overlaps_reread [], ← readsNothing_reread [], ← same_reread hsame, overlaps_reread,
      readsNothing_reread] at hor
    exact hor.imp_right fun hno => linearizable_of_readsNothing hinv' hno

end ConsistencyChecker
end TinyKv
