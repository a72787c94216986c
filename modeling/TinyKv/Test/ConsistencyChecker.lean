import TinyKv.Lib.Assoc
import TinyKv.Lib.Bytes
import TinyKv.Lib.Register
import TinyKv.Lib.Table

/-!
# Test.ConsistencyChecker

The checker that the tests take as their oracle. It records operations and then looks, key by key,
for two successful ones that overlap in time and both took the fast path. It compares no values.

* `feed`: a history of calls. `CheckerInv` is what the recorded operations satisfy.
* `checkLinearizability_iff`: the check fails exactly if there is such a pair (`Overlaps`).
* `Sound`: a history that passes is linearizable for each key.

The fields of a record that only the statistics read are left out.
-/

namespace TinyKv

open Lib

/-- `kind` and `ended` are not in the source: which call made the record, and whether it has an
end. -/
structure OperationRecord where
  id : UInt64
  key : Bytes
  value : Bytes
  startTime : Nat
  endTime : Nat
  success : Bool
  fastPath : Bool
  kind : OpKind
  ended : Bool

def OperationRecord.setEnd (record : OperationRecord) (now : Nat) (success fastPath : Bool) :
    OperationRecord :=
  { record with endTime := now, success := success, fastPath := fastPath, ended := true }

structure ConsistencyChecker where
  enabled : Bool := true
  operations : List OperationRecord := []
  nextOpId : UInt64 := 1
  opIdToIndex : Assoc UInt64 Nat := ∅
  keyOperations : Assoc Bytes (List Nat) := ∅
  violations : Multiset (UInt64 × UInt64) := 0

namespace ConsistencyChecker

/-- The end of `record_write_start` and `record_read`. -/
def append (c : ConsistencyChecker) (record : OperationRecord) : ConsistencyChecker :=
  { c with
    nextOpId := c.nextOpId + 1
    operations := c.operations ++ [record]
    opIdToIndex := c.opIdToIndex.insert record.id c.operations.length
    keyOperations := c.keyOperations.insert record.key
      ((c.keyOperations.lookup record.key).getD [] ++ [c.operations.length]) }

/-- `endTime` and `fastPath` are what the fields that are not set yet happen to hold. -/
def recordWriteStart (c : ConsistencyChecker) (key value : Bytes) (now endTime : Nat)
    (fastPath : Bool) : ConsistencyChecker × UInt64 :=
  if ¬c.enabled then (c, 0)
  else
    (c.append {
      id := c.nextOpId, key := key, value := value, startTime := now, endTime := endTime
      success := false, fastPath := fastPath, kind := .write, ended := false }, c.nextOpId)

def recordWriteEnd (c : ConsistencyChecker) (opId : UInt64) (success fastPath : Bool)
    (now : Nat) : ConsistencyChecker :=
  if ¬c.enabled ∨ opId = 0 then c
  else
    match c.opIdToIndex.lookup opId with
    | none => c
    | some index =>
      { c with operations := c.operations.modify index (·.setEnd now success fastPath) }

/-- `fastPath` is not set. -/
def recordRead (c : ConsistencyChecker) (key value : Bytes) (success : Bool) (now : Nat)
    (fastPath : Bool) : ConsistencyChecker × UInt64 :=
  if ¬c.enabled then (c, 0)
  else
    (c.append {
      id := c.nextOpId, key := key, value := value, startTime := now, endTime := now
      success := success, fastPath := fastPath, kind := .read, ended := true }, c.nextOpId)

/-- The body of the loops, for one pair of operations. -/
def violation (op1 op2 : OperationRecord) : Option (UInt64 × UInt64) :=
  if ¬op1.success ∨ ¬op2.success then none
  else if op1.endTime < op2.startTime then none
  else if op2.endTime < op1.startTime then none
  else if op1.fastPath ∧ op2.fastPath then some (op1.id, op2.id)
  else none

def pairViolation (c : ConsistencyChecker) (i j : Nat) : Option (UInt64 × UInt64) := do
  violation (← c.operations[i]?) (← c.operations[j]?)

/-- The two loops over the operations of one key. -/
def keyViolations (c : ConsistencyChecker) : List Nat → List (UInt64 × UInt64)
  | [] => []
  | i :: rest => rest.filterMap (c.pairViolation i) ++ c.keyViolations rest

/-- `check_linearizability`; the order in which it visits the keys is not fixed. -/
def checkLinearizability (c : ConsistencyChecker) : ConsistencyChecker × Bool :=
  let violations := (values c.keyOperations).bind fun opIndices => c.keyViolations opIndices
  ({ c with violations := violations }, violations = 0)

end ConsistencyChecker

inductive CheckerCall where
  | recordWriteStart (key value : Bytes) (now endTime : Nat) (fastPath : Bool)
  | recordWriteEnd (opId : UInt64) (success fastPath : Bool) (now : Nat)
  | recordRead (key value : Bytes) (success : Bool) (now : Nat) (fastPath : Bool)

def CheckerCall.now : CheckerCall → Nat
  | .recordWriteStart _ _ now _ _ => now
  | .recordWriteEnd _ _ _ now => now
  | .recordRead _ _ _ now _ => now

/-- The operation as the history of its key has it. -/
def OperationRecord.toOp (record : OperationRecord) : RegisterOp Bytes Nat where
  kind := record.kind
  value := record.value
  start := record.startTime
  finish := if record.ended then some record.endTime else none
  required := record.success

namespace ConsistencyChecker

def call (c : ConsistencyChecker) : CheckerCall → ConsistencyChecker
  | .recordWriteStart key value now endTime fastPath =>
    (c.recordWriteStart key value now endTime fastPath).1
  | .recordWriteEnd opId success fastPath now => c.recordWriteEnd opId success fastPath now
  | .recordRead key value success now fastPath => (c.recordRead key value success now fastPath).1

def feed (calls : List CheckerCall) : ConsistencyChecker := calls.foldl call {}

/-- The successful operations on `key`, and its other writes. -/
def history (c : ConsistencyChecker) (key : Bytes) : List (RegisterOp Bytes Nat) :=
  (c.operations.filter fun r => r.key = key ∧ (r.kind = .write ∨ r.success)).map
    OperationRecord.toOp

/-- What passes the check is linearizable; the absent value is empty. -/
def Sound (c : ConsistencyChecker) : Prop :=
  c.checkLinearizability.2 = true → ∀ key, Linearizable [] (c.history key)

/-- Two successful operations on one key that both took the fast path and overlap in time. -/
structure Clash (op1 op2 : OperationRecord) : Prop where
  key : op1.key = op2.key
  success : op1.success = true ∧ op2.success = true
  fastPath : op1.fastPath = true ∧ op2.fastPath = true
  time : op2.startTime ≤ op1.endTime ∧ op1.startTime ≤ op2.endTime

def Overlaps (c : ConsistencyChecker) : Prop := ¬c.operations.Pairwise fun op1 op2 => ¬Clash op1 op2

def ReadsNothing (c : ConsistencyChecker) : Prop :=
  ∀ r ∈ c.operations, r.kind = .read → r.success = false

variable {c : ConsistencyChecker}

/-! ## What the check answers -/

theorem violation_eq_none {op1 op2 : OperationRecord} (h : op1.key = op2.key) :
    violation op1 op2 = none ↔ ¬Clash op1 op2 := by
  unfold violation
  split
  · rename_i hfail
    simp only [Bool.not_eq_true] at hfail
    refine iff_of_true rfl fun hclash => ?_
    rcases hfail with hfail | hfail
    · exact absurd hclash.success.1 (by rw [hfail]; decide)
    · exact absurd hclash.success.2 (by rw [hfail]; decide)
  · rename_i hsuccess
    rw [not_or, Decidable.not_not, Decidable.not_not] at hsuccess
    split
    · rename_i hbefore
      exact iff_of_true rfl fun hclash => absurd hclash.time.1 (Nat.not_le.mpr hbefore)
    · rename_i hle
      split
      · rename_i hafter
        exact iff_of_true rfl fun hclash => absurd hclash.time.2 (Nat.not_le.mpr hafter)
      · rename_i hle'
        split
        · rename_i hfast
          refine iff_of_false (by simp) fun hno => ?_
          exact hno ⟨h, hsuccess, hfast, Nat.not_lt.mp hle, Nat.not_lt.mp hle'⟩
        · rename_i hslow
          exact iff_of_true rfl fun hclash => hslow hclash.fastPath

theorem keyViolations_eq_nil {opIndices : List Nat} : c.keyViolations opIndices = [] ↔
    opIndices.Pairwise fun i j => c.pairViolation i j = none := by
  induction opIndices with
  | nil => exact iff_of_true rfl .nil
  | cons i rest ih =>
    rw [keyViolations, List.append_eq_nil_iff, List.filterMap_eq_nil_iff, ih, List.pairwise_cons]

def keys (c : ConsistencyChecker) : List Bytes := c.operations.map OperationRecord.key

/-- `keyOperations` lists the operations of each key, in order. -/
structure Indexed (c : ConsistencyChecker) : Prop where
  key : ∀ key opIndices, c.keyOperations.lookup key = some opIndices →
    ∀ i ∈ opIndices, c.keys[i]? = some key
  sorted : ∀ key opIndices, c.keyOperations.lookup key = some opIndices →
    opIndices.Pairwise (· < ·)
  listed : ∀ i key, c.keys[i]? = some key →
    ∃ opIndices, c.keyOperations.lookup key = some opIndices ∧ i ∈ opIndices

theorem checkLinearizability_eq (c : ConsistencyChecker) : c.checkLinearizability.2 = true ↔
    ∀ key opIndices, c.keyOperations.lookup key = some opIndices →
      c.keyViolations opIndices = [] := by
  simp only [checkLinearizability, decide_eq_true_eq, Multiset.eq_zero_iff_forall_notMem,
    Multiset.mem_bind, mem_values, Multiset.mem_coe]
  constructor
  · intro h key opIndices hl
    rw [List.eq_nil_iff_forall_not_mem]
    intro p hp
    exact h p ⟨opIndices, ⟨key, hl⟩, hp⟩
  · rintro h p ⟨opIndices, ⟨key, hl⟩, hp⟩
    rw [h key opIndices hl] at hp
    cases hp

/-- **The check** passes iff no two operations clash. -/
theorem checkLinearizability_iff (h : c.Indexed) :
    c.checkLinearizability.2 = true ↔ ¬c.Overlaps := by
  rw [Overlaps, not_not, checkLinearizability_eq, List.pairwise_iff_getElem]
  constructor
  · intro hcheck i j hi hj hlt hclash
    have hopi := List.getElem?_eq_getElem hi
    have hopj := List.getElem?_eq_getElem hj
    obtain ⟨opIndices, hl, hmem⟩ := h.listed i _ (by rw [keys, List.getElem?_map, hopi]; rfl)
    obtain ⟨opIndices', hl', hmem'⟩ := h.listed j _ (by rw [keys, List.getElem?_map, hopj]; rfl)
    rw [← hclash.key, hl] at hl'
    cases hl'
    have hnone := keyViolations_eq_nil.mp (hcheck _ _ hl)
    have hpair : c.pairViolation i j = none :=
      rel_of_rising (h.sorted _ _ hl) hnone hmem hmem' hlt
    rw [pairViolation, hopi, hopj] at hpair
    exact (violation_eq_none hclash.key).mp hpair hclash
  · intro hno key opIndices hl
    rw [keyViolations_eq_nil]
    refine (h.sorted key opIndices hl).imp_of_mem ?_
    intro i j hi hj hlt
    have hkeyi := h.key key opIndices hl i hi
    have hkeyj := h.key key opIndices hl j hj
    rw [keys, List.getElem?_map, Option.map_eq_some_iff] at hkeyi hkeyj
    obtain ⟨r, hr, hkey⟩ := hkeyi
    obtain ⟨r', hr', hkey'⟩ := hkeyj
    obtain ⟨hi, rfl⟩ := List.getElem?_eq_some_iff.mp hr
    obtain ⟨hj, rfl⟩ := List.getElem?_eq_some_iff.mp hr'
    rw [pairViolation, hr, hr']
    exact (violation_eq_none (hkey.trans hkey'.symm)).mpr (hno i j hi hj hlt)

/-- `now` is the time of the last call. -/
structure CheckerInv (now : Nat) (c : ConsistencyChecker) : Prop where
  enabled : c.enabled = true
  indexed : c.Indexed
  starts : (c.operations.map OperationRecord.startTime).Pairwise (· ≤ ·)
  past : ∀ r ∈ c.operations, r.startTime ≤ now
  ends : ∀ r ∈ c.operations, r.ended = true → r.startTime ≤ r.endTime

theorem init_checkerInv : CheckerInv 0 {} where
  enabled := rfl
  indexed := {
    key := fun key opIndices h => by cases h
    sorted := fun key opIndices h => by cases h
    listed := fun i key h => by cases h }
  starts := .nil
  past := fun r h => by cases h
  ends := fun r h => by cases h

theorem CheckerInv.mono {now now' : Nat} (h : CheckerInv now c) (hle : now ≤ now') :
    CheckerInv now' c :=
  ⟨h.enabled, h.indexed, h.starts, fun r hr => Nat.le_trans (h.past r hr) hle, h.ends⟩

theorem keys_append (c : ConsistencyChecker) (record : OperationRecord) :
    (c.append record).keys = c.keys ++ [record.key] := List.map_append

theorem lt_of_keys {i : Nat} {key : Bytes} (h : c.keys[i]? = some key) :
    i < c.operations.length := by
  rw [← List.length_map OperationRecord.key]
  exact (List.getElem?_eq_some_iff.mp h).1

theorem keys_append_old {i : Nat} {key : Bytes} (h : c.keys[i]? = some key)
    (record : OperationRecord) : (c.append record).keys[i]? = some key := by
  rw [keys_append, List.getElem?_append_left (List.getElem?_eq_some_iff.mp h).1, h]

theorem keys_append_new (c : ConsistencyChecker) (record : OperationRecord) :
    (c.append record).keys[c.operations.length]? = some record.key := by
  rw [keys_append, ← List.length_map OperationRecord.key]
  exact List.getElem?_concat_length

theorem Indexed.keyOf (h : c.Indexed) {key : Bytes} {i : Nat}
    (hi : i ∈ (c.keyOperations.lookup key).getD []) : c.keys[i]? = some key := by
  cases hl : c.keyOperations.lookup key with
  | none =>
    rw [hl] at hi
    cases hi
  | some opIndices =>
    rw [hl] at hi
    exact h.key _ _ hl i hi

theorem Indexed.append (h : c.Indexed) (record : OperationRecord) :
    (c.append record).Indexed where
  key := by
    intro key opIndices hl i hi
    rw [ConsistencyChecker.append, lookup_insert_if] at hl
    split at hl
    · rename_i hk
      cases hl
      rw [hk]
      rcases List.mem_append.mp hi with hi | hi
      · exact keys_append_old (h.keyOf hi) record
      · rw [List.mem_singleton.mp hi]
        exact keys_append_new c record
    · exact keys_append_old (h.key key opIndices hl i hi) record
  sorted := by
    intro key opIndices hl
    rw [ConsistencyChecker.append, lookup_insert_if] at hl
    split at hl
    · cases hl
      rw [List.pairwise_append]
      refine ⟨?_, List.pairwise_singleton _ _, ?_⟩
      · cases hl : c.keyOperations.lookup record.key with
        | none => exact .nil
        | some opIndices => exact h.sorted _ _ hl
      · intro i hi j hj
        rw [List.mem_singleton.mp hj]
        exact lt_of_keys (h.keyOf hi)
    · exact h.sorted key opIndices hl
  listed := by
    intro i key hi
    rw [ConsistencyChecker.append]
    simp only [lookup_insert_if]
    by_cases hlast : i = c.operations.length
    · rw [hlast, keys_append_new] at hi
      cases hi
      rw [if_pos rfl, hlast]
      exact ⟨_, rfl, List.mem_append_right _ (List.mem_singleton_self _)⟩
    · have hlt := lt_of_keys hi
      rw [ConsistencyChecker.append, List.length_append, List.length_singleton] at hlt
      have hold : i < c.keys.length := by
        rw [keys, List.length_map]
        omega
      rw [keys_append, List.getElem?_append_left hold] at hi
      obtain ⟨opIndices, hl, hmem⟩ := h.listed i key hi
      split
      · rename_i hk
        refine ⟨_, rfl, List.mem_append_left _ ?_⟩
        rw [← hk, hl]
        exact hmem
      · exact ⟨opIndices, hl, hmem⟩

theorem Indexed.congr {c' : ConsistencyChecker} (h : c.Indexed) (hkeys : c'.keys = c.keys)
    (hindex : c'.keyOperations = c.keyOperations) : c'.Indexed := by
  constructor
  · rw [hkeys, hindex]
    exact h.key
  · rw [hindex]
    exact h.sorted
  · rw [hkeys, hindex]
    exact h.listed

theorem append_checkerInv {now : Nat} {record : OperationRecord} (h : CheckerInv now c)
    (hnow : record.startTime = now)
    (hends : record.ended = true → record.startTime ≤ record.endTime) :
    CheckerInv now (c.append record) where
  enabled := h.enabled
  indexed := h.indexed.append record
  starts := by
    rw [ConsistencyChecker.append, List.map_append, List.pairwise_append]
    refine ⟨h.starts, List.pairwise_singleton _ _, ?_⟩
    intro t ht t' ht'
    obtain ⟨r, hr, rfl⟩ := List.mem_map.mp ht
    rw [List.mem_singleton.mp ht', hnow]
    exact h.past r hr
  past := by
    intro r hr
    rcases List.mem_append.mp hr with hr | hr
    · exact h.past r hr
    · rw [List.mem_singleton.mp hr, hnow]
  ends := by
    intro r hr
    rcases List.mem_append.mp hr with hr | hr
    · exact h.ends r hr
    · rw [List.mem_singleton.mp hr]
      exact hends

theorem recordWriteEnd_checkerInv {now : Nat} (h : CheckerInv now c) (opId : UInt64)
    (success fastPath : Bool) : CheckerInv now (c.recordWriteEnd opId success fastPath now) := by
  unfold recordWriteEnd
  split
  · exact h
  · split
    · exact h
    · rename_i index _
      constructor
      · exact h.enabled
      · refine h.indexed.congr ?_ rfl
        exact map_modify_same fun _ => rfl
      · rw [map_modify_same]
        · exact h.starts
        · exact fun _ => rfl
      · exact forall_mem_modify h.past h.past
      · exact forall_mem_modify h.ends fun r hr _ => h.past r hr

theorem call_checkerInv {now : Nat} {a : CheckerCall} (h : CheckerInv now c) (hle : now ≤ a.now) :
    CheckerInv a.now (c.call a) := by
  have h := h.mono hle
  cases a with
  | recordWriteStart key value now endTime fastPath =>
    rw [call, recordWriteStart, if_neg (by rw [h.enabled]; decide)]
    apply append_checkerInv h rfl
    intro hended
    cases hended
  | recordWriteEnd opId success fastPath now => exact recordWriteEnd_checkerInv h opId _ _
  | recordRead key value success now fastPath =>
    rw [call, recordRead, if_neg (by rw [h.enabled]; decide)]
    apply append_checkerInv h rfl
    exact fun _ => Nat.le_refl _

theorem foldl_checkerInv {calls : List CheckerCall} {now : Nat} (h : CheckerInv now c)
    (htimes : (now :: calls.map CheckerCall.now).Pairwise (· ≤ ·)) :
    ∃ now', CheckerInv now' (calls.foldl call c) := by
  induction calls generalizing c now with
  | nil => exact ⟨now, h⟩
  | cons a calls ih =>
    obtain ⟨hle, htimes⟩ := List.pairwise_cons.mp htimes
    exact ih (call_checkerInv h (hle a.now List.mem_cons_self)) htimes

/-- The times of the calls do not decrease. -/
def InOrder (calls : List CheckerCall) : Prop := (calls.map CheckerCall.now).Pairwise (· ≤ ·)

theorem feed_checkerInv {calls : List CheckerCall} (h : InOrder calls) :
    ∃ now, CheckerInv now (feed calls) :=
  foldl_checkerInv init_checkerInv (List.pairwise_cons.mpr ⟨fun _ _ => Nat.zero_le _, h⟩)

end ConsistencyChecker
end TinyKv
