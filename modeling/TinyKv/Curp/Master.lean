import TinyKv.Curp.Service

/-!
# Curp.Master

The CURP part of the master: speculative execution, the sync with the backups and the replay of a
witness after a crash. Each function is the part that runs under `curp_mtx_`.

* `propose` reads `curp_state_` before it locks; `proposeBody` is what it does under the mutex.
* `executeCalls` is the history of the calls of `execute_op`, which itself only writes to the log
  and returns no bytes.
* `doSync` drains the unsynced operations and resets the attached witness. The entries it builds
  for the backups go nowhere yet.
* `replayOps` executes what the witness returned; `replayed r` is the operation it makes of a
  record.
-/

namespace TinyKv

open Lib

inductive OpType where
  | put
  | get
  | deleteOp
  deriving DecidableEq

structure CurpOp where
  rpcId : UInt64
  clientId : UInt64
  type : OpType
  key : Bytes
  value : Bytes := []
  deriving DecidableEq

inductive CurpState where
  | normal
  | recovering
  | stopped
  deriving DecidableEq

structure ProposeResult where
  success : Bool
  fastPath : Bool
  needSync : Bool
  error : String
  deriving DecidableEq

structure ReadResult where
  success : Bool
  value : Bytes
  deriving DecidableEq

structure CurpMaster where
  curNodeId : UInt64
  curpState : CurpState := .normal
  unsyncedKeys : Finset Bytes := ∅
  unsyncedOps : Assoc UInt64 CurpOp := ∅
  executedOps : Assoc UInt64 Bytes := ∅
  totalRecovered : Nat := 0
  executeCalls : List CurpOp := []
  deriving DecidableEq

namespace CurpMaster

/-- `std::to_string(cur_node_id)`, the name of the master at its witnesses. -/
def idString (m : CurpMaster) : String := toString m.curNodeId.toNat

def isExecuted (m : CurpMaster) (rpcId : UInt64) : Prop := rpcId ∈ m.executedOps

instance (m : CurpMaster) (rpcId : UInt64) : Decidable (m.isExecuted rpcId) :=
  inferInstanceAs (Decidable (_ ∈ _))

def recordExecuted (m : CurpMaster) (rpcId : UInt64) (result : Bytes) : CurpMaster :=
  { m with executedOps := m.executedOps.insert rpcId result }

def markUnsynced (m : CurpMaster) (op : CurpOp) : CurpMaster :=
  { m with
    unsyncedKeys := insert op.key m.unsyncedKeys
    unsyncedOps := m.unsyncedOps.insert op.rpcId op }

def executeOp (m : CurpMaster) (op : CurpOp) : CurpMaster × Bytes :=
  ({ m with executeCalls := m.executeCalls ++ [op] }, [])

def canSpeculativeExecute (m : CurpMaster) (op : CurpOp) : Bool :=
  match op.type with
  | .put | .deleteOp => op.key ∉ m.unsyncedKeys
  | .get => op.key ∉ m.unsyncedKeys

/-- The fast path of `propose`. -/
def executeFast (m : CurpMaster) (op : CurpOp) : CurpMaster :=
  let (m', result) := (m.markUnsynced op).executeOp op
  m'.recordExecuted op.rpcId result

def propose (m : CurpMaster) (op : CurpOp) : CurpMaster × ProposeResult :=
  if m.curpState = .recovering then (m, ⟨false, false, false, "master is recovering"⟩)
  else if m.isExecuted op.rpcId then (m, ⟨true, true, false, ""⟩)
  else if m.canSpeculativeExecute op then (m.executeFast op, ⟨true, true, false, ""⟩)
  else (m, ⟨false, false, true, "key conflict"⟩)

/-- The body of `propose`, under `curp_mtx_`; `curp_state_` was read before the mutex was locked. -/
def proposeBody (m : CurpMaster) (op : CurpOp) : CurpMaster × ProposeResult :=
  if m.isExecuted op.rpcId then (m, ⟨true, true, false, ""⟩)
  else if m.canSpeculativeExecute op then (m.executeFast op, ⟨true, true, false, ""⟩)
  else (m, ⟨false, false, true, "key conflict"⟩)

/-- `CurpMaster::read`: no value is stored yet, so none is returned. -/
def read (m : CurpMaster) (key : Bytes) : ReadResult :=
  if m.curpState = .recovering then ⟨false, []⟩
  else if key ∈ m.unsyncedKeys then ⟨false, []⟩
  else ⟨true, []⟩

/-- `CurpMaster::sync` wakes the sync thread, and changes nothing itself. -/
def sync (m : CurpMaster) : CurpMaster := m

def drain (m : CurpMaster) : CurpMaster := { m with unsyncedKeys := ∅, unsyncedOps := ∅ }

/-- `CurpMaster::do_sync`, with the attached witness if there is one. -/
def doSync (m : CurpMaster) (localWitness : Option Witness) : CurpMaster × Option Witness :=
  if m.unsyncedOps = ∅ then (m, localWitness)
  else (m.drain, localWitness.map (·.reset m.idString))

/-! ## Replay -/

/-- The operation that `replay_ops` makes of a record. -/
def replayed (record : WitnessRecord) : CurpOp where
  rpcId := record.rpcId
  clientId := record.clientId
  type := .put
  key := record.key
  value := record.requestData

/-- One turn of the loop of `replay_ops`. -/
def replayOp (m : CurpMaster) (record : WitnessRecord) : CurpMaster :=
  if m.isExecuted record.rpcId then m
  else
    let op := replayed record
    let (m', result) := m.executeOp op
    let m' := (m'.recordExecuted op.rpcId result).markUnsynced op
    { m' with totalRecovered := m'.totalRecovered + 1 }

def replayOps (m : CurpMaster) (records : List WitnessRecord) : CurpMaster :=
  records.foldl replayOp m

/-- `CurpMaster::replay_from_local_witness`; `records` is the order in which the witness happens to
list its data, and the result includes how many there are. -/
def replayFromLocalWitness (m : CurpMaster) (w : Witness) (records : List WitnessRecord) :
    Option (CurpMaster × Witness × Nat) :=
  if (records : Multiset WitnessRecord) = (w.getRecoveryData m.idString).2 then
    some (m.replayOps records, (w.getRecoveryData m.idString).1, records.length)
  else none

/-- `CurpMaster::replay_from_witness`: the same over RPC. -/
def replayFromWitness (m : CurpMaster) (outcome : RpcOutcome) (w : Witness)
    (records : List WitnessRecord) : Option (CurpMaster × Witness × Nat) :=
  if (records : Multiset WitnessRecord) =
      (WitnessClient.getRecoveryData outcome w m.idString).2 then
    some (m.replayOps records, (WitnessClient.getRecoveryData outcome w m.idString).1,
      records.length)
  else none

/-! ## Specifications -/

section Fields

variable (m : CurpMaster) (op : CurpOp)

@[simp] theorem executeFast_curNodeId : (m.executeFast op).curNodeId = m.curNodeId := rfl

@[simp] theorem executeFast_curpState : (m.executeFast op).curpState = m.curpState := rfl

@[simp] theorem executeFast_unsyncedKeys :
    (m.executeFast op).unsyncedKeys = insert op.key m.unsyncedKeys := rfl

@[simp] theorem executeFast_unsyncedOps :
    (m.executeFast op).unsyncedOps = m.unsyncedOps.insert op.rpcId op := rfl

@[simp] theorem executeFast_isExecuted {i : UInt64} :
    (m.executeFast op).isExecuted i ↔ i = op.rpcId ∨ m.isExecuted i := Finmap.mem_insert

@[simp] theorem drain_curNodeId : m.drain.curNodeId = m.curNodeId := rfl

@[simp] theorem drain_curpState : m.drain.curpState = m.curpState := rfl

@[simp] theorem drain_unsyncedKeys : m.drain.unsyncedKeys = ∅ := rfl

@[simp] theorem drain_unsyncedOps : m.drain.unsyncedOps = ∅ := rfl

@[simp] theorem drain_isExecuted {i : UInt64} : m.drain.isExecuted i ↔ m.isExecuted i := .rfl

end Fields

@[simp] theorem canSpeculativeExecute_iff {m : CurpMaster} {op : CurpOp} :
    m.canSpeculativeExecute op = true ↔ op.key ∉ m.unsyncedKeys := by
  unfold canSpeculativeExecute
  cases op.type with
  | put => simp
  | get => simp
  | deleteOp => simp

theorem propose_eq {m : CurpMaster} (h : m.curpState ≠ .recovering) (op : CurpOp) :
    m.propose op = m.proposeBody op := if_neg h

theorem proposeBody_cases {m m' : CurpMaster} {op : CurpOp} {res : ProposeResult}
    (h : m.proposeBody op = (m', res)) :
    (m.isExecuted op.rpcId ∧ res = ⟨true, true, false, ""⟩ ∧ m' = m) ∨
    (¬m.isExecuted op.rpcId ∧ op.key ∉ m.unsyncedKeys ∧ res = ⟨true, true, false, ""⟩ ∧
      m' = m.executeFast op) ∨
    (¬m.isExecuted op.rpcId ∧ op.key ∈ m.unsyncedKeys ∧ res = ⟨false, false, true, "key conflict"⟩ ∧
      m' = m) := by
  unfold proposeBody at h
  split at h
  · rename_i hex
    cases h
    exact .inl ⟨hex, rfl, rfl⟩
  · rename_i hex
    split at h
    · rename_i hfast
      cases h
      exact .inr (.inl ⟨hex, canSpeculativeExecute_iff.mp hfast, rfl, rfl⟩)
    · rename_i hslow
      cases h
      rw [canSpeculativeExecute_iff, not_not] at hslow
      exact .inr (.inr ⟨hex, hslow, rfl, rfl⟩)

theorem proposeBody_master (m : CurpMaster) (op : CurpOp) :
    (m.proposeBody op).1 = m ∨ (¬m.isExecuted op.rpcId ∧ op.key ∉ m.unsyncedKeys ∧
      (m.proposeBody op).1 = m.executeFast op) := by
  obtain ⟨m', res, hp⟩ : ∃ m' res, m.proposeBody op = (m', res) := ⟨_, _, rfl⟩
  rw [hp]
  rcases proposeBody_cases hp with ⟨_, _, hm⟩ | ⟨hex, hkey, _, hm⟩ | ⟨_, _, _, hm⟩
  · exact .inl hm
  · exact .inr ⟨hex, hkey, hm⟩
  · exact .inl hm

theorem propose_master (m : CurpMaster) (op : CurpOp) :
    (m.propose op).1 = m ∨ (m.propose op).1 = (m.proposeBody op).1 := by
  by_cases hstate : m.curpState = .recovering
  · rw [propose, if_pos hstate]
    exact .inl rfl
  · rw [propose_eq hstate]
    exact .inr rfl

theorem propose_cases {m m' : CurpMaster} {op : CurpOp} {res : ProposeResult}
    (h : m.propose op = (m', res)) :
    (res.success = false ∧ m' = m) ∨
    (m.curpState ≠ .recovering ∧ m.isExecuted op.rpcId ∧ res = ⟨true, true, false, ""⟩ ∧
      m' = m) ∨
    (m.curpState ≠ .recovering ∧ ¬m.isExecuted op.rpcId ∧ op.key ∉ m.unsyncedKeys ∧
      res = ⟨true, true, false, ""⟩ ∧ m' = m.executeFast op) := by
  by_cases hstate : m.curpState = .recovering
  · rw [propose, if_pos hstate] at h
    cases h
    exact .inl ⟨rfl, rfl⟩
  · rw [propose_eq hstate] at h
    rcases proposeBody_cases h with ⟨hex, hres, hm⟩ | ⟨hex, hkey, hres, hm⟩ | ⟨_, _, hres, hm⟩
    · exact .inr (.inl ⟨hstate, hex, hres, hm⟩)
    · exact .inr (.inr ⟨hstate, hex, hkey, hres, hm⟩)
    · exact .inl ⟨by rw [hres], hm⟩

theorem propose_fast {m : CurpMaster} {op : CurpOp} (hstate : m.curpState = .normal)
    (hnew : ¬m.isExecuted op.rpcId) (hkey : op.key ∉ m.unsyncedKeys) :
    m.propose op = (m.executeFast op, ⟨true, true, false, ""⟩) := by
  rw [propose_eq (by rw [hstate]; decide), proposeBody, if_neg hnew,
    if_pos (canSpeculativeExecute_iff.mpr hkey)]

theorem doSync_empty {m : CurpMaster} (h : m.unsyncedOps = ∅) (w : Option Witness) :
    m.doSync w = (m, w) := if_pos h

theorem doSync_drain {m : CurpMaster} (h : m.unsyncedOps ≠ ∅) (w : Option Witness) :
    m.doSync w = (m.drain, w.map (·.reset m.idString)) := if_neg h

theorem doSync_master (m : CurpMaster) (w : Option Witness) :
    (m.doSync w).1 = (m.doSync none).1 := by
  by_cases hempty : m.unsyncedOps = ∅
  · rw [doSync_empty hempty, doSync_empty hempty]
  · rw [doSync_drain hempty, doSync_drain hempty]

theorem replayOp_isExecuted {m : CurpMaster} {r : WitnessRecord} {i : UInt64} :
    (m.replayOp r).isExecuted i ↔ m.isExecuted i ∨ r.rpcId = i := by
  unfold replayOp
  split
  · rename_i hex
    constructor
    · exact .inl
    · intro h
      cases h with
      | inl h => exact h
      | inr h => rw [← h]; exact hex
  · show i ∈ m.executedOps.insert r.rpcId [] ↔ _
    rw [Finmap.mem_insert, or_comm, eq_comm]
    rfl

theorem replayOps_isExecuted (rs : List WitnessRecord) : ∀ {m : CurpMaster} {i : UInt64},
    (m.replayOps rs).isExecuted i ↔ m.isExecuted i ∨ ∃ r ∈ rs, r.rpcId = i := by
  induction rs with
  | nil => intro m i; simp [replayOps]
  | cons r rs ih =>
    intro m i
    have hrest : (m.replayOps (r :: rs)) = (m.replayOp r).replayOps rs := rfl
    rw [hrest, ih, replayOp_isExecuted]
    simp [or_assoc]

theorem replayOp_executeCalls (m : CurpMaster) (r : WitnessRecord) :
    (m.replayOp r).executeCalls =
      m.executeCalls ++ if m.isExecuted r.rpcId then [] else [replayed r] := by
  unfold replayOp
  split
  · rw [List.append_nil]
  · rfl

theorem replayOps_executeCalls (rs : List WitnessRecord) : ∀ (m : CurpMaster),
    ∃ ops, (m.replayOps rs).executeCalls = m.executeCalls ++ ops ∧
      ∀ op ∈ ops, ∃ r ∈ rs, op = replayed r := by
  induction rs with
  | nil => intro m; exact ⟨[], by simp [replayOps], by simp⟩
  | cons r rs ih =>
    intro m
    obtain ⟨ops, hcalls, hops⟩ := ih (m.replayOp r)
    refine ⟨(if m.isExecuted r.rpcId then [] else [replayed r]) ++ ops, ?_, ?_⟩
    · have hrest : (m.replayOps (r :: rs)) = (m.replayOp r).replayOps rs := rfl
      rw [hrest, hcalls, replayOp_executeCalls, List.append_assoc]
    · intro op hop
      cases List.mem_append.mp hop with
      | inl hop =>
        split at hop
        · cases hop
        · rw [List.mem_singleton] at hop
          exact ⟨r, List.mem_cons_self, hop⟩
      | inr hop =>
        obtain ⟨r', hr', heq⟩ := hops op hop
        exact ⟨r', List.mem_cons_of_mem r hr', heq⟩

end CurpMaster
end TinyKv
