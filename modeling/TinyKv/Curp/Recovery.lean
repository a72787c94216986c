import TinyKv.Curp.Client

/-!
# Curp.Recovery

What the recovery of a master brings back from its witness.

* Which records: the clients bind a witness to the literal name "master", but the master asks for
  its data under the number of its node, and as another master gets nothing.
  `recovery_complete_iff`: the recovery is complete only if there was nothing to recover.
* Which operations: `replay_ops` takes the request bytes of the client for the value and every
  request for a put. `replay_never_faithful`: no operation is executed as it was.
-/

namespace TinyKv

open Lib CurpClient

/-! ## Completeness -/

/-- A master and the witness that the clients record to. -/
structure Deployment where
  master : CurpMaster
  witness : Witness := {}

namespace Deployment

def init (curNodeId : UInt64) : Deployment := { master := { curNodeId := curNodeId } }

/-- `crash` lets a new master with the same node id take over. -/
inductive Action where
  | record (c : CurpClient) (op : CurpOp) (outcome : RpcOutcome) (now : UInt64)
  | propose (op : CurpOp)
  | doSync
  | replayLocal (records : List WitnessRecord)
  | replayRemote (outcome : RpcOutcome) (records : List WitnessRecord)
  | crash

def step (s : Deployment) : Action → Option Deployment
  | .record c op outcome now =>
    (c.recordToWitnesses op.rpcId op.key (serializeRequest op)
      [⟨s.witness, outcome, now⟩]).1.head?.map fun w => { s with witness := w }
  | .propose op => some { s with master := (s.master.propose op).1 }
  | .doSync =>
    let (m, w) := s.master.doSync (some s.witness)
    some { master := m, witness := w.getD s.witness }
  | .replayLocal records =>
    (s.master.replayFromLocalWitness s.witness records).map fun (m, w, _) => ⟨m, w⟩
  | .replayRemote outcome records =>
    (s.master.replayFromWitness outcome s.witness records).map fun (m, w, _) => ⟨m, w⟩
  | .crash => some { s with master := { curNodeId := s.master.curNodeId } }

/-- The master has executed every request that the witness holds. -/
def Executed (w : Witness) (m : CurpMaster) : Prop :=
  ∀ r ∈ values w.records, m.isExecuted r.rpcId

instance (w : Witness) (m : CurpMaster) : Decidable (Executed w m) :=
  inferInstanceAs (Decidable (∀ r ∈ values w.records, m.isExecuted r.rpcId))

/-- A witness with records is bound to the name the clients use. -/
def Bound (w : Witness) : Prop := values w.records ≠ 0 → w.masterId = "master"

theorem bound_getRecoveryData {w : Witness} (h : Bound w) (masterId : String) :
    Bound (w.getRecoveryData masterId).1 := by
  unfold Witness.getRecoveryData
  split
  · exact h
  · exact h

theorem bound_rpcGetRecoveryData {w : Witness} (h : Bound w) (outcome : RpcOutcome)
    (masterId : String) : Bound (WitnessClient.getRecoveryData outcome w masterId).1 := by
  cases outcome with
  | ok => exact bound_getRecoveryData h masterId
  | requestLost => exact h
  | replyLost => exact bound_getRecoveryData h masterId

theorem bound_record {w : Witness} (h : Bound w) (rpcId clientId now : UInt64)
    (key requestData : Bytes) :
    Bound (w.record "master" rpcId key requestData clientId now).1 := by
  intro hne
  cases hr : w.record "master" rpcId key requestData clientId now with
  | mk w' res =>
    rw [hr] at hne
    cases Witness.record_cases hr with
    | inl hrej => rw [hrej.2] at hne ⊢; exact h hne
    | inr hacc =>
      cases hacc with
      | inl hdup => rw [hdup.2.2.2] at hne ⊢; exact h hne
      | inr hnew =>
        -- not refused as foreign: unbound before, or bound to the same name
        obtain ⟨_, hbound, _, _, _, rfl⟩ := hnew
        simp only [Witness.Foreign, not_and, not_not] at hbound
        rw [Witness.store_masterId]
        split
        · rfl
        · rename_i hne
          exact (hbound hne).symm

variable {s s' : Deployment} {a : Action} {n : UInt64}

theorem step_bound (h : Bound s.witness) (hs : s.step a = some s') : Bound s'.witness := by
  cases a with
  | record c op outcome now =>
    rw [step, Option.map_eq_some_iff] at hs
    obtain ⟨w, hw, rfl⟩ := hs
    simp only [recordToWitnesses, List.head?_cons, Option.some.injEq] at hw
    rw [← hw]
    cases WitnessClient.record_witness outcome s.witness "master" op.rpcId op.key
        (serializeRequest op) c.clientId now with
    | inl hsame => rw [hsame]; exact h
    | inr hcall => rw [hcall]; exact bound_record h _ _ _ _ _
  | propose op => cases hs; exact h
  | doSync =>
    simp only [step, Option.some.injEq] at hs
    by_cases hempty : s.master.unsyncedOps = ∅
    · rw [← hs, CurpMaster.doSync_empty hempty]
      exact h
    · rw [← hs, CurpMaster.doSync_drain hempty]
      exact fun hne => absurd rfl hne
  | replayLocal records =>
    rw [step, Option.map_eq_some_iff] at hs
    obtain ⟨res, hres, rfl⟩ := hs
    unfold CurpMaster.replayFromLocalWitness at hres
    split at hres
    · cases hres; exact bound_getRecoveryData h _
    · cases hres
  | replayRemote outcome records =>
    rw [step, Option.map_eq_some_iff] at hs
    obtain ⟨res, hres, rfl⟩ := hs
    unfold CurpMaster.replayFromWitness at hres
    split at hres
    · cases hres; exact bound_rpcGetRecoveryData h _ _
    · cases hres
  | crash => cases hs; exact h

theorem reaches_bound (h : Reaches step (init n) s) : Bound s.witness :=
  h.inv (P := fun s => Bound s.witness) (fun _ _ _ hb hs => step_bound hb hs)
    fun hne => absurd rfl hne

theorem idString_ne_master (m : CurpMaster) : m.idString ≠ "master" := by
  intro h
  have hdigits : ∀ c ∈ m.idString.toList, c.isDigit = true := by
    intro c hc
    rw [CurpMaster.idString, Nat.toString_eq_repr, Nat.toList_repr] at hc
    exact Nat.isDigit_of_mem_toDigits (by decide) (by decide) hc
  rw [h] at hdigits
  exact absurd (hdigits 'm' (by simp)) (by decide)

theorem getRecoveryData_bound {w : Witness} (h : w.masterId = "master") (m : CurpMaster) :
    w.getRecoveryData m.idString = (w, 0) := by
  rw [Witness.getRecoveryData, if_pos]
  exact ⟨by rw [h]; decide, by rw [h]; exact idString_ne_master m⟩

/-- **When a recovery is complete.** Over the local witness, or over RPC with the call succeeding,
the recovered master has executed what the witness holds iff it had executed it before. -/
theorem recovery_complete_iff (hs : Reaches step (init n) s) {m m' : CurpMaster} {w' : Witness}
    {records : List WitnessRecord} {k : Nat}
    (hrec : m.replayFromLocalWitness s.witness records = some (m', w', k) ∨
      m.replayFromWitness .ok s.witness records = some (m', w', k)) :
    Executed s.witness m' ↔ Executed s.witness m := by
  have hrec : m.replayFromLocalWitness s.witness records = some (m', w', k) := hrec.elim id id
  by_cases hempty : values s.witness.records = 0
  · simp [Executed, hempty]
  · have hbound := getRecoveryData_bound (reaches_bound hs hempty) m
    rw [CurpMaster.replayFromLocalWitness, hbound] at hrec
    split at hrec
    · rename_i hnone
      rw [Multiset.coe_eq_zero] at hnone
      cases hrec
      rw [hnone]
      rfl
    · cases hrec

section Example

def writer : CurpClient := { clientId := 1 }

def firstPut : CurpOp := (writer.buildWrite [107] [118]).2

/-- A master that has executed the recorded request recovers, and has it still. -/
theorem recovery_complete_iff_proposed : ∃ s, Reaches step (init 0) s ∧ ∃ m' w',
    s.master.replayFromLocalWitness s.witness [] = some (m', w', 0) ∧ values w'.records ≠ 0 ∧
      Executed s.witness m' := by
  have hrun : ((runs step [.record writer firstPut .ok 0, .propose firstPut] (init 0)).bind
      fun s => (s.master.replayFromLocalWitness s.witness []).map fun (_, w', k) =>
        decide (k = 0 ∧ values w'.records ≠ 0 ∧ Executed s.witness s.master)) = some true := by
    decide +kernel
  obtain ⟨s, hr, hrun⟩ := Option.bind_eq_some_iff.mp hrun
  obtain ⟨⟨m', w', k⟩, hrec, hrun⟩ := Option.map_eq_some_iff.mp hrun
  obtain ⟨rfl, hheld, hex⟩ := of_decide_eq_true hrun
  have hs := reaches_of_runs hr
  exact ⟨s, hs, m', w', hrec, hheld, (recovery_complete_iff hs (.inl hrec)).mpr hex⟩

/-- The client records a put, and a new master of the same node recovers without it. -/
theorem recovery_drops_recorded_put : ∃ s, Reaches step (init 0) s ∧ s.master.curNodeId = 0 ∧
    ∃ m' w', s.master.replayFromLocalWitness s.witness [] = some (m', w', 0) ∧
      s.master.replayFromWitness .ok s.witness [] = some (m', w', 0) ∧ ¬Executed s.witness m' := by
  have hrun : ((runs step [.record writer firstPut .ok 0, .crash] (init 0)).bind fun s =>
      (s.master.replayFromLocalWitness s.witness []).map fun (m', _, k) =>
        decide (s.master.curNodeId = 0 ∧ k = 0 ∧ ¬Executed s.witness m')) = some true := by
    decide +kernel
  obtain ⟨s, hr, hrun⟩ := Option.bind_eq_some_iff.mp hrun
  obtain ⟨⟨m', w', k⟩, hrec, hrun⟩ := Option.map_eq_some_iff.mp hrun
  obtain ⟨hid, rfl, hlost⟩ := of_decide_eq_true hrun
  exact ⟨s, reaches_of_runs hr, hid, m', w', hrec, hrec, hlost⟩

end Example

end Deployment

/-! ## Fidelity -/

/-- The record the witness keeps of an operation. -/
structure RecordOf (op : CurpOp) (r : WitnessRecord) : Prop where
  rpcId : r.rpcId = op.rpcId
  key : r.key = op.key
  requestData : r.requestData = serializeRequest op
  clientId : r.clientId = op.clientId

/-- A replay of `records` executes the operation. -/
def Replays (m : CurpMaster) (records : List WitnessRecord) (op : CurpOp) : Prop :=
  ∃ ops, (m.replayOps records).executeCalls = m.executeCalls ++ ops ∧ op ∈ ops

theorem replays_replayed (records : List WitnessRecord) : ∀ {m : CurpMaster} {r : WitnessRecord},
    r ∈ records → ¬m.isExecuted r.rpcId → (∀ x ∈ records, x.rpcId = r.rpcId → x = r) →
      Replays m records (CurpMaster.replayed r) := by
  induction records with
  | nil => intro m r hr; cases hr
  | cons x xs ih =>
    intro m r hr hnew hid
    have hcalls := CurpMaster.replayOp_executeCalls m x
    by_cases hx : x = r
    · obtain ⟨ops, hops, _⟩ := CurpMaster.replayOps_executeCalls xs (m.replayOp x)
      refine ⟨CurpMaster.replayed r :: ops, ?_, List.mem_cons_self⟩
      show ((m.replayOp x).replayOps xs).executeCalls = _
      rw [hops, hcalls, hx, if_neg hnew, List.append_assoc, List.singleton_append]
    · have hr' : r ∈ xs := by
        cases List.mem_cons.mp hr with
        | inl heq => exact absurd heq.symm hx
        | inr hmem => exact hmem
      have hnew' : ¬(m.replayOp x).isExecuted r.rpcId := by
        rw [CurpMaster.replayOp_isExecuted]
        intro h
        cases h with
        | inl h => exact hnew h
        | inr h => exact hx (hid x List.mem_cons_self h)
      obtain ⟨ops, hops, hmem⟩ := ih hr' hnew' fun y hy => hid y (List.mem_cons_of_mem x hy)
      refine ⟨(if m.isExecuted x.rpcId then [] else [CurpMaster.replayed x]) ++ ops, ?_,
        List.mem_append_right _ hmem⟩
      show ((m.replayOp x).replayOps xs).executeCalls = _
      rw [hops, hcalls, List.append_assoc]

/-- **No replay is faithful.** The operation whose record the witness returns is not executed; what
is executed under its id is a put of the request bytes. -/
theorem replay_never_faithful {w : Witness} (hw : Reaches Witness.call {} w) {op : CurpOp}
    {r : WitnessRecord} (hr : RecordOf op r) {masterId : String} {records : List WitnessRecord}
    (hrec : (records : Multiset WitnessRecord) = (w.getRecoveryData masterId).2)
    (hmem : r ∈ records) (m : CurpMaster) :
    ¬Replays m records op ∧ (¬m.isExecuted op.rpcId →
      Replays m records { op with type := .put, value := serializeRequest op }) := by
  have hvalues : ∀ x ∈ records, x ∈ values w.records := by
    intro x hx
    have hx : x ∈ (w.getRecoveryData masterId).2 := hrec ▸ Multiset.mem_coe.mpr hx
    unfold Witness.getRecoveryData at hx
    split at hx
    · cases hx
    · exact hx
  have hid : ∀ x ∈ records, x.rpcId = op.rpcId → x = r := by
    intro x hx heq
    exact (Witness.reaches_witnessInv hw).unique (hvalues x hx) (hvalues r hmem)
      (heq.trans hr.rpcId.symm)
  constructor
  · intro ⟨ops, hcalls, hop⟩
    obtain ⟨ops', hcalls', hops'⟩ := CurpMaster.replayOps_executeCalls records m
    rw [hcalls, List.append_cancel_left_eq] at hcalls'
    obtain ⟨x, hx, heq⟩ := hops' op (hcalls' ▸ hop)
    -- the only record with this id holds the request bytes, which are longer than the value
    have hxr : x = r := hid x hx (by rw [heq]; rfl)
    have hvalue : op.value = serializeRequest op := by
      rw [← hr.requestData, ← hxr]
      exact congrArg CurpOp.value heq
    have hlen := congrArg List.length hvalue
    rw [length_serializeRequest] at hlen
    omega
  · intro hnew
    have hput : CurpMaster.replayed r = { op with type := .put, value := serializeRequest op } := by
      rw [CurpMaster.replayed, hr.rpcId, hr.clientId, hr.key, hr.requestData]
    rw [← hput]
    rw [← hr.rpcId] at hnew hid
    exact replays_replayed records hmem hnew hid

section Example

open Deployment (writer)

def firstDelete : CurpOp := (writer.buildDelete [107]).2

/-- A witness of master "0" that holds the operation. -/
def holding (op : CurpOp) : Witness :=
  (({} : Witness).record "0" op.rpcId op.key (serializeRequest op) op.clientId 0).1

def heldRecord (op : CurpOp) : WitnessRecord :=
  ⟨op.rpcId, op.key, serializeRequest op, op.clientId, 0⟩

theorem replay_never_faithful_delete :
    let m : CurpMaster := { curNodeId := 0 }
    ¬Replays m [heldRecord firstDelete] firstDelete ∧ Replays m [heldRecord firstDelete]
      { firstDelete with type := .put, value := [2, 1, 0, 0, 0, 107, 0, 0, 0, 0] } := by
  intro m
  have hw : Reaches Witness.call {} (holding firstDelete) :=
    .single (a := .record "0" firstDelete.rpcId firstDelete.key (serializeRequest firstDelete)
      firstDelete.clientId 0) rfl
  have hr : RecordOf firstDelete (heldRecord firstDelete) := ⟨rfl, rfl, rfl, rfl⟩
  have hrec : (([heldRecord firstDelete] : List WitnessRecord) : Multiset WitnessRecord) =
      ((holding firstDelete).getRecoveryData "0").2 := by decide +kernel
  have hnot := replay_never_faithful hw hr hrec List.mem_cons_self m
  exact ⟨hnot.1, hnot.2 (by decide)⟩

/-- The delete of a key is replayed as a put of its own request bytes. -/
theorem replay_turns_delete_into_put :
    let m : CurpMaster := { curNodeId := 0 }
    (([heldRecord firstDelete] : List WitnessRecord) : Multiset WitnessRecord) =
      ((holding firstDelete).getRecoveryData "0").2 ∧
    (m.replayOps [heldRecord firstDelete]).executeCalls =
      [{ firstDelete with type := .put, value := [2, 1, 0, 0, 0, 107, 0, 0, 0, 0] }] ∧
    ¬Replays m [heldRecord firstDelete] firstDelete := by
  intro m
  have hcalls : (m.replayOps [heldRecord firstDelete]).executeCalls =
      [{ firstDelete with type := .put, value := [2, 1, 0, 0, 0, 107, 0, 0, 0, 0] }] := by
    decide +kernel
  refine ⟨by decide +kernel, hcalls, ?_⟩
  intro ⟨ops, hops, hop⟩
  rw [hcalls] at hops
  obtain rfl : _ = ops := hops
  exact absurd hop (by decide)

end Example

end TinyKv
