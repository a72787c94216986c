import TinyKv.Curp.Master

/-!
# Curp.Execution

What a master executes, over whole runs.

Operations are executed by `propose` and by the replay of a witness. Both go by `executed_ops_`, the
only structure that a sync does not clear.

* `MasterInv`: the unsynced operations are executed, `unsyncedKeys` is the set of their keys, and
  the executed ids are those of the calls of `execute_op`, each called once.
* `exactly_once`: no id is executed twice, and an executed one is answered the same way for good.
-/

namespace TinyKv

open Lib

namespace CurpMaster

def init (curNodeId : UInt64) : CurpMaster := { curNodeId := curNodeId }

/-- `proposeBody` is a `propose` that has read the state before; `store` is a store of `recover()`
to `curp_state_`. -/
inductive Action where
  | propose (op : CurpOp)
  | proposeBody (op : CurpOp)
  | read (key : Bytes)
  | sync
  | doSync
  | replayOps (records : List WitnessRecord)
  | store (state : CurpState)

def step (m : CurpMaster) : Action → Option CurpMaster
  | .propose op => some (m.propose op).1
  | .proposeBody op => some (m.proposeBody op).1
  | .read _ => some m
  | .sync => some m.sync
  | .doSync => some (m.doSync none).1
  | .replayOps records => some (m.replayOps records)
  | .store state => some { m with curpState := state }

structure MasterInv (m : CurpMaster) : Prop where
  ids : ∀ i op, m.unsyncedOps.lookup i = some op → op.rpcId = i
  unsynced : ∀ i ∈ m.unsyncedOps, m.isExecuted i
  keys : ∀ k, k ∈ m.unsyncedKeys ↔ ∃ i op, m.unsyncedOps.lookup i = some op ∧ op.key = k
  calls : ∀ i, m.isExecuted i ↔ i ∈ m.executeCalls.map CurpOp.rpcId
  once : (m.executeCalls.map CurpOp.rpcId).Nodup

variable {n : UInt64} {m m' : CurpMaster} {op : CurpOp}

theorem init_masterInv (n : UInt64) : (init n).MasterInv where
  ids := fun i op h => by cases h
  unsynced := fun i h => absurd h Finmap.notMem_empty
  keys := by simp [init]
  calls := by simp [init, isExecuted, Finmap.notMem_empty]
  once := List.nodup_nil

theorem executeFast_lookup {i : UInt64} :
    (m.executeFast op).unsyncedOps.lookup i =
      if i = op.rpcId then some op else m.unsyncedOps.lookup i := by
  rw [executeFast_unsyncedOps, lookup_insert_if]

theorem MasterInv.lookup_new (h : m.MasterInv) (hnew : ¬m.isExecuted op.rpcId) :
    m.unsyncedOps.lookup op.rpcId = none := by
  rw [Finmap.lookup_eq_none]
  intro hmem
  exact hnew (h.unsynced _ hmem)

theorem executeFast_masterInv (h : m.MasterInv) (hnew : ¬m.isExecuted op.rpcId) :
    (m.executeFast op).MasterInv := by
  have hnone := h.lookup_new hnew
  have hcalls : (m.executeFast op).executeCalls.map CurpOp.rpcId =
      m.executeCalls.map CurpOp.rpcId ++ [op.rpcId] := List.map_append
  constructor
  · intro i x hl
    rw [executeFast_lookup] at hl
    split at hl
    · rename_i hi
      cases hl
      exact hi.symm
    · exact h.ids i x hl
  · intro i hmem
    rw [executeFast_unsyncedOps, Finmap.mem_insert] at hmem
    rw [executeFast_isExecuted]
    exact hmem.imp_right (h.unsynced i)
  · intro k
    rw [executeFast_unsyncedKeys, Finset.mem_insert, h.keys]
    constructor
    · rintro (rfl | ⟨i, x, hl, hk⟩)
      · exact ⟨op.rpcId, op, by rw [executeFast_lookup, if_pos rfl], rfl⟩
      · refine ⟨i, x, ?_, hk⟩
        rw [executeFast_lookup, if_neg, hl]
        rintro rfl
        rw [hnone] at hl
        cases hl
    · rintro ⟨i, x, hl, hk⟩
      rw [executeFast_lookup] at hl
      split at hl
      · cases hl
        exact .inl hk.symm
      · exact .inr ⟨i, x, hl, hk⟩
  · intro i
    rw [executeFast_isExecuted, hcalls, List.mem_append, List.mem_singleton, h.calls, or_comm]
  · rw [hcalls, List.nodup_append]
    refine ⟨h.once, List.nodup_singleton _, ?_⟩
    intro i hi j hj heq
    rw [List.mem_singleton.mp hj] at heq
    rw [heq, ← h.calls] at hi
    exact hnew hi

theorem drain_masterInv (h : m.MasterInv) : m.drain.MasterInv where
  ids := fun i op hl => by cases hl
  unsynced := fun i hi => absurd hi Finmap.notMem_empty
  keys := by simp
  calls := h.calls
  once := h.once

theorem replayOp_new {r : WitnessRecord} (hnew : ¬m.isExecuted r.rpcId) :
    m.replayOp r =
      { m.executeFast (replayed r) with totalRecovered := m.totalRecovered + 1 } := if_neg hnew

theorem replayOp_old {r : WitnessRecord} (hold : m.isExecuted r.rpcId) : m.replayOp r = m :=
  if_pos hold

theorem replayOp_masterInv (h : m.MasterInv) (r : WitnessRecord) : (m.replayOp r).MasterInv := by
  by_cases hex : m.isExecuted r.rpcId
  · rw [replayOp_old hex]
    exact h
  · rw [replayOp_new hex]
    have h' : (m.executeFast (replayed r)).MasterInv := executeFast_masterInv h hex
    exact ⟨h'.ids, h'.unsynced, h'.keys, h'.calls, h'.once⟩

theorem replayOps_masterInv (rs : List WitnessRecord) :
    ∀ {m : CurpMaster}, m.MasterInv → (m.replayOps rs).MasterInv := by
  induction rs with
  | nil => intro m h; exact h
  | cons r rs ih => intro m h; exact ih (replayOp_masterInv h r)

theorem executeFast_unsynced : (m.executeFast op).unsyncedOps ≠ ∅ := by
  intro hempty
  have hmem : op.rpcId ∈ (m.executeFast op).unsyncedOps := Finmap.mem_insert.mpr (.inl rfl)
  rw [hempty] at hmem
  exact Finmap.notMem_empty hmem

theorem replayOps_unsyncedOps (rs : List WitnessRecord) : ∀ (m : CurpMaster),
    (m.replayOps rs).unsyncedOps = ∅ ↔ m.unsyncedOps = ∅ ∧ ∀ r ∈ rs, m.isExecuted r.rpcId := by
  induction rs with
  | nil => intro m; simp [replayOps]
  | cons r rs ih =>
    intro m
    have hrest : m.replayOps (r :: rs) = (m.replayOp r).replayOps rs := rfl
    rw [hrest, ih, List.forall_mem_cons]
    by_cases hex : m.isExecuted r.rpcId
    · rw [replayOp_old hex, and_iff_right hex]
    · rw [replayOp_new hex]
      constructor
      · rintro ⟨hempty, _⟩
        exact absurd hempty executeFast_unsynced
      · rintro ⟨_, hr, _⟩
        exact absurd hr hex

theorem proposeBody_masterInv (h : m.MasterInv) (op : CurpOp) :
    (m.proposeBody op).1.MasterInv := by
  rcases proposeBody_master m op with hm | ⟨hnew, _, hm⟩
  · rw [hm]; exact h
  · rw [hm]; exact executeFast_masterInv h hnew

theorem propose_masterInv (h : m.MasterInv) (op : CurpOp) : (m.propose op).1.MasterInv := by
  cases propose_master m op with
  | inl hm => rw [hm]; exact h
  | inr hm => rw [hm]; exact proposeBody_masterInv h op

theorem doSync_masterInv (h : m.MasterInv) (w : Option Witness) : (m.doSync w).1.MasterInv := by
  by_cases hempty : m.unsyncedOps = ∅
  · rw [doSync_empty hempty]; exact h
  · rw [doSync_drain hempty]; exact drain_masterInv h

theorem MasterInv.keys_empty (h : m.MasterInv) (hempty : m.unsyncedOps = ∅) :
    m.unsyncedKeys = ∅ := by
  apply Finset.eq_empty_of_forall_notMem
  intro k hk
  obtain ⟨i, op, hl, _⟩ := (h.keys k).mp hk
  rw [hempty] at hl
  cases hl

theorem store_masterInv (h : m.MasterInv) (state : CurpState) :
    MasterInv { m with curpState := state } := ⟨h.ids, h.unsynced, h.keys, h.calls, h.once⟩

theorem step_masterInv {a : Action} (h : m.MasterInv) (hs : m.step a = some m') :
    m'.MasterInv := by
  cases a with
  | propose op => cases hs; exact propose_masterInv h op
  | proposeBody op => cases hs; exact proposeBody_masterInv h op
  | read key => cases hs; exact h
  | sync => cases hs; exact h
  | doSync => cases hs; exact doSync_masterInv h none
  | replayOps records => cases hs; exact replayOps_masterInv records h
  | store state => cases hs; exact store_masterInv h state

theorem reaches_masterInv (h : Reaches step (init n) m) : m.MasterInv :=
  h.inv (fun _ _ _ hinv hs => step_masterInv hinv hs) (init_masterInv n)

theorem proposeBody_executed (op : CurpOp) {i : UInt64} (h : m.isExecuted i) :
    (m.proposeBody op).1.isExecuted i := by
  rcases proposeBody_master m op with hm | ⟨_, _, hm⟩
  · rw [hm]; exact h
  · rw [hm, executeFast_isExecuted]; exact .inr h

theorem propose_executed (op : CurpOp) {i : UInt64} (h : m.isExecuted i) :
    (m.propose op).1.isExecuted i := by
  cases propose_master m op with
  | inl hm => rw [hm]; exact h
  | inr hm => rw [hm]; exact proposeBody_executed op h

theorem doSync_executed (w : Option Witness) {i : UInt64} (h : m.isExecuted i) :
    (m.doSync w).1.isExecuted i := by
  by_cases hempty : m.unsyncedOps = ∅
  · rw [doSync_empty hempty]; exact h
  · rw [doSync_drain hempty, drain_isExecuted]; exact h

theorem step_executed {a : Action} {i : UInt64} (h : m.isExecuted i) (hs : m.step a = some m') :
    m'.isExecuted i := by
  cases a with
  | propose op => cases hs; exact propose_executed op h
  | proposeBody op => cases hs; exact proposeBody_executed op h
  | read key => cases hs; exact h
  | sync => cases hs; exact h
  | doSync => cases hs; exact doSync_executed none h
  | replayOps records => cases hs; exact (replayOps_isExecuted records).mpr (.inl h)
  | store state => cases hs; exact h

theorem reaches_executed {i : UInt64} (h : m.isExecuted i) (hs : Reaches step m m') :
    m'.isExecuted i := hs.inv (fun _ _ _ hex hstep => step_executed hex hstep) h

theorem propose_again (hstate : m.curpState = .normal) (hex : m.isExecuted op.rpcId) :
    m.propose op = (m, ⟨true, true, false, ""⟩) := by
  rw [propose_eq (by rw [hstate]; decide), proposeBody, if_pos hex]

/-- **Exactly once, with stable replies.** No id is executed twice, and from then on every proposal
with this id, while the state is `NORMAL`, gets the fast-path reply and leaves the master as it
is. -/
theorem exactly_once (hm : Reaches step (init n) m) :
    (∀ i, (m.executeCalls.map CurpOp.rpcId).count i ≤ 1) ∧
    ∀ m', Reaches step m m' → m'.curpState = .normal → ∀ op,
      op.rpcId ∈ m.executeCalls.map CurpOp.rpcId →
      m'.propose op = (m', ⟨true, true, false, ""⟩) := by
  have hinv := reaches_masterInv hm
  refine ⟨List.nodup_iff_count_le_one.mp hinv.once, ?_⟩
  intro m' hrun hstate op hop
  exact propose_again hstate (reaches_executed ((hinv.calls op.rpcId).mpr hop) hrun)

/-- An operation is executed and synced; its record is replayed, and the client retries it. -/
theorem exactly_once_retry :
    let op : CurpOp := { rpcId := 7, clientId := 1, type := .put, key := [107], value := [118] }
    ∃ m, Reaches step (init 0) m ∧ m.unsyncedOps = ∅ ∧ m.executeCalls = [op] ∧
      m.propose op = (m, ⟨true, true, false, ""⟩) := by
  intro op
  have hrun : ((runs step [.propose op, .doSync, .replayOps [⟨7, [107], [], 1, 0⟩]] (init 0)).any
      fun m => decide (m.unsyncedOps = ∅ ∧ m.executeCalls = [op] ∧ m.curpState = .normal)) =
        true := by decide +kernel
  obtain ⟨m, hr, hm⟩ := exists_of_runs hrun
  obtain ⟨hempty, hcalls, hstate⟩ := of_decide_eq_true hm
  refine ⟨m, hr, hempty, hcalls, ?_⟩
  exact (exactly_once hr).2 m .refl hstate op (by rw [hcalls]; exact List.mem_cons_self)

end CurpMaster
end TinyKv
