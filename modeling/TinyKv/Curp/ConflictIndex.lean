import TinyKv.Curp.Execution

/-!
# Curp.ConflictIndex

The keys on which a master refuses to go ahead of the sync.

`unsynced_keys_` is kept beside `unsynced_ops_`, which is indexed by `rpc_id`. `Synced` runs a
master with the operations that its syncs have drained so far, which the code itself does not keep.

* `SyncedInv`: the unsynced operations are those that were executed and not drained.
* `conflict_exact`: a read of a key, or a new operation on it, is refused by a `NORMAL` master iff
  some executed operation on the key has not been synced.
-/

namespace TinyKv

open Lib

namespace CurpMaster

/-- A master, and the operations that its syncs have drained. -/
structure Synced where
  master : CurpMaster
  synced : Multiset CurpOp := 0

namespace Synced

/-- Only `doSync` drains, and what it drains is what it builds entries of. -/
def drained (m : CurpMaster) : Action → Multiset CurpOp
  | .doSync => values m.unsyncedOps
  | _ => 0

def step (s : Synced) (a : Action) : Option Synced :=
  (s.master.step a).map fun m' => ⟨m', s.synced + drained s.master a⟩

/-- `op` was executed, and no sync has drained it. -/
def Pending (s : Synced) (op : CurpOp) : Prop := op ∈ s.master.executeCalls ∧ op ∉ s.synced

structure SyncedInv (s : Synced) : Prop where
  master : s.master.MasterInv
  executed : ∀ op ∈ s.synced, op ∈ s.master.executeCalls
  pending : ∀ op, op ∈ values s.master.unsyncedOps ↔ s.Pending op

variable {n : UInt64} {s s' : Synced} {m m' : CurpMaster} {synced : Multiset CurpOp}

theorem init_syncedInv (n : UInt64) : SyncedInv { master := init n } where
  master := init_masterInv n
  executed := fun op h => by cases h
  pending := fun op => by simp [Pending, init]

theorem executeFast_syncedInv (h : SyncedInv ⟨m, synced⟩) {op : CurpOp}
    (hnew : ¬m.isExecuted op.rpcId) : SyncedInv ⟨m.executeFast op, synced⟩ := by
  have hcalls : (m.executeFast op).executeCalls = m.executeCalls ++ [op] := rfl
  have hnone : op.rpcId ∉ m.unsyncedOps := fun hmem => hnew (h.master.unsynced _ hmem)
  have hfresh : op ∉ synced := by
    intro hmem
    exact hnew ((h.master.calls op.rpcId).mpr (List.mem_map_of_mem (h.executed op hmem)))
  refine ⟨executeFast_masterInv h.master hnew, ?_, ?_⟩
  · intro x hx
    show x ∈ (m.executeFast op).executeCalls
    rw [hcalls, List.mem_append]
    exact .inl (h.executed x hx)
  · intro x
    show x ∈ values (m.unsyncedOps.insert op.rpcId op) ↔ _
    rw [mem_values_insert hnone, h.pending, Pending, Pending, hcalls, List.mem_append,
      List.mem_singleton]
    constructor
    · rintro (rfl | ⟨hx, hx'⟩)
      · exact ⟨.inr rfl, hfresh⟩
      · exact ⟨.inl hx, hx'⟩
    · rintro ⟨hx | rfl, hx'⟩
      · exact .inr ⟨hx, hx'⟩
      · exact .inl rfl

theorem drain_syncedInv (h : SyncedInv ⟨m, synced⟩) :
    SyncedInv ⟨m.drain, synced + values m.unsyncedOps⟩ := by
  refine ⟨drain_masterInv h.master, ?_, ?_⟩
  · intro op hop
    rcases Multiset.mem_add.mp hop with hop | hop
    · exact h.executed op hop
    · exact ((h.pending op).mp hop).1
  · intro op
    constructor
    · intro hop
      cases hop
    · rintro ⟨hop, hnot⟩
      rw [Multiset.mem_add, not_or] at hnot
      exact absurd ((h.pending op).mpr ⟨hop, hnot.1⟩) hnot.2

theorem replayOp_syncedInv (h : SyncedInv ⟨m, synced⟩) (r : WitnessRecord) :
    SyncedInv ⟨m.replayOp r, synced⟩ := by
  by_cases hex : m.isExecuted r.rpcId
  · rw [replayOp_old hex]
    exact h
  · have h' : SyncedInv ⟨m.executeFast (replayed r), synced⟩ := executeFast_syncedInv h hex
    refine ⟨replayOp_masterInv h.master r, ?_, ?_⟩
    · rw [replayOp_new hex]
      exact h'.executed
    · rw [replayOp_new hex]
      exact h'.pending

theorem replayOps_syncedInv (rs : List WitnessRecord) :
    ∀ {m : CurpMaster}, SyncedInv ⟨m, synced⟩ → SyncedInv ⟨m.replayOps rs, synced⟩ := by
  induction rs with
  | nil => intro m h; exact h
  | cons r rs ih => intro m h; exact ih (replayOp_syncedInv h r)

theorem proposeBody_syncedInv (h : SyncedInv ⟨m, synced⟩) (op : CurpOp) :
    SyncedInv ⟨(m.proposeBody op).1, synced⟩ := by
  rcases proposeBody_master m op with hm | ⟨hnew, _, hm⟩
  · rw [hm]; exact h
  · rw [hm]; exact executeFast_syncedInv h hnew

theorem propose_syncedInv (h : SyncedInv ⟨m, synced⟩) (op : CurpOp) :
    SyncedInv ⟨(m.propose op).1, synced⟩ := by
  cases propose_master m op with
  | inl hm => rw [hm]; exact h
  | inr hm => rw [hm]; exact proposeBody_syncedInv h op

theorem doSync_syncedInv (h : SyncedInv ⟨m, synced⟩) :
    SyncedInv ⟨(m.doSync none).1, synced + values m.unsyncedOps⟩ := by
  by_cases hempty : m.unsyncedOps = ∅
  · rw [doSync_empty hempty, hempty, values_empty, Multiset.add_zero]
    exact h
  · rw [doSync_drain hempty]
    exact drain_syncedInv h

theorem step_syncedInv {a : Action} (h : s.SyncedInv) (hs : s.step a = some s') : s'.SyncedInv := by
  have hsame : ∀ {m' : CurpMaster}, SyncedInv ⟨m', s.synced⟩ → SyncedInv ⟨m', s.synced + 0⟩ := by
    intro m' h
    rwa [Multiset.add_zero]
  cases a with
  | doSync => cases hs; exact doSync_syncedInv h
  | propose op => cases hs; exact hsame (propose_syncedInv h op)
  | proposeBody op => cases hs; exact hsame (proposeBody_syncedInv h op)
  | read key => cases hs; exact hsame h
  | sync => cases hs; exact hsame h
  | replayOps records => cases hs; exact hsame (replayOps_syncedInv records h)
  | store state =>
    cases hs
    exact hsame ⟨store_masterInv h.master state, h.executed, h.pending⟩

theorem reaches_syncedInv (h : Reaches step { master := init n } s) : s.SyncedInv :=
  h.inv (fun _ _ _ hinv hs => step_syncedInv hinv hs) (init_syncedInv n)

theorem SyncedInv.mem_unsyncedKeys (h : s.SyncedInv) (k : Bytes) :
    k ∈ s.master.unsyncedKeys ↔ ∃ op, s.Pending op ∧ op.key = k := by
  rw [h.master.keys]
  constructor
  · rintro ⟨i, op, hl, hk⟩
    exact ⟨op, (h.pending op).mp (mem_values.mpr ⟨i, hl⟩), hk⟩
  · rintro ⟨op, hop, hk⟩
    obtain ⟨i, hl⟩ := mem_values.mp ((h.pending op).mpr hop)
    exact ⟨i, op, hl, hk⟩

end Synced

theorem read_refused_iff {m : CurpMaster} (hstate : m.curpState = .normal) (k : Bytes) :
    (m.read k).success = false ↔ k ∈ m.unsyncedKeys := by
  rw [read, if_neg (by rw [hstate]; decide)]
  split
  · rename_i hk
    exact ⟨fun _ => hk, fun _ => rfl⟩
  · rename_i hk
    constructor
    · intro h
      cases h
    · intro hk'
      exact absurd hk' hk

theorem propose_refused_iff {m : CurpMaster} (hstate : m.curpState = .normal) {op : CurpOp}
    (hnew : ¬m.isExecuted op.rpcId) :
    (m.propose op).2.success = false ↔ op.key ∈ m.unsyncedKeys := by
  constructor
  · intro hrefused
    by_contra hk
    rw [propose_fast hstate hnew hk] at hrefused
    cases hrefused
  · intro hk
    have hslow : ¬m.canSpeculativeExecute op = true := by
      rw [canSpeculativeExecute_iff]
      exact not_not.mpr hk
    rw [propose_eq (by rw [hstate]; decide), proposeBody, if_neg hnew, if_neg hslow]

/-- **The conflict index is exact.** `unsynced_keys_` holds the keys of `unsynced_ops_`, whose
operations are executed; a `NORMAL` master refuses a read of a key, or a new operation on it, iff
some executed operation on the key has not been synced. -/
theorem conflict_exact {n : UInt64} {s : Synced}
    (h : Reaches Synced.step { master := init n } s) :
    (∀ k, k ∈ s.master.unsyncedKeys ↔ ∃ op ∈ values s.master.unsyncedOps, op.key = k) ∧
    (∀ i ∈ s.master.unsyncedOps, s.master.isExecuted i) ∧
    (s.master.curpState = .normal → ∀ k,
      ((s.master.read k).success = false ↔
        ∃ op ∈ s.master.executeCalls, op ∉ s.synced ∧ op.key = k) ∧
      ∀ op, op.key = k → ¬s.master.isExecuted op.rpcId →
        ((s.master.propose op).2.success = false ↔
          ∃ op ∈ s.master.executeCalls, op ∉ s.synced ∧ op.key = k)) := by
  have hinv := Synced.reaches_syncedInv h
  have hkeys : ∀ k, k ∈ s.master.unsyncedKeys ↔
      ∃ op ∈ s.master.executeCalls, op ∉ s.synced ∧ op.key = k := by
    intro k
    rw [hinv.mem_unsyncedKeys]
    simp only [Synced.Pending, and_assoc]
  refine ⟨?_, hinv.master.unsynced, ?_⟩
  · intro k
    rw [hinv.mem_unsyncedKeys]
    simp only [hinv.pending]
  · intro hstate k
    refine ⟨(read_refused_iff hstate k).trans (hkeys k), ?_⟩
    rintro op rfl hnew
    exact (propose_refused_iff hstate hnew).trans (hkeys op.key)

/-- A synced operation on one key, and a replayed one on another. -/
theorem conflict_exact_two : ∃ s, Reaches Synced.step { master := init 0 } s ∧
    (s.master.read [107]).success = true ∧ (s.master.read [108]).success = false := by
  let op : CurpOp := { rpcId := 7, clientId := 1, type := .put, key := [107], value := [118] }
  let r : WitnessRecord := ⟨8, [108], [], 1, 0⟩
  have hrun : ((runs Synced.step [.propose op, .doSync, .replayOps [r]]
      { master := init 0 }).any fun s => decide (s.master.executeCalls = [op, replayed r] ∧
        s.synced = {op} ∧ s.master.curpState = .normal)) = true := by decide +kernel
  obtain ⟨s, hr, hs⟩ := exists_of_runs hrun
  obtain ⟨hcalls, hsynced, hstate⟩ := of_decide_eq_true hs
  obtain ⟨_, _, hexact⟩ := conflict_exact hr
  refine ⟨s, hr, ?_, ?_⟩
  · rw [← Bool.not_eq_false, (hexact hstate [107]).1, hcalls, hsynced]
    decide
  · rw [(hexact hstate [108]).1, hcalls, hsynced]
    decide

end CurpMaster
end TinyKv
