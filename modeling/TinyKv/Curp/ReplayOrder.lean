import TinyKv.Curp.Execution
import TinyKv.Curp.Repeat
import TinyKv.Lib.Table

/-!
# Curp.ReplayOrder

The order in which a witness lists its records, which is that of a hash table, does not matter to
the replay.

The loop of `replay_ops` skips what is executed and overwrites by `rpc_id`, so two of its turns
commute where the ids differ. The records of a witness have distinct ids (`WitnessInv`), and
`replayOps_order` follows from this.
-/

namespace TinyKv

open Lib

namespace CurpMaster

/-- The same master, up to the order in which `execute_op` was called. -/
structure Alike (m m' : CurpMaster) : Prop where
  executed : m.executedOps = m'.executedOps
  ops : m.unsyncedOps = m'.unsyncedOps
  keys : m.unsyncedKeys = m'.unsyncedKeys
  recovered : m.totalRecovered = m'.totalRecovered
  calls : m.executeCalls.Perm m'.executeCalls

variable {m m' m'' : CurpMaster} {r r' : WitnessRecord}

theorem Alike.refl (m : CurpMaster) : m.Alike m := ⟨rfl, rfl, rfl, rfl, .refl _⟩

theorem Alike.trans (h : m.Alike m') (h' : m'.Alike m'') : m.Alike m'' where
  executed := h.executed.trans h'.executed
  ops := h.ops.trans h'.ops
  keys := h.keys.trans h'.keys
  recovered := h.recovered.trans h'.recovered
  calls := h.calls.trans h'.calls

theorem Alike.isExecuted (h : m.Alike m') {i : UInt64} : m.isExecuted i ↔ m'.isExecuted i := by
  rw [CurpMaster.isExecuted, CurpMaster.isExecuted, h.executed]

theorem replayOp_alike (h : m.Alike m') (r : WitnessRecord) :
    (m.replayOp r).Alike (m'.replayOp r) := by
  by_cases hex : m.isExecuted r.rpcId
  · rw [replayOp_old hex, replayOp_old (h.isExecuted.mp hex)]
    exact h
  · rw [replayOp_new hex, replayOp_new (mt h.isExecuted.mpr hex)]
    constructor
    · exact congrArg (·.insert r.rpcId []) h.executed
    · exact congrArg (·.insert r.rpcId (replayed r)) h.ops
    · exact congrArg (insert r.key) h.keys
    · exact congrArg (· + 1) h.recovered
    · exact h.calls.append_right [replayed r]

theorem replayOp_comm (m : CurpMaster) (hne : r.rpcId ≠ r'.rpcId) :
    ((m.replayOp r).replayOp r').Alike ((m.replayOp r').replayOp r) := by
  have hkeep : ∀ {i : UInt64} (r : WitnessRecord), m.isExecuted i → (m.replayOp r).isExecuted i :=
    fun _ hi => replayOp_isExecuted.mpr (.inl hi)
  by_cases hex : m.isExecuted r.rpcId
  · rw [replayOp_old hex, replayOp_old (hkeep r' hex)]
    exact .refl _
  by_cases hex' : m.isExecuted r'.rpcId
  · rw [replayOp_old hex', replayOp_old (hkeep r hex')]
    exact .refl _
  -- both are new, and neither makes the other an executed one
  have hnew : ¬(m.replayOp r').isExecuted r.rpcId := by
    rw [replayOp_isExecuted]
    rintro (h | h)
    · exact hex h
    · exact hne h.symm
  have hnew' : ¬(m.replayOp r).isExecuted r'.rpcId := by
    rw [replayOp_isExecuted]
    rintro (h | h)
    · exact hex' h
    · exact hne h
  rw [replayOp_new hnew, replayOp_new hnew', replayOp_new hex, replayOp_new hex']
  constructor
  · exact Finmap.insert_insert_of_ne _ hne
  · exact Finmap.insert_insert_of_ne _ hne
  · exact Finset.insert_comm _ _ _
  · rfl
  · show (m.executeCalls ++ [replayed r] ++ [replayed r']).Perm
      (m.executeCalls ++ [replayed r'] ++ [replayed r])
    rw [List.append_assoc, List.append_assoc]
    exact (List.Perm.swap _ _ _).append_left _

theorem replayOps_alike {rs rs' : List WitnessRecord} (hperm : rs.Perm rs')
    (hids : ∀ r ∈ rs, ∀ r' ∈ rs, r.rpcId = r'.rpcId → r = r') (m : CurpMaster) :
    (m.replayOps rs).Alike (m.replayOps rs') := by
  refine foldl_perm hperm Alike.refl (fun _ _ _ => Alike.trans) ?_ ?_ m
  · intro r m m' h
    exact replayOp_alike h r
  · intro r hr r' hr' m
    by_cases heq : r.rpcId = r'.rpcId
    · rw [hids r hr r' hr' heq]
      exact .refl _
    · exact replayOp_comm m heq

theorem getRecoveryData_ids {w : Witness} (h : Reaches Witness.call {} w) (masterId : String)
    {r r' : WitnessRecord} (hr : r ∈ (w.getRecoveryData masterId).2)
    (hr' : r' ∈ (w.getRecoveryData masterId).2) (heq : r.rpcId = r'.rpcId) : r = r' := by
  have hmem : ∀ {r : WitnessRecord}, r ∈ (w.getRecoveryData masterId).2 → r ∈ values w.records := by
    intro r hr
    rw [Witness.getRecoveryData] at hr
    split at hr
    · cases hr
    · exact hr
  exact (Witness.reaches_witnessInv h).unique (hmem hr) (hmem hr') heq

/-- Replays of the data of a witness in two orders: the same master, and the same calls. -/
theorem replayOps_order {w : Witness} (hw : Reaches Witness.call {} w) (masterId : String)
    {rs rs' : List WitnessRecord}
    (hrs : (rs : Multiset WitnessRecord) = (w.getRecoveryData masterId).2)
    (hrs' : (rs' : Multiset WitnessRecord) = (w.getRecoveryData masterId).2) (m : CurpMaster) :
    (m.replayOps rs).executedOps = (m.replayOps rs').executedOps ∧
    (m.replayOps rs).unsyncedOps = (m.replayOps rs').unsyncedOps ∧
    (m.replayOps rs).unsyncedKeys = (m.replayOps rs').unsyncedKeys ∧
    (m.replayOps rs).totalRecovered = (m.replayOps rs').totalRecovered ∧
    ∃ ops ops', (m.replayOps rs).executeCalls = m.executeCalls ++ ops ∧
      (m.replayOps rs').executeCalls = m.executeCalls ++ ops' ∧ ops.Perm ops' := by
  have hperm : rs.Perm rs' := Multiset.coe_eq_coe.mp (hrs.trans hrs'.symm)
  have hids : ∀ r ∈ rs, ∀ r' ∈ rs, r.rpcId = r'.rpcId → r = r' := by
    intro r hr r' hr' heq
    rw [← Multiset.mem_coe, hrs] at hr hr'
    exact getRecoveryData_ids hw masterId hr hr' heq
  obtain ⟨hexecuted, hops, hkeys, hrecovered, hcalls⟩ := replayOps_alike hperm hids m
  obtain ⟨ops, heq, _⟩ := replayOps_executeCalls rs m
  obtain ⟨ops', heq', _⟩ := replayOps_executeCalls rs' m
  rw [heq, heq', List.perm_append_left_iff] at hcalls
  exact ⟨hexecuted, hops, hkeys, hrecovered, ops, ops', heq, heq', hcalls⟩

/-- Two records, replayed in both orders on a new master. -/
theorem replayOps_order_two :
    ((init 0).replayOps [Witness.fillRecord 0, Witness.fillRecord 1]).unsyncedOps =
      ((init 0).replayOps [Witness.fillRecord 1, Witness.fillRecord 0]).unsyncedOps :=
  (replayOps_order (Witness.filled_reaches 2) "m" (by decide) (by decide) (init 0)).2.1

end CurpMaster
end TinyKv
