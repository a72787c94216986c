import TinyKv.Curp.Commute
import TinyKv.Curp.ConflictIndex
import TinyKv.Lib.Store

/-!
# Curp.Speculation

What it means for a key value store that a master executes ahead of the sync.

`execute_op` only writes to the log output, and `do_sync` builds entries that go nowhere (and do not
tell a delete from a put of the empty value). Here an operation is a command on a store, and
`SyncTrail` keeps the operations that the syncs have taken, in the order in which the hash table
happened to list them.

* `TrailInv.calls`: on every key, the calls of `execute_op` are what was synced and then what is
  not, in whatever order.
* `speculation_any_order`, `read_synced`: the synced operations and then the others lead to what the
  master has executed in any order, and a read is answered only where the synced ones are enough.
-/

namespace TinyKv

open Lib

def CurpOp.command (op : CurpOp) : Command Bytes Bytes :=
  match op.type with
  | .put => .put op.key op.value
  | .get => .get op.key
  | .deleteOp => .delete op.key

@[simp] theorem CurpOp.command_key (op : CurpOp) : op.command.key = op.key := by
  unfold command
  split <;> rfl

/-- The store after the operations, one by one. -/
def executed (st : Store Bytes Bytes) (ops : List CurpOp) : Store Bytes Bytes :=
  st.applyAll (ops.map CurpOp.command)

theorem executed_append (st : Store Bytes Bytes) (ops ops' : List CurpOp) :
    executed st (ops ++ ops') = executed (executed st ops) ops' := by
  rw [executed, List.map_append, Store.applyAll_append]
  rfl

theorem filter_command (ops : List CurpOp) (k : Bytes) :
    (ops.map CurpOp.command).filter (·.key = k) =
      (ops.filter (·.key = k)).map CurpOp.command := by
  rw [List.filter_map]
  congr 2
  funext op
  rw [Function.comp, CurpOp.command_key]

theorem executed_eq {ops ops' : List CurpOp}
    (h : ∀ k, ops.filter (·.key = k) = ops'.filter (·.key = k)) (st : Store Bytes Bytes) :
    executed st ops = executed st ops' :=
  Store.applyAll_eq (fun k => by rw [filter_command, filter_command, h k]) st

theorem executed_on {ops ops' : List CurpOp} {k : Bytes}
    (h : ops.filter (·.key = k) = ops'.filter (·.key = k)) (st : Store Bytes Bytes) :
    executed st ops k = executed st ops' k := by
  rw [executed, executed, Store.applyAll_on, filter_command, h, ← filter_command,
    ← Store.applyAll_on]

namespace CurpMaster

/-- A master, and the operations that its syncs have taken from `unsynced_ops_`. -/
structure SyncTrail where
  master : CurpMaster
  synced : List CurpOp := []

namespace SyncTrail

/-- An action comes with the order in which a sync goes through `unsynced_ops_`, and with none where
it does not sync. -/
def step (s : SyncTrail) (a : Action × List CurpOp) : Option SyncTrail :=
  if (a.2 : Multiset CurpOp) = Synced.drained s.master a.1 then
    (s.master.step a.1).map fun m' => ⟨m', s.synced ++ a.2⟩
  else none

/-- A replay has the records of one witness, and the keys of the new ones are free. -/
def ReplayOk (s : SyncTrail) (a : Action × List CurpOp) : Prop :=
  ∀ records, a.1 = .replayOps records → Distinct records ∧ s.master.ReplayFree records

structure TrailInv (s : SyncTrail) : Prop where
  master : s.master.MasterInv
  commutes : s.master.Commutes
  calls : ∀ pending : List CurpOp, (pending : Multiset CurpOp) = values s.master.unsyncedOps →
    ∀ k, s.master.executeCalls.filter (·.key = k) = (s.synced ++ pending).filter (·.key = k)

variable {n : UInt64} {s s' : SyncTrail} {m : CurpMaster} {synced : List CurpOp}

theorem init_trailInv (n : UInt64) : TrailInv { master := init n } where
  master := init_masterInv n
  commutes := init_commutes n
  calls := by
    intro pending hp k
    obtain rfl : pending = [] := (Multiset.coe_eq_zero _).mp hp
    rfl

theorem pending_pairwise (h : m.MasterInv) (hc : m.Commutes) {pending : List CurpOp}
    (hp : (pending : Multiset CurpOp) = values m.unsyncedOps) :
    pending.Pairwise fun a b => a.key ≠ b.key := by
  have hids : (pending.map CurpOp.rpcId).Nodup := by
    rw [← Multiset.coe_nodup, ← Multiset.map_coe, hp]
    exact nodup_map_values h.ids
  apply hids.of_map.pairwise_of_forall_ne
  intro a ha b hb hne hkey
  have hmem : ∀ x ∈ pending, ∃ i, m.unsyncedOps.lookup i = some x := by
    intro x hx
    rw [← Multiset.mem_coe, hp] at hx
    exact mem_values.mp hx
  obtain ⟨i, hi⟩ := hmem a ha
  obtain ⟨j, hj⟩ := hmem b hb
  obtain rfl := hc i j a b hi hj hkey
  rw [hi, Option.some.injEq] at hj
  exact hne hj

theorem executeFast_trailInv (h : TrailInv ⟨m, synced⟩) {op : CurpOp}
    (hnew : ¬m.isExecuted op.rpcId) (hkey : op.key ∉ m.unsyncedKeys) :
    TrailInv ⟨m.executeFast op, synced⟩ := by
  have hmaster := executeFast_masterInv h.master hnew
  have hcommutes := executeFast_commutes h.master h.commutes hkey
  refine ⟨hmaster, hcommutes, ?_⟩
  intro pending' hp' k
  obtain ⟨pending, hp⟩ := Quot.exists_rep (values m.unsyncedOps)
  have hp : (pending : Multiset CurpOp) = values m.unsyncedOps := hp
  have hnone : op.rpcId ∉ m.unsyncedOps := fun hmem => hnew (h.master.unsynced _ hmem)
  have hvalues : values (m.executeFast op).unsyncedOps = op ::ₘ values m.unsyncedOps := by
    rw [executeFast_unsyncedOps, values_insert hnone]
  have hperm : pending'.Perm (pending ++ [op]) := by
    rw [← Multiset.coe_eq_coe, hp', hvalues, ← hp, Multiset.cons_coe, Multiset.coe_eq_coe]
    exact (List.perm_append_singleton op pending).symm
  have hfilter := filter_eq_of_perm hperm (pending_pairwise hmaster hcommutes hp') k
  have hcalls : (m.executeFast op).executeCalls = m.executeCalls ++ [op] := rfl
  rw [hcalls, List.filter_append, h.calls pending hp k, List.filter_append, List.filter_append,
    hfilter, List.filter_append, List.append_assoc]

theorem proposeBody_trailInv (h : TrailInv ⟨m, synced⟩) (op : CurpOp) :
    TrailInv ⟨(m.proposeBody op).1, synced⟩ := by
  rcases proposeBody_master m op with hm | ⟨hnew, hkey, hm⟩
  · rw [hm]; exact h
  · rw [hm]; exact executeFast_trailInv h hnew hkey

theorem propose_trailInv (h : TrailInv ⟨m, synced⟩) (op : CurpOp) :
    TrailInv ⟨(m.propose op).1, synced⟩ := by
  cases propose_master m op with
  | inl hm => rw [hm]; exact h
  | inr hm => rw [hm]; exact proposeBody_trailInv h op

theorem replayOp_trailInv (h : TrailInv ⟨m, synced⟩) {r : WitnessRecord}
    (hfree : ¬m.isExecuted r.rpcId → r.key ∉ m.unsyncedKeys) :
    TrailInv ⟨m.replayOp r, synced⟩ := by
  by_cases hex : m.isExecuted r.rpcId
  · rw [replayOp_old hex]
    exact h
  · have h' : TrailInv ⟨m.executeFast (replayed r), synced⟩ :=
      executeFast_trailInv h hex (hfree hex)
    refine ⟨replayOp_masterInv h.master r, replayOp_commutes h.master h.commutes hfree, ?_⟩
    rw [replayOp_new hex]
    exact h'.calls

theorem replayOps_trailInv (records : List WitnessRecord) : ∀ {m : CurpMaster},
    TrailInv ⟨m, synced⟩ → Distinct records → m.ReplayFree records →
    TrailInv ⟨m.replayOps records, synced⟩ := by
  induction records with
  | nil => intro m h _ _; exact h
  | cons r rs ih =>
    intro m h hd hf
    have hr := replayOp_trailInv h (hf r List.mem_cons_self)
    exact ih hr (List.pairwise_cons.mp hd).2 (replayOp_free hd hf)

theorem drain_trailInv (h : TrailInv ⟨m, synced⟩) {order : List CurpOp}
    (ho : (order : Multiset CurpOp) = values m.unsyncedOps) :
    TrailInv ⟨m.drain, synced ++ order⟩ := by
  refine ⟨drain_masterInv h.master, drain_commutes, ?_⟩
  intro pending hp k
  obtain rfl : pending = [] := (Multiset.coe_eq_zero _).mp hp
  rw [List.append_nil]
  exact h.calls order ho k

theorem doSync_trailInv (h : TrailInv ⟨m, synced⟩) {order : List CurpOp}
    (ho : (order : Multiset CurpOp) = values m.unsyncedOps) :
    TrailInv ⟨(m.doSync none).1, synced ++ order⟩ := by
  by_cases hempty : m.unsyncedOps = ∅
  · rw [hempty, values_empty, Multiset.coe_eq_zero] at ho
    rw [doSync_empty hempty, ho, List.append_nil]
    exact h
  · rw [doSync_drain hempty]
    exact drain_trailInv h ho

theorem step_trailInv {a : Action × List CurpOp} (h : s.TrailInv) (hok : s.ReplayOk a)
    (hs : s.step a = some s') : s'.TrailInv := by
  obtain ⟨a, order⟩ := a
  obtain ⟨ho, hs⟩ := Option.ite_none_right_eq_some.mp hs
  have hsame : ∀ {m' : CurpMaster}, (order : Multiset CurpOp) = 0 → TrailInv ⟨m', s.synced⟩ →
      TrailInv ⟨m', s.synced ++ order⟩ := by
    intro m' h0 h
    rw [(Multiset.coe_eq_zero _).mp h0, List.append_nil]
    exact h
  cases a with
  | doSync => cases hs; exact doSync_trailInv h ho
  | propose op => cases hs; exact hsame ho (propose_trailInv h op)
  | proposeBody op => cases hs; exact hsame ho (proposeBody_trailInv h op)
  | read key => cases hs; exact hsame ho h
  | sync => cases hs; exact hsame ho h
  | replayOps records =>
    cases hs
    obtain ⟨hd, hf⟩ := hok records rfl
    exact hsame ho (replayOps_trailInv records h hd hf)
  | store state =>
    cases hs
    exact hsame ho ⟨store_masterInv h.master state, h.commutes, h.calls⟩

theorem reaches_trailInv (h : ReachesIf ReplayOk step { master := init n } s) : s.TrailInv :=
  h.inv (fun _ _ _ hinv hok hs => step_trailInv hinv hok hs) (init_trailInv n)

/-- An evaluable condition for `ReplayOk`. -/
def replayFits (s : SyncTrail) : Action × List CurpOp → Bool
  | (.replayOps records, _) =>
    decide (records.Pairwise fun r r' => r.key ≠ r'.key ∧ r.rpcId ≠ r'.rpcId) &&
      records.all (·.key ∉ s.master.unsyncedKeys)
  | _ => true

theorem replayOk_of_fits (s : SyncTrail) (a : Action × List CurpOp) (h : s.replayFits a = true) :
    s.ReplayOk a := by
  obtain ⟨a, order⟩ := a
  rintro records rfl
  obtain ⟨hd, hfree⟩ := (Bool.and_eq_true _ _).mp h
  have hd : records.Pairwise fun r r' => r.key ≠ r'.key ∧ r.rpcId ≠ r'.rpcId :=
    of_decide_eq_true hd
  exact ⟨hd, fun r hr _ => of_decide_eq_true (List.all_eq_true.mp hfree r hr)⟩

end SyncTrail

/-- **Execution ahead of the sync is sound.** As long as no replay takes a key that is not synced,
the store after the calls of `execute_op` is the one after the operations of the syncs, those of
each in any order, and then what is unsynced, in any order again. -/
theorem speculation_any_order {n : UInt64} {s : SyncTrail}
    (h : ReachesIf SyncTrail.ReplayOk SyncTrail.step { master := init n } s)
    (st : Store Bytes Bytes) {pending : List CurpOp}
    (hp : (pending : Multiset CurpOp) = values s.master.unsyncedOps) :
    executed st s.master.executeCalls = executed (executed st s.synced) pending := by
  rw [← executed_append]
  exact executed_eq ((SyncTrail.reaches_trailInv h).calls pending hp) st

/-- Two writes are synced in the other order, a third is pending, and a replay brings a fourth. -/
theorem speculation_any_order_two :
    let x : CurpOp := { rpcId := 1, clientId := 1, type := .put, key := [107], value := [1] }
    let y : CurpOp := { rpcId := 2, clientId := 1, type := .deleteOp, key := [108] }
    let z : CurpOp := { rpcId := 3, clientId := 1, type := .put, key := [107], value := [2] }
    let r : WitnessRecord := ⟨4, [108], [7], 1, 0⟩
    ∃ s, ReachesIf SyncTrail.ReplayOk SyncTrail.step { master := init 0 } s ∧
      s.master.executeCalls = [x, y, z, replayed r] ∧ s.synced = [y, x] ∧
      ∀ st, executed st [x, y, z, replayed r] = executed (executed st [y, x]) [replayed r, z] := by
  intro x y z r
  obtain ⟨s, hs, hp⟩ := exists_of_runsIf (s := { master := init 0 }) SyncTrail.step
    SyncTrail.replayOk_of_fits
    [(.propose x, []), (.propose y, []), (.doSync, [y, x]), (.propose z, []), (.replayOps [r], [])]
    (fun s => decide (s.master.executeCalls = [x, y, z, replayed r] ∧ s.synced = [y, x] ∧
      (([replayed r, z] : List CurpOp) : Multiset CurpOp) = values s.master.unsyncedOps))
    (by decide +kernel)
  obtain ⟨hcalls, hsynced, hpending⟩ := decide_eq_true_eq.mp hp
  refine ⟨s, hs, hcalls, hsynced, fun st => ?_⟩
  have hstore := speculation_any_order hs st hpending
  rw [hcalls, hsynced] at hstore
  exact hstore

/-- **A read is answered only from what is synced**: where `read` succeeds, the synced operations
leave under the key what all executed ones do. -/
theorem read_synced {n : UInt64} {s : SyncTrail}
    (h : ReachesIf SyncTrail.ReplayOk SyncTrail.step { master := init n } s)
    (st : Store Bytes Bytes) {k : Bytes} (hread : (s.master.read k).success = true) :
    executed st s.master.executeCalls k = executed st s.synced k := by
  have hinv := SyncTrail.reaches_trailInv h
  obtain ⟨pending, hp⟩ := Quot.exists_rep (values s.master.unsyncedOps)
  have hfree : k ∉ s.master.unsyncedKeys := by
    intro hk
    rw [read, if_pos hk, ite_self] at hread
    cases hread
  have hnone : pending.filter (·.key = k) = [] := by
    rw [List.filter_eq_nil_iff]
    intro op hop hk
    rw [← Multiset.mem_coe, show (pending : Multiset CurpOp) = _ from hp, mem_values] at hop
    obtain ⟨i, hl⟩ := hop
    exact hfree ((hinv.master.keys k).mpr ⟨i, op, hl, by simpa using hk⟩)
  apply executed_on
  rw [hinv.calls pending hp k, List.filter_append, hnone, List.append_nil]

/-- A write of one key is synced and one of another is pending. -/
theorem read_synced_one :
    let x : CurpOp := { rpcId := 1, clientId := 1, type := .put, key := [107], value := [1] }
    ∃ s, ReachesIf SyncTrail.ReplayOk SyncTrail.step { master := init 0 } s ∧ s.synced = [x] ∧
      (s.master.read [108]).success = false ∧ (s.master.read [107]).success = true ∧
      ∀ st, executed st s.master.executeCalls [107] = executed st s.synced [107] := by
  intro x
  let y : CurpOp := { rpcId := 2, clientId := 1, type := .put, key := [108], value := [2] }
  obtain ⟨s, hs, hp⟩ := exists_of_runsIf (s := { master := init 0 }) SyncTrail.step
    SyncTrail.replayOk_of_fits [(.propose x, []), (.doSync, [x]), (.propose y, [])]
    (fun s => decide (s.synced = [x] ∧ (s.master.read [108]).success = false ∧
      (s.master.read [107]).success = true))
    (by decide +kernel)
  obtain ⟨hsynced, hrefused, hread⟩ := decide_eq_true_eq.mp hp
  exact ⟨s, hs, hsynced, hrefused, hread, fun st => read_synced hs st hread⟩

end CurpMaster
end TinyKv
