import TinyKv.Curp.Client

/-!
# Curp.Durability

Whether an acknowledged fast-path write can be lost: a master with its witness, while clients
record and propose requests and the master syncs, in any order.

`do_sync` resets the whole witness, also when it holds a request that has not reached the master
yet and is therefore not among those it syncs. `SyncOk` rules this out.

* `Attached.Durable`: each acknowledged request is synced, or the witness still holds it.
* `acknowledged_durable`: it holds along the runs whose syncs are `SyncOk`, and one sync that is
  not is enough to lose a request that is acknowledged right after it.
-/

namespace TinyKv

open Lib CurpClient

/-- The requests of all clients, by their distinct ids. -/
structure Requests where
  op : UInt64 → CurpOp
  rpcId : ∀ i, (op i).rpcId = i

/-- A master with its witness, and what happened to the requests so far: which the witness
accepted, which the master acknowledged on the fast path and which a sync has drained. -/
structure Attached where
  master : CurpMaster
  witness : Witness := {}
  accepted : Finset UInt64 := ∅
  fastPath : Finset UInt64 := ∅
  synced : Finset UInt64 := ∅

namespace Attached

def init (curNodeId : UInt64) : Attached := { master := { curNodeId := curNodeId } }

inductive Action where
  | record (i now : UInt64)
  | propose (i : UInt64)
  | doSync
  deriving DecidableEq

def step (reqs : Requests) (s : Attached) : Action → Option Attached
  | .record i now =>
    let op := reqs.op i
    let (w, result) := s.witness.record s.master.idString op.rpcId op.key (serializeRequest op)
      op.clientId now
    some { s with
      witness := w
      accepted := if result = .accepted then insert i s.accepted else s.accepted }
  | .propose i =>
    let (m, result) := s.master.propose (reqs.op i)
    some { s with
      master := m
      fastPath := if result.success ∧ result.fastPath then insert i s.fastPath else s.fastPath }
  | .doSync =>
    let (m, w) := s.master.doSync (some s.witness)
    some { s with
      master := m
      witness := w.getD s.witness
      synced := s.synced ∪ s.master.unsyncedOps.keys }

def Held (s : Attached) (i : UInt64) : Prop := ∃ r ∈ values s.witness.records, r.rpcId = i

instance (s : Attached) (i : UInt64) : Decidable (s.Held i) := Multiset.decidableExistsMultiset

/-- Each request that was recorded and acknowledged on the fast path is safe. -/
def Durable (s : Attached) : Prop :=
  ∀ i ∈ s.accepted, i ∈ s.fastPath → i ∈ s.synced ∨ s.Held i

instance (s : Attached) : Decidable s.Durable := Finset.decidableDforallFinset

/-- A sync that drains operations comes when the master has executed all that the witness holds. -/
def SyncOk (s : Attached) (a : Action) : Prop :=
  a = .doSync → s.master.unsyncedOps ≠ ∅ →
    ∀ r ∈ values s.witness.records, s.master.isExecuted r.rpcId

instance (s : Attached) (a : Action) : Decidable (s.SyncOk a) :=
  inferInstanceAs (Decidable (_ → _ → _))

structure Inv (s : Attached) : Prop where
  normal : s.master.curpState = .normal
  witness : s.witness.WitnessInv
  executed : ∀ i, s.master.isExecuted i ↔ i ∈ s.master.unsyncedOps ∨ i ∈ s.synced
  held : ∀ i, s.Held i → i ∈ s.accepted

variable {reqs : Requests} {n : UInt64} {s s' : Attached} {a : Action}

theorem init_inv (n : UInt64) : (init n).Inv where
  normal := rfl
  witness := Witness.init_witnessInv ""
  executed := by simp [init, CurpMaster.isExecuted, Finmap.notMem_empty]
  held := by
    intro i hi
    obtain ⟨r, hr, _⟩ := hi
    cases hr

theorem step_record {i now : UInt64} (h : s.step reqs (.record i now) = some s') :
    ∃ w result, s.witness.record s.master.idString i (reqs.op i).key
      (serializeRequest (reqs.op i)) (reqs.op i).clientId now = (w, result) ∧
      s' = { s with
        witness := w
        accepted := if result = .accepted then insert i s.accepted else s.accepted } := by
  simp only [step, reqs.rpcId, Option.some.injEq] at h
  exact ⟨_, _, rfl, h.symm⟩

theorem step_propose {i : UInt64} (h : s.step reqs (.propose i) = some s') :
    ∃ m result, s.master.propose (reqs.op i) = (m, result) ∧
      s' = { s with
        master := m
        fastPath := if result.success ∧ result.fastPath then insert i s.fastPath
          else s.fastPath } := by
  simp only [step, Option.some.injEq] at h
  exact ⟨_, _, rfl, h.symm⟩

theorem step_doSync (h : s.step reqs .doSync = some s') :
    (s.master.unsyncedOps = ∅ ∧ s' = s) ∨
    (s.master.unsyncedOps ≠ ∅ ∧ s' = { s with
      master := s.master.drain
      witness := { masterId := s.master.idString }
      synced := s.synced ∪ s.master.unsyncedOps.keys }) := by
  simp only [step, Option.some.injEq] at h
  by_cases hempty : s.master.unsyncedOps = ∅
  · rw [CurpMaster.doSync_empty hempty] at h
    refine .inl ⟨hempty, ?_⟩
    rw [← h, hempty]
    simp
  · rw [CurpMaster.doSync_drain hempty] at h
    exact .inr ⟨hempty, h.symm⟩

theorem step_inv (h : s.Inv) (hs : s.step reqs a = some s') : s'.Inv := by
  cases a with
  | record i now =>
    obtain ⟨w, result, hr, rfl⟩ := step_record hs
    refine ⟨h.normal, Witness.record_witnessInv h.witness hr, h.executed, ?_⟩
    intro j hj
    cases Witness.record_cases hr with
    | inl hrej =>
      obtain ⟨hres, rfl⟩ := hrej
      simp only [hres, if_false]
      exact h.held j hj
    | inr hacc =>
      cases hacc with
      | inl hdup =>
        obtain ⟨hres, _, _, rfl⟩ := hdup
        simp only [hres, if_true, Finset.mem_insert]
        exact .inr (h.held j hj)
      | inr hnew =>
        obtain ⟨hres, _, _, _, hkey, rfl⟩ := hnew
        obtain ⟨r, hmem, hid⟩ := hj
        simp only [hres, if_true, Finset.mem_insert]
        cases (Witness.mem_store hkey).mp hmem with
        | inl hr => rw [hr] at hid; exact .inl hid.symm
        | inr hold => exact .inr (h.held j ⟨r, hold, hid⟩)
  | propose i =>
    obtain ⟨m, result, hp, rfl⟩ := step_propose hs
    cases CurpMaster.propose_cases hp with
    | inl hrej =>
      obtain ⟨_, rfl⟩ := hrej
      exact ⟨h.normal, h.witness, h.executed, h.held⟩
    | inr hacc =>
      cases hacc with
      | inl hdup =>
        obtain ⟨_, _, _, rfl⟩ := hdup
        exact ⟨h.normal, h.witness, h.executed, h.held⟩
      | inr hnew =>
        obtain ⟨_, _, _, _, rfl⟩ := hnew
        refine ⟨h.normal, h.witness, ?_, h.held⟩
        intro j
        simp only [CurpMaster.executeFast_isExecuted, CurpMaster.executeFast_unsyncedOps,
          Finmap.mem_insert, h.executed, or_assoc]
  | doSync =>
    cases step_doSync hs with
    | inl hskip =>
      rw [hskip.2]
      exact h
    | inr hdrain =>
      obtain ⟨_, rfl⟩ := hdrain
      refine ⟨h.normal, Witness.init_witnessInv _, ?_, ?_⟩
      · intro j
        simp only [CurpMaster.drain_isExecuted, CurpMaster.drain_unsyncedOps, Finset.mem_union,
          Finmap.mem_keys, Finmap.notMem_empty, false_or, h.executed, or_comm]
      · intro j hj
        obtain ⟨r, hr, _⟩ := hj
        cases hr

theorem reaches_inv (h : Reaches (step reqs) (init n) s) : s.Inv :=
  h.inv (fun _ _ _ hinv hs => step_inv hinv hs) (init_inv n)

/-- Whatever the witness accepted is synced or still held. -/
def Kept (s : Attached) : Prop := ∀ i ∈ s.accepted, i ∈ s.synced ∨ s.Held i

theorem step_kept (h : s.Inv) (hk : s.Kept) (hok : s.SyncOk a)
    (hs : s.step reqs a = some s') : s'.Kept := by
  cases a with
  | record i now =>
    obtain ⟨w, result, hr, rfl⟩ := step_record hs
    intro j hj
    cases Witness.record_cases hr with
    | inl hrej =>
      obtain ⟨hres, rfl⟩ := hrej
      simp only [hres, if_false] at hj
      exact hk j hj
    | inr hacc =>
      cases hacc with
      | inl hdup =>
        -- a known id is the id of a record
        obtain ⟨hres, _, hid, rfl⟩ := hdup
        simp only [hres, if_true, Finset.mem_insert] at hj
        cases hj with
        | inl hnew => rw [hnew]; exact .inr (h.witness.mem_ids.mp hid)
        | inr hold => exact hk j hold
      | inr hnew =>
        obtain ⟨hres, _, _, _, hkey, rfl⟩ := hnew
        simp only [hres, if_true, Finset.mem_insert] at hj
        cases hj with
        | inl hnew => exact .inr ⟨_, (Witness.mem_store hkey).mpr (.inl rfl), hnew.symm⟩
        | inr hold =>
          cases hk j hold with
          | inl hsync => exact .inl hsync
          | inr hheld =>
            obtain ⟨r, hr, hid⟩ := hheld
            exact .inr ⟨r, (Witness.mem_store hkey).mpr (.inr hr), hid⟩
  | propose i =>
    obtain ⟨m, result, _, rfl⟩ := step_propose hs
    exact hk
  | doSync =>
    cases step_doSync hs with
    | inl hskip =>
      rw [hskip.2]
      exact hk
    | inr hdrain =>
      obtain ⟨hne, rfl⟩ := hdrain
      intro j hj
      refine .inl ?_
      rw [Finset.mem_union, Finmap.mem_keys]
      cases hk j hj with
      | inl hsync => exact .inl hsync
      | inr hheld =>
        -- the record is executed, hence drained now or before
        obtain ⟨r, hr, rfl⟩ := hheld
        exact ((h.executed r.rpcId).mp (hok rfl hne r hr)).symm

/-- **Acknowledged writes are durable** along every run whose syncs are `SyncOk`. A sync that is
not loses a held request: the master acknowledges it afterwards on the fast path. -/
theorem acknowledged_durable (reqs : Requests) (n : UInt64) :
    (∀ s, ReachesIf SyncOk (step reqs) (init n) s → s.Durable) ∧
    (∀ s, Reaches (step reqs) (init n) s → ¬s.SyncOk .doSync → ∃ i s₁ s₂,
      s.step reqs .doSync = some s₁ ∧ s₁.step reqs (.propose i) = some s₂ ∧ ¬s₂.Durable) := by
  constructor
  · intro s hr
    have hinv : s.Inv ∧ s.Kept := by
      refine hr.inv (P := fun s => s.Inv ∧ s.Kept) ?_ ⟨init_inv n, by simp [Kept, init]⟩
      intro s a s' h hok hs
      exact ⟨step_inv h.1 hs, step_kept h.1 h.2 hok hs⟩
    exact fun i hacc _ => hinv.2 i hacc
  · intro s hr hbad
    have hinv := reaches_inv hr
    simp only [SyncOk, not_forall] at hbad
    obtain ⟨_, hne, r, hheld, hnot⟩ := hbad
    have hacc : r.rpcId ∈ s.accepted := hinv.held _ ⟨r, hheld, rfl⟩
    obtain ⟨s₁, hs₁⟩ : ∃ s₁, s.step reqs .doSync = some s₁ := ⟨_, rfl⟩
    obtain ⟨s₂, hs₂⟩ : ∃ s₂, s₁.step reqs (.propose r.rpcId) = some s₂ := ⟨_, rfl⟩
    refine ⟨r.rpcId, s₁, s₂, hs₁, hs₂, ?_⟩
    cases step_doSync hs₁ with
    | inl hskip => exact absurd hskip.1 hne
    | inr hdrain =>
      obtain ⟨_, rfl⟩ := hdrain
      obtain ⟨m, result, hp, rfl⟩ := step_propose hs₂
      have hfast : s.master.drain.propose (reqs.op r.rpcId) = _ :=
        CurpMaster.propose_fast hinv.normal (by rw [reqs.rpcId]; exact hnot) (by simp)
      rw [hfast, Prod.mk.injEq] at hp
      obtain ⟨rfl, rfl⟩ := hp
      intro hdur
      cases hdur r.rpcId hacc (by simp) with
      | inl hsync =>
        rw [Finset.mem_union, Finmap.mem_keys, or_comm, ← hinv.executed] at hsync
        exact hnot hsync
      | inr hheld =>
        obtain ⟨r', hr', _⟩ := hheld
        cases hr'

section Example

def puts : Requests where
  op := fun i => { rpcId := i, clientId := 1, type := .put, key := [i.toUInt8], value := [1] }
  rpcId := fun _ => rfl

/-- Request 1 is recorded, proposed and synced; request 1 is only recorded, and request 2 synced. -/
theorem acknowledged_durable_puts :
    (∃ s, ReachesIf SyncOk (step puts) (init 0) s ∧ 1 ∈ s.accepted ∧ 1 ∈ s.fastPath ∧
      1 ∈ s.synced ∧ s.Durable) ∧
    ∃ s, Reaches (step puts) (init 0) s ∧ ∃ i s₁ s₂, s.step puts .doSync = some s₁ ∧
      s₁.step puts (.propose i) = some s₂ ∧ ¬s₂.Durable := by
  constructor
  · have hrun : ((runs (step puts) [.record 1 0, .propose 1] (init 0)).bind fun s =>
        (s.step puts .doSync).map fun s' => decide (s.SyncOk .doSync ∧ 1 ∈ s'.accepted ∧
          1 ∈ s'.fastPath ∧ 1 ∈ s'.synced)) = some true := by decide +kernel
    obtain ⟨s, hr, hrun⟩ := Option.bind_eq_some_iff.mp hrun
    obtain ⟨s', hs, hrun⟩ := Option.map_eq_some_iff.mp hrun
    obtain ⟨hok, hacc, hfast, hsync⟩ := of_decide_eq_true hrun
    have hguard : ∀ a ∈ [Action.record 1 0, .propose 1], ∀ s : Attached, s.SyncOk a := by
      intro a ha s heq
      rw [heq] at ha
      simp at ha
    have hreach := (reachesIf_of_runs hguard hr).trans (ReachesIf.single hok hs)
    exact ⟨s', hreach, hacc, hfast, hsync, (acknowledged_durable puts 0).1 s' hreach⟩
  · have hrun : (runs (step puts) [.record 1 0, .propose 2] (init 0)).map
        (fun s => decide (s.SyncOk .doSync)) = some false := by decide +kernel
    obtain ⟨s, hr, hbad⟩ := Option.map_eq_some_iff.mp hrun
    have hreach := reaches_of_runs hr
    exact ⟨s, hreach, (acknowledged_durable puts 0).2 s hreach (of_decide_eq_false hbad)⟩

/-- Request 1 is recorded, request 2 proposed and synced, and then request 1 acknowledged. -/
theorem sync_loses_recorded_put : ∃ s, Reaches (step puts) (init 0) s ∧ 1 ∈ s.accepted ∧
    1 ∈ s.fastPath ∧ 1 ∉ s.synced ∧ ¬s.Held 1 ∧ ¬s.Durable := by
  have hrun : ((runs (step puts) [.record 1 0, .propose 2, .doSync, .propose 1] (init 0)).any
      fun s => decide (1 ∈ s.accepted ∧ 1 ∈ s.fastPath ∧ 1 ∉ s.synced ∧ ¬s.Held 1 ∧
        ¬s.Durable)) = true := by decide +kernel
  obtain ⟨s, hr, hs⟩ := exists_of_runs hrun
  exact ⟨s, hr, of_decide_eq_true hs⟩

end Example

end Attached
end TinyKv
