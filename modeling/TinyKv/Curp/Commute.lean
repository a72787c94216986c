import TinyKv.Curp.Server

/-!
# Curp.Commute

Whether the unsynced operations of a master under load commute: no two of them share a key.

* `propose` looks at `unsynced_keys_` before it executes, `replay_ops` does not.
  `replayOps_commutes_iff`: a replay keeps them commuting iff the keys of its new records are free.
* `commutes_iff`: in a run they commute throughout iff each replay is of that kind.
-/

namespace TinyKv

open Lib

namespace CurpMaster

/-- Different unsynced operations have different keys. -/
def Commutes (m : CurpMaster) : Prop :=
  ∀ i j op op', m.unsyncedOps.lookup i = some op → m.unsyncedOps.lookup j = some op' →
    op.key = op'.key → i = j

/-- The keys of the records that a replay will execute are free. -/
def ReplayFree (m : CurpMaster) (records : List WitnessRecord) : Prop :=
  ∀ r ∈ records, ¬m.isExecuted r.rpcId → r.key ∉ m.unsyncedKeys

/-- Records with different keys and ids, as one witness holds them. -/
def Distinct (records : List WitnessRecord) : Prop :=
  records.Pairwise fun r r' => r.key ≠ r'.key ∧ r.rpcId ≠ r'.rpcId

variable {m m' : CurpMaster} {op : CurpOp}

theorem init_commutes (n : UInt64) : (init n).Commutes := by
  intro i j op op' hl
  cases hl

theorem drain_commutes : m.drain.Commutes := by
  intro i j op op' hl
  cases hl

theorem executeFast_commutes (h : m.MasterInv) (hc : m.Commutes) (hkey : op.key ∉ m.unsyncedKeys) :
    (m.executeFast op).Commutes := by
  have hfree : ∀ i x, m.unsyncedOps.lookup i = some x → x.key ≠ op.key := by
    intro i x hl heq
    exact hkey ((h.keys _).mpr ⟨i, x, hl, heq⟩)
  intro i j x y hx hy heq
  rw [executeFast_lookup] at hx hy
  split at hx
  · rename_i hi
    cases hx
    split at hy
    · rename_i hj
      exact hi.trans hj.symm
    · exact absurd heq.symm (hfree j y hy)
  · split at hy
    · cases hy
      exact absurd heq (hfree i x hx)
    · exact hc i j x y hx hy heq

theorem proposeBody_commutes (h : m.MasterInv) (hc : m.Commutes) (op : CurpOp) :
    (m.proposeBody op).1.Commutes := by
  rcases proposeBody_master m op with hm | ⟨_, hkey, hm⟩
  · rw [hm]; exact hc
  · rw [hm]; exact executeFast_commutes h hc hkey

theorem step_commutes {b : Action} (h : m.MasterInv) (hc : m.Commutes)
    (hb : ∀ records, b ≠ .replayOps records) (hs : m.step b = some m') : m'.Commutes := by
  cases b with
  | propose op =>
    cases hs
    cases propose_master m op with
    | inl hm => rw [hm]; exact hc
    | inr hm => rw [hm]; exact proposeBody_commutes h hc op
  | proposeBody op => cases hs; exact proposeBody_commutes h hc op
  | read key => cases hs; exact hc
  | sync => cases hs; exact hc
  | doSync =>
    cases hs
    by_cases hempty : m.unsyncedOps = ∅
    · rw [doSync_empty hempty]; exact hc
    · rw [doSync_drain hempty]; exact drain_commutes
  | replayOps records => exact absurd rfl (hb records)
  | store state => cases hs; exact hc

theorem replayOp_commutes {r : WitnessRecord} (h : m.MasterInv) (hc : m.Commutes)
    (hkey : ¬m.isExecuted r.rpcId → r.key ∉ m.unsyncedKeys) : (m.replayOp r).Commutes := by
  by_cases hex : m.isExecuted r.rpcId
  · rw [replayOp_old hex]
    exact hc
  · rw [replayOp_new hex]
    have hfast : (m.executeFast (replayed r)).Commutes := executeFast_commutes h hc (hkey hex)
    exact hfast

theorem mem_replayOp_unsyncedKeys {r : WitnessRecord} {k : Bytes} :
    k ∈ (m.replayOp r).unsyncedKeys ↔
      (¬m.isExecuted r.rpcId ∧ k = r.key) ∨ k ∈ m.unsyncedKeys := by
  by_cases hex : m.isExecuted r.rpcId
  · rw [replayOp_old hex]
    simp [hex]
  · rw [replayOp_new hex]
    simp [hex, replayed]

theorem replayOp_free {r : WitnessRecord} {records : List WitnessRecord}
    (hd : Distinct (r :: records)) (hf : m.ReplayFree (r :: records)) :
    (m.replayOp r).ReplayFree records := by
  intro x hx hnew hmem
  rw [replayOp_isExecuted, not_or] at hnew
  cases mem_replayOp_unsyncedKeys.mp hmem with
  | inl hr => exact ((List.pairwise_cons.mp hd).1 x hx).1 hr.2.symm
  | inr hold => exact hf x (List.mem_cons_of_mem r hx) hnew.1 hold

theorem replayOps_commutes (records : List WitnessRecord) : ∀ {m : CurpMaster}, m.MasterInv →
    m.Commutes → Distinct records → m.ReplayFree records → (m.replayOps records).Commutes := by
  induction records with
  | nil => intro m _ hc _ _; exact hc
  | cons r rs ih =>
    intro m h hc hd hf
    have hr := replayOp_commutes h hc (hf r List.mem_cons_self)
    exact ih (replayOp_masterInv h r) hr (List.pairwise_cons.mp hd).2 (replayOp_free hd hf)

theorem replayOp_lookup_old {r : WitnessRecord} {i : UInt64} (h : m.isExecuted i) :
    (m.replayOp r).unsyncedOps.lookup i = m.unsyncedOps.lookup i := by
  by_cases hex : m.isExecuted r.rpcId
  · rw [replayOp_old hex]
  · rw [replayOp_new hex]
    have hne : i ≠ (replayed r).rpcId := by
      rintro rfl
      exact hex h
    exact executeFast_lookup.trans (if_neg hne)

theorem replayOps_lookup_old (records : List WitnessRecord) : ∀ {m : CurpMaster} {i : UInt64},
    m.isExecuted i → (m.replayOps records).unsyncedOps.lookup i = m.unsyncedOps.lookup i := by
  induction records with
  | nil => intro m i _; rfl
  | cons r rs ih =>
    intro m i h
    have hrest : m.replayOps (r :: rs) = (m.replayOp r).replayOps rs := rfl
    rw [hrest, ih (replayOp_isExecuted.mpr (.inl h)), replayOp_lookup_old h]

theorem replayOps_lookup_new (records : List WitnessRecord) : ∀ {m : CurpMaster}
    {r : WitnessRecord}, Distinct records → r ∈ records → ¬m.isExecuted r.rpcId →
    (m.replayOps records).unsyncedOps.lookup r.rpcId = some (replayed r) := by
  induction records with
  | nil => intro m r _ hr; cases hr
  | cons x xs ih =>
    intro m r hd hr hnew
    have hrest : m.replayOps (x :: xs) = (m.replayOp x).replayOps xs := rfl
    rw [hrest]
    cases List.mem_cons.mp hr with
    | inl heq =>
      subst heq
      rw [replayOps_lookup_old xs (replayOp_isExecuted.mpr (.inr rfl)), replayOp_new hnew]
      exact executeFast_lookup.trans (if_pos rfl)
    | inr hmem =>
      have hne := ((List.pairwise_cons.mp hd).1 r hmem).2
      apply ih (List.pairwise_cons.mp hd).2 hmem
      rw [replayOp_isExecuted, not_or]
      exact ⟨hnew, hne⟩

theorem replayOps_commutes_iff {records : List WitnessRecord} (h : m.MasterInv) (hc : m.Commutes)
    (hd : Distinct records) : (m.replayOps records).Commutes ↔ m.ReplayFree records := by
  constructor
  · intro hc' r hr hnew hmem
    obtain ⟨i, op, hl, hk⟩ := (h.keys r.key).mp hmem
    have hi : m.isExecuted i := h.unsynced i (Finmap.mem_of_lookup_eq_some hl)
    have hold : (m.replayOps records).unsyncedOps.lookup i = some op := by
      rw [replayOps_lookup_old records hi, hl]
    have heq := hc' i r.rpcId op (replayed r) hold (replayOps_lookup_new records hd hr hnew) hk
    rw [heq] at hi
    exact hnew hi
  · exact replayOps_commutes records h hc hd

end CurpMaster

namespace Witness

theorem WitnessInv.distinct {w : Witness} (h : WitnessInv w) {records : List WitnessRecord}
    (hr : (records : Multiset WitnessRecord) = values w.records) :
    CurpMaster.Distinct records := by
  have hids : (records.map WitnessRecord.rpcId).Nodup := by
    rw [← Multiset.coe_nodup, ← Multiset.map_coe, hr, ← h.ids]
    exact w.rpcIds.nodup
  have hmem : ∀ r ∈ records, r ∈ values w.records := by
    intro r hmem
    rw [← hr]
    exact hmem
  apply hids.of_map.pairwise_of_forall_ne
  intro r hr' x hx hne
  constructor
  · intro hkey
    have hl := h.mem_iff.mp (hmem r hr')
    rw [hkey, h.mem_iff.mp (hmem x hx), Option.some.injEq] at hl
    exact hne hl.symm
  · intro hid
    exact hne (h.unique (hmem r hr') (hmem x hx) hid)

end Witness

namespace Server

open CurpMaster

/-- When a replay comes, the keys of the records that it will execute are free. -/
def ReplayOk (s : Server) (a : Action) : Prop :=
  a = .replay → ∀ records, s.phase = .fetched records → s.node.master.ReplayFree records

structure CommuteInv (s : Server) : Prop where
  master : s.node.master.MasterInv
  commutes : s.node.master.Commutes
  witness : ∃ w, s.node.localWitness = some w ∧ w.WitnessInv
  fetched : ∀ records, s.phase = .fetched records → Distinct records

variable {s s' : Server}

theorem init_commuteInv {w : Witness} (h : w.WitnessInv) (n : UInt64) (clients : List WitnessPeer) :
    (init n (some w) clients).CommuteInv where
  master := init_masterInv n
  commutes := init_commutes n
  witness := ⟨w, rfl, h⟩
  fetched := fun records hphase => by cases hphase

theorem step_witness {a : Action} (h : ∃ w, s.node.localWitness = some w ∧ w.WitnessInv)
    (hs : s.step a = some s') : ∃ w, s'.node.localWitness = some w ∧ w.WitnessInv := by
  obtain ⟨w, hw, hinv⟩ := h
  rcases step_attached hs with ⟨hlocal, _⟩ | ⟨client, masterId, q, now, rfl⟩ | ⟨_, hnode⟩ |
    ⟨records, _, hnode⟩
  · exact ⟨w, hlocal.trans hw, hinv⟩
  · obtain ⟨_, _, _, ⟨w', hw', hlocal, _⟩ | ⟨k, p, _, hlocal, _⟩⟩ := step_record hs
    · rw [hw, Option.some.injEq] at hw'
      subst hw'
      exact ⟨_, hlocal, Witness.record_witnessInv hinv rfl⟩
    · exact ⟨w, hlocal.trans hw, hinv⟩
  · rw [hnode]
    by_cases hempty : s.node.master.unsyncedOps = ∅
    · have hsame : s.node.sync.localWitness = s.node.localWitness := by
        rw [CurpNode.sync, doSync_empty hempty]
      exact ⟨w, hsame.trans hw, hinv⟩
    · have hreset := (sync_witnesses hempty).1
      rw [hw] at hreset
      exact ⟨_, hreset, Witness.init_witnessInv _⟩
  · have hlocal : s'.node.localWitness = some (w.getRecoveryData s.node.master.idString).1 := by
      rw [hnode, CurpNode.fetch, hw]
    exact ⟨_, hlocal, Witness.getRecoveryData_witnessInv hinv _⟩

theorem fetch_distinct {w : Witness} {node : CurpNode} (hw : node.localWitness = some w)
    (h : w.WitnessInv) {records : List WitnessRecord}
    (hr : (records : Multiset WitnessRecord) = node.fetch.2) : Distinct records := by
  have hdata : node.fetch.2 = (w.getRecoveryData node.master.idString).2 := by
    rw [CurpNode.fetch, hw]
  rw [hdata, Witness.getRecoveryData] at hr
  split at hr
  · rw [(Multiset.coe_eq_zero records).mp hr]
    exact List.Pairwise.nil
  · exact h.distinct hr

theorem step_fetched {a : Action} (h : s.CommuteInv) (hs : s.step a = some s') :
    ∀ records, s'.phase = .fetched records → Distinct records := by
  intro records hphase
  cases a with
  | check op =>
    rw [step_check hs, checkState_phase] at hphase
    exact h.fetched records hphase
  | body k =>
    obtain ⟨op, _, _, rfl⟩ := step_body hs
    exact h.fetched records hphase
  | record client masterId q now =>
    rw [(step_record hs).2.2.1] at hphase
    exact h.fetched records hphase
  | doSync =>
    obtain ⟨_, rfl⟩ := step_doSync hs
    exact h.fetched records hphase
  | start => obtain ⟨_, rfl⟩ := step_start hs; cases hphase
  | fetch data =>
    obtain ⟨_, hdata, rfl⟩ := step_fetch hs
    cases hphase
    obtain ⟨w, hw, hinv⟩ := h.witness
    exact fetch_distinct hw hinv hdata
  | replay => obtain ⟨data, _, rfl⟩ := step_replay hs; cases hphase
  | finalSync =>
    obtain ⟨_, rfl | rfl⟩ := step_finalSync hs
    · cases hphase
    · cases hphase
  | finish => obtain ⟨_, rfl⟩ := step_finish hs; cases hphase

theorem step_commutes_iff {a : Action} (h : s.CommuteInv) (hs : s.step a = some s') :
    s'.node.master.Commutes ↔ s.ReplayOk a := by
  by_cases ha : a = .replay
  · subst ha
    obtain ⟨records, hphase, rfl⟩ := step_replay hs
    have hiff := replayOps_commutes_iff h.master h.commutes (h.fetched records hphase)
    refine hiff.trans ?_
    constructor
    · intro hfree _ data hdata
      rw [hphase] at hdata
      cases hdata
      exact hfree
    · exact fun hok => hok rfl records hphase
  · refine ⟨fun _ hreplay => absurd hreplay ha, fun _ => ?_⟩
    rcases step_master hs with heq | ⟨b, hb, hreplay⟩
    · rw [heq]
      exact h.commutes
    · exact CurpMaster.step_commutes h.master h.commutes
        (fun records heq => ha (hreplay records heq)) hb

theorem step_commuteInv {a : Action} (h : s.CommuteInv) (hok : s.ReplayOk a)
    (hs : s.step a = some s') : s'.CommuteInv where
  master := step_masterInv h.master hs
  commutes := (step_commutes_iff h hs).mpr hok
  witness := step_witness h.witness hs
  fetched := step_fetched h hs

/-- **Unsynced operations commute.** In a run they do in every state in which the mutex is free iff
each replay finds the keys of the records that it executes free. -/
theorem commutes_iff {w : Witness} (hw : Reaches Witness.call {} w) (n : UInt64)
    (clients : List WitnessPeer) (as : List Action) :
    Along (fun _ _ s' => s'.phase ≠ .blocked → s'.node.master.Commutes) step as
      (init n (some w) clients) ↔
    Along (fun s a _ => s.ReplayOk a) step as (init n (some w) clients) := by
  apply along_congr (I := CommuteInv)
  · intro s a s' h hs
    refine Iff.trans ⟨?_, fun hc _ => hc⟩ (step_commutes_iff h hs)
    intro hc
    by_cases hblocked : s'.phase = .blocked
    · have ha : a ≠ .replay := by
        rintro rfl
        obtain ⟨records, _, rfl⟩ := step_replay hs
        cases hblocked
      exact (step_commutes_iff h hs).mpr fun hreplay => absurd hreplay ha
    · exact hc hblocked
  · exact fun s a s' h hok hs => step_commuteInv h hok hs
  · exact init_commuteInv (Witness.reaches_witnessInv hw) n clients

section Example

open CurpNode

def onePutRun : List Action :=
  [.record none "0" putRecord.request 0, .start, .fetch [putRecord], .replay]

/-- A new master replays a put from its witness. -/
theorem commutes_replayed_put : (runs step onePutRun (init 0 (some {}) [])).isSome = true ∧
    Along (fun _ _ s' => s'.phase ≠ .blocked → s'.node.master.Commutes) step onePutRun
      (init 0 (some {}) []) := by
  refine ⟨by decide +kernel, (commutes_iff .refl 0 [] onePutRun).mpr ?_⟩
  intro s₁ h₁
  refine ⟨(by intro h; cases h), ?_⟩
  intro s₂ h₂
  refine ⟨(by intro h; cases h), ?_⟩
  intro s₃ h₃
  refine ⟨(by intro h; cases h), ?_⟩
  intro s₄ h₄
  refine ⟨?_, trivial⟩
  intro _ records _ r _ _ hkey
  have hm₁ := (step_record h₁).1
  obtain ⟨_, rfl⟩ := step_start h₂
  obtain ⟨_, _, rfl⟩ := step_fetch h₃
  rw [fetch_master] at hkey
  have hkey₁ : r.key ∈ s₁.node.master.unsyncedKeys := hkey
  rw [hm₁] at hkey₁
  cases hkey₁

def otherPut : CurpOp := { rpcId := 8, clientId := 2, type := .put, key := [107], value := [119] }

def otherRecord : WitnessRecord := ⟨8, [107], CurpClient.serializeRequest otherPut, 2, 0⟩

/-- One put is executed; the witness has the other one, of the same key, and it is replayed. -/
theorem replay_conflicts : ∃ s, Reaches step (init 0 (some {}) []) s ∧ s.phase = .replayed ∧
    s.node.master.unsyncedOps.lookup 7 = some onePut ∧
    s.node.master.unsyncedOps.lookup 8 = some (replayed otherRecord) ∧
    ¬s.node.master.Commutes := by
  have hrun : ((runs step [.check onePut, .body 0, .record none "0" otherRecord.request 0, .start,
      .fetch [otherRecord], .replay] (init 0 (some {}) [])).any fun s =>
        decide (s.phase = .replayed ∧ s.node.master.unsyncedOps.lookup 7 = some onePut ∧
        s.node.master.unsyncedOps.lookup 8 = some (replayed otherRecord))) = true := by
    decide +kernel
  obtain ⟨s, hr, hs⟩ := exists_of_runs hrun
  obtain ⟨hphase, hone, hother⟩ := of_decide_eq_true hs
  refine ⟨s, hr, hphase, hone, hother, ?_⟩
  intro hc
  exact absurd (hc 7 8 _ _ hone hother rfl) (by decide)

end Example

end Server
end TinyKv
