import TinyKv.Curp.Client
import TinyKv.Curp.Execution
import TinyKv.Lib.Lock

/-!
# Curp.RecoverCall

What a call of `recover()` does, from any state and for any witnesses.

* `CurpNode` is a master with the witnesses attached to it. `fetch` asks one of them for its data:
  the local witness, or the first client that does not throw, which is the first one.
* `recover` is the call as a whole. Its last part calls `do_sync` under `curp_mtx_`, which
  `do_sync` locks itself.
* `recover_completes_iff`, `recover_reopens_iff` and `recover_falls_back_iff` say when it gets
  through, when it reopens the witness, and when a failed client is passed over.
-/

namespace TinyKv

open Lib CurpMaster

/-- The call made to the witness ends with status OK. -/
def WitnessPeer.reachable (p : WitnessPeer) : Bool := p.outcome = .ok

structure CurpNode where
  master : CurpMaster
  localWitness : Option Witness := none
  witnessClients : List WitnessPeer := []

namespace CurpNode

/-- `get_recovery_data` on a client, an exception or the records. It throws nothing: a call that
fails returns no records. -/
def askClient (masterId : String) (p : WitnessPeer) :
    Except String (WitnessPeer × Multiset WitnessRecord) :=
  let (w, data) := WitnessClient.getRecoveryData p.outcome p.witness masterId
  .ok ({ p with witness := w }, data)

/-- The loop of `recover` over the clients. It is left with the first one that does not throw. -/
def fetchRemote (masterId : String) : List WitnessPeer → List WitnessPeer × Multiset WitnessRecord
  | [] => ([], 0)
  | p :: ps =>
    match askClient masterId p with
    | .ok (p', data) => (p' :: ps, data)
    | .error _ =>
      let (ps', data) := fetchRemote masterId ps
      (p :: ps', data)

/-- The records to replay, and what asking for them does to the witnesses. -/
def fetch (s : CurpNode) : CurpNode × Multiset WitnessRecord :=
  match s.localWitness with
  | some w =>
    let (w', data) := w.getRecoveryData s.master.idString
    ({ s with localWitness := some w' }, data)
  | none =>
    let (ps, data) := fetchRemote s.master.idString s.witnessClients
    ({ s with witnessClients := ps }, data)

def store (state : CurpState) (s : CurpNode) : CurpNode :=
  { s with master := { s.master with curpState := state } }

def replay (records : List WitnessRecord) (s : CurpNode) : CurpNode :=
  { s with master := s.master.replayOps records }

def sync (s : CurpNode) : CurpNode :=
  let (m, w) := s.master.doSync s.localWitness
  { s with master := m, localWitness := w }

def recoverFromBackup : Code CurpNode := .update id

/-- `replay_ops` locks `curp_mtx_`. -/
def replayOpsCode (records : List WitnessRecord) : Code CurpNode :=
  .locked (.update (replay records))

/-- `do_sync` locks `curp_mtx_`. -/
def doSyncCode : Code CurpNode := .locked (.update sync)

def Unsynced (s : CurpNode) : Prop := s.master.unsyncedOps ≠ ∅

instance (s : CurpNode) : Decidable s.Unsynced := inferInstanceAs (Decidable (_ ≠ _))

/-- The last part of `recover`, under `curp_mtx_`. -/
def finalSync : Code CurpNode := .locked (.whenever Unsynced doSyncCode)

def recoverCode (records : List WitnessRecord) : Code CurpNode :=
  .andThen (.update (store .recovering)) <|
  .andThen recoverFromBackup <|
  .andThen (.update fun s => s.fetch.1) <|
  .andThen (replayOpsCode records) <|
  .andThen finalSync <|
  .update (store .normal)

/-- `CurpMaster::recover`; `records` is the order in which the witness happens to list its data. -/
def recover (s : CurpNode) (records : List WitnessRecord) : Option (Outcome CurpNode) :=
  if (records : Multiset WitnessRecord) = s.fetch.2 then some (recoverCode records false s)
  else none

/-! ## What `recover` does -/

variable {s s' : CurpNode} {records : List WitnessRecord}

@[simp] theorem fetch_master (s : CurpNode) : s.fetch.1.master = s.master := by
  unfold fetch
  split
  · rfl
  · rfl

@[simp] theorem store_idString (m : CurpMaster) (state : CurpState) :
    idString { m with curpState := state } = m.idString := rfl

@[simp] theorem store_fetch (s : CurpNode) (state : CurpState) :
    (store state s).fetch = (store state s.fetch.1, s.fetch.2) := by
  obtain ⟨m, w, ps⟩ := s
  cases w with
  | none => rfl
  | some w => rfl

theorem finalSync_synced (h : ¬s.Unsynced) : finalSync false s = .done s := Code.whenever_neg h

theorem finalSync_unsynced (h : s.Unsynced) : finalSync false s = .selfDeadlock s :=
  Code.whenever_pos h

/-- The state in which `recover` comes to its final sync. -/
def replayedNode (s : CurpNode) (records : List WitnessRecord) : CurpNode :=
  replay records (store .recovering s.fetch.1)

theorem recoverCode_eq : recoverCode records false s =
    Code.andThen finalSync (.update (store .normal)) false (s.replayedNode records) := by
  have hreplay : replayOpsCode records false (store .recovering s.fetch.1) =
      .done (s.replayedNode records) := rfl
  simp only [recoverCode, recoverFromBackup, Code.update_andThen, store_fetch, id]
  exact Code.andThen_done hreplay

theorem recover_spec {out : Outcome CurpNode} (h : s.recover records = some out) :
    (records : Multiset WitnessRecord) = s.fetch.2 ∧
    ((¬(s.replayedNode records).Unsynced ∧ out = .done (store .normal (s.replayedNode records))) ∨
      ((s.replayedNode records).Unsynced ∧ out = .selfDeadlock (s.replayedNode records))) := by
  unfold recover at h
  split at h
  · rename_i hdata
    refine ⟨hdata, ?_⟩
    rw [recoverCode_eq, Option.some.injEq] at h
    by_cases hun : (s.replayedNode records).Unsynced
    · rw [Code.andThen_selfDeadlock (finalSync_unsynced hun)] at h
      exact .inr ⟨hun, h.symm⟩
    · rw [Code.andThen_done (finalSync_synced hun)] at h
      exact .inl ⟨hun, h.symm⟩
  · cases h

theorem exists_recover (s : CurpNode) : ∃ records out, s.recover records = some out :=
  ⟨s.fetch.2.toList, _, if_pos (Multiset.coe_toList _)⟩

theorem replayedNode_unsynced (s : CurpNode) (records : List WitnessRecord) :
    ¬(s.replayedNode records).Unsynced ↔
      s.master.unsyncedOps = ∅ ∧ ∀ r ∈ records, s.master.isExecuted r.rpcId := by
  have hreplay := replayOps_unsyncedOps records { s.fetch.1.master with curpState := .recovering }
  rw [Unsynced, not_not]
  refine hreplay.trans ?_
  rw [fetch_master]
  rfl

theorem recover_done_iff {out : Outcome CurpNode} (h : s.recover records = some out) :
    (∃ s', out = .done s') ↔
      s.master.unsyncedOps = ∅ ∧ ∀ r ∈ s.fetch.2, s.master.isExecuted r.rpcId := by
  obtain ⟨hdata, hcases⟩ := recover_spec h
  simp only [← hdata, Multiset.mem_coe]
  rw [← replayedNode_unsynced]
  rcases hcases with ⟨hsynced, rfl⟩ | ⟨hun, rfl⟩
  · exact ⟨fun _ => hsynced, fun _ => ⟨_, rfl⟩⟩
  · refine ⟨?_, fun hsynced => absurd hun hsynced⟩
    rintro ⟨s', hdone⟩
    cases hdone

theorem replayedNode_masterInv (h : s.master.MasterInv) (records : List WitnessRecord) :
    (s.replayedNode records).master.MasterInv := by
  apply replayOps_masterInv
  apply store_masterInv
  rw [fetch_master]
  exact h

theorem replayedNode_executed {r : WitnessRecord} (hr : r ∈ records) :
    (s.replayedNode records).master.isExecuted r.rpcId :=
  (replayOps_isExecuted records).mpr (.inr ⟨r, hr, rfl⟩)

/-- **When a recovery completes.** It ends with state `NORMAL`, nothing unsynced and every replayed
record executed iff there was nothing unsynced and nothing new to replay. Otherwise it deadlocks
with itself. -/
theorem recover_completes_iff {n : UInt64}
    (hm : Reaches CurpMaster.step (CurpMaster.init n) s.master) {out : Outcome CurpNode}
    (h : s.recover records = some out) :
    (∃ s', out = .done s' ∧ s'.master.curpState = .normal ∧ s'.master.unsyncedOps = ∅ ∧
      s'.master.unsyncedKeys = ∅ ∧ ∀ r ∈ records, s'.master.isExecuted r.rpcId) ↔
    s.master.unsyncedOps = ∅ ∧ ∀ r ∈ records, s.master.isExecuted r.rpcId := by
  rw [← replayedNode_unsynced]
  rcases (recover_spec h).2 with ⟨hsynced, rfl⟩ | ⟨hun, rfl⟩
  · have hempty : (s.replayedNode records).master.unsyncedOps = ∅ := not_not.mp hsynced
    have hinv := replayedNode_masterInv (reaches_masterInv hm) records
    refine ⟨fun _ => hsynced, fun _ => ⟨_, rfl, rfl, hempty, ?_, ?_⟩⟩
    · exact hinv.keys_empty hempty
    · exact fun r hr => replayedNode_executed hr
  · refine ⟨?_, fun hsynced => absurd hun hsynced⟩
    rintro ⟨s', hdone, _⟩
    cases hdone

section Example

def onePut : CurpOp := { rpcId := 7, clientId := 1, type := .put, key := [107], value := [118] }

/-- The witness of node 0 after it has accepted `onePut`. -/
def putWitness : Witness :=
  (({} : Witness).record "0" 7 [107] (CurpClient.serializeRequest onePut) 1 0).1

def putRecord : WitnessRecord := ⟨7, [107], CurpClient.serializeRequest onePut, 1, 0⟩

/-- The put has been executed and synced before the master recovers from the witness. -/
theorem recover_completes_synced : ∃ m, Reaches CurpMaster.step (CurpMaster.init 0) m ∧ ∃ s',
    recover ⟨m, some putWitness, []⟩ [putRecord] = some (.done s') ∧
      s'.master.curpState = .normal := by
  have hrun : ((runs CurpMaster.step [.propose onePut, .doSync] (CurpMaster.init 0)).any fun m =>
      decide (m.unsyncedOps = ∅ ∧ m.isExecuted 7 ∧
        ([putRecord] : Multiset WitnessRecord) =
          (fetch ⟨m, some putWitness, []⟩).2)) = true := by decide +kernel
  obtain ⟨m, hr, hs⟩ := exists_of_runs hrun
  obtain ⟨hempty, hex, hdata⟩ := of_decide_eq_true hs
  obtain ⟨out, hout⟩ : ∃ out, recover ⟨m, some putWitness, []⟩ [putRecord] = some out :=
    ⟨_, if_pos hdata⟩
  have hall : ∀ r ∈ [putRecord], m.isExecuted r.rpcId := by
    intro r hr
    rw [List.mem_singleton.mp hr]
    exact hex
  obtain ⟨s', rfl, hstate, _⟩ := (recover_completes_iff hr hout).mpr ⟨hempty, hall⟩
  exact ⟨m, hr, s', hout, hstate⟩

/-- A new master recovers from the witness and waits for itself. -/
theorem recover_deadlocks : ∃ s', recover ⟨CurpMaster.init 0, some putWitness, []⟩ [putRecord] =
    some (.selfDeadlock s') ∧ s'.master.curpState = .recovering := by
  have hdata : ([putRecord] : Multiset WitnessRecord) =
      (fetch ⟨CurpMaster.init 0, some putWitness, []⟩).2 := by decide +kernel
  have hun : (replayedNode ⟨CurpMaster.init 0, some putWitness, []⟩ [putRecord]).Unsynced := by
    decide +kernel
  refine ⟨replayedNode ⟨CurpMaster.init 0, some putWitness, []⟩ [putRecord], ?_, ?_⟩
  · rw [recover, if_pos hdata, recoverCode_eq, Code.andThen_selfDeadlock (finalSync_unsynced hun)]
  · decide +kernel

end Example

/-! ## The witness afterwards -/

theorem fetch_local {w : Witness} (hw : s.localWitness = some w)
    (hown : ¬w.Foreign s.master.idString) :
    s.fetch =
      ({ s with localWitness := some { w with accepting := false } }, values w.records) := by
  unfold fetch
  rw [hw]
  simp only [Witness.getRecoveryData, if_neg hown]

/-- **A recovery reopens no witness.** If the call returns, the local witness of the master is
closed and has its records still; so it is open and empty only when the call does not return, which
is when something is unsynced or some record is new. -/
theorem recover_reopens_iff {w : Witness} (hw : s.localWitness = some w)
    (hown : w.masterId = "" ∨ w.masterId = s.master.idString) :
    ((∀ records s', s.recover records = some (.done s') →
      ∃ w', s'.localWitness = some w' ∧ w'.accepting = true ∧ values w'.records = 0) ↔
    s.master.unsyncedOps ≠ ∅ ∨ ∃ r ∈ values w.records, ¬s.master.isExecuted r.rpcId) ∧
    ∀ records s', s.recover records = some (.done s') →
      s'.localWitness = some { w with accepting := false } := by
  have hfetch := fetch_local hw fun hf => hown.elim hf.1 fun heq => hf.2 heq.symm
  have hclosed : ∀ records s', s.recover records = some (.done s') →
      s'.localWitness = some { w with accepting := false } := by
    intro records s' h
    rcases (recover_spec h).2 with ⟨_, hdone⟩ | ⟨_, hdead⟩
    · cases hdone
      show s.fetch.1.localWitness = _
      rw [hfetch]
    · cases hdead
  refine ⟨?_, hclosed⟩
  constructor
  · intro hopen
    by_contra hno
    obtain ⟨records, out, hout⟩ := s.exists_recover
    have hcond : s.master.unsyncedOps = ∅ ∧ ∀ r ∈ s.fetch.2, s.master.isExecuted r.rpcId := by
      rw [hfetch]
      simpa only [not_or, not_not, not_exists, not_and, ne_eq] using hno
    obtain ⟨s', rfl⟩ := (recover_done_iff hout).mpr hcond
    obtain ⟨w', hw', hacc, _⟩ := hopen records s' hout
    rw [hclosed records s' hout] at hw'
    cases hw'
    cases hacc
  · intro hstuck records s' hout
    obtain ⟨hempty, hall⟩ := (recover_done_iff hout).mp ⟨s', rfl⟩
    rw [hfetch] at hall
    rcases hstuck with hne | ⟨r, hr, hnew⟩
    · exact absurd hempty hne
    · exact absurd (hall r hr) hnew

/-- The put is executed already: the call returns, and the witness stays closed with it. -/
theorem recover_reopens_replayed : ∃ m, m.isExecuted 7 ∧ ∃ records s',
    recover ⟨m, some putWitness, []⟩ records = some (.done s') ∧
      s'.localWitness = some { putWitness with accepting := false } := by
  let m := (CurpMaster.init 0).recordExecuted 7 []
  have hdata : ([putRecord] : Multiset WitnessRecord) = (fetch ⟨m, some putWitness, []⟩).2 := by
    decide +kernel
  have hcond : m.unsyncedOps = ∅ ∧
      ∀ r ∈ (fetch ⟨m, some putWitness, []⟩).2, m.isExecuted r.rpcId := by
    rw [← hdata]
    decide +kernel
  have hout : recover ⟨m, some putWitness, []⟩ [putRecord] = some _ := if_pos hdata
  obtain ⟨s', hs'⟩ := (recover_done_iff hout).mpr hcond
  rw [hs'] at hout
  exact ⟨m, by decide +kernel, _, s', hout,
    (recover_reopens_iff rfl (.inr (by decide +kernel))).2 _ s' hout⟩

/-- A new master recovers from a fresh witness, which accepts nothing any more. -/
theorem recover_closes_empty_witness : ∃ s',
    recover ⟨CurpMaster.init 0, some {}, []⟩ [] = some (.done s') ∧
      s'.localWitness = some { accepting := false } := ⟨_, rfl, rfl⟩

/-! ## Failed clients -/

theorem fetch_remote {p : WitnessPeer} {ps : List WitnessPeer} (hlocal : s.localWitness = none)
    (hps : s.witnessClients = p :: ps) : s.fetch.2 =
      (WitnessClient.getRecoveryData p.outcome p.witness s.master.idString).2 := by
  unfold fetch
  rw [hlocal, hps]
  rfl

theorem getRecoveryData_failed {outcome : RpcOutcome} (h : outcome ≠ .ok) (w : Witness)
    (masterId : String) : (WitnessClient.getRecoveryData outcome w masterId).2 = 0 := by
  cases outcome with
  | ok => exact absurd rfl h
  | requestLost => rfl
  | replyLost => rfl

theorem fetch_first_nothing {l p : WitnessPeer} {ps : List WitnessPeer}
    (hlocal : s.localWitness = none) (hps : s.witnessClients = p :: ps)
    (hl : s.witnessClients.find? WitnessPeer.reachable = some l)
    (hfirst : p = l → l.witness.Foreign s.master.idString) : s.fetch.2 = 0 := by
  rw [fetch_remote hlocal hps]
  by_cases hp : p.outcome = .ok
  · have hreach : p.reachable = true := decide_eq_true hp
    rw [hps, List.find?_cons_of_pos hreach, Option.some.injEq] at hl
    subst hl
    rw [hp]
    show (p.witness.getRecoveryData s.master.idString).2 = 0
    rw [Witness.getRecoveryData, if_pos (hfirst rfl)]
  · exact getRecoveryData_failed hp _ _

theorem fetch_first_all {p : WitnessPeer} {ps : List WitnessPeer} (hlocal : s.localWitness = none)
    (hps : s.witnessClients = p :: ps) (hok : p.outcome = .ok)
    (hown : ¬p.witness.Foreign s.master.idString) : s.fetch.2 = values p.witness.records := by
  rw [fetch_remote hlocal hps, hok]
  show (p.witness.getRecoveryData s.master.idString).2 = values p.witness.records
  rw [Witness.getRecoveryData, if_neg hown]

theorem recover_isExecuted {out : Outcome CurpNode} (h : s.recover records = some out)
    (i : UInt64) : out.state.master.isExecuted i ↔
      s.master.isExecuted i ∨ ∃ r ∈ s.fetch.2, r.rpcId = i := by
  obtain ⟨hdata, hcases⟩ := recover_spec h
  have hreplayed : (s.replayedNode records).master.isExecuted i ↔
      s.master.isExecuted i ∨ ∃ r ∈ s.fetch.2, r.rpcId = i := by
    rw [← hdata]
    refine (replayOps_isExecuted (m := { s.fetch.1.master with curpState := .recovering })
      records).trans ?_
    rw [fetch_master]
    rfl
  rcases hcases with ⟨_, rfl⟩ | ⟨_, rfl⟩
  · exact hreplayed
  · exact hreplayed

/-- **When failed clients are passed over.** A recovery leaves all operations executed whose records
the first witness that can be reached holds, iff they were executed before, or that witness is the
first of the list and not bound to another master. -/
theorem recover_falls_back_iff {l : WitnessPeer} (hlocal : s.localWitness = none)
    (hl : s.witnessClients.find? WitnessPeer.reachable = some l) :
    (∀ records out, s.recover records = some out →
      ∀ r ∈ values l.witness.records, out.state.master.isExecuted r.rpcId) ↔
    (∀ r ∈ values l.witness.records, s.master.isExecuted r.rpcId) ∨
      (s.witnessClients.head? = some l ∧ ¬l.witness.Foreign s.master.idString) := by
  obtain ⟨records, out, hout⟩ := s.exists_recover
  have hreach : l.reachable = true := List.find?_some hl
  have hok : l.outcome = .ok := of_decide_eq_true hreach
  cases hps : s.witnessClients with
  | nil =>
    rw [hps] at hl
    cases hl
  | cons p ps =>
    rw [List.head?_cons, Option.some.injEq]
    constructor
    · intro hall
      by_cases hfirst : p = l ∧ ¬l.witness.Foreign s.master.idString
      · exact .inr hfirst
      · -- nothing is replayed, so what is executed now was so before
        have hnone : s.fetch.2 = 0 :=
          fetch_first_nothing hlocal hps hl (not_and_not_right.mp hfirst)
        refine .inl fun r hr => ?_
        rcases (recover_isExecuted hout r.rpcId).mp (hall records out hout r hr) with h | ⟨q, hq, _⟩
        · exact h
        · rw [hnone] at hq
          cases hq
    · rintro (hbefore | ⟨rfl, hown⟩) records' out' hout' r hr
      · exact (recover_isExecuted hout' r.rpcId).mpr (.inl (hbefore r hr))
      · have hdata := fetch_first_all hlocal hps hok hown
        exact (recover_isExecuted hout' r.rpcId).mpr (.inr ⟨r, by rw [hdata]; exact hr, rfl⟩)

/-- The witness that can be reached comes first, and its put is executed. -/
theorem recover_falls_back_first : ∃ records out,
    recover ⟨CurpMaster.init 0, none, [⟨putWitness, .ok, 0⟩, ⟨{}, .requestLost, 0⟩]⟩ records =
      some out ∧ out.state.master.isExecuted 7 := by
  obtain ⟨records, out, hout⟩ := exists_recover
    ⟨CurpMaster.init 0, none, [⟨putWitness, .ok, 0⟩, ⟨{}, .requestLost, 0⟩]⟩
  have hall := (recover_falls_back_iff (s := ⟨CurpMaster.init 0, none,
    [⟨putWitness, .ok, 0⟩, ⟨{}, .requestLost, 0⟩]⟩) (l := ⟨putWitness, .ok, 0⟩) rfl rfl).mpr
      (.inr ⟨rfl, by decide +kernel⟩)
  exact ⟨records, out, hout, hall records out hout putRecord (by decide +kernel)⟩

/-- The first client cannot be reached: the recovery ends without asking the second one. -/
theorem recover_stops_at_failed_client : ∃ s',
    recover ⟨CurpMaster.init 0, none, [⟨{}, .requestLost, 0⟩, ⟨putWitness, .ok, 0⟩]⟩ [] =
      some (.done s') ∧ ¬s'.master.isExecuted 7 ∧ putWitness.masterId = "0" ∧
      putRecord ∈ values putWitness.records :=
  ⟨_, rfl, by decide +kernel, by decide +kernel, by decide +kernel⟩

end CurpNode
end TinyKv
