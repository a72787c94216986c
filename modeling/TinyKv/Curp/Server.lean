import TinyKv.Curp.History
import TinyKv.Curp.RecoverCall

/-!
# Curp.Server

A master under load: any number of `propose` calls, the clients' records, the sync thread and one
`recover()`, step by step.

* A `propose` call reads `curp_state_` (`check`), and locks `curp_mtx_` only after that (`body`).
  `proposing` are the operations of the calls between the two.
* `recover()` has one action for each of its steps, and `phase` is where it is. In `blocked` it
  waits in its final sync for the mutex that it holds itself, so nothing runs under it any more.
* `step_master`: on the master, each step is one of those of `CurpMaster.step`, or none.
* `synced_leaves_iff`: a sync clears the local witness, and no other one.
-/

namespace TinyKv

open Lib CurpMaster

inductive RecoverPhase where
  | idle
  | recovering
  | fetched (records : List WitnessRecord)
  | replayed
  | blocked
  | synced
  deriving DecidableEq

structure Server where
  node : CurpNode
  proposing : List CurpOp := []
  phase : RecoverPhase := .idle

namespace Server

def init (n : UInt64) (localWitness : Option Witness) (clients : List WitnessPeer) : Server where
  node := ⟨CurpMaster.init n, localWitness, clients⟩

/-- `record none` goes to the local witness, `record (some k)` to that of the `k`-th client.
`body k` is the `k`-th of the waiting calls, `doSync` a turn of the sync thread, and `fetch records`
lists the recovery data in that order. -/
inductive Action where
  | check (op : CurpOp)
  | body (k : Nat)
  | record (client : Option Nat) (masterId : String) (q : Request) (now : UInt64)
  | doSync
  | start
  | fetch (records : List WitnessRecord)
  | replay
  | finalSync
  | finish
  deriving DecidableEq

def recordAt (masterId : String) (q : Request) (now : UInt64) (w : Witness) : Witness :=
  (w.record masterId q.rpcId q.key q.requestData q.clientId now).1

/-- The first step of `propose`. -/
def checkState (s : Server) (op : CurpOp) : Server :=
  if s.node.master.curpState = .recovering then s
  else { s with proposing := s.proposing ++ [op] }

/-- The second step, under the mutex. -/
def runBody (s : Server) (k : Nat) (op : CurpOp) : Server :=
  { s with
    node := { s.node with master := (s.node.master.proposeBody op).1 }
    proposing := s.proposing.eraseIdx k }

/-- The end of the final sync, or the place where it waits for itself. -/
def afterFinalSync (s : Server) : Outcome CurpNode → Server
  | .done node => { s with node := node, phase := .synced }
  | .selfDeadlock node => { s with node := node, phase := .blocked }

def step (s : Server) : Action → Option Server
  | .check op => some (s.checkState op)
  | .body k =>
    match s.proposing[k]? with
    | some op => if s.phase = .blocked then none else some (s.runBody k op)
    | none => none
  | .record none masterId q now =>
    match s.node.localWitness with
    | some w => some { s with node.localWitness := some (recordAt masterId q now w) }
    | none => none
  | .record (some k) masterId q now =>
    match s.node.witnessClients[k]? with
    | some p =>
      let p' := { p with witness := recordAt masterId q now p.witness }
      some { s with node.witnessClients := s.node.witnessClients.set k p' }
    | none => none
  | .doSync => if s.phase = .blocked then none else some { s with node := s.node.sync }
  | .start =>
    if s.phase = .idle then
      some { s with node := s.node.store .recovering, phase := .recovering }
    else none
  | .fetch records =>
    if s.phase = .recovering ∧ (records : Multiset WitnessRecord) = s.node.fetch.2 then
      some { s with node := s.node.fetch.1, phase := .fetched records }
    else none
  | .replay =>
    match s.phase with
    | .fetched records => some { s with node := s.node.replay records, phase := .replayed }
    | _ => none
  | .finalSync =>
    if s.phase = .replayed then some (s.afterFinalSync (CurpNode.finalSync false s.node)) else none
  | .finish =>
    if s.phase = .synced then some { s with node := s.node.store .normal, phase := .idle } else none

variable {s s' : Server}

@[simp] theorem checkState_node (op : CurpOp) : (s.checkState op).node = s.node := by
  unfold checkState
  split
  · rfl
  · rfl

@[simp] theorem checkState_phase (op : CurpOp) : (s.checkState op).phase = s.phase := by
  unfold checkState
  split
  · rfl
  · rfl

theorem step_check {op : CurpOp} (h : s.step (.check op) = some s') : s' = s.checkState op := by
  cases h
  rfl

theorem step_body {k : Nat} (h : s.step (.body k) = some s') :
    ∃ op, s.proposing[k]? = some op ∧ s.phase ≠ .blocked ∧ s' = s.runBody k op := by
  simp only [step] at h
  split at h
  · rename_i op hop
    rw [Option.ite_none_left_eq_some, Option.some.injEq] at h
    exact ⟨op, hop, h.1, h.2.symm⟩
  · cases h

theorem step_record {client : Option Nat} {masterId : String} {q : Request} {now : UInt64}
    (h : s.step (.record client masterId q now) = some s') :
    s'.node.master = s.node.master ∧ s'.proposing = s.proposing ∧ s'.phase = s.phase ∧
    ((∃ w, s.node.localWitness = some w ∧
        s'.node.localWitness = some (recordAt masterId q now w) ∧
        s'.node.witnessClients = s.node.witnessClients) ∨
      ∃ k p, s.node.witnessClients[k]? = some p ∧
        s'.node.localWitness = s.node.localWitness ∧
        s'.node.witnessClients =
          s.node.witnessClients.set k { p with witness := recordAt masterId q now p.witness }) := by
  cases client with
  | none =>
    simp only [step] at h
    split at h
    · rename_i w hw
      cases h
      exact ⟨rfl, rfl, rfl, .inl ⟨w, hw, rfl, rfl⟩⟩
    · cases h
  | some k =>
    simp only [step] at h
    split at h
    · rename_i p hp
      cases h
      exact ⟨rfl, rfl, rfl, .inr ⟨k, p, hp, rfl, rfl⟩⟩
    · cases h

theorem step_doSync (h : s.step .doSync = some s') :
    s.phase ≠ .blocked ∧ s' = { s with node := s.node.sync } := by
  simp only [step, Option.ite_none_left_eq_some, Option.some.injEq] at h
  exact ⟨h.1, h.2.symm⟩

theorem step_start (h : s.step .start = some s') :
    s.phase = .idle ∧
      s' = { s with node := s.node.store .recovering, phase := .recovering } := by
  simp only [step, Option.ite_none_right_eq_some, Option.some.injEq] at h
  exact ⟨h.1, h.2.symm⟩

theorem step_fetch {records : List WitnessRecord} (h : s.step (.fetch records) = some s') :
    s.phase = .recovering ∧ (records : Multiset WitnessRecord) = s.node.fetch.2 ∧
      s' = { s with node := s.node.fetch.1, phase := .fetched records } := by
  simp only [step, Option.ite_none_right_eq_some, Option.some.injEq] at h
  exact ⟨h.1.1, h.1.2, h.2.symm⟩

theorem step_replay (h : s.step .replay = some s') :
    ∃ records, s.phase = .fetched records ∧
      s' = { s with node := s.node.replay records, phase := .replayed } := by
  simp only [step] at h
  split at h
  · rename_i records hphase
    cases h
    exact ⟨records, hphase, rfl⟩
  · cases h

theorem step_finalSync (h : s.step .finalSync = some s') :
    s.phase = .replayed ∧
      (s' = { s with phase := .synced } ∨ s' = { s with phase := .blocked }) := by
  simp only [step, Option.ite_none_right_eq_some, Option.some.injEq] at h
  obtain ⟨hphase, rfl⟩ := h
  refine ⟨hphase, ?_⟩
  by_cases hun : s.node.Unsynced
  · rw [CurpNode.finalSync_unsynced hun]
    exact .inr rfl
  · rw [CurpNode.finalSync_synced hun]
    exact .inl rfl

theorem step_finish (h : s.step .finish = some s') :
    s.phase = .synced ∧ s' = { s with node := s.node.store .normal, phase := .idle } := by
  simp only [step, Option.ite_none_right_eq_some, Option.some.injEq] at h
  exact ⟨h.1, h.2.symm⟩

theorem runs_propose (op : CurpOp) (hs : s.phase ≠ .blocked)
    (hstate : s.node.master.curpState ≠ .recovering) :
    runs step [.check op, .body s.proposing.length] s =
      some { s with node := { s.node with master := (s.node.master.propose op).1 } } := by
  have hcheck : s.checkState op = { s with proposing := s.proposing ++ [op] } := if_neg hstate
  have hget : (s.proposing ++ [op])[s.proposing.length]? = some op := by simp
  have herase : (s.proposing ++ [op]).eraseIdx s.proposing.length = s.proposing := by
    rw [List.eraseIdx_append_of_length_le (Nat.le_refl _), Nat.sub_self]
    exact List.append_nil _
  simp only [runs, step, hcheck, hget, if_neg hs, runBody, herase, propose_eq hstate]

theorem runs_recover {records : List WitnessRecord} {node : CurpNode} (hidle : s.phase = .idle)
    (h : s.node.recover records = some (.done node)) :
    runs step [.start, .fetch records, .replay, .finalSync, .finish] s =
      some { s with node := node } := by
  obtain ⟨hdata, ⟨hsynced, hdone⟩ | ⟨_, hdead⟩⟩ := CurpNode.recover_spec h
  · cases hdone
    have hfetch : (s.node.store .recovering).fetch =
        (s.node.fetch.1.store .recovering, s.node.fetch.2) := CurpNode.store_fetch _ _
    have hsync : CurpNode.finalSync false ((s.node.fetch.1.store .recovering).replay records) =
        .done (s.node.replayedNode records) := CurpNode.finalSync_synced hsynced
    simp only [runs, step, hidle, hfetch, hdata, and_self, if_true, hsync, afterFinalSync]
  · cases hdead

/-! ## The master and its witnesses -/

theorem step_master {a : Action} (h : s.step a = some s') :
    s'.node.master = s.node.master ∨ ∃ b, s.node.master.step b = some s'.node.master ∧
      ∀ records, b = .replayOps records → a = .replay := by
  cases a with
  | check op =>
    rw [step_check h, checkState_node]
    exact .inl rfl
  | body k =>
    obtain ⟨op, _, _, rfl⟩ := step_body h
    exact .inr ⟨.proposeBody op, rfl, by intro records hb; cases hb⟩
  | record client masterId q now => exact .inl (step_record h).1
  | doSync =>
    obtain ⟨_, rfl⟩ := step_doSync h
    refine .inr ⟨.doSync, ?_, by intro records hb; cases hb⟩
    exact congrArg some (doSync_master _ _).symm
  | start =>
    obtain ⟨_, rfl⟩ := step_start h
    exact .inr ⟨.store .recovering, rfl, by intro records hb; cases hb⟩
  | fetch records =>
    obtain ⟨_, _, rfl⟩ := step_fetch h
    exact .inl (CurpNode.fetch_master _)
  | replay =>
    obtain ⟨records, _, rfl⟩ := step_replay h
    exact .inr ⟨.replayOps records, rfl, fun _ _ => rfl⟩
  | finalSync =>
    obtain ⟨_, rfl | rfl⟩ := step_finalSync h
    · exact .inl rfl
    · exact .inl rfl
  | finish =>
    obtain ⟨_, rfl⟩ := step_finish h
    exact .inr ⟨.store .normal, rfl, by intro records hb; cases hb⟩

theorem reaches_master (h : Reaches step s s') :
    Reaches CurpMaster.step s.node.master s'.node.master := by
  apply h.inv (P := fun t => Reaches CurpMaster.step s.node.master t.node.master) ?_ .refl
  intro t a t' ht hs
  rcases step_master hs with heq | ⟨b, hb, _⟩
  · rw [heq]
    exact ht
  · exact ht.trans (.single hb)

theorem step_masterInv {a : Action} (h : s.node.master.MasterInv) (hs : s.step a = some s') :
    s'.node.master.MasterInv := by
  rcases step_master hs with heq | ⟨b, hb, _⟩
  · rw [heq]
    exact h
  · exact CurpMaster.step_masterInv h hb

theorem fetchRemote_records (masterId : String) (ps : List WitnessPeer) :
    (CurpNode.fetchRemote masterId ps).1.map (·.witness.records) = ps.map (·.witness.records) := by
  cases ps with
  | nil => rfl
  | cons p ps =>
    have hfirst : (WitnessClient.getRecoveryData p.outcome p.witness masterId).1.records =
        p.witness.records := by
      cases p.outcome with
      | ok => exact Witness.getRecoveryData_records _ _
      | requestLost => rfl
      | replyLost => exact Witness.getRecoveryData_records _ _
    exact congrArg (· :: _) hfirst

theorem fetch_clients (node : CurpNode) :
    node.fetch.1.witnessClients.map (·.witness.records) =
      node.witnessClients.map (·.witness.records) := by
  unfold CurpNode.fetch
  split
  · rfl
  · exact fetchRemote_records _ _

/-- The witness of the `k`-th client holds `r`. -/
def HeldBy (s : Server) (k : Nat) (r : WitnessRecord) : Prop :=
  ∃ records, (s.node.witnessClients.map (·.witness.records))[k]? = some records ∧
    r ∈ values records

theorem step_attached {a : Action} (h : s.step a = some s') :
    (s'.node.localWitness = s.node.localWitness ∧
      s'.node.witnessClients = s.node.witnessClients) ∨
    (∃ client masterId q now, a = .record client masterId q now) ∨
    (a = .doSync ∧ s'.node = s.node.sync) ∨
    ∃ records, a = .fetch records ∧ s'.node = s.node.fetch.1 := by
  cases a with
  | check op => rw [step_check h, checkState_node]; exact .inl ⟨rfl, rfl⟩
  | body k => obtain ⟨op, _, _, rfl⟩ := step_body h; exact .inl ⟨rfl, rfl⟩
  | record client masterId q now => exact .inr (.inl ⟨client, masterId, q, now, rfl⟩)
  | doSync => obtain ⟨_, rfl⟩ := step_doSync h; exact .inr (.inr (.inl ⟨rfl, rfl⟩))
  | start => obtain ⟨_, rfl⟩ := step_start h; exact .inl ⟨rfl, rfl⟩
  | fetch records =>
    obtain ⟨_, _, rfl⟩ := step_fetch h
    exact .inr (.inr (.inr ⟨records, rfl, rfl⟩))
  | replay => obtain ⟨records, _, rfl⟩ := step_replay h; exact .inl ⟨rfl, rfl⟩
  | finalSync =>
    obtain ⟨_, rfl | rfl⟩ := step_finalSync h
    · exact .inl ⟨rfl, rfl⟩
    · exact .inl ⟨rfl, rfl⟩
  | finish => obtain ⟨_, rfl⟩ := step_finish h; exact .inl ⟨rfl, rfl⟩

theorem heldBy_set {j k : Nat} {p : WitnessPeer} {masterId : String} {q : Request} {now : UInt64}
    {r : WitnessRecord} (hp : s.node.witnessClients[j]? = some p) (h : s.HeldBy k r)
    (hclients : s'.node.witnessClients =
      s.node.witnessClients.set j { p with witness := recordAt masterId q now p.witness }) :
    s'.HeldBy k r := by
  obtain ⟨records, hk, hr⟩ := h
  unfold HeldBy
  rw [hclients, List.map_set, List.getElem?_set]
  by_cases hjk : j = k
  · subst j
    rw [List.getElem?_map, hp] at hk
    cases hk
    have hlt : k < s.node.witnessClients.length := (List.getElem?_eq_some_iff.mp hp).1
    rw [if_pos rfl, List.length_map, if_pos hlt]
    exact ⟨_, rfl, Witness.mem_record hr⟩
  · rw [if_neg hjk]
    exact ⟨records, hk, hr⟩

theorem step_heldBy {a : Action} {k : Nat} {r : WitnessRecord} (h : s.HeldBy k r)
    (hs : s.step a = some s') : s'.HeldBy k r := by
  have hsame : s'.node.witnessClients.map (·.witness.records) =
      s.node.witnessClients.map (·.witness.records) → s'.HeldBy k r := by
    intro heq
    unfold HeldBy
    rw [heq]
    exact h
  rcases step_attached hs with ⟨_, hclients⟩ | ⟨client, masterId, q, now, rfl⟩ | ⟨_, hnode⟩ |
    ⟨_, _, hnode⟩
  · exact hsame (by rw [hclients])
  · obtain ⟨_, _, _, ⟨w, _, _, hclients⟩ | ⟨j, p, hp, _, hclients⟩⟩ := step_record hs
    · exact hsame (by rw [hclients])
    · exact heldBy_set hp h hclients
  · exact hsame (by rw [hnode]; rfl)
  · exact hsame (by rw [hnode, fetch_clients])

/-! ## Synced operations and the witnesses -/

def witnesses (s : Server) : List Witness :=
  s.node.localWitness.toList ++ s.node.witnessClients.map (·.witness)

/-- A sync leaves no attached witness a record of an operation that it has synced. -/
def SyncedLeave (s : Server) (a : Action) (s' : Server) : Prop :=
  a = .doSync → ∀ w ∈ s'.witnesses, ∀ r ∈ values w.records, r.rpcId ∉ s.node.master.unsyncedOps

/-- When a sync comes, no client has an unsynced operation at its witness. -/
def ClientsClear (s : Server) (a : Action) : Prop :=
  a = .doSync → ∀ p ∈ s.node.witnessClients, ∀ r ∈ values p.witness.records,
    r.rpcId ∉ s.node.master.unsyncedOps

theorem sync_witnesses {node : CurpNode} (h : node.master.unsyncedOps ≠ ∅) :
    node.sync.localWitness = node.localWitness.map (·.reset node.master.idString) ∧
    node.sync.witnessClients = node.witnessClients := by
  simp only [CurpNode.sync, doSync_drain h, and_self]

theorem syncedLeave_iff {a : Action} (h : s.step a = some s') :
    s.SyncedLeave a s' ↔ s.ClientsClear a := by
  unfold SyncedLeave ClientsClear
  by_cases ha : a = .doSync
  · subst ha
    obtain ⟨_, rfl⟩ := step_doSync h
    by_cases hempty : s.node.master.unsyncedOps = ∅
    · simp only [hempty, Finmap.notMem_empty, not_false_eq_true, implies_true]
    · obtain ⟨hlocal, hclients⟩ := sync_witnesses hempty
      have hreset : ∀ w ∈ s.node.sync.localWitness.toList, values w.records = 0 := by
        intro w hw
        rw [hlocal, Option.mem_toList, Option.map_eq_some_iff] at hw
        obtain ⟨w₀, _, rfl⟩ := hw
        rfl
      simp only [witnesses, hclients, true_implies, List.mem_append, List.mem_map]
      constructor
      · intro hleft p hp
        exact hleft p.witness (.inr ⟨p, hp, rfl⟩)
      · rintro hclear w (hw | ⟨p, hp, rfl⟩) r hr
        · rw [hreset w hw] at hr
          cases hr
        · exact hclear p hp r hr
  · exact ⟨fun _ hd => absurd hd ha, fun _ hd => absurd hd ha⟩

/-- **Synced operations and the witnesses.** In a run each sync clears every attached witness of
what it has synced iff no client's witness holds any of that when the sync comes; and what such a
witness holds it holds for good. -/
theorem synced_leaves_iff (n : UInt64) (localWitness : Option Witness) (clients : List WitnessPeer)
    (as : List Action) :
    (Along (fun s a s' => s.SyncedLeave a s') step as (init n localWitness clients) ↔
      Along (fun s a _ => s.ClientsClear a) step as (init n localWitness clients)) ∧
    ∀ s s' k r, Reaches step s s' → HeldBy s k r → HeldBy s' k r := by
  constructor
  · apply along_congr (I := fun _ => True)
    · exact fun s a s' _ hs => syncedLeave_iff hs
    · exact fun _ _ _ _ _ _ => trivial
    · trivial
  · intro s s' k r hrun hheld
    exact hrun.inv (fun _ _ _ ht hs => step_heldBy ht hs) hheld

/-- The put is recorded at the witness of a client, executed and synced; the witness keeps it. -/
theorem sync_keeps_client_record : ∃ s s', Reaches step (init 0 none [⟨{}, .ok, 0⟩]) s ∧
    s.step .doSync = some s' ∧ ¬s.SyncedLeave .doSync s' := by
  have hrun : ((runs step [.record (some 0) "0" CurpNode.putRecord.request 0,
      .check CurpNode.onePut, .body 0] (init 0 none [⟨{}, .ok, 0⟩])).any fun s =>
        decide (7 ∈ s.node.master.unsyncedOps) &&
          (s.step .doSync).any fun s' => s'.witnesses.any fun w =>
            decide (CurpNode.putRecord ∈ values w.records)) = true := by decide +kernel
  obtain ⟨s, hr, hs⟩ := exists_of_runs hrun
  rw [Bool.and_eq_true, Option.any_eq_true] at hs
  obtain ⟨hunsynced, s', hsync, hleft⟩ := hs
  obtain ⟨w, hw, hheld⟩ := List.any_eq_true.mp hleft
  refine ⟨s, s', hr, hsync, ?_⟩
  intro hleave
  exact hleave rfl w hw _ (of_decide_eq_true hheld) (of_decide_eq_true hunsynced)

end Server
end TinyKv
