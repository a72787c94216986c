import TinyKv.Curp.Client

/-!
# Curp.FastPath

What a write that took the fast path has left at the witnesses.

The configured addresses may name a witness more than once, so the calls of `record_to_witnesses`
go to a shared table of witnesses here (`recordAll`). The reply of the master and that of `sync` are
any.

* `recordAll_all`: where as many calls are accepted as there are, every configured witness holds the
  request.
* `fastPath_witnessed_iff`: the fast path means that some witness, and every configured one, holds
  the request, unless none is configured and the master reports a plain success: then 0 of 0
  witnesses have accepted.
-/

namespace TinyKv

open Lib

/-- One configured address: the witness behind it, with the outcome and the time of the call. -/
structure RecordCall (ι : Type) where
  witness : ι
  outcome : RpcOutcome
  now : UInt64

namespace CurpClient

variable {ι : Type} [DecidableEq ι]

/-- `record_to_witnesses` on a table of witnesses. -/
def recordAll (c : CurpClient) (rpcId : UInt64) (key requestData : Bytes) :
    (ι → Witness) → List (RecordCall ι) → (ι → Witness) × Nat
  | ws, [] => (ws, 0)
  | ws, p :: ps =>
    let (w, result) := WitnessClient.record p.outcome (ws p.witness) "master" rpcId key requestData
      c.clientId p.now
    let (ws', accepted) := c.recordAll rpcId key requestData (Function.update ws p.witness w) ps
    (ws', if result = .accepted then accepted + 1 else accepted)

/-- The witness holds a record with the id, the key and the bytes of the operation. -/
def Holds (w : Witness) (op : CurpOp) : Prop :=
  ∃ r, w.records.lookup op.key = some r ∧ r.rpcId = op.rpcId ∧ r.key = op.key ∧
    r.requestData = serializeRequest op

/-- A write that reports the fast path has left its request at some witness, and at every
configured one. -/
def FastPathWitnessed (c : CurpClient) (op : CurpOp) (ws : ι → Witness)
    (calls : List (RecordCall ι)) (resp : ProposeResponse) (syncReply : Bool) : Prop :=
  let (ws', accepted) := c.recordAll op.rpcId op.key (serializeRequest op) ws calls
  let result := (finishWrite resp accepted calls.length syncReply).1
  result.success = true → result.fastPath = true →
    (∃ p ∈ calls, Holds (ws' p.witness) op) ∧ ∀ p ∈ calls, Holds (ws' p.witness) op

variable {c : CurpClient} {op : CurpOp} {w : Witness} {ws : ι → Witness}

/-- The witness knows the id of the operation only from the operation itself. -/
def Known (w : Witness) (op : CurpOp) : Prop := op.rpcId ∈ w.rpcIds → Holds w op

theorem record_holds {w' : Witness} {masterId : String} {clientId now : UInt64}
    {res : RecordResult} (hknown : Known w op)
    (h : w.record masterId op.rpcId op.key (serializeRequest op) clientId now = (w', res)) :
    Known w' op ∧ (Holds w op → Holds w' op) ∧ (res = .accepted → Holds w' op) := by
  rcases Witness.record_cases h with ⟨hrej, rfl⟩ | ⟨_, _, hdup, rfl⟩ | ⟨_, _, _, _, _, rfl⟩
  · exact ⟨hknown, id, fun hacc => absurd hacc hrej⟩
  · exact ⟨hknown, id, fun _ => hknown hdup⟩
  · have hstored : Holds (w.store masterId
        ⟨op.rpcId, op.key, serializeRequest op, clientId, now⟩) op :=
      ⟨_, Finmap.lookup_insert _, rfl, rfl, rfl⟩
    exact ⟨fun _ => hstored, fun _ => hstored, fun _ => hstored⟩

theorem clientRecord_holds {w' : Witness} {outcome : RpcOutcome} {masterId : String}
    {clientId now : UInt64} {res : RecordResult} (hknown : Known w op)
    (h : WitnessClient.record outcome w masterId op.rpcId op.key (serializeRequest op) clientId
      now = (w', res)) :
    Known w' op ∧ (Holds w op → Holds w' op) ∧ (res = .accepted → Holds w' op) := by
  obtain ⟨w₁, res₁, hr⟩ : ∃ w₁ res₁, w.record masterId op.rpcId op.key (serializeRequest op)
      clientId now = (w₁, res₁) := ⟨_, _, rfl⟩
  have hcall := record_holds hknown hr
  cases outcome with
  | ok =>
    simp only [WitnessClient.record, hr, RecordReply.toResult_ofResult] at h
    cases h
    exact hcall
  | requestLost =>
    cases h
    exact ⟨hknown, id, fun hacc => by cases hacc⟩
  | replyLost =>
    simp only [WitnessClient.record, hr] at h
    cases h
    exact ⟨hcall.1, hcall.2.1, fun hacc => by cases hacc⟩

section Update

variable {ws : ι → Witness} {j : ι} {w' : Witness}

theorem holds_update (hkeep : Holds (ws j) op → Holds w' op) {i : ι} (hi : Holds (ws i) op) :
    Holds (Function.update ws j w' i) op := by
  by_cases heq : i = j
  · subst heq
    rw [Function.update_self]
    exact hkeep hi
  · rw [Function.update_of_ne heq]
    exact hi

theorem known_update (hw : Known w' op) {i : ι} (hi : Known (ws i) op) :
    Known (Function.update ws j w' i) op := by
  by_cases heq : i = j
  · subst heq
    rw [Function.update_self]
    exact hw
  · rw [Function.update_of_ne heq]
    exact hi

end Update

theorem recordAll_le (c : CurpClient) (rpcId : UInt64) (key requestData : Bytes)
    (calls : List (RecordCall ι)) : ∀ ws : ι → Witness,
    (c.recordAll rpcId key requestData ws calls).2 ≤ calls.length := by
  induction calls with
  | nil => intro ws; exact Nat.le_refl 0
  | cons p ps ih =>
    intro ws
    have hrest := ih (Function.update ws p.witness (WitnessClient.record p.outcome (ws p.witness)
      "master" rpcId key requestData c.clientId p.now).1)
    simp only [recordAll, List.length_cons]
    split
    · exact Nat.succ_le_succ hrest
    · exact Nat.le_succ_of_le hrest

theorem recordAll_cons {c : CurpClient} {rpcId : UInt64} {key requestData : Bytes}
    {ws : ι → Witness} {p : RecordCall ι} {w : Witness} {res : RecordResult}
    (h : WitnessClient.record p.outcome (ws p.witness) "master" rpcId key requestData c.clientId
      p.now = (w, res)) (ps : List (RecordCall ι)) :
    c.recordAll rpcId key requestData ws (p :: ps) =
      let (ws', accepted) := c.recordAll rpcId key requestData (Function.update ws p.witness w) ps
      (ws', if res = .accepted then accepted + 1 else accepted) := by
  rw [recordAll, h]

theorem recordAll_all (c : CurpClient) (op : CurpOp) (calls : List (RecordCall ι)) :
    ∀ (ws : ι → Witness), (∀ p ∈ calls, Known (ws p.witness) op) →
    ∀ ws' n, c.recordAll op.rpcId op.key (serializeRequest op) ws calls = (ws', n) →
    (∀ i, Holds (ws i) op → Holds (ws' i) op) ∧
    (n = calls.length → ∀ p ∈ calls, Holds (ws' p.witness) op) := by
  induction calls with
  | nil =>
    intro ws _ ws' n h
    cases h
    exact ⟨fun _ h => h, fun _ p hp => by cases hp⟩
  | cons p ps ih =>
    intro ws hknown ws' n h
    obtain ⟨w, res, hr⟩ : ∃ w res, WitnessClient.record p.outcome (ws p.witness) "master" op.rpcId
        op.key (serializeRequest op) c.clientId p.now = (w, res) := ⟨_, _, rfl⟩
    obtain ⟨hw, hkeep, hacc⟩ := clientRecord_holds (hknown p List.mem_cons_self) hr
    let ws₁ : ι → Witness := Function.update ws p.witness w
    have hknown' : ∀ q ∈ ps, Known (ws₁ q.witness) op :=
      fun q hq => known_update hw (hknown q (List.mem_cons_of_mem p hq))
    obtain ⟨ws₂, n₂, hrest⟩ : ∃ ws₂ n₂, c.recordAll op.rpcId op.key (serializeRequest op) ws₁ ps =
        (ws₂, n₂) := ⟨_, _, rfl⟩
    obtain ⟨hkeep', hall⟩ := ih ws₁ hknown' ws₂ n₂ hrest
    have hle : n₂ ≤ ps.length := by
      have hle' := recordAll_le c op.rpcId op.key (serializeRequest op) ps ws₁
      rwa [hrest] at hle'
    rw [recordAll_cons hr, hrest] at h
    cases h
    constructor
    · intro i hi
      exact hkeep' i (holds_update hkeep hi)
    · intro hn
      -- one refused call leaves fewer accepted ones than there are calls
      have hboth : res = .accepted ∧ n₂ = ps.length := by
        rw [List.length_cons] at hn
        split at hn
        · rename_i hres
          exact ⟨hres, Nat.succ.inj hn⟩
        · omega
      intro q hq
      rcases List.mem_cons.mp hq with rfl | hq
      · apply hkeep'
        show Holds (Function.update ws q.witness w q.witness) op
        rw [Function.update_self]
        exact hacc hboth.1
      · exact hall hboth.2 q hq

theorem finishWrite_fast {resp : ProposeResponse} {accepted witnessCount : Nat} {syncReply : Bool} :
    ((finishWrite resp accepted witnessCount syncReply).1.success = true ∧
      (finishWrite resp accepted witnessCount syncReply).1.fastPath = true) ↔
    resp.success = true ∧ resp.needSync = false ∧ accepted = witnessCount := by
  have hsync : ¬((afterSync syncReply).1.success = true ∧
      (afterSync syncReply).1.fastPath = true) := by
    cases syncReply <;> simp [afterSync]
  unfold finishWrite
  split
  · rename_i hfail
    constructor
    · rintro ⟨h, _⟩
      cases h
    · rintro ⟨h, _⟩
      exact absurd h hfail
  · rename_i hok
    rw [not_not] at hok
    split
    · rename_i hneed
      refine ⟨fun h => absurd h hsync, ?_⟩
      rintro ⟨_, h, _⟩
      rw [hneed] at h
      cases h
    · rename_i hneed
      rw [Bool.not_eq_true] at hneed
      split
      · rename_i hall
        exact ⟨fun _ => ⟨hok, hneed, hall⟩, fun _ => ⟨rfl, rfl⟩⟩
      · rename_i hsome
        exact ⟨fun h => absurd h hsync, fun h => absurd h.2.2 hsome⟩

/-- **The fast path is witnessed** iff there is a witness, or the master does not report a plain
success. -/
theorem fastPath_witnessed_iff (c : CurpClient) (op : CurpOp) (ws : ι → Witness)
    (calls : List (RecordCall ι)) (hnew : ∀ p ∈ calls, op.rpcId ∉ (ws p.witness).rpcIds)
    (resp : ProposeResponse) (syncReply : Bool) :
    FastPathWitnessed c op ws calls resp syncReply ↔
      calls ≠ [] ∨ resp.success = false ∨ resp.needSync = true := by
  constructor
  · intro h
    rw [or_iff_not_imp_left, not_not]
    rintro rfl
    by_contra hplain
    rw [not_or, Bool.not_eq_false, Bool.not_eq_true] at hplain
    obtain ⟨hok, hfast⟩ := finishWrite_fast.mpr
      (⟨hplain.1, hplain.2, rfl⟩ : _ ∧ _ ∧ 0 = 0)
    obtain ⟨⟨p, hp, _⟩, _⟩ := h hok hfast
    cases hp
  · intro h hok hfast
    obtain ⟨hresp, hneed, hcount⟩ := finishWrite_fast.mp ⟨hok, hfast⟩
    have hknown : ∀ p ∈ calls, Known (ws p.witness) op := fun p hp hid => absurd hid (hnew p hp)
    have hall := (recordAll_all c op calls ws hknown _ _ rfl).2 hcount
    refine ⟨?_, hall⟩
    rcases h with hne | hfail | hask
    · obtain ⟨p, hp⟩ := List.exists_mem_of_ne_nil calls hne
      exact ⟨p, hp, hall p hp⟩
    · rw [hresp] at hfail
      cases hfail
    · rw [hneed] at hask
      cases hask

section Example

def onePut : CurpOp := { rpcId := 1, clientId := 1, type := .put, key := [107], value := [1] }

/-- The same witness configured twice. -/
theorem fastPath_witnessed_twice :
    FastPathWitnessed { clientId := 1 } onePut (fun _ : Unit => {}) [⟨(), .ok, 0⟩, ⟨(), .ok, 1⟩]
      ⟨true, true, false, [], ""⟩ true :=
  (fastPath_witnessed_iff _ onePut _ _ (by decide) _ true).mpr (.inl (by decide))

/-- No witness is configured; the write succeeds on the fast path. -/
theorem fastPath_without_witness :
    (finishWrite ⟨true, true, false, [], ""⟩ (recordAll { clientId := 1 } onePut.rpcId onePut.key
      (serializeRequest onePut) (fun _ : Unit => {}) []).2 0 true).1 = ⟨true, true, 1, ""⟩ ∧
    ¬FastPathWitnessed { clientId := 1 } onePut (fun _ : Unit => {}) []
      ⟨true, true, false, [], ""⟩ true := by
  refine ⟨rfl, ?_⟩
  intro h
  obtain ⟨⟨p, hp, _⟩, _⟩ := h rfl rfl
  cases hp

end Example

end CurpClient
end TinyKv
