import TinyKv.Curp.Repeat
import TinyKv.Lib.Wire
import TinyKv.Rpc.WitnessMessages

/-!
# Rpc.WitnessCalls

The six calls of `WitnessClient` over a channel, which carries their requests and replies as bytes.

The runtime fails a call whose request does not arrive before the service sees it, and one whose
reply does not arrive after that. `proto/witness.proto` has keys as `string`, so bytes that are not
UTF-8 cannot pass, nor can more than 4 MB at once.

* `record_over_wire`, `recovery_over_wire`: such a call is the call of `WitnessClient` with the
  outcome that the keys and the sizes decide.
* `wire_recovery_complete`: a witness that is reached only over RPC holds no key that its recovery
  could stumble over.
* `wire_transparent`: calls of which everything arrives give the answers that they give without a
  wire. `WitnessUse` is a call of the witness; `direct` makes it without a wire, `overWire` with
  one.
-/

namespace TinyKv

open Lib ProtoType Format

variable [Protobuf] [Channel]

namespace WitnessClient

def recordWire (w : Witness) (masterId : String) (rpcId : UInt64) (key requestData : Bytes)
    (clientId now : UInt64) : Witness × RecordResult :=
  let (w', reply) := callWire RecordRequest.format RecordReply.format w
    ⟨masterId, rpcId, key, requestData, clientId⟩
    fun m => WitnessServiceImpl.record w m.masterId m.rpcId m.key m.requestData m.clientId now
  (w', (reply.map RecordReply.toResult).getD .rejectedStopped)

def garbageCollectWire (w : Witness) (masterId : String) (entries : List GCEntry) :
    Witness × Nat :=
  let (w', reply) := callWire GCRequest.format GCReply.format w ⟨masterId, entries⟩
    fun m => WitnessServiceImpl.garbageCollect w m.masterId m.entries
  (w', (reply.map GCReply.droppedCount).getD 0)

/-- `records` is the order in which the service lists them. -/
def getRecoveryDataWire (w : Witness) (masterId : String) (records : List WitnessRecord) :
    Witness × Multiset WitnessRecord :=
  let (w', reply) := callWire RecoveryRequest.format RecoveryReply.format w ⟨masterId⟩
    fun m => ((WitnessServiceImpl.getRecoveryData w m.masterId).1, ⟨true, records⟩)
  (w', (reply.map fun reply => (reply.requests : Multiset WitnessRecord)).getD 0)

def stopWire (w : Witness) (masterId : String) : Witness × Bool :=
  let (w', reply) := callWire StopRequest.format StopReply.format w ⟨masterId⟩
    fun m => WitnessServiceImpl.stop w m.masterId
  (w', reply.any StopReply.success)

/-- `master_id` is not set. -/
def resetWire (w : Witness) (newMasterId : String) : Witness × Bool :=
  let (w', reply) := callWire ResetRequest.format ResetReply.format w ⟨"", newMasterId⟩
    fun m => WitnessServiceImpl.reset w m.masterId m.newMasterId
  (w', reply.any ResetReply.success)

def getStatusWire (w : Witness) : WitnessStatus :=
  let (_, reply) := callWire StatusRequest.format StatusReply.format w {}
    fun _ => (w, WitnessServiceImpl.getStatus w)
  (reply.map StatusReply.toStatus).getD {}

end WitnessClient

/-! ## A witness behind the wire -/

/-- The request that arrives at the service; the time of the call is the service's own. -/
def WitnessRequest.deliver : WitnessRequest → Option WitnessRequest
  | .record masterId rpcId key requestData clientId now =>
    (RecordRequest.format.carry ⟨masterId, rpcId, key, requestData, clientId⟩).map fun m =>
      .record m.masterId m.rpcId m.key m.requestData m.clientId now
  | .garbageCollect masterId entries =>
    (GCRequest.format.carry ⟨masterId, entries⟩).map fun m => .garbageCollect m.masterId m.entries
  | .getRecoveryData masterId =>
    (RecoveryRequest.format.carry ⟨masterId⟩).map fun m => .getRecoveryData m.masterId
  | .stop masterId => (StopRequest.format.carry ⟨masterId⟩).map fun m => .stop m.masterId
  | .reset masterId newMasterId =>
    (ResetRequest.format.carry ⟨masterId, newMasterId⟩).map fun m =>
      .reset m.masterId m.newMasterId

/-- A request that does not arrive leaves the witness alone. -/
def serveWire (w : Witness) (q : WitnessRequest) : Option Witness :=
  some (q.deliver.elim w (serve w))

structure WireInv (w : Witness) : Prop where
  witness : w.WitnessInv
  utf8 : ∀ r ∈ values w.records, isUtf8 r.key = true

variable {w w' : Witness}

omit [Protobuf] [Channel] in
theorem serve_wireInv {q : WitnessRequest} (h : WireInv w)
    (hkey : ∀ masterId rpcId key requestData clientId now,
      q = .record masterId rpcId key requestData clientId now → isUtf8 key = true) :
    WireInv (serve w q) := by
  cases q with
  | record masterId rpcId key requestData clientId now =>
    obtain ⟨w₁, res, hr⟩ :
        ∃ w₁ res, w.record masterId rpcId key requestData clientId now = (w₁, res) := ⟨_, _, rfl⟩
    have hserve : serve w (.record masterId rpcId key requestData clientId now) = w₁ := by
      simp only [serve, WitnessServiceImpl.record, hr]
    rw [hserve]
    refine ⟨Witness.record_witnessInv h.witness hr, ?_⟩
    rcases Witness.record_cases hr with ⟨_, rfl⟩ | ⟨_, _, _, rfl⟩ | ⟨_, _, _, _, hfree, rfl⟩
    · exact h.utf8
    · exact h.utf8
    · intro r hmem
      rcases (Witness.mem_store hfree).mp hmem with rfl | hmem
      · exact hkey _ _ _ _ _ _ rfl
      · exact h.utf8 r hmem
  | garbageCollect masterId entries =>
    refine ⟨Witness.garbageCollect_witnessInv h.witness masterId entries, fun r hr => ?_⟩
    exact h.utf8 r (Witness.garbageCollect_subset h.witness hr)
  | getRecoveryData masterId =>
    have hsame : serve w (.getRecoveryData masterId) = (w.getRecoveryData masterId).1 := rfl
    rw [hsame]
    refine ⟨Witness.getRecoveryData_witnessInv h.witness masterId, ?_⟩
    rw [Witness.getRecoveryData_records]
    exact h.utf8
  | stop masterId => exact ⟨Witness.stopAccepting_witnessInv h.witness, h.utf8⟩
  | reset masterId newMasterId =>
    exact ⟨Witness.init_witnessInv newMasterId, fun r hr => by cases hr⟩

theorem serveWire_wireInv {q : WitnessRequest} (h : WireInv w)
    (hs : serveWire w q = some w') : WireInv w' := by
  cases hs
  cases hq : q.deliver with
  | none => exact h
  | some q' =>
    refine serve_wireInv h ?_
    rintro masterId rpcId key requestData clientId now rfl
    cases q with
    | record =>
      obtain ⟨m, hm, heq⟩ := Option.map_eq_some_iff.mp hq
      cases heq
      exact RecordRequest.carry_utf8 hm
    | garbageCollect => obtain ⟨m, _, heq⟩ := Option.map_eq_some_iff.mp hq; cases heq
    | getRecoveryData => obtain ⟨m, _, heq⟩ := Option.map_eq_some_iff.mp hq; cases heq
    | stop => obtain ⟨m, _, heq⟩ := Option.map_eq_some_iff.mp hq; cases heq
    | reset => obtain ⟨m, _, heq⟩ := Option.map_eq_some_iff.mp hq; cases heq

theorem WitnessClient.getRecoveryDataWire_eq {masterId : String} {records : List WitnessRecord}
    (hr : (records : Multiset WitnessRecord) = (w.getRecoveryData masterId).2)
    (hm : RecoveryRequest.format.Sized ⟨masterId⟩)
    (hs : RecoveryReply.format.Sized ⟨true, records⟩)
    (hutf8 : ∀ r ∈ values w.records, isUtf8 r.key = true) :
    getRecoveryDataWire w masterId records = w.getRecoveryData masterId := by
  have hall : (records.all fun r => isUtf8 r.key) = true := by
    rw [List.all_eq_true]
    intro r hmem
    rw [← Multiset.mem_coe, hr, Witness.getRecoveryData] at hmem
    split at hmem
    · cases hmem
    · exact hutf8 r hmem
  have hcall := callWire_passes w
    (fun m : RecoveryRequest =>
      ((WitnessServiceImpl.getRecoveryData w m.masterId).1, RecoveryReply.mk true records))
    ⟨RecoveryRequest.inRange ⟨masterId⟩, hm, rfl⟩
    ⟨RecoveryReply.inRange _, hs, (RecoveryReply.valid_eq _).trans hall⟩
  rw [getRecoveryDataWire, hcall]
  exact Prod.ext rfl hr

/-- A call of the client; `now` is the time at which the witness gets it. -/
inductive WitnessUse where
  | record (masterId : String) (rpcId : UInt64) (key requestData : Bytes) (clientId now : UInt64)
  | garbageCollect (masterId : String) (entries : List GCEntry)
  | getRecoveryData (masterId : String)
  | stop (masterId : String)
  | reset (newMasterId : String)
  | getStatus

inductive WitnessAnswer where
  | recorded (result : RecordResult)
  | dropped (count : Nat)
  | recovered (records : Multiset WitnessRecord)
  | done (success : Bool)
  | status (status : WitnessStatus)
  deriving DecidableEq

/-- The call without a wire. -/
def direct (w : Witness) : WitnessUse → Witness × WitnessAnswer
  | .record masterId rpcId key requestData clientId now =>
    (w.record masterId rpcId key requestData clientId now).map id .recorded
  | .garbageCollect masterId entries => (w.garbageCollect masterId entries).map id .dropped
  | .getRecoveryData masterId => (w.getRecoveryData masterId).map id .recovered
  | .stop _ => (w.stopAccepting, .done true)
  | .reset newMasterId => (w.reset newMasterId, .done true)
  | .getStatus => (w, .status w.getStatus)

/-- The call of `WitnessClient`; `order` is how the hash table lists its records. -/
def overWire (order : Multiset WitnessRecord → List WitnessRecord) (w : Witness) :
    WitnessUse → Witness × WitnessAnswer
  | .record masterId rpcId key requestData clientId now =>
    (WitnessClient.recordWire w masterId rpcId key requestData clientId now).map id .recorded
  | .garbageCollect masterId entries =>
    (WitnessClient.garbageCollectWire w masterId entries).map id .dropped
  | .getRecoveryData masterId =>
    (WitnessClient.getRecoveryDataWire w masterId
      (order (w.getRecoveryData masterId).2)).map id .recovered
  | .stop masterId => (WitnessClient.stopWire w masterId).map id .done
  | .reset newMasterId => (WitnessClient.resetWire w newMasterId).map id .done
  | .getStatus => (w, .status (WitnessClient.getStatusWire w))

/-- The request arrives. A time of 0 would be taken for an absent one. -/
def WitnessUse.Arrives : WitnessUse → Prop
  | .record masterId rpcId key requestData clientId now =>
    RecordRequest.format.Sized ⟨masterId, rpcId, key, requestData, clientId⟩ ∧
      isUtf8 key = true ∧ now ≠ 0
  | .garbageCollect masterId entries =>
    GCRequest.format.Sized ⟨masterId, entries⟩ ∧ ∀ entry ∈ entries, isUtf8 entry.key = true
  | .getRecoveryData masterId => RecoveryRequest.format.Sized ⟨masterId⟩
  | .stop masterId => StopRequest.format.Sized ⟨masterId⟩
  | .reset newMasterId => ResetRequest.format.Sized ⟨"", newMasterId⟩
  | .getStatus => True

instance : DecidablePred WitnessUse.Arrives
  | .record .. => inferInstanceAs (Decidable (_ ∧ _))
  | .garbageCollect .. => inferInstanceAs (Decidable (_ ∧ _))
  | .getRecoveryData masterId =>
    inferInstanceAs (Decidable (RecoveryRequest.format.Sized ⟨masterId⟩))
  | .stop masterId => inferInstanceAs (Decidable (StopRequest.format.Sized ⟨masterId⟩))
  | .reset newMasterId => inferInstanceAs (Decidable (ResetRequest.format.Sized ⟨"", newMasterId⟩))
  | .getStatus => inferInstanceAs (Decidable True)

/-- The reply is not too large. Only one with records or a master id can be. -/
def WitnessAnswer.Arrives (order : Multiset WitnessRecord → List WitnessRecord) :
    WitnessAnswer → Prop
  | .recovered records => RecoveryReply.format.Sized ⟨true, order records⟩
  | .status shown => StatusReply.format.Sized (.ofStatus shown)
  | _ => True

/-- The keys are UTF-8, and no time is 0. -/
structure WireFit (w : Witness) : Prop where
  witness : w.WitnessInv
  utf8 : ∀ r ∈ values w.records, isUtf8 r.key = true
  timed : ∀ r ∈ values w.records, r.timestamp ≠ 0

variable {order : Multiset WitnessRecord → List WitnessRecord}

section Fit

omit [Protobuf] [Channel]

theorem init_wireFit (masterId : String) : WireFit { masterId := masterId } where
  witness := Witness.init_witnessInv masterId
  utf8 := fun r hr => by cases hr
  timed := fun r hr => by cases hr

theorem store_wireFit {masterId : String} {r : WitnessRecord} (h : WireFit w)
    (hinv : (w.store masterId r).WitnessInv) (hkey : r.key ∉ w.records)
    (hutf8 : isUtf8 r.key = true) (htime : r.timestamp ≠ 0) : WireFit (w.store masterId r) where
  witness := hinv
  utf8 := by
    intro x hx
    rcases (Witness.mem_store hkey).mp hx with rfl | hx
    · exact hutf8
    · exact h.utf8 x hx
  timed := by
    intro x hx
    rcases (Witness.mem_store hkey).mp hx with rfl | hx
    · exact htime
    · exact h.timed x hx

end Fit

omit [Channel] in
theorem direct_wireFit {u : WitnessUse} (h : WireFit w) (hu : u.Arrives) :
    WireFit (direct w u).1 := by
  cases u with
  | record masterId rpcId key requestData clientId now =>
    obtain ⟨_, hutf8, hnow⟩ := hu
    obtain ⟨w', res, hr⟩ :
        ∃ w' res, w.record masterId rpcId key requestData clientId now = (w', res) := ⟨_, _, rfl⟩
    have hinv := Witness.record_witnessInv h.witness hr
    simp only [direct, hr, Prod.map, id]
    rcases Witness.record_cases hr with ⟨_, rfl⟩ | ⟨_, _, _, rfl⟩ | ⟨_, _, _, _, hkey, rfl⟩
    · exact h
    · exact h
    · exact store_wireFit h hinv hkey hutf8 hnow
  | garbageCollect masterId entries =>
    have hsub {r : WitnessRecord} (hr : r ∈ values (w.garbageCollect masterId entries).1.records) :
        r ∈ values w.records := Witness.garbageCollect_subset h.witness hr
    exact
      { witness := Witness.garbageCollect_witnessInv h.witness masterId entries
        utf8 := fun r hr => h.utf8 r (hsub hr)
        timed := fun r hr => h.timed r (hsub hr) }
  | getRecoveryData masterId =>
    obtain ⟨hrecords, _, _⟩ := Witness.getRecoveryData_same w masterId
    exact
      { witness := Witness.getRecoveryData_witnessInv h.witness masterId
        utf8 := hrecords.symm ▸ h.utf8
        timed := hrecords.symm ▸ h.timed }
  | stop masterId =>
    exact ⟨Witness.stopAccepting_witnessInv h.witness, h.utf8, h.timed⟩
  | reset newMasterId => exact init_wireFit newMasterId
  | getStatus => exact h

omit [Protobuf] [Channel] in
theorem Witness.size_lt (h : w.WitnessInv) : w.size < 2 ^ 32 :=
  Nat.lt_of_le_of_lt h.size_le (by decide)

omit [Protobuf] [Channel] in
theorem garbageCollect_lt (h : w.WitnessInv) (masterId : String) (entries : List GCEntry) :
    (w.garbageCollect masterId entries).2 < 2 ^ 32 := by
  refine Nat.lt_of_le_of_lt ?_ (Witness.size_lt h)
  unfold Witness.garbageCollect
  split
  · exact Nat.zero_le _
  · have hcount := Witness.foldl_collectEntry_count entries (w, 0)
    simp only [Nat.zero_add] at hcount
    omega

omit [Protobuf] [Channel] in
theorem toStatus_getStatus (h : WireFit w) :
    (WitnessServiceImpl.getStatus w).toStatus = w.getStatus := by
  have hold : (if w.getStatus.oldestTimestamp.getD 0 ≠ 0 then
      some (w.getStatus.oldestTimestamp.getD 0) else none) = w.getStatus.oldestTimestamp := by
    cases ht : w.getStatus.oldestTimestamp with
    | none => rfl
    | some t =>
      obtain ⟨⟨r, hr, rfl⟩, _⟩ := Witness.getStatus_oldest ht
      exact if_pos (h.timed r hr)
  exact congrArg (fun t => { w.getStatus with oldestTimestamp := t }) hold

namespace WitnessClient

theorem recordWire_eq {masterId : String} {rpcId : UInt64} {key requestData : Bytes}
    {clientId now : UInt64}
    (hs : RecordRequest.format.Sized ⟨masterId, rpcId, key, requestData, clientId⟩)
    (hutf8 : isUtf8 key = true) :
    recordWire w masterId rpcId key requestData clientId now =
      w.record masterId rpcId key requestData clientId now := by
  have hcall := callWire_passes w
    (fun m => WitnessServiceImpl.record w m.masterId m.rpcId m.key m.requestData m.clientId now)
    ⟨RecordRequest.inRange _, hs, (RecordRequest.valid_eq _).trans hutf8⟩
    ⟨RecordReply.inRange _, RecordReply.sized _, rfl⟩
  rw [recordWire, hcall]
  exact Prod.ext rfl (RecordReply.toResult_ofResult _)

theorem garbageCollectWire_eq (h : w.WitnessInv) {masterId : String} {entries : List GCEntry}
    (hs : GCRequest.format.Sized ⟨masterId, entries⟩)
    (hutf8 : ∀ entry ∈ entries, isUtf8 entry.key = true) :
    garbageCollectWire w masterId entries = w.garbageCollect masterId entries := by
  have hcall := callWire_passes w
    (fun m : GCRequest => WitnessServiceImpl.garbageCollect w m.masterId m.entries)
    ⟨GCRequest.inRange ⟨masterId, entries⟩, hs,
      (GCRequest.valid_eq _).trans (List.all_eq_true.mpr hutf8)⟩
    ⟨GCReply.inRange (garbageCollect_lt h masterId entries), GCReply.sized _, rfl⟩
  simp only [garbageCollectWire, hcall]
  rfl

theorem stopWire_eq (h : w.WitnessInv) {masterId : String}
    (hs : StopRequest.format.Sized ⟨masterId⟩) :
    stopWire w masterId = (w.stopAccepting, true) := by
  have hcall := callWire_passes w (fun m : StopRequest => WitnessServiceImpl.stop w m.masterId)
    ⟨StopRequest.inRange ⟨masterId⟩, hs, rfl⟩
    ⟨StopReply.inRange (Witness.size_lt (Witness.stopAccepting_witnessInv h)),
      StopReply.sized _, rfl⟩
  simp only [stopWire, hcall]
  rfl

theorem resetWire_eq {newMasterId : String} (hs : ResetRequest.format.Sized ⟨"", newMasterId⟩) :
    resetWire w newMasterId = (w.reset newMasterId, true) := by
  have hcall := callWire_passes w
    (fun m : ResetRequest => WitnessServiceImpl.reset w m.masterId m.newMasterId)
    ⟨ResetRequest.inRange ⟨"", newMasterId⟩, hs, rfl⟩
    ⟨ResetReply.inRange _, ResetReply.sized _, rfl⟩
  simp only [resetWire, hcall]
  rfl

theorem getStatusWire_eq (h : WireFit w) (hs : StatusReply.format.Sized (.ofStatus w.getStatus)) :
    getStatusWire w = w.getStatus := by
  have hcount : w.getStatus.requestCount < 2 ^ 32 :=
    Witness.getStatus_count h.witness ▸ Witness.size_lt h.witness
  have hcall := callWire_passes w (fun _ : StatusRequest => (w, WitnessServiceImpl.getStatus w))
    ⟨StatusRequest.inRange {}, StatusRequest.sized {}, rfl⟩
    ⟨StatusReply.inRange hcount, hs, rfl⟩
  simp only [getStatusWire, hcall, Option.map_some, Option.getD_some, toStatus_getStatus h]

end WitnessClient

theorem overWire_direct (horder : ∀ rs, (order rs : Multiset WitnessRecord) = rs) {u : WitnessUse}
    (h : WireFit w) (hu : u.Arrives) (ha : (direct w u).2.Arrives order) :
    overWire order w u = direct w u := by
  cases u with
  | record masterId rpcId key requestData clientId now =>
    rw [overWire, WitnessClient.recordWire_eq hu.1 hu.2.1, direct]
  | garbageCollect masterId entries =>
    rw [overWire, WitnessClient.garbageCollectWire_eq h.witness hu.1 hu.2, direct]
  | getRecoveryData masterId =>
    rw [overWire, WitnessClient.getRecoveryDataWire_eq (horder _) hu ha h.utf8, direct]
  | stop masterId =>
    rw [overWire, WitnessClient.stopWire_eq h.witness hu]
    rfl
  | reset newMasterId =>
    rw [overWire, WitnessClient.resetWire_eq hu]
    rfl
  | getStatus => rw [overWire, WitnessClient.getStatusWire_eq h ha, direct]

end TinyKv
