import TinyKv.Curp.Service
import TinyKv.Curp.Status
import TinyKv.Lib.Channel
import TinyKv.Lib.ProtoType

/-!
# Rpc.WitnessMessages

The messages of the witness service, field by field as `proto/witness.proto` has them, and what can
keep one of them from arriving: a `string` that is not UTF-8, and its size. The replies that carry
no records and no master id are always small enough.

`stale_rpc_ids` of the reply to a collection is never set, and left out.
-/

namespace TinyKv

open Lib ProtoType Format

structure RecordRequest where
  masterId : String
  rpcId : UInt64
  key : Bytes
  requestData : Bytes
  clientId : UInt64

structure GCRequest where
  masterId : String
  entries : List GCEntry

structure RecoveryRequest where
  masterId : String

/-- `witness::RecoveryData`, with the records in the order in which the service adds them. -/
structure RecoveryReply where
  success : Bool
  requests : List WitnessRecord

structure StopRequest where
  masterId : String

structure ResetRequest where
  masterId : String
  newMasterId : String

structure StatusRequest where

structure StatusReply where
  masterId : String
  accepting : Bool
  requestCount : Nat
  oldestTimestamp : UInt64

section Formats

variable [Protobuf]

def RecordRequest.format : Format RecordRequest where
  zero := ⟨"", 0, [], [], 0⟩
  fields := [
    .scalar 1 text masterId (fun m s => { m with masterId := s }) fun _ => rfl,
    .scalar 2 uint64 rpcId (fun m v => { m with rpcId := v }) fun _ => rfl,
    .scalar 3 string key (fun m s => { m with key := s }) fun _ => rfl,
    .scalar 4 raw requestData (fun m s => { m with requestData := s }) fun _ => rfl,
    .scalar 5 uint64 clientId (fun m v => { m with clientId := v }) fun _ => rfl]

def RecordReply.format : Format RecordReply where
  zero := ⟨false, 0, ""⟩
  fields := [
    .scalar 1 bool accepted (fun m b => { m with accepted := b }) fun _ => rfl,
    .scalar 2 int32 (fun m => (m.rejectReason : Int))
      (fun m z => { m with rejectReason := z.toNat }) fun _ => rfl,
    .scalar 3 text message (fun m s => { m with message := s }) fun _ => rfl]

def GCEntry.format : Format GCEntry where
  zero := ⟨[], 0⟩
  fields := [
    .scalar 1 string key (fun m s => { m with key := s }) fun _ => rfl,
    .scalar 2 uint64 rpcId (fun m v => { m with rpcId := v }) fun _ => rfl]

def GCRequest.format : Format GCRequest where
  zero := ⟨"", []⟩
  fields := [
    .scalar 1 text masterId (fun m s => { m with masterId := s }) fun _ => rfl,
    .repeated 2 GCEntry.format entries (fun m es => { m with entries := es })
      (fun _ => rfl) (fun _ _ => rfl) fun _ _ _ => rfl]

def RecoveryRequest.format : Format RecoveryRequest where
  zero := ⟨""⟩
  fields := [.scalar 1 text masterId (fun _ s => ⟨s⟩) fun _ => rfl]

/-- `witness::SavedRequest`. -/
def WitnessRecord.format : Format WitnessRecord where
  zero := ⟨0, [], [], 0, 0⟩
  fields := [
    .scalar 1 uint64 rpcId (fun m v => { m with rpcId := v }) fun _ => rfl,
    .scalar 2 string key (fun m s => { m with key := s }) fun _ => rfl,
    .scalar 3 raw requestData (fun m s => { m with requestData := s }) fun _ => rfl,
    .scalar 4 uint64 clientId (fun m v => { m with clientId := v }) fun _ => rfl,
    .scalar 5 uint64 timestamp (fun m v => { m with timestamp := v }) fun _ => rfl]

def RecoveryReply.format : Format RecoveryReply where
  zero := ⟨false, []⟩
  fields := [
    .scalar 1 bool success (fun m b => { m with success := b }) fun _ => rfl,
    .repeated 2 WitnessRecord.format requests (fun m rs => { m with requests := rs })
      (fun _ => rfl) (fun _ _ => rfl) fun _ _ _ => rfl]

def StopRequest.format : Format StopRequest where
  zero := ⟨""⟩
  fields := [.scalar 1 text masterId (fun _ s => ⟨s⟩) fun _ => rfl]

def ResetRequest.format : Format ResetRequest where
  zero := ⟨"", ""⟩
  fields := [
    .scalar 1 text masterId (fun m s => { m with masterId := s }) fun _ => rfl,
    .scalar 2 text newMasterId (fun m s => { m with newMasterId := s }) fun _ => rfl]

def GCReply.format : Format GCReply where
  zero := ⟨false, 0⟩
  fields := [
    .scalar 1 bool success (fun m b => { m with success := b }) fun _ => rfl,
    .scalar 2 uint32 droppedCount (fun m v => { m with droppedCount := v }) fun _ => rfl]

def StopReply.format : Format StopReply where
  zero := ⟨false, 0⟩
  fields := [
    .scalar 1 bool success (fun m b => { m with success := b }) fun _ => rfl,
    .scalar 2 uint32 requestCount (fun m v => { m with requestCount := v }) fun _ => rfl]

def ResetReply.format : Format ResetReply where
  zero := ⟨false⟩
  fields := [.scalar 1 bool success (fun _ b => ⟨b⟩) fun _ => rfl]

def StatusRequest.format : Format StatusRequest where
  zero := {}
  fields := []
  total := fun _ => rfl

def StatusReply.format : Format StatusReply where
  zero := ⟨"", false, 0, 0⟩
  fields := [
    .scalar 1 text masterId (fun m s => { m with masterId := s }) fun _ => rfl,
    .scalar 2 bool accepting (fun m b => { m with accepting := b }) fun _ => rfl,
    .scalar 3 uint32 requestCount (fun m v => { m with requestCount := v }) fun _ => rfl,
    .scalar 4 uint64 oldestTimestamp (fun m v => { m with oldestTimestamp := v }) fun _ => rfl]

end Formats

/-- An absent time is not set. -/
def StatusReply.ofStatus (status : WitnessStatus) : StatusReply where
  masterId := status.masterId
  accepting := status.accepting
  requestCount := status.requestCount
  oldestTimestamp := status.oldestTimestamp.getD 0

def WitnessServiceImpl.getStatus (w : Witness) : StatusReply := .ofStatus w.getStatus

/-- How `WitnessClient::get_status` reads the reply: a time of 0 is an absent one. -/
def StatusReply.toStatus (reply : StatusReply) : WitnessStatus where
  masterId := reply.masterId
  accepting := reply.accepting
  requestCount := reply.requestCount
  oldestTimestamp := if reply.oldestTimestamp ≠ 0 then some reply.oldestTimestamp else none

/-! ## What arrives -/

variable [Protobuf]

namespace RecordRequest

theorem inRange (m : RecordRequest) : format.InRange m := by
  simp only [Format.InRange, format, Field.scalar, List.forall_mem_cons]
  exact ⟨trivial, trivial, trivial, trivial, trivial, List.forall_mem_nil _⟩

theorem valid_eq (m : RecordRequest) : format.valid m = isUtf8 m.key := by
  simp [Format.valid, format, Field.scalar, text, uint64, string, raw, Scalar.varint, Scalar.bytes]

theorem carry_utf8 [Channel] {m m' : RecordRequest} (h : format.carry m = some m') :
    isUtf8 m'.key = true := by
  have h0 : isUtf8 [] = true := by decide
  refine carry_inv (P := fun m => isUtf8 m.key = true) h0 ?_ h
  intro f hf acc bs acc' rest hacc hread
  simp only [format, List.mem_cons, List.not_mem_nil, or_false] at hf
  rcases hf with rfl | rfl | rfl | rfl | rfl
  case inr.inr.inl =>
    obtain ⟨p, hp, heq⟩ := Option.map_eq_some_iff.mp hread
    cases heq
    exact string.read_valid _ _ _ hp
  all_goals
    obtain ⟨p, _, heq⟩ := Option.map_eq_some_iff.mp hread
    cases heq
    exact hacc

end RecordRequest

namespace RecordReply

theorem inRange (result : RecordResult) : format.InRange (.ofResult result) := by
  have hreason : IsInt32 (ofResult result).rejectReason := by cases result <;> decide
  simp only [Format.InRange, format, Field.scalar, List.forall_mem_cons]
  exact ⟨trivial, hreason, trivial, List.forall_mem_nil _⟩

theorem sized (result : RecordResult) : format.Sized (.ofResult result) := by
  have hmessage : (textBytes (ofResult result).message).length ≤ 12 := by cases result <;> decide
  have hfield : ∀ f ∈ format.fields, (writeField f (.ofResult result)).length ≤ 27 := by
    simp only [format, List.forall_mem_cons]
    refine ⟨?_, ?_, ?_, List.forall_mem_nil _⟩
    · exact Nat.le_trans (length_writeField_scalar (length_bool _)) (by decide)
    · exact Nat.le_trans (length_writeField_scalar (length_int32 _)) (by decide)
    · exact length_writeField_scalar
        (Nat.le_trans (length_text _) (Nat.add_le_add_right hmessage 10))
  exact Nat.le_trans (length_write_le hfield) (by decide : 3 * 27 ≤ maxReceive)

end RecordReply

theorem GCRequest.inRange (m : GCRequest) : format.InRange m := by
  have hentry (entry : GCEntry) : GCEntry.format.InRange entry := by
    simp only [Format.InRange, GCEntry.format, Field.scalar, List.forall_mem_cons]
    exact ⟨trivial, trivial, List.forall_mem_nil _⟩
  simp only [Format.InRange, format, Field.scalar, Field.repeated, List.forall_mem_cons]
  exact ⟨trivial, fun entry _ => hentry entry, List.forall_mem_nil _⟩

theorem GCRequest.valid_eq (m : GCRequest) :
    format.valid m = m.entries.all fun entry => isUtf8 entry.key := by
  have hentry : (fun entry : GCEntry => isUtf8 entry.key) = GCEntry.format.valid := by
    funext entry
    simp [Format.valid, GCEntry.format, Field.scalar, uint64, string, Scalar.varint, Scalar.bytes]
  rw [hentry]
  simp [Format.valid, format, Field.scalar, Field.repeated, text, Scalar.bytes]

theorem RecoveryRequest.inRange (m : RecoveryRequest) : format.InRange m := by
  simp only [Format.InRange, format, Field.scalar, List.forall_mem_cons]
  exact ⟨trivial, List.forall_mem_nil _⟩

theorem RecoveryReply.inRange (m : RecoveryReply) : format.InRange m := by
  have hrecord (r : WitnessRecord) : WitnessRecord.format.InRange r := by
    simp only [Format.InRange, WitnessRecord.format, Field.scalar, List.forall_mem_cons]
    exact ⟨trivial, trivial, trivial, trivial, trivial, List.forall_mem_nil _⟩
  simp only [Format.InRange, format, Field.scalar, Field.repeated, List.forall_mem_cons]
  exact ⟨trivial, fun r _ => hrecord r, List.forall_mem_nil _⟩

theorem RecoveryReply.valid_eq (m : RecoveryReply) :
    format.valid m = m.requests.all fun r => isUtf8 r.key := by
  have hrecord : (fun r : WitnessRecord => isUtf8 r.key) = WitnessRecord.format.valid := by
    funext r
    simp [Format.valid, WitnessRecord.format, Field.scalar, uint64, string, raw, Scalar.varint,
      Scalar.bytes]
  rw [hrecord]
  simp [Format.valid, format, Field.scalar, Field.repeated, ProtoType.bool, Scalar.varint]

theorem StopRequest.inRange (m : StopRequest) : format.InRange m := by
  simp only [Format.InRange, format, Field.scalar, List.forall_mem_cons]
  exact ⟨trivial, List.forall_mem_nil _⟩

theorem ResetRequest.inRange (m : ResetRequest) : format.InRange m := by
  simp only [Format.InRange, format, Field.scalar, List.forall_mem_cons]
  exact ⟨trivial, trivial, List.forall_mem_nil _⟩

theorem GCReply.inRange {m : GCReply} (h : m.droppedCount < 2 ^ 32) : format.InRange m := by
  simp only [Format.InRange, format, Field.scalar, List.forall_mem_cons]
  exact ⟨trivial, h, List.forall_mem_nil _⟩

theorem GCReply.sized (m : GCReply) : format.Sized m := by
  have hfield : ∀ f ∈ format.fields, (writeField f m).length ≤ 15 := by
    simp only [format, List.forall_mem_cons]
    exact ⟨length_writeField_scalar (length_bool _), length_writeField_scalar (length_uint32 _),
      List.forall_mem_nil _⟩
  exact Nat.le_trans (length_write_le hfield) (by decide : 2 * 15 ≤ maxReceive)

theorem StopReply.inRange {m : StopReply} (h : m.requestCount < 2 ^ 32) : format.InRange m := by
  simp only [Format.InRange, format, Field.scalar, List.forall_mem_cons]
  exact ⟨trivial, h, List.forall_mem_nil _⟩

theorem StopReply.sized (m : StopReply) : format.Sized m := by
  have hfield : ∀ f ∈ format.fields, (writeField f m).length ≤ 15 := by
    simp only [format, List.forall_mem_cons]
    exact ⟨length_writeField_scalar (length_bool _), length_writeField_scalar (length_uint32 _),
      List.forall_mem_nil _⟩
  exact Nat.le_trans (length_write_le hfield) (by decide : 2 * 15 ≤ maxReceive)

theorem ResetReply.inRange (m : ResetReply) : format.InRange m := by
  simp only [Format.InRange, format, Field.scalar, List.forall_mem_cons]
  exact ⟨trivial, List.forall_mem_nil _⟩

theorem ResetReply.sized (m : ResetReply) : format.Sized m := by
  have hfield : ∀ f ∈ format.fields, (writeField f m).length ≤ 15 := by
    simp only [format, List.forall_mem_cons]
    exact ⟨length_writeField_scalar (length_bool _), List.forall_mem_nil _⟩
  exact Nat.le_trans (length_write_le hfield) (by decide : 1 * 15 ≤ maxReceive)

omit [Protobuf] in
theorem StatusRequest.inRange (m : StatusRequest) : format.InRange m := List.forall_mem_nil _

theorem StatusRequest.sized (m : StatusRequest) : format.Sized m := Nat.zero_le _

theorem StatusReply.inRange {m : StatusReply} (h : m.requestCount < 2 ^ 32) :
    format.InRange m := by
  simp only [Format.InRange, format, Field.scalar, List.forall_mem_cons]
  exact ⟨trivial, trivial, h, trivial, List.forall_mem_nil _⟩

end TinyKv
