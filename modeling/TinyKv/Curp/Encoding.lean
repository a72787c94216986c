import TinyKv.Curp.Client
import TinyKv.Lib.Codec

/-!
# Curp.Encoding

The bytes of a request, as the client records them at the witnesses.

The source only writes them (`serializeRequest`). `requestCodec` is the format as a codec: the type
in a byte, then the key and the value, each behind its length in four bytes.
`serializeRequest_unambiguous`: up to the lengths that four bytes can hold, no two requests have the
same bytes, and `decodeRequest` reads each of them back.
-/

namespace TinyKv

open Lib

def OpType.ofCode (b : UInt8) : Option OpType :=
  if b = 0 then some .put else if b = 1 then some .get else if b = 2 then some .deleteOp else none

theorem OpType.ofCode_iff (type : OpType) (b : UInt8) :
    OpType.ofCode b = some type ↔ type.code = b := by
  unfold OpType.ofCode
  constructor
  · intro h
    split at h
    · rename_i h0
      cases h
      exact h0.symm
    · split at h
      · rename_i h1
        cases h
        exact h1.symm
      · split at h
        · rename_i h2
          cases h
          exact h2.symm
        · cases h
  · rintro rfl
    cases type with
    | put => rfl
    | get => rfl
    | deleteOp => rfl

namespace CurpClient

def requestCodec : Codec (OpType × Bytes × Bytes) :=
  (Codec.byte OpType.code OpType.ofCode OpType.ofCode_iff).seq
    ((Codec.framed 4).seq (Codec.framed 4))

def decodeRequest (bs : Bytes) : Option (OpType × Bytes × Bytes) := requestCodec.decode bs

/-- The lengths fit into the four bytes that hold them. -/
def Short (op : CurpOp) : Prop := op.key.length < 2 ^ 32 ∧ op.value.length < 2 ^ 32

instance (op : CurpOp) : Decidable (Short op) := inferInstanceAs (Decidable (_ ∧ _))

theorem serializeRequest_eq_write (op : CurpOp) :
    serializeRequest op = requestCodec.write (op.type, op.key, op.value) := by
  simp only [serializeRequest, requestCodec, Codec.seq, Codec.byte, Codec.framed,
    List.singleton_append, List.append_assoc]

theorem Short.ok {op : CurpOp} (h : Short op) : requestCodec.Ok (op.type, op.key, op.value) :=
  ⟨trivial, h⟩

theorem decodeRequest_iff {bs : Bytes} {type : OpType} {key value : Bytes} :
    decodeRequest bs = some (type, key, value) ↔
      ∃ op, Short op ∧ op.type = type ∧ op.key = key ∧ op.value = value ∧
        bs = serializeRequest op := by
  rw [decodeRequest, Codec.decode_iff]
  constructor
  · rintro ⟨⟨_, hshort⟩, rfl⟩
    let op : CurpOp := { rpcId := 0, clientId := 0, type := type, key := key, value := value }
    exact ⟨op, hshort, rfl, rfl, rfl, (serializeRequest_eq_write op).symm⟩
  · rintro ⟨op, hshort, rfl, rfl, rfl, rfl⟩
    exact ⟨hshort.ok, serializeRequest_eq_write op⟩

/-- **The recorded bytes are unambiguous**, and they can be read back. -/
theorem serializeRequest_unambiguous :
    (∀ op op', Short op → Short op' → serializeRequest op = serializeRequest op' →
      op.type = op'.type ∧ op.key = op'.key ∧ op.value = op'.value) ∧
    ∀ op, Short op → decodeRequest (serializeRequest op) = some (op.type, op.key, op.value) := by
  constructor
  · intro op op' h h' heq
    rw [serializeRequest_eq_write, serializeRequest_eq_write] at heq
    have hsame := Codec.write_inj h.ok h'.ok heq
    simp only [Prod.mk.injEq] at hsame
    exact hsame
  · intro op h
    exact decodeRequest_iff.mpr ⟨op, h, rfl, rfl, rfl, rfl⟩

/-- A key that looks like a length, and an empty value. -/
theorem serializeRequest_unambiguous_lengths :
    decodeRequest (serializeRequest
      { rpcId := 1, clientId := 1, type := .put, key := [4, 0, 0, 0], value := [] }) =
      some (.put, [4, 0, 0, 0], []) :=
  serializeRequest_unambiguous.2 _ (by decide)

end CurpClient
end TinyKv
