import TinyKv.Lib.ProtoType
import TinyKv.Lib.Wire
import TinyKv.Storage.Entry

/-!
# Storage.Proto

The message `raft::Entry`, and the codec of the log on top of it.

* `Entry.format`: the fields, as the generated `_InternalSerialize` and `_InternalParse` write and
  read them.
* `protoCodec_lawful`: on entries whose numbers fit their fields, whose keys are UTF-8 and which are
  not too long, the codec is lawful; in particular parsing the bytes of two entries in a row merges
  them.
-/

namespace TinyKv

open Lib ProtoType Protobuf Format

/-- The entry is read back: its numbers fit, its key is a `string`, and two of its length can be
parsed at once. -/
structure Entry.InRange (e : Entry) : Prop where
  seq : IsInt64 e.seq
  term : IsInt32 e.term
  utf8 : isUtf8 e.key = true
  size : e.key.length + e.value.length + 100 ≤ 2 ^ 30

instance (e : Entry) : Decidable e.InRange :=
  decidable_of_iff (IsInt64 e.seq ∧ IsInt32 e.term ∧ isUtf8 e.key = true ∧
      e.key.length + e.value.length + 100 ≤ 2 ^ 30)
    ⟨fun ⟨hs, ht, hu, hl⟩ => ⟨hs, ht, hu, hl⟩, fun h => ⟨h.seq, h.term, h.utf8, h.size⟩⟩

section Format

variable [Protobuf]

def Entry.format : Format Entry where
  zero := {}
  fields := [
    .scalar 1 int64 Entry.seq (fun e z => { e with seq := z }) fun _ => rfl,
    .scalar 2 int32 Entry.term (fun e z => { e with term := z }) fun _ => rfl,
    .scalar 3 string Entry.key (fun e s => { e with key := s }) fun _ => rfl,
    .scalar 4 raw Entry.value (fun e s => { e with value := s }) fun _ => rfl]

/-- `SerializeToString` and `ParseFromArray`; a parse that fails leaves `left`. -/
@[reducible] def protoCodec (left : Bytes → Entry) : EntryCodec where
  serializeToString := Entry.format.write
  parseFromArray bs := (Entry.format.parse bs).getD (left bs)

theorem Entry.format_valid (e : Entry) : Entry.format.valid e = isUtf8 e.key := by
  simp [Format.valid, format, Field.scalar, int64, int32, string, raw, Scalar.varint, Scalar.bytes]

theorem Entry.format_inRange (e : Entry) :
    Entry.format.InRange e ↔ IsInt64 e.seq ∧ IsInt32 e.term := by
  simp [Format.InRange, format, Field.scalar, int64, int32, string, raw, Scalar.varint,
    Scalar.bytes]

theorem Entry.length_write (e : Entry) :
    (Entry.format.write e).length ≤ e.key.length + e.value.length + 60 := by
  simp only [Format.write, format, List.flatMap_cons, List.flatMap_nil, List.length_append]
  have hseq := length_int64 e.seq
  have hterm := length_int32 e.term
  have hkey := length_string e.key
  have hvalue := length_raw e.value
  refine Nat.le_trans (Nat.add_le_add (length_writeField_scalar hseq)
    (Nat.add_le_add (length_writeField_scalar hterm) (Nat.add_le_add
      (length_writeField_scalar hkey) (Nat.add_le_add (length_writeField_scalar hvalue)
        (Nat.le_refl _))))) ?_
  rw [List.length_nil]
  omega

theorem Entry.merge_eq (a b : Entry) : Entry.format.merge a b = a.mergeFrom b := rfl

namespace Entry.InRange

variable {e : Entry}

theorem inRange (h : e.InRange) : Entry.format.InRange e := e.format_inRange.mpr ⟨h.seq, h.term⟩

theorem valid (h : e.InRange) : Entry.format.valid e = true := e.format_valid.trans h.utf8

theorem length_write (h : e.InRange) : 2 * (Entry.format.write e).length < maxSize := by
  have hlen := e.length_write
  have hsize := h.size
  have hmax : maxSize = 2 ^ 31 - 16 := rfl
  omega

end Entry.InRange

theorem protoCodec_lawful (left : Bytes → Entry) :
    @EntryCodec.Lawful (protoCodec left) Entry.InRange := by
  refine @EntryCodec.Lawful.mk (protoCodec left) _ rfl ?_ ?_ ?_
  · show (Entry.format.parse []).getD (left []) = {}
    have hempty : Entry.format.parse [] = some {} := parseFromString_eq _ (by decide)
    rw [hempty, Option.getD_some]
  · intro e he
    show (Entry.format.parse (Entry.format.write e)).getD _ = e
    have hlen := he.length_write
    rw [Format.parse_write he.inRange (by omega), if_pos he.valid, Option.getD_some]
  · intro a b ha hb
    show (Entry.format.parse (Entry.format.write a ++ Entry.format.write b)).getD _ = _
    have hlen := ha.length_write
    have hlen' := hb.length_write
    rw [Format.parse_append ha.inRange hb.inRange ha.valid hb.valid (by omega), Option.getD_some,
      Entry.merge_eq]

end Format

/-- The codec over the wire format. -/
@[reducible] def wireCodec : EntryCodec :=
  let _ := wireFormat
  protoCodec fun _ => {}

theorem wireCodec_lawful : @EntryCodec.Lawful wireCodec Entry.InRange :=
  let _ := wireFormat
  protoCodec_lawful fun _ => {}

end TinyKv
