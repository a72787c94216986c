import TinyKv.Lib.Message

/-!
# Lib.ProtoType

The protobuf field types: numbers as varints, and strings of bytes.

A `string` field is checked when it is parsed: `ProtoType.string` is one that the program keeps as
bytes, `ProtoType.text` one that it keeps as a `String`.
-/

namespace TinyKv
namespace Lib

open Protobuf

/-- A signed number as the 64 bits a varint carries. -/
def toU64 (z : Int) : Nat := (z % 2 ^ 64).toNat

/-- The `int64` a 64-bit varint carries. -/
def ofU64 (v : Nat) : Int := if v < 2 ^ 63 then v else v - 2 ^ 64

/-- The `int32` in the low half of a varint. -/
def ofU32 (v : Nat) : Int := if v % 2 ^ 32 < 2 ^ 31 then v % 2 ^ 32 else v % 2 ^ 32 - 2 ^ 32

def IsInt32 (z : Int) : Prop := -2 ^ 31 ≤ z ∧ z < 2 ^ 31

def IsInt64 (z : Int) : Prop := -2 ^ 63 ≤ z ∧ z < 2 ^ 63

instance (z : Int) : Decidable (IsInt32 z) := inferInstanceAs (Decidable (_ ∧ _))

instance (z : Int) : Decidable (IsInt64 z) := inferInstanceAs (Decidable (_ ∧ _))

theorem toU64_lt (z : Int) : toU64 z < 2 ^ 64 := by unfold toU64; omega

theorem ofU64_toU64 {z : Int} (h : IsInt64 z) : ofU64 (toU64 z) = z := by
  unfold IsInt64 at h
  unfold ofU64 toU64
  split <;> omega

theorem ofU32_toU64 {z : Int} (h : IsInt32 z) : ofU32 (toU64 z) = z := by
  unfold IsInt32 at h
  unfold ofU32 toU64
  split <;> omega

def textBytes (s : String) : Bytes := s.toByteArray.data.toList

theorem ofBytes_textBytes (s : String) : (⟨(textBytes s).toArray⟩ : ByteArray) = s.toByteArray := by
  rw [textBytes, Array.toArray_toList]

theorem isUtf8_textBytes (s : String) : isUtf8 (textBytes s) = true := by
  rw [isUtf8, ofBytes_textBytes]
  exact decide_eq_true s.isValidUTF8

def ofTextBytes (bs : Bytes) : Option String :=
  if h : ByteArray.IsValidUTF8 ⟨bs.toArray⟩ then some ⟨⟨bs.toArray⟩, h⟩ else none

theorem ofTextBytes_textBytes (s : String) : ofTextBytes (textBytes s) = some s := by
  unfold ofTextBytes
  simp only [ofBytes_textBytes s]
  rw [dif_pos s.isValidUTF8]

namespace ProtoType

variable [Protobuf]

def int32 : Scalar Int :=
  .varint 0 IsInt32 toU64 ofU32 fun z h => ⟨toU64_lt z, ofU32_toU64 h⟩

def int64 : Scalar Int :=
  .varint 0 IsInt64 toU64 ofU64 fun z h => ⟨toU64_lt z, ofU64_toU64 h⟩

def uint32 : Scalar Nat :=
  .varint 0 (· < 2 ^ 32) id (· % 2 ^ 32) fun v h =>
    ⟨Nat.lt_trans h (by decide), Nat.mod_eq_of_lt h⟩

def uint64 : Scalar UInt64 :=
  .varint 0 (fun _ => True) UInt64.toNat UInt64.ofNat fun v _ => ⟨v.toNat_lt, UInt64.ofNat_toNat⟩

def bool : Scalar Bool :=
  .varint false (fun _ => True) Bool.toNat (fun v => decide (v ≠ 0)) fun b _ => by
    cases b
    · exact ⟨by decide, rfl⟩
    · exact ⟨by decide, rfl⟩

/-- A `bytes` field. -/
def raw : Scalar Bytes :=
  .bytes [] id some (fun _ => true) rfl (fun _ => rfl) fun _ _ _ => rfl

def string : Scalar Bytes :=
  .bytes [] id (fun bs => if verifyUtf8 bs then some bs else none) isUtf8 (by decide)
    (fun bs => by rw [id, verifyUtf8_eq]) fun _ _ h => by
      obtain ⟨hv, heq⟩ := Option.ite_none_right_eq_some.mp h
      rw [verifyUtf8_eq] at hv
      exact Option.some.inj heq ▸ hv

def text : Scalar String :=
  .bytes "" textBytes (fun bs => if verifyUtf8 bs then ofTextBytes bs else none) (fun _ => true) rfl
    (fun s => by
      rw [verifyUtf8_eq, isUtf8_textBytes, if_pos rfl, if_pos rfl, ofTextBytes_textBytes])
    fun _ _ _ => rfl

theorem length_int32 (z : Int) : (int32.write z).length ≤ 10 := length_writeVarint _

theorem length_int64 (z : Int) : (int64.write z).length ≤ 10 := length_writeVarint _

theorem length_uint32 (v : Nat) : (uint32.write v).length ≤ 10 := length_writeVarint _

theorem length_bool (b : Bool) : (bool.write b).length ≤ 10 := length_writeVarint _

theorem length_raw (bs : Bytes) : (raw.write bs).length ≤ bs.length + 10 := length_writeString _

theorem length_string (bs : Bytes) : (string.write bs).length ≤ bs.length + 10 :=
  length_writeString _

theorem length_text (s : String) : (text.write s).length ≤ (textBytes s).length + 10 :=
  length_writeString _

end ProtoType

end Lib
end TinyKv
