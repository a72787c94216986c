import TinyKv.Lib.Bytes

/-!
# Lib.Protobuf

`Protobuf`: the calls that the code generated for a message makes of the protobuf runtime, with what
is documented of them. Nothing is said of bytes that no serializer wrote, nor of unknown fields.
-/

namespace TinyKv
namespace Lib

/-- No string and no message of that length is parsed. -/
def maxSize : Nat := 2 ^ 31 - 16

def isUtf8 (bs : Bytes) : Bool := decide (ByteArray.IsValidUTF8 ⟨bs.toArray⟩)

/-- A read returns what it has read and the bytes behind; the two parsers get the loop over the
fields of the message. -/
class Protobuf where
  writeTag : Nat → Bytes
  readTag : Bytes → Option (Nat × Bytes)
  writeVarint : Nat → Bytes
  readVarint : Bytes → Option (Nat × Bytes)
  /-- A string, or the bytes of a message, behind its length. -/
  writeString : Bytes → Bytes
  readString : Bytes → Option (Bytes × Bytes)
  verifyUtf8 : Bytes → Bool
  parseMessage : {M : Type} → (Bytes → Option M) → Bytes → Option (M × Bytes)
  /-- The bytes behind a field of an unknown tag. -/
  unknownField : Nat → Bytes → Option Bytes
  parseFromString : {M : Type} → (Bytes → Option M) → Bytes → Option M
  writeTag_ne_nil : ∀ tag, writeTag tag ≠ []
  readTag_write : ∀ {tag}, tag < 2 ^ 32 → ∀ rest, readTag (writeTag tag ++ rest) = some (tag, rest)
  readVarint_write : ∀ {v}, v < 2 ^ 64 → ∀ rest,
    readVarint (writeVarint v ++ rest) = some (v, rest)
  readString_write : ∀ {s}, s.length < maxSize → ∀ rest,
    readString (writeString s ++ rest) = some (s, rest)
  verifyUtf8_eq : ∀ bs, verifyUtf8 bs = isUtf8 bs
  parseMessage_write : ∀ {M : Type} (loop : Bytes → Option M) {body}, body.length < maxSize →
    ∀ rest, parseMessage loop (writeString body ++ rest) = (loop body).map fun m => (m, rest)
  parseMessage_eq_some : ∀ {M : Type} {loop : Bytes → Option M} {bs m rest},
    parseMessage loop bs = some (m, rest) → ∃ body, loop body = some m
  parseFromString_eq : ∀ {M : Type} (loop : Bytes → Option M) {bs}, bs.length < maxSize →
    parseFromString loop bs = loop bs
  parseFromString_eq_some : ∀ {M : Type} {loop : Bytes → Option M} {bs m},
    parseFromString loop bs = some m → loop bs = some m
  length_writeTag : ∀ {tag}, tag < 2 ^ 32 → (writeTag tag).length ≤ 5
  length_writeVarint : ∀ v, (writeVarint v).length ≤ 10
  length_le_writeString : ∀ s, s.length ≤ (writeString s).length
  length_writeString : ∀ s, (writeString s).length ≤ s.length + 10

end Lib
end TinyKv
