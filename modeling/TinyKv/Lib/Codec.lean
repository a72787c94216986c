import TinyKv.Lib.Bytes

/-!
# Lib.Codec

Codecs of values as byte strings that can be laid end to end: what is written is read back with any
bytes behind it, and what is read was written. Both are fields of `Codec`, so a codec that shifts a
boundary cannot be built.

* `byte`: one byte for each value. `framed k`: a string behind its length in `k` bytes, lowest
  first. `seq`: one codec after another.
* `decode_iff`: a whole string decodes to a value iff it is what the value is written as.
-/

namespace TinyKv
namespace Lib

/-- `Ok` are the values that the format can hold. -/
structure Codec (α : Type) where
  Ok : α → Prop
  write : α → Bytes
  read : Bytes → Option (α × Bytes)
  read_write : ∀ a rest, Ok a → read (write a ++ rest) = some (a, rest)
  read_sound : ∀ bs a rest, read bs = some (a, rest) → Ok a ∧ bs = write a ++ rest

namespace Codec

variable {α β : Type}

/-- One byte, by a table in both directions. -/
def byte (code : α → UInt8) (ofCode : UInt8 → Option α)
    (hcode : ∀ a b, ofCode b = some a ↔ code a = b) : Codec α where
  Ok := fun _ => True
  write := fun a => [code a]
  read
    | [] => none
    | b :: rest => (ofCode b).map fun a => (a, rest)
  read_write := by
    intro a rest _
    show (ofCode (code a)).map _ = _
    rw [(hcode a (code a)).mpr rfl]
    rfl
  read_sound := by
    intro bs a rest h
    cases bs with
    | nil => cases h
    | cons b bs =>
      obtain ⟨a', ha, heq⟩ := Option.map_eq_some_iff.mp h
      cases heq
      rw [(hcode a b).mp ha]
      exact ⟨trivial, rfl⟩

/-- A string behind its length. -/
def framed (k : Nat) : Codec Bytes where
  Ok := fun s => s.length < 256 ^ k
  write := fun s => leBytes k s.length ++ s
  read := fun bs =>
    let len := ofLe (bs.take k)
    let rest := bs.drop k
    if k ≤ bs.length ∧ len ≤ rest.length then some (rest.take len, rest.drop len) else none
  read_write := by
    intro s rest hs
    have hlen : (leBytes k s.length).length = k := length_leBytes k s.length
    have htake : (leBytes k s.length ++ s ++ rest).take k = leBytes k s.length := by
      rw [List.append_assoc, List.take_left' hlen]
    have hdrop : (leBytes k s.length ++ s ++ rest).drop k = s ++ rest := by
      rw [List.append_assoc, List.drop_left' hlen]
    simp only [htake, hdrop, ofLe_leBytes_of_lt hs]
    rw [if_pos, List.take_left, List.drop_left]
    simp only [List.length_append, hlen]
    omega
  read_sound := by
    intro bs s rest h
    dsimp only at h
    split at h
    · rename_i hlen
      cases h
      have hk : (bs.take k).length = k := List.length_take_of_le hlen.1
      have hs : ((bs.drop k).take (ofLe (bs.take k))).length = ofLe (bs.take k) :=
        List.length_take_of_le hlen.2
      have hlt : ofLe (bs.take k) < 256 ^ (bs.take k).length := ofLe_lt _
      have hbytes : leBytes (bs.take k).length (ofLe (bs.take k)) = bs.take k := leBytes_ofLe _
      rw [hk] at hlt hbytes
      rw [hs, hbytes, List.append_assoc, List.take_append_drop, List.take_append_drop]
      exact ⟨hlt, rfl⟩
    · cases h

def seq (c : Codec α) (d : Codec β) : Codec (α × β) where
  Ok := fun p => c.Ok p.1 ∧ d.Ok p.2
  write := fun p => c.write p.1 ++ d.write p.2
  read := fun bs =>
    match c.read bs with
    | some (a, rest) => (d.read rest).map fun q => ((a, q.1), q.2)
    | none => none
  read_write := by
    rintro ⟨a, b⟩ rest ⟨ha, hb⟩
    simp only [List.append_assoc, c.read_write a _ ha, d.read_write b rest hb, Option.map_some]
  read_sound := by
    rintro bs ⟨a, b⟩ rest h
    split at h
    · rename_i a' rest' hc
      obtain ⟨⟨b', rest''⟩, hd, heq⟩ := Option.map_eq_some_iff.mp h
      cases heq
      obtain ⟨ha, rfl⟩ := c.read_sound _ _ _ hc
      obtain ⟨hb, rfl⟩ := d.read_sound _ _ _ hd
      exact ⟨⟨ha, hb⟩, (List.append_assoc ..).symm⟩
    · cases h

variable {c : Codec α} {a a' : α} {bs : Bytes}

/-- The value of a whole string. -/
def decode (c : Codec α) (bs : Bytes) : Option α :=
  match c.read bs with
  | some (a, []) => some a
  | _ => none

theorem decode_iff : c.decode bs = some a ↔ c.Ok a ∧ bs = c.write a := by
  unfold decode
  constructor
  · intro h
    split at h
    · rename_i hread
      cases h
      simpa using c.read_sound _ _ _ hread
    · cases h
  · rintro ⟨ha, rfl⟩
    have hread := c.read_write a [] ha
    rw [List.append_nil] at hread
    rw [hread]

theorem write_inj (ha : c.Ok a) (ha' : c.Ok a') (h : c.write a = c.write a') : a = a' := by
  have hdecode : c.decode (c.write a) = some a := decode_iff.mpr ⟨ha, rfl⟩
  have hdecode' : c.decode (c.write a) = some a' := decode_iff.mpr ⟨ha', h⟩
  exact Option.some.inj (hdecode.symm.trans hdecode')

end Codec
end Lib
end TinyKv
