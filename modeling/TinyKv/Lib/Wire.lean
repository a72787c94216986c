import TinyKv.Lib.Protobuf

/-!
# Lib.Wire

`wireFormat`: a runtime for messages that reads and writes the protobuf wire format, base-128
varints and byte strings behind their length. Of unknown fields it skips all but groups.
-/

namespace TinyKv
namespace Lib
namespace Wire

/-- At most `k` bytes: seven bits each, the top bit set on all but the last. -/
def varintGo : Nat → Nat → Bytes
  | 0, _ => []
  | k + 1, v =>
    if v < 128 then [UInt8.ofNat v] else UInt8.ofNat (v % 128 + 128) :: varintGo k (v / 128)

/-- A varint has at most ten bytes. -/
def writeVarint (v : Nat) : Bytes := varintGo 10 v

def readVarintGo : Nat → Bytes → Option (Nat × Bytes)
  | 0, _ => none
  | _ + 1, [] => none
  | k + 1, b :: bs =>
    if b.toNat < 128 then some (b.toNat, bs)
    else
      match readVarintGo k bs with
      | some (v, rest) => some (b.toNat % 128 + 128 * v, rest)
      | none => none

/-- A number of `w` bits in at most `k` bytes. -/
def readBits (k w : Nat) (bs : Bytes) : Option (Nat × Bytes) :=
  (readVarintGo k bs).map fun p => (p.1 % 2 ^ w, p.2)

def writeString (s : Bytes) : Bytes := writeVarint s.length ++ s

def takeBytes (len : Nat) (bs : Bytes) : Option (Bytes × Bytes) :=
  if len ≤ bs.length then some (bs.take len, bs.drop len) else none

/-- The length has at most five bytes and is below the limit. -/
def readString (bs : Bytes) : Option (Bytes × Bytes) :=
  match readVarintGo 5 bs with
  | some (len, rest) => if len < maxSize then takeBytes len rest else none
  | none => none

def skipField (tag : Nat) (bs : Bytes) : Option Bytes :=
  match tag % 8 with
  | 0 => (readBits 10 64 bs).map Prod.snd
  | 1 => (takeBytes 8 bs).map Prod.snd
  | 2 => (readString bs).map Prod.snd
  | 5 => (takeBytes 4 bs).map Prod.snd
  | _ => none

theorem div_lt_pow {j v : Nat} (hv : v < 128 ^ (j + 1)) (hlt : ¬v < 128) :
    v / 128 < 128 ^ j ∧ 0 < j := by
  refine ⟨?_, Nat.pos_of_ne_zero ?_⟩
  · rw [Nat.div_lt_iff_lt_mul (by decide), ← Nat.pow_succ]
    exact hv
  · rintro rfl
    exact hlt hv

/-- A reader that stops after `j` bytes has room for what is below `128 ^ j`. -/
theorem readVarintGo_varintGo : ∀ (j k v : Nat) (rest : Bytes), v < 128 ^ j → 0 < j → j ≤ k →
    readVarintGo j (varintGo k v ++ rest) = some (v, rest) := by
  intro j
  induction j with
  | zero => intro k v rest _ hj; omega
  | succ j ih =>
    intro k v rest hv _ hjk
    obtain ⟨k, rfl⟩ : ∃ i, k = i + 1 := ⟨k - 1, by omega⟩
    by_cases hlt : v < 128
    · have hb : (UInt8.ofNat v).toNat = v := by rw [UInt8.toNat_ofNat']; omega
      rw [varintGo, if_pos hlt, List.singleton_append, readVarintGo, hb, if_pos hlt]
    · have hb : (UInt8.ofNat (v % 128 + 128)).toNat = v % 128 + 128 := by
        rw [UInt8.toNat_ofNat']; omega
      obtain ⟨hdiv, hj⟩ := div_lt_pow hv hlt
      have hrest := ih k (v / 128) rest hdiv hj (by omega)
      have hmod : (v % 128 + 128) % 128 = v % 128 := by omega
      have hsum : v % 128 + 128 * (v / 128) = v := Nat.mod_add_div v 128
      rw [varintGo, if_neg hlt, List.cons_append, readVarintGo, hb, if_neg (by omega), hrest]
      simp only [hmod, hsum]

theorem length_varintGo (k : Nat) : ∀ v, (varintGo k v).length ≤ k := by
  induction k with
  | zero => intro v; exact Nat.le_refl _
  | succ k ih =>
    intro v
    rw [varintGo]
    split
    · exact Nat.succ_le_succ (Nat.zero_le k)
    · exact Nat.succ_le_succ (ih _)

theorem length_varintGo_of_lt : ∀ (j k v : Nat), v < 128 ^ j → 0 < j →
    (varintGo k v).length ≤ j := by
  intro j
  induction j with
  | zero => intro k v _ hj; omega
  | succ j ih =>
    intro k v hv _
    cases k with
    | zero => exact Nat.zero_le _
    | succ k =>
      rw [varintGo]
      split
      · exact Nat.succ_le_succ (Nat.zero_le j)
      · rename_i hlt
        obtain ⟨hdiv, hj⟩ := div_lt_pow hv hlt
        exact Nat.succ_le_succ (ih k (v / 128) hdiv hj)

theorem writeVarint_ne_nil (v : Nat) : writeVarint v ≠ [] := by
  rw [writeVarint, varintGo]
  split <;> exact List.cons_ne_nil _ _

theorem readBits_write {k w v : Nat} (hk : 0 < k ∧ k ≤ 10) (hv : v < 2 ^ w) (hw : 2 ^ w ≤ 128 ^ k)
    (rest : Bytes) : readBits k w (writeVarint v ++ rest) = some (v, rest) := by
  rw [readBits, writeVarint,
    readVarintGo_varintGo k 10 v rest (Nat.lt_of_lt_of_le hv hw) hk.1 hk.2, Option.map_some,
    Nat.mod_eq_of_lt hv]

theorem readString_write {s : Bytes} (h : s.length < maxSize) (rest : Bytes) :
    readString (writeString s ++ rest) = some (s, rest) := by
  have hsize : maxSize < 128 ^ 5 := by decide
  have hgo := readVarintGo_varintGo 5 10 s.length (s ++ rest) (by omega) (by decide) (by decide)
  rw [writeString, List.append_assoc, readString, writeVarint, hgo]
  simp [h, takeBytes]

end Wire

open Wire

@[reducible] def wireFormat : Protobuf where
  writeTag := writeVarint
  readTag := readBits 5 32
  writeVarint := writeVarint
  readVarint := readBits 10 64
  writeString := writeString
  readString := readString
  verifyUtf8 := isUtf8
  parseMessage loop bs := (readString bs).bind fun p => (loop p.1).map fun m => (m, p.2)
  unknownField := skipField
  parseFromString loop bs := if bs.length < maxSize then loop bs else none
  writeTag_ne_nil := writeVarint_ne_nil
  readTag_write h rest := readBits_write (by decide) h (by decide) rest
  readVarint_write h rest := readBits_write (by decide) h (by decide) rest
  readString_write h rest := readString_write h rest
  verifyUtf8_eq _ := rfl
  parseMessage_write loop body h rest := by
    rw [readString_write h, Option.bind_some]
  parseMessage_eq_some := by
    intro M loop bs m rest h
    obtain ⟨p, _, hp⟩ := Option.bind_eq_some_iff.mp h
    obtain ⟨m', hm', heq⟩ := Option.map_eq_some_iff.mp hp
    cases heq
    exact ⟨p.1, hm'⟩
  parseFromString_eq _ _ h := if_pos h
  parseFromString_eq_some := by
    intro M loop bs m h
    exact (Option.ite_none_right_eq_some.mp h).2
  length_writeTag h :=
    length_varintGo_of_lt 5 10 _ (Nat.lt_of_lt_of_le h (by decide)) (by decide)
  length_writeVarint v := length_varintGo 10 v
  length_le_writeString s := by
    rw [writeString, List.length_append]
    exact Nat.le_add_left _ _
  length_writeString s := by
    have hlen := length_varintGo 10 s.length
    rw [writeString, List.length_append, writeVarint]
    omega

end Lib
end TinyKv
