import TinyKv.Lib.Protobuf

/-!
# Lib.Message

Protobuf messages as lists of fields, with the serializer and the parse loop that the compiler
generates for them; what they call of the runtime is a parameter.

* `Scalar`: how one value stands behind its tag. `valid` is what the parser checks of a value that
  it has read; a proto3 `string` must be UTF-8.
* `Field`: a tag, and how the field of a message is written and read. `Field.scalar` is left out
  where it has its default, `Field.repeated` is written once for each element.
* `Format`: the fields of a message. `parse_write`: what is written is read back if all its values
  are valid, and otherwise the parse fails. `parse_append`: the bytes of two messages in a row parse
  to the first with the fields of the second merged into it. `internalParse_inv`: what every
  field preserves, holds of all that is accepted.
-/

namespace TinyKv
namespace Lib

open Protobuf

structure Scalar (α : Type) where
  wireType : BitVec 3
  zero : α
  InRange : α → Prop
  valid : α → Bool
  write : α → Bytes
  read : Bytes → Option (α × Bytes)
  valid_zero : valid zero = true
  read_write : ∀ a rest, InRange a → (write a).length < maxSize →
    read (write a ++ rest) = if valid a then some (a, rest) else none
  read_valid : ∀ bs a rest, read bs = some (a, rest) → valid a = true

namespace Scalar

variable [Protobuf]

def varint {α : Type} (zero : α) (InRange : α → Prop) (enc : α → Nat) (dec : Nat → α)
    (h : ∀ a, InRange a → enc a < 2 ^ 64 ∧ dec (enc a) = a) : Scalar α where
  wireType := 0
  zero := zero
  InRange := InRange
  valid := fun _ => true
  write := fun a => writeVarint (enc a)
  read := fun bs => (readVarint bs).map fun p => (dec p.1, p.2)
  valid_zero := rfl
  read_write := by
    intro a rest ha _
    rw [readVarint_write (h a ha).1, Option.map_some, (h a ha).2, if_pos rfl]
  read_valid := fun _ _ _ _ => rfl

/-- A value as a string of bytes, of which the parser accepts some. -/
def bytes {α : Type} (zero : α) (enc : α → Bytes) (dec : Bytes → Option α) (valid : α → Bool)
    (h0 : valid zero = true) (h : ∀ a, dec (enc a) = if valid a then some a else none)
    (hv : ∀ bs a, dec bs = some a → valid a = true) : Scalar α where
  wireType := 2
  zero := zero
  InRange := fun _ => True
  valid := valid
  write := fun a => writeString (enc a)
  read := fun bs => (readString bs).bind fun p => (dec p.1).map fun a => (a, p.2)
  valid_zero := h0
  read_write := by
    intro a rest _ hlen
    have henc := Nat.lt_of_le_of_lt (length_le_writeString (enc a)) hlen
    rw [readString_write henc, Option.bind_some, h a]
    split <;> rfl
  read_valid := by
    intro bs a rest hr
    obtain ⟨p, _, hr⟩ := Option.bind_eq_some_iff.mp hr
    obtain ⟨a', ha', heq⟩ := Option.map_eq_some_iff.mp hr
    cases heq
    exact hv _ _ ha'

end Scalar

section Reads

variable {M : Type}

/-- The payloads are read one after the other, whatever stands behind each, and end at `m`. -/
def Reads (read : M → Bytes → Option (M × Bytes)) : M → List Bytes → M → Prop
  | acc, [], m => acc = m
  | acc, p :: ps, m =>
    ∃ mid, (∀ rest, read acc (p ++ rest) = some (mid, rest)) ∧ Reads read mid ps m

/-- One of them cannot be read, whatever stands behind it. -/
def Refuses (read : M → Bytes → Option (M × Bytes)) : M → List Bytes → Prop
  | _, [] => False
  | acc, p :: ps => (∀ rest, read acc (p ++ rest) = none) ∨
      ∃ mid, (∀ rest, read acc (p ++ rest) = some (mid, rest)) ∧ Refuses read mid ps

end Reads

/-- The tag of a field: its number, and how its bytes end. -/
def makeTag (num : BitVec 29) (wireType : BitVec 3) : Nat := num.toNat * 8 + wireType.toNat

theorem makeTag_lt (num : BitVec 29) (wireType : BitVec 3) : makeTag num wireType < 2 ^ 32 := by
  have hnum := num.isLt
  have hwire := wireType.isLt
  rw [makeTag]
  omega

/-- `copy m acc` is `acc` after the field of `m` has been read into it. -/
structure Field (M : Type) where
  tag : Nat
  payloads : M → List Bytes
  read : M → Bytes → Option (M × Bytes)
  InRange : M → Prop
  valid : M → Bool
  copy : M → M → M
  tag_lt : tag < 2 ^ 32
  reads : ∀ m acc, InRange m → (∀ p ∈ payloads m, p.length < maxSize) → valid m = true →
    Reads read acc (payloads m) (copy m acc)
  refuses : ∀ m acc, InRange m → (∀ p ∈ payloads m, p.length < maxSize) → valid m = false →
    Refuses read acc (payloads m)

namespace Field

variable {M α : Type}

/-- A field that is left out where it has its default. -/
def scalar [DecidableEq α] (num : BitVec 29) (s : Scalar α) (get : M → α) (set : M → α → M)
    (hset : ∀ acc, set acc (get acc) = acc) : Field M where
  tag := makeTag num s.wireType
  payloads := fun m => if get m = s.zero then [] else [s.write (get m)]
  read := fun acc bs => (s.read bs).map fun p => (set acc p.1, p.2)
  InRange := fun m => s.InRange (get m)
  valid := fun m => s.valid (get m)
  copy := fun m acc => set acc (if get m = s.zero then get acc else get m)
  tag_lt := makeTag_lt _ _
  reads := by
    intro m acc hr hlen hv
    by_cases hz : get m = s.zero
    · simp only [if_pos hz, Reads]
      exact (hset acc).symm
    · simp only [if_neg hz, List.forall_mem_singleton] at hlen
      simp only [if_neg hz, Reads]
      refine ⟨_, fun rest => ?_, rfl⟩
      rw [s.read_write _ rest hr hlen, if_pos hv]
      rfl
  refuses := by
    intro m acc hr hlen hv
    have hz : get m ≠ s.zero := by
      intro hz
      rw [hz, s.valid_zero] at hv
      cases hv
    simp only [if_neg hz, List.forall_mem_singleton] at hlen
    simp only [if_neg hz, Refuses, or_false, and_false, exists_false]
    intro rest
    rw [s.read_write _ rest hr hlen, if_neg (by rw [hv]; decide)]
    rfl

/-- The default gives way, and what is left out is the default. -/
theorem scalar_copy [DecidableEq α] (num : BitVec 29) (s : Scalar α) (get : M → α)
    (set : M → α → M) (hset : ∀ acc, set acc (get acc) = acc) (m acc : M) (h : get acc = s.zero) :
    (scalar num s get set hset).copy m acc = set acc (get m) := by
  show set acc (if get m = s.zero then get acc else get m) = _
  split
  · rename_i hz
    rw [h, hz]
  · rfl

end Field

theorem length_le_flatMap {α : Type} {g : α → Bytes} {x : α} {xs : List α} (h : x ∈ xs) :
    (g x).length ≤ (xs.flatMap g).length := by
  obtain ⟨l, r, rfl⟩ := List.append_of_mem h
  simp only [List.flatMap_append, List.flatMap_cons, List.length_append]
  omega

/-- `total`: reading all fields of a message into the default gives the message. -/
structure Format (M : Type) where
  zero : M
  fields : List (Field M)
  tags : (fields.map Field.tag).Nodup := by exact of_decide_eq_true rfl
  total : ∀ m, fields.foldl (fun acc f => f.copy m acc) zero = m := by
    intro m
    simp only [List.foldl_cons, List.foldl_nil]
    repeat rw [Field.scalar_copy]
    all_goals rfl

namespace Format

variable {M : Type} (F : Format M)

def InRange (m : M) : Prop := ∀ f ∈ F.fields, f.InRange m

def valid (m : M) : Bool := F.fields.all (·.valid m)

/-- `m` with the fields of `src` read into it. -/
def merge (m src : M) : M := F.fields.foldl (fun acc f => f.copy src acc) m

theorem find_field {F : Format M} {f : Field M} (hf : f ∈ F.fields) :
    F.fields.find? (·.tag = f.tag) = some f := by
  have htags := F.tags
  generalize F.fields = fs at hf htags
  induction fs with
  | nil => cases hf
  | cons g gs ih =>
    rw [List.map_cons, List.nodup_cons] at htags
    rcases List.mem_cons.mp hf with rfl | hf
    · exact List.find?_cons_of_pos (by simp)
    · have hne : g.tag ≠ f.tag := fun heq => htags.1 (heq ▸ List.mem_map_of_mem hf)
      rw [List.find?_cons_of_neg (by simpa using hne)]
      exact ih hf htags.2

variable [Protobuf]

def writeField (f : Field M) (m : M) : Bytes := (f.payloads m).flatMap (writeTag f.tag ++ ·)

/-- `_InternalSerialize`. -/
def write (m : M) : Bytes := F.fields.flatMap (writeField · m)

/-- The loop of `_InternalParse`; no message may end with a tag of 0 or with the end of a group. -/
def parseFields : Nat → M → Bytes → Option M
  | _, acc, [] => some acc
  | 0, _, _ :: _ => none
  | k + 1, acc, b :: bs =>
    match readTag (b :: bs) with
    | none => none
    | some (tag, rest) =>
      match F.fields.find? (·.tag = tag) with
      | some f =>
        match f.read acc rest with
        | some (acc', rest') => parseFields k acc' rest'
        | none => none
      | none =>
        if tag = 0 ∨ tag % 8 = 4 then none
        else
          match unknownField tag rest with
          | some rest' => parseFields k acc rest'
          | none => none

/-- `_InternalParse` on a new message. -/
def internalParse (bs : Bytes) : Option M := F.parseFields bs.length F.zero bs

/-- `ParseFromString`. -/
def parse (bs : Bytes) : Option M := parseFromString F.internalParse bs

/-! ## Reading back -/

variable {F} {f : Field M} {acc mid m : M} {p rest : Bytes} {k : Nat}

theorem length_writeField_scalar {α : Type} [DecidableEq α] {num : BitVec 29} {s : Scalar α}
    {get : M → α} {set : M → α → M} {hset : ∀ acc, set acc (get acc) = acc} {c : Nat}
    (h : (s.write (get m)).length ≤ c) :
    (writeField (.scalar num s get set hset) m).length ≤ c + 5 := by
  have htag := length_writeTag (makeTag_lt num s.wireType)
  show (List.flatMap _ (if _ then _ else _)).length ≤ _
  split
  · exact Nat.zero_le _
  · rw [List.flatMap_singleton, List.length_append]
    show (writeTag (makeTag num s.wireType)).length + _ ≤ _
    omega

theorem length_write_le {c : Nat} (h : ∀ f ∈ F.fields, (writeField f m).length ≤ c) :
    (F.write m).length ≤ F.fields.length * c := by
  rw [write]
  generalize F.fields = fs at h
  induction fs with
  | nil => exact Nat.zero_le _
  | cons f fs ih =>
    rw [List.forall_mem_cons] at h
    have hrest := ih h.2
    rw [List.flatMap_cons, List.length_append, List.length_cons, Nat.succ_mul]
    omega

theorem length_payload_le (hf : f ∈ F.fields) (hp : p ∈ f.payloads m) :
    p.length ≤ (F.write m).length := by
  calc p.length ≤ (writeTag f.tag ++ p).length := by simp
    _ ≤ (writeField f m).length := length_le_flatMap (g := (writeTag f.tag ++ ·)) hp
    _ ≤ (F.write m).length := length_le_flatMap (g := (writeField · m)) hf

theorem parseFields_tag (acc : M) (hf : f ∈ F.fields) (bs : Bytes)
    (hk : (writeTag f.tag ++ bs).length ≤ k) :
    ∃ k', bs.length ≤ k' ∧ F.parseFields k acc (writeTag f.tag ++ bs) =
      match f.read acc bs with
      | some (acc', rest') => F.parseFields k' acc' rest'
      | none => none := by
  obtain ⟨b, tag, htag⟩ := List.exists_cons_of_ne_nil (writeTag_ne_nil f.tag)
  have hread := readTag_write f.tag_lt bs
  rw [htag, List.cons_append] at hk hread ⊢
  rw [List.length_cons, List.length_append] at hk
  obtain ⟨k, rfl⟩ : ∃ j, k = j + 1 := ⟨k - 1, by omega⟩
  refine ⟨k, by omega, ?_⟩
  rw [parseFields, hread]
  simp only [find_field hf]

theorem parseFields_reads (hf : f ∈ F.fields) (ps : List Bytes) : ∀ {k : Nat} {acc : M},
    Reads f.read acc ps m → (ps.flatMap (writeTag f.tag ++ ·) ++ rest).length ≤ k →
    ∃ k', rest.length ≤ k' ∧ F.parseFields k acc (ps.flatMap (writeTag f.tag ++ ·) ++ rest) =
      F.parseFields k' m rest := by
  induction ps with
  | nil =>
    rintro k acc rfl hk
    exact ⟨k, hk, rfl⟩
  | cons p ps ih =>
    rintro k acc ⟨mid, hread, hrest⟩ hk
    simp only [List.flatMap_cons, List.append_assoc] at hk ⊢
    obtain ⟨k₁, hk₁, heq₁⟩ := parseFields_tag acc hf _ hk
    rw [List.length_append] at hk₁
    obtain ⟨k', hk', heq⟩ := ih (k := k₁) hrest (by omega)
    refine ⟨k', hk', ?_⟩
    rw [heq₁, hread]
    exact heq

theorem parseFields_refuses (hf : f ∈ F.fields) (ps : List Bytes) : ∀ {k : Nat} {acc : M},
    Refuses f.read acc ps → (ps.flatMap (writeTag f.tag ++ ·) ++ rest).length ≤ k →
    F.parseFields k acc (ps.flatMap (writeTag f.tag ++ ·) ++ rest) = none := by
  induction ps with
  | nil => intro k acc h; cases h
  | cons p ps ih =>
    intro k acc h hk
    simp only [List.flatMap_cons, List.append_assoc] at hk ⊢
    obtain ⟨k₁, hk₁, heq₁⟩ := parseFields_tag acc hf _ hk
    rw [List.length_append] at hk₁
    rw [heq₁]
    rcases h with hread | ⟨mid, hread, hrest⟩
    · rw [hread]
    · rw [hread]
      exact ih hrest (by omega)

theorem parseFields_write (rest : Bytes) (fs : List (Field M)) : ∀ {k : Nat} (acc : M),
    (∀ f ∈ fs, f ∈ F.fields) →
    F.InRange m → (F.write m).length < maxSize →
    (fs.flatMap (writeField · m) ++ rest).length ≤ k →
    ∃ k', rest.length ≤ k' ∧ F.parseFields k acc (fs.flatMap (writeField · m) ++ rest) =
      if fs.all (·.valid m) then F.parseFields k' (fs.foldl (fun acc f => f.copy m acc) acc) rest
      else none := by
  induction fs with
  | nil =>
    intro k acc _ _ _ hk
    exact ⟨k, hk, rfl⟩
  | cons f fs ih =>
    intro k acc hfs hr hlen hk
    have hf := hfs f List.mem_cons_self
    have hsize : ∀ p ∈ f.payloads m, p.length < maxSize :=
      fun p hp => Nat.lt_of_le_of_lt (length_payload_le hf hp) hlen
    simp only [List.flatMap_cons, List.append_assoc] at hk ⊢
    rw [writeField] at hk ⊢
    by_cases hv : f.valid m = true
    · obtain ⟨k₁, hk₁, heq₁⟩ := parseFields_reads hf _ (f.reads m acc (hr f hf) hsize hv) hk
      obtain ⟨k', hk', heq⟩ := ih (k := k₁) (f.copy m acc)
        (fun g hg => hfs g (List.mem_cons_of_mem f hg)) hr hlen hk₁
      refine ⟨k', hk', ?_⟩
      rw [heq₁, heq]
      simp [hv]
    · rw [Bool.not_eq_true] at hv
      rw [List.length_append] at hk
      refine ⟨rest.length, Nat.le_refl _, ?_⟩
      rw [parseFields_refuses hf _ (f.refuses m acc (hr f hf) hsize hv) (by simpa using hk)]
      simp [hv]

theorem parseFields_nil (k : Nat) (acc : M) : F.parseFields k acc [] = some acc := by
  cases k <;> rfl

theorem internalParse_write (h : F.InRange m) (hlen : (F.write m).length < maxSize) :
    F.internalParse (F.write m) = if F.valid m then some m else none := by
  obtain ⟨k', _, heq⟩ := parseFields_write [] F.fields F.zero (fun _ hf => hf) h
    hlen (Nat.le_refl _)
  rw [List.append_nil, F.total, parseFields_nil] at heq
  exact heq

/-- **The round trip**: the bytes of a message parse to the message if its values are valid, and
to nothing otherwise. -/
theorem parse_write (h : F.InRange m) (hlen : (F.write m).length < maxSize) :
    F.parse (F.write m) = if F.valid m then some m else none := by
  rw [parse, parseFromString_eq _ hlen, internalParse_write h hlen]

theorem parse_append {m' : M} (h : F.InRange m) (h' : F.InRange m') (hv : F.valid m = true)
    (hv' : F.valid m' = true) (hlen : (F.write m).length + (F.write m').length < maxSize) :
    F.parse (F.write m ++ F.write m') = some (F.merge m m') := by
  have hsize : (F.write m ++ F.write m').length < maxSize := by
    rw [List.length_append]
    exact hlen
  obtain ⟨k₁, hk₁, heq₁⟩ := parseFields_write (F.write m') F.fields F.zero
    (fun _ hf => hf) h (by omega) (Nat.le_refl _)
  obtain ⟨k₂, _, heq₂⟩ := parseFields_write [] F.fields m (fun _ hf => hf) h'
    (by omega) (k := k₁) (by rw [List.append_nil]; exact hk₁)
  rw [F.total] at heq₁
  rw [List.append_nil, parseFields_nil] at heq₂
  rw [parse, parseFromString_eq _ hsize]
  exact heq₁.trans ((if_pos hv).trans (heq₂.trans (if_pos hv')))

/-- What the default has and every field preserves holds of all that is accepted. -/
theorem internalParse_inv {P : M → Prop} (h0 : P F.zero)
    (hread : ∀ f ∈ F.fields, ∀ acc bs acc' rest, P acc → f.read acc bs = some (acc', rest) →
      P acc') {bs : Bytes} (h : F.internalParse bs = some m) : P m := by
  have hloop : ∀ (k : Nat) (acc : M) (bs : Bytes), P acc → F.parseFields k acc bs = some m →
      P m := by
    intro k
    induction k with
    | zero =>
      intro acc bs hacc hp
      cases bs with
      | nil => cases hp; exact hacc
      | cons b bs => cases hp
    | succ k ih =>
      intro acc bs hacc hp
      cases bs with
      | nil => cases hp; exact hacc
      | cons b bs =>
        rw [parseFields] at hp
        split at hp
        · cases hp
        · split at hp
          · rename_i f hfind
            split at hp
            · rename_i acc' rest' hr
              exact ih _ _ (hread f (List.mem_of_find?_eq_some hfind) _ _ _ _ hacc hr) hp
            · cases hp
          · split at hp
            · cases hp
            · split at hp
              · exact ih _ _ hacc hp
              · cases hp
  exact hloop _ _ _ h0 h

end Format

namespace Field

variable [Protobuf] {M N : Type}

/-- An element of a list: a message behind its length. -/
def readElement (F : Format N) (bs : Bytes) : Option (N × Bytes) := parseMessage F.internalParse bs

theorem readElement_write {F : Format N} {x : N} (hr : F.InRange x)
    (hlen : (writeString (F.write x)).length < maxSize) (rest : Bytes) :
    readElement F (writeString (F.write x) ++ rest) =
      if F.valid x then some (x, rest) else none := by
  have hbody := Nat.lt_of_le_of_lt (length_le_writeString (F.write x)) hlen
  rw [readElement, parseMessage_write _ hbody, Format.internalParse_write hr hbody]
  split <;> rfl

/-- A list of messages, each written behind the tag. -/
def repeated (num : BitVec 29) (F : Format N) (get : M → List N) (set : M → List N → M)
    (hset : ∀ acc, set acc (get acc) = acc) (hget : ∀ acc xs, get (set acc xs) = xs)
    (hover : ∀ acc xs ys, set (set acc xs) ys = set acc ys) : Field M where
  tag := makeTag num 2
  payloads := fun m => (get m).map fun x => writeString (F.write x)
  read := fun acc bs => (readElement F bs).map fun p => (set acc (get acc ++ [p.1]), p.2)
  InRange := fun m => ∀ x ∈ get m, F.InRange x
  valid := fun m => (get m).all F.valid
  copy := fun m acc => set acc (get acc ++ get m)
  tag_lt := makeTag_lt _ _
  reads := by
    intro m
    generalize get m = xs
    induction xs with
    | nil =>
      intro acc _ _ _
      simp only [List.map_nil, Reads, List.append_nil]
      exact (hset acc).symm
    | cons x xs ih =>
      intro acc hr hlen hv
      rw [List.all_cons, Bool.and_eq_true] at hv
      rw [List.map_cons, List.forall_mem_cons] at hlen
      refine ⟨set acc (get acc ++ [x]), fun rest => ?_, ?_⟩
      · show (readElement F _).map _ = _
        rw [readElement_write (hr x List.mem_cons_self) hlen.1, if_pos hv.1]
        rfl
      · have hrest := ih (set acc (get acc ++ [x])) (fun y hy => hr y (List.mem_cons_of_mem x hy))
          hlen.2 hv.2
        rw [hget, hover, List.append_assoc] at hrest
        exact hrest
  refuses := by
    intro m
    generalize get m = xs
    induction xs with
    | nil => intro acc _ _ hv; cases hv
    | cons x xs ih =>
      intro acc hr hlen hv
      rw [List.map_cons, List.forall_mem_cons] at hlen
      by_cases hvx : F.valid x = true
      · refine .inr ⟨set acc (get acc ++ [x]), fun rest => ?_, ?_⟩
        · show (readElement F _).map _ = _
          rw [readElement_write (hr x List.mem_cons_self) hlen.1, if_pos hvx]
          rfl
        · rw [List.all_cons, hvx, Bool.true_and] at hv
          exact ih _ (fun y hy => hr y (List.mem_cons_of_mem x hy)) hlen.2 hv
      · refine .inl fun rest => ?_
        show (readElement F _).map _ = _
        rw [readElement_write (hr x List.mem_cons_self) hlen.1, if_neg hvx]
        rfl

end Field

end Lib
end TinyKv
