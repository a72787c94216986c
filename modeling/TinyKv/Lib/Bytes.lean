import Mathlib.Algebra.Order.Ring.Int
import Mathlib.Data.List.Basic

/-!
# Lib.Bytes

Byte strings: fixed-width little-endian numbers, and slices of a concatenation.

* `leBytes k v`: the `k` low bytes of `v`, lowest first; `ofLe` reads them back (`ofLe_leBytes`).
* `slice bs off len`: the `len` bytes of `bs` from offset `off`.
* `offset f xs i`: where the `i`-th piece starts when the pieces `f x` are laid end to end;
  `slice_flatMap` cuts that piece out again.
-/

namespace TinyKv
namespace Lib

abbrev Bytes := List UInt8

/-! ## Little-endian numbers -/

def leBytes : Nat → Nat → Bytes
  | 0, _ => []
  | k + 1, v => UInt8.ofNat (v % 256) :: leBytes k (v / 256)

def ofLe : Bytes → Nat
  | [] => 0
  | b :: bs => b.toNat + 256 * ofLe bs

@[simp] theorem length_leBytes (k v : Nat) : (leBytes k v).length = k := by
  induction k generalizing v with
  | zero => rfl
  | succ k ih => simp [leBytes, ih]

theorem ofLe_leBytes (k v : Nat) : ofLe (leBytes k v) = v % 256 ^ k := by
  induction k generalizing v with
  | zero => simp [leBytes, ofLe, Nat.mod_one]
  | succ k ih =>
    have hb : (UInt8.ofNat (v % 256)).toNat = v % 256 := by
      rw [UInt8.toNat_ofNat']; omega
    rw [leBytes, ofLe, ih, hb, Nat.pow_succ, Nat.mul_comm (256 ^ k), Nat.mod_mul]

theorem ofLe_leBytes_of_lt {k v : Nat} (h : v < 256 ^ k) : ofLe (leBytes k v) = v := by
  rw [ofLe_leBytes, Nat.mod_eq_of_lt h]

theorem ofLe_lt (bs : Bytes) : ofLe bs < 256 ^ bs.length := by
  induction bs with
  | nil => decide
  | cons b bs ih =>
    have hb : b.toNat < 256 := b.toNat_lt
    rw [ofLe, List.length_cons, Nat.pow_succ]
    omega

theorem leBytes_ofLe (bs : Bytes) : leBytes bs.length (ofLe bs) = bs := by
  induction bs with
  | nil => rfl
  | cons b bs ih =>
    have hb : b.toNat < 256 := b.toNat_lt
    have hlow : (b.toNat + 256 * ofLe bs) % 256 = b.toNat := by omega
    have hhigh : (b.toNat + 256 * ofLe bs) / 256 = ofLe bs := by omega
    rw [List.length_cons, leBytes, ofLe, hlow, hhigh, ih, UInt8.ofNat_toNat]

/-! ## Slices of a concatenation -/

def slice (bs : Bytes) (off len : Nat) : Bytes := (bs.drop off).take len

section Pieces

variable {α : Type} (f : α → Bytes)

/-- The offset of piece `i`: the total length of the pieces before it. -/
def offset (xs : List α) (i : Nat) : Nat := ((xs.take i).flatMap f).length

@[simp] theorem offset_zero (xs : List α) : offset f xs 0 = 0 := rfl

theorem offset_length (xs : List α) : offset f xs xs.length = (xs.flatMap f).length := by
  rw [offset, List.take_length]

theorem offset_succ {xs : List α} {i : Nat} {x : α} (h : xs[i]? = some x) :
    offset f xs (i + 1) = offset f xs i + (f x).length := by
  rw [offset, offset, List.take_add_one, h]
  simp

theorem offset_append {xs ys : List α} {i : Nat} (h : i ≤ xs.length) :
    offset f (xs ++ ys) i = offset f xs i := by
  rw [offset, offset, List.take_append_of_le_length h]

theorem offset_mono (xs : List α) {i j : Nat} (h : i ≤ j) : offset f xs i ≤ offset f xs j := by
  obtain ⟨d, rfl⟩ := Nat.exists_eq_add_of_le h
  rw [offset, offset, List.take_add, List.flatMap_append, List.length_append]
  omega

theorem offset_le (xs : List α) (i : Nat) : offset f xs i ≤ (xs.flatMap f).length := by
  rw [offset]
  conv => rhs; rw [← List.take_append_drop i xs, List.flatMap_append, List.length_append]
  omega

theorem take_flatMap (xs : List α) (i : Nat) :
    (xs.flatMap f).take (offset f xs i) = (xs.take i).flatMap f := by
  conv => lhs; rw [← List.take_append_drop i xs, List.flatMap_append]
  rw [offset, List.take_append_drop, List.take_left]

theorem drop_flatMap (xs : List α) (i : Nat) :
    (xs.flatMap f).drop (offset f xs i) = (xs.drop i).flatMap f := by
  conv => lhs; rw [← List.take_append_drop i xs, List.flatMap_append]
  rw [offset, List.take_append_drop, List.drop_left]

/-- Piece `i`, cut out between its own offset and the next one. -/
theorem slice_flatMap {xs : List α} {i : Nat} {x : α} (h : xs[i]? = some x) :
    slice (xs.flatMap f) (offset f xs i) (offset f xs (i + 1) - offset f xs i) = f x := by
  obtain ⟨hi, rfl⟩ := List.getElem?_eq_some_iff.mp h
  rw [offset_succ f h, Nat.add_sub_cancel_left, slice, drop_flatMap,
    List.drop_eq_getElem_cons hi, List.flatMap_cons, List.take_left]

theorem offset_const {k : Nat} (hk : ∀ x, (f x).length = k) {xs : List α} {i : Nat}
    (hi : i ≤ xs.length) : offset f xs i = i * k := by
  induction i with
  | zero => simp
  | succ i ih =>
    obtain ⟨x, hx⟩ : ∃ x, xs[i]? = some x := ⟨_, List.getElem?_eq_getElem (by omega)⟩
    rw [offset_succ f hx, ih (by omega), hk, Nat.add_mul, Nat.one_mul]

end Pieces

end Lib
end TinyKv
