import TinyKv.Lib.Bytes

/-!
# Storage.FileObj

`FileSystem`: the byte files `tiny_lsm::FileObj` of the submodule tiny-lsm, as far as the log uses
them. `bytes` is what a file holds, and the laws tie each operation to it.

`byteFiles` is a file system whose files are byte strings.
-/

namespace TinyKv

open Lib

class FileSystem where
  FileObj : Type
  bytes : FileObj → Bytes
  /-- `open` of a file that is to be created. -/
  openNew : FileObj
  size : FileObj → Nat
  append : FileObj → Bytes → Option FileObj
  readToSlice : FileObj → Nat → Nat → Option Bytes
  readUint64 : FileObj → Nat → Option Nat
  truncate : FileObj → Nat → Option FileObj
  size_eq : ∀ f, size f = (bytes f).length
  /-- The size of a file fits a `uint64_t`. -/
  size_lt : ∀ f, size f < 2 ^ 64
  bytes_openNew : bytes openNew = []
  append_bytes : ∀ {f f' buf}, append f buf = some f' → bytes f' = bytes f ++ buf
  append_eq_none : ∀ {f buf}, append f buf = none → 2 ^ 64 ≤ size f + buf.length
  /-- A read past the end of the file fails. -/
  readToSlice_eq : ∀ f off len, readToSlice f off len =
    if off + len ≤ size f then some (slice (bytes f) off len) else none
  /-- Little-endian. -/
  readUint64_eq : ∀ f off, readUint64 f off = (readToSlice f off 8).map ofLe
  /-- Shrinks the file to `n` bytes, or grows it with zeros. -/
  truncate_bytes : ∀ {f f' n}, truncate f n = some f' →
    bytes f' = (bytes f ++ List.replicate (n - size f) 0).take n
  truncate_isSome : ∀ {f n}, n ≤ size f → (truncate f n).isSome = true

namespace FileSystem

theorem truncate_of_le [FileSystem] {f : FileObj} {n : Nat} (h : n ≤ size f) :
    ∃ f', truncate f n = some f' ∧ bytes f' = (bytes f).take n := by
  obtain ⟨f', hf'⟩ := Option.isSome_iff_exists.mp (truncate_isSome h)
  have hz : n - size f = 0 := by omega
  refine ⟨f', hf', ?_⟩
  rw [truncate_bytes hf', hz, List.replicate_zero, List.append_nil]

end FileSystem

/-- Files that are byte strings of less than `2 ^ 64` bytes. -/
@[reducible] def byteFiles : FileSystem where
  FileObj := { bs : Bytes // bs.length < 2 ^ 64 }
  bytes f := f.1
  openNew := ⟨[], by decide⟩
  size f := f.1.length
  append f buf := if h : (f.1 ++ buf).length < 2 ^ 64 then some ⟨f.1 ++ buf, h⟩ else none
  readToSlice f off len := if off + len ≤ f.1.length then some (slice f.1 off len) else none
  readUint64 f off :=
    (if off + 8 ≤ f.1.length then some (slice f.1 off 8) else none).map ofLe
  truncate f n :=
    if h : ((f.1 ++ List.replicate (n - f.1.length) 0).take n).length < 2 ^ 64 then
      some ⟨(f.1 ++ List.replicate (n - f.1.length) 0).take n, h⟩
    else none
  size_eq _ := rfl
  size_lt f := f.2
  bytes_openNew := rfl
  append_bytes := by
    intro f f' buf h
    split at h
    · cases h; rfl
    · cases h
  append_eq_none := by
    intro f buf h
    split at h
    · cases h
    · rename_i hlt
      rw [List.length_append] at hlt
      omega
  readToSlice_eq _ _ _ := rfl
  readUint64_eq _ _ := rfl
  truncate_bytes := by
    intro f f' n h
    split at h
    · cases h; rfl
    · cases h
  truncate_isSome := by
    intro f n h
    have hlt : ((f.1 ++ List.replicate (n - f.1.length) 0).take n).length < 2 ^ 64 := by
      have := f.2
      rw [List.length_take]
      omega
    rw [dif_pos hlt]
    rfl

end TinyKv
