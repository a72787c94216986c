import TinyKv.Lib.Run
import TinyKv.Storage.LogVec

/-!
# Storage.LogVecRep

The two files of a `LogVec` represent a list of entries.

* `Rep lv xs`: the data file holds the encodings of `xs` end to end, the meta file their offsets.
* `create_rep`, `pushBack_rep`, `truncateFrom_rep`, `reopen_rep`: what each operation of the log
  does to the represented list.
* `get_rep`: `operator[]` reads the list, since each entry is cut out between its own offset and
  the next one, the last entry between its offset and the end of the data file.
* `iterate_forward`, `iterate_reverse`: the iterators walk the list in both directions.
-/

namespace TinyKv

open Lib EntryCodec FileSystem

variable [EntryCodec]

/-- An entry that protobuf reads back from its own bytes. -/
def Entry.RoundTrips (e : Entry) : Prop := parseFromArray (serializeToString e) = e

/-- The offset of entry `i` in the data file. -/
abbrev entryOffset (xs : List Entry) (i : Nat) : Nat := offset serializeToString xs i

/-- The meta file of the entries `xs`. -/
def metaBytes (xs : List Entry) : Bytes :=
  (List.range xs.length).flatMap fun i => leBytes 8 (entryOffset xs i)

theorem metaOffset_eq (xs : List Entry) {i : Nat} (hi : i ≤ xs.length) :
    offset (fun j => leBytes 8 (entryOffset xs j)) (List.range xs.length) i = i * 8 := by
  have hi' : i ≤ (List.range xs.length).length := by simpa using hi
  exact offset_const _ (fun _ => length_leBytes _ _) hi'

theorem metaBytes_length (xs : List Entry) : (metaBytes xs).length = xs.length * 8 := by
  rw [← metaOffset_eq xs (Nat.le_refl _), metaBytes, offset, List.take_of_length_le (by simp)]

theorem metaBytes_congr (xs ys : List Entry)
    (h : ∀ i, i < xs.length → entryOffset ys i = entryOffset xs i) :
    metaBytes xs = (List.range xs.length).flatMap fun i => leBytes 8 (entryOffset ys i) := by
  rw [metaBytes]
  apply List.flatMap_congr
  intro i hi
  rw [h i (List.mem_range.mp hi)]

theorem metaBytes_append (xs : List Entry) (e : Entry) :
    metaBytes (xs ++ [e]) = metaBytes xs ++ leBytes 8 (xs.flatMap serializeToString).length := by
  have hprefix : ∀ i, i ≤ xs.length → entryOffset (xs ++ [e]) i = entryOffset xs i :=
    fun i hi => offset_append serializeToString hi
  rw [metaBytes_congr xs (xs ++ [e]) (fun i hi => hprefix i (by omega)),
    metaBytes, List.length_append, List.length_singleton, List.range_succ, List.flatMap_append,
    List.flatMap_singleton, hprefix _ (Nat.le_refl _), entryOffset, offset_length]

theorem metaBytes_take (xs : List Entry) {idx : Nat} (h : idx ≤ xs.length) :
    (metaBytes xs).take (idx * 8) = metaBytes (xs.take idx) := by
  have hlen : (xs.take idx).length = idx := by simp [h]
  have hoff : ∀ i, i < (xs.take idx).length → entryOffset xs i = entryOffset (xs.take idx) i := by
    intro i hi
    rw [entryOffset, entryOffset, offset, offset, List.take_take]
    congr 3; omega
  rw [metaBytes_congr _ xs hoff, hlen, ← metaOffset_eq xs h, metaBytes, take_flatMap,
    List.take_range, Nat.min_eq_left h]

variable [FileSystem]

structure Rep (lv : LogVec) (xs : List Entry) : Prop where
  data : bytes lv.dataFile = xs.flatMap serializeToString
  offsets : bytes lv.metaFile = metaBytes xs
  count : lv.entryCount = xs.length

theorem Rep.dataSize {lv : LogVec} {xs : List Entry} (h : Rep lv xs) :
    size lv.dataFile = entryOffset xs xs.length := by
  rw [size_eq, h.data, entryOffset, offset_length]

theorem Rep.metaSize {lv : LogVec} {xs : List Entry} (h : Rep lv xs) :
    size lv.metaFile = xs.length * 8 := by
  rw [size_eq, h.offsets, metaBytes_length]

theorem Rep.entryOffset_lt {lv : LogVec} {xs : List Entry} (h : Rep lv xs) (i : Nat) :
    entryOffset xs i < 2 ^ 64 := by
  have hle : entryOffset xs i ≤ (xs.flatMap serializeToString).length := offset_le _ _ _
  have hlt := size_lt lv.dataFile
  rw [size_eq, h.data] at hlt
  omega

theorem Rep.getOffset {lv : LogVec} {xs : List Entry} (h : Rep lv xs) {i : Nat}
    (hi : i < xs.length) : lv.getOffset i = some (entryOffset xs i) := by
  have hpiece : slice (metaBytes xs) (i * 8) 8 = leBytes 8 (entryOffset xs i) := by
    have hrow : (List.range xs.length)[i]? = some i := by simp [hi]
    have hs := slice_flatMap (fun j => leBytes 8 (entryOffset xs j)) hrow
    have hwidth : (i + 1) * 8 - i * 8 = 8 := by omega
    rw [metaOffset_eq xs (by omega), metaOffset_eq xs hi, hwidth] at hs
    exact hs
  have hread : readToSlice lv.metaFile (i * 8) 8 = some (leBytes 8 (entryOffset xs i)) := by
    rw [readToSlice_eq, if_pos (by rw [h.metaSize]; omega), h.offsets, hpiece]
  rw [LogVec.getOffset, readUint64_eq, hread, Option.map_some,
    ofLe_leBytes_of_lt (h.entryOffset_lt i)]

theorem Rep.newDataSize {lv : LogVec} {xs : List Entry} (h : Rep lv xs) {idx : Nat}
    (hidx : idx < xs.length) : lv.newDataSize idx = some (entryOffset xs idx) := by
  unfold LogVec.newDataSize
  by_cases h0 : idx > 0
  · rw [if_pos h0, h.getOffset hidx]
  · rw [if_neg h0, show idx = 0 by omega]; rfl

theorem get_eq_some_iff {lv : LogVec} {i : Nat} {e : Entry} :
    lv.get i = some e ↔ i < lv.entryCount ∧ ∃ off next, lv.getOffset i = some off ∧
      lv.nextOffset i = some next ∧ off ≤ next ∧ next ≤ size lv.dataFile ∧
      parseFromArray (slice (bytes lv.dataFile) off (next - off)) = e := by
  unfold LogVec.get
  constructor
  · intro h
    split at h
    · rename_i hi
      simp only [Option.bind_eq_bind, Option.bind_eq_some_iff, readToSlice_eq] at h
      obtain ⟨off, hoff, next, hnext, h⟩ := h
      split at h
      · cases h
      · simp only [Option.bind_eq_some_iff, Option.pure_def, Option.some.injEq] at h
        obtain ⟨buf, hbuf, rfl⟩ := h
        split at hbuf
        · cases hbuf
          exact ⟨hi, off, next, hoff, hnext, by omega, by omega, rfl⟩
        · cases hbuf
    · cases h
  · rintro ⟨hi, off, next, hoff, hnext, hle, hsize, rfl⟩
    have hread : readToSlice lv.dataFile off (next - off) =
        some (slice (bytes lv.dataFile) off (next - off)) := by
      rw [readToSlice_eq, if_pos (by omega)]
    simp [hi, hoff, hnext, Nat.not_lt.mpr hle, hread]

theorem get_rep {lv : LogVec} {xs : List Entry} (h : Rep lv xs)
    (ht : ∀ e ∈ xs, e.RoundTrips) (i : Nat) : lv.get i = xs[i]? := by
  by_cases hi : i < xs.length
  · obtain ⟨e, he⟩ : ∃ e, xs[i]? = some e := ⟨_, List.getElem?_eq_getElem hi⟩
    -- the next offset is read from the meta file, or is the size of the data file
    have hnext : lv.nextOffset i = some (entryOffset xs (i + 1)) := by
      unfold LogVec.nextOffset
      rw [h.count]
      by_cases hl : i + 1 < xs.length
      · rw [if_pos hl, h.getOffset hl]
      · rw [if_neg hl, h.dataSize, show i + 1 = xs.length by omega]
    have hmono : entryOffset xs i ≤ entryOffset xs (i + 1) := offset_mono _ _ (by omega)
    have hle : entryOffset xs (i + 1) ≤ size lv.dataFile := by
      rw [size_eq, h.data]; exact offset_le _ _ _
    have hslice : slice (bytes lv.dataFile) (entryOffset xs i)
        (entryOffset xs (i + 1) - entryOffset xs i) = serializeToString e := by
      rw [h.data]; exact slice_flatMap serializeToString he
    have htrip : parseFromArray (serializeToString e) = e := ht e (List.mem_of_getElem? he)
    rw [he, get_eq_some_iff]
    exact ⟨by rw [h.count]; exact hi, _, _, h.getOffset hi, hnext, hmono, hle,
      by rw [hslice, htrip]⟩
  · rw [List.getElem?_eq_none (by omega), LogVec.get, if_neg (by rw [h.count]; exact hi)]

omit [EntryCodec] in
theorem create_count (dir : Dir) :
    (LogVec.create dir).entryCount = size (LogVec.create dir).metaFile / 8 := by
  unfold LogVec.create
  split
  · rfl
  · show 0 = size openNew / 8
    rw [size_eq, bytes_openNew, List.length_nil]

theorem pushBack_count {lv lv' : LogVec} {e : Entry} (h : lv.pushBack e = some lv') :
    lv'.entryCount = lv.entryCount + 1 ∧ size lv'.metaFile = size lv.metaFile + 8 := by
  simp only [LogVec.pushBack, Option.bind_eq_bind, Option.bind_eq_some_iff, Option.pure_def,
    Option.some.injEq] at h
  obtain ⟨d, _, m, hm, rfl⟩ := h
  refine ⟨rfl, ?_⟩
  rw [size_eq, append_bytes hm, List.length_append, length_leBytes, size_eq]

omit [EntryCodec] in
theorem truncateFrom_count {lv lv' : LogVec} {idx : Nat} (hc : lv.entryCount = size lv.metaFile / 8)
    (hidx : idx < lv.entryCount) (h : lv.truncateFrom idx = some lv') :
    lv'.entryCount = idx ∧ size lv'.metaFile = idx * 8 := by
  unfold LogVec.truncateFrom at h
  rw [if_neg (by omega)] at h
  simp only [Option.bind_eq_bind, Option.bind_eq_some_iff, Option.pure_def,
    Option.some.injEq] at h
  obtain ⟨_, _, d, _, m, hm, rfl⟩ := h
  have hle : idx * 8 ≤ size lv.metaFile := by omega
  obtain ⟨m', hm', hbytes⟩ := truncate_of_le hle
  obtain rfl : m' = m := Option.some.inj (hm'.symm.trans hm)
  refine ⟨rfl, ?_⟩
  show size m' = idx * 8
  rw [size_eq, hbytes, List.length_take, ← size_eq]
  exact Nat.min_eq_left hle

/-! ## The operations -/

theorem create_rep : Rep (LogVec.create {}) [] := ⟨bytes_openNew, bytes_openNew, rfl⟩

theorem pushBack_rep {lv lv' : LogVec} {xs : List Entry} {e : Entry} (h : Rep lv xs)
    (hp : lv.pushBack e = some lv') : Rep lv' (xs ++ [e]) := by
  simp only [LogVec.pushBack, Option.bind_eq_bind, Option.bind_eq_some_iff, Option.pure_def,
    Option.some.injEq] at hp
  obtain ⟨d, hd, m, hm, rfl⟩ := hp
  refine ⟨?_, ?_, ?_⟩
  · rw [append_bytes hd, h.data, List.flatMap_append, List.flatMap_singleton]
  · rw [append_bytes hm, h.offsets, metaBytes_append, size_eq, h.data]
  · simp [h.count]

theorem pushBack_eq_none {lv : LogVec} {e : Entry} (hp : lv.pushBack e = none) :
    2 ^ 64 ≤ size lv.dataFile + size lv.metaFile + (serializeToString e).length + 8 := by
  simp only [LogVec.pushBack, Option.bind_eq_bind, Option.pure_def] at hp
  cases hd : append lv.dataFile (serializeToString e) with
  | none => have := append_eq_none hd; omega
  | some d =>
    cases hm : append lv.metaFile (leBytes 8 (size lv.dataFile)) with
    | none => have := append_eq_none hm; simp at this; omega
    | some m => simp [hd, hm] at hp

theorem truncateFrom_rep {lv : LogVec} {xs : List Entry} (h : Rep lv xs) (idx : Nat) :
    ∃ lv', lv.truncateFrom idx = some lv' ∧ Rep lv' (xs.take idx) ∧
      size lv'.dataFile ≤ size lv.dataFile ∧ size lv'.metaFile ≤ size lv.metaFile := by
  unfold LogVec.truncateFrom
  by_cases hidx : idx ≥ lv.entryCount
  · have hall : xs.take idx = xs := List.take_of_length_le (by rw [← h.count]; exact hidx)
    exact ⟨lv, if_pos hidx, by rw [hall]; exact h, Nat.le_refl _, Nat.le_refl _⟩
  · rw [if_neg hidx]
    have hlt : idx < xs.length := by rw [← h.count]; omega
    have hoff := h.newDataSize hlt
    have hdle : entryOffset xs idx ≤ size lv.dataFile := by
      rw [size_eq, h.data]; exact offset_le _ _ _
    obtain ⟨d, hd, hdb⟩ := truncate_of_le hdle
    obtain ⟨m, hm, hmb⟩ := truncate_of_le (f := lv.metaFile) (n := idx * 8)
      (by rw [h.metaSize]; omega)
    refine ⟨⟨d, m, idx⟩, by simp [hoff, hd, hm], ⟨?_, ?_, ?_⟩, ?_, ?_⟩
    · rw [hdb, h.data, take_flatMap]
    · rw [hmb, h.offsets, metaBytes_take xs (by omega)]
    · simp; omega
    · rw [size_eq, size_eq, hdb, List.length_take]; exact Nat.min_le_right _ _
    · rw [size_eq, size_eq, hmb, List.length_take]; exact Nat.min_le_right _ _

theorem reopen_rep {lv : LogVec} {xs : List Entry} (h : Rep lv xs) :
    Rep (LogVec.create lv.close) xs := by
  refine ⟨h.data, h.offsets, ?_⟩
  show size lv.metaFile / 8 = xs.length
  rw [h.metaSize]; omega

theorem fetch_rep {lv : LogVec} {xs : List Entry} (h : Rep lv xs) (ht : ∀ e ∈ xs, e.RoundTrips)
    {i : Nat} {e : Entry} (he : xs[i]? = some e) (rev : Bool) :
    (⟨i, rev⟩ : LogVecIterator).fetch lv = some e := by
  have hi : i < lv.entryCount := by rw [h.count]; exact (List.getElem?_eq_some_iff.mp he).1
  rw [LogVecIterator.fetch, if_neg (by simp only; omega)]
  exact (get_rep h ht i).trans he

theorem iterate_stop {lv : LogVec} {stop it : LogVecIterator} {fuel : Nat}
    (heq : it.eq stop = true) : lv.iterate stop (fuel + 1) it = some [] := by
  rw [LogVec.iterate, if_pos heq]

theorem iterate_next {lv : LogVec} {stop it : LogVecIterator} {fuel : Nat} {e : Entry}
    {es : List Entry} (heq : it.eq stop = false) (he : it.fetch lv = some e)
    (hes : lv.iterate stop fuel it.incr = some es) :
    lv.iterate stop (fuel + 1) it = some (e :: es) := by
  rw [LogVec.iterate, heq, he]
  simp [hes]

theorem iterate_forward {lv : LogVec} {xs : List Entry} (h : Rep lv xs)
    (ht : ∀ e ∈ xs, e.RoundTrips) :
    ∀ (k i fuel : Nat), i + k = xs.length → k < fuel →
      lv.iterate lv.endIter fuel ⟨i, false⟩ = some (xs.drop i) := by
  intro k
  induction k with
  | zero =>
    intro i fuel hik hf
    obtain ⟨fuel, rfl⟩ : ∃ f, fuel = f + 1 := ⟨fuel - 1, by omega⟩
    have hi : i = lv.entryCount := by rw [h.count]; omega
    rw [List.drop_of_length_le (by omega)]
    exact iterate_stop (by simp [LogVecIterator.eq, LogVec.endIter, hi])
  | succ k ih =>
    intro i fuel hik hf
    obtain ⟨fuel, rfl⟩ : ∃ f, fuel = f + 1 := ⟨fuel - 1, by omega⟩
    have hi : i < xs.length := by omega
    have hne : (⟨i, false⟩ : LogVecIterator).eq lv.endIter = false := by
      simp only [LogVecIterator.eq, LogVec.endIter, h.count, beq_eq_false_iff_ne]; omega
    have hrest := ih (i + 1) fuel (by omega) (by omega)
    rw [List.drop_eq_getElem_cons hi]
    exact iterate_next hne (fetch_rep h ht (List.getElem?_eq_getElem hi) false) hrest

theorem iterate_reverse {lv : LogVec} {xs : List Entry} (h : Rep lv xs)
    (ht : ∀ e ∈ xs, e.RoundTrips) :
    ∀ (i fuel : Nat), i ≤ xs.length → i < fuel →
      lv.iterate lv.rend fuel ⟨(i : Int) - 1, true⟩ = some (xs.take i).reverse := by
  intro i
  induction i with
  | zero =>
    intro fuel _ hf
    obtain ⟨fuel, rfl⟩ : ∃ f, fuel = f + 1 := ⟨fuel - 1, by omega⟩
    exact iterate_stop rfl
  | succ i ih =>
    intro fuel hi hf
    obtain ⟨fuel, rfl⟩ : ∃ f, fuel = f + 1 := ⟨fuel - 1, by omega⟩
    have he : xs[i]? = some xs[i] := List.getElem?_eq_getElem (by omega)
    have hpos : ((i + 1 : Nat) : Int) - 1 = i := by omega
    have hne : (⟨i, true⟩ : LogVecIterator).eq lv.rend = false := by
      simp only [LogVecIterator.eq, LogVec.rend, beq_eq_false_iff_ne]; omega
    have htake : (xs.take (i + 1)).reverse = xs[i] :: (xs.take i).reverse := by
      rw [List.take_add_one, he, Option.toList_some, List.reverse_append]; rfl
    rw [htake, hpos]
    exact iterate_next hne (fetch_rep h ht he true) (ih fuel (by omega) (by omega))

end TinyKv
