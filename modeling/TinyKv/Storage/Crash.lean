import TinyKv.Storage.Refinement

/-!
# Storage.Crash

A process that stops inside `push_back` or `truncate_from`.

Each call changes the data file first and the meta file second (`LogVec.fileOps`). `crashAfter`
runs the first `k` of these file operations and opens the directory again; `LogVec.diskStep` is a
call that ends or one that is stopped so.

* Between the two file operations, the data files before and after the first one differ by bytes
  at the end, and the meta file is the old one. `readsAs_iff` says when the two logs read alike.
* `crash_atomic_iff` is the exact condition under which the reopened log is the one before or the
  one after the call, for every log that calls and stops lead to.
* `crashSafe_iff` is that condition in terms of entries, where no call was stopped before: a crash
  inside `push_back e` makes the last entry run into the bytes of `e`, one inside `truncate_from`
  leaves the offsets of entries whose bytes are gone.
-/

namespace TinyKv

open Lib EntryCodec FileSystem

variable [FileSystem]

/-- One operation on the files of a log. -/
inductive FileOp where
  | appendData (buf : Bytes)
  | appendMeta (buf : Bytes)
  | truncateData (n : Nat)
  | truncateMeta (n : Nat)

def FileOp.run (f : FileObj × FileObj) : FileOp → Option (FileObj × FileObj)
  | .appendData buf => (append f.1 buf).map fun d => (d, f.2)
  | .appendMeta buf => (append f.2 buf).map fun m => (f.1, m)
  | .truncateData n => (truncate f.1 n).map fun d => (d, f.2)
  | .truncateMeta n => (truncate f.2 n).map fun m => (f.1, m)

/-- A call that ends, or one in which the process stops after `k` file operations. -/
inductive DiskStep where
  | call (op : LogOp)
  | stop (op : LogOp) (k : Nat)

namespace LogVec

def withData (lv : LogVec) (d : FileObj) : LogVec := { lv with dataFile := d }

variable [EntryCodec]

/-- The file operations of a call, in the order the code makes them. -/
def fileOps (lv : LogVec) : LogOp → Option (List FileOp)
  | .pushBack e =>
    some [.appendData (serializeToString e), .appendMeta (leBytes 8 (size lv.dataFile))]
  | .truncateFrom idx =>
    if idx ≥ lv.entryCount then some []
    else (lv.newDataSize idx).map fun n => [.truncateData n, .truncateMeta (idx * 8)]
  | .reopen => some []

/-- The log reopened after the first `k` file operations of the call. -/
def crashAfter (lv : LogVec) (op : LogOp) (k : Nat) : Option LogVec := do
  let ops ← lv.fileOps op
  let f ← runs FileOp.run (ops.take k) (lv.dataFile, lv.metaFile)
  return create ⟨some f.1, some f.2⟩

def diskStep (lv : LogVec) : DiskStep → Option LogVec
  | .call op => lv.runOp op
  | .stop op k => lv.crashAfter op k

/-- Two logs that read alike by `size()` and `operator[]`. -/
structure ReadsAs (lv lv' : LogVec) : Prop where
  size : lv.entryCount = lv'.entryCount
  get : ∀ i, lv.get i = lv'.get i

theorem ReadsAs.symm {lv lv' : LogVec} (h : lv.ReadsAs lv') : lv'.ReadsAs lv :=
  ⟨h.size.symm, fun i => (h.get i).symm⟩

end LogVec

variable [EntryCodec]

theorem crashAfter_count {lv lv' : LogVec} {op : LogOp} {k : Nat}
    (h : lv.crashAfter op k = some lv') : lv'.entryCount = size lv'.metaFile / 8 := by
  simp only [LogVec.crashAfter, Option.bind_eq_bind, Option.bind_eq_some_iff, Option.pure_def,
    Option.some.injEq] at h
  obtain ⟨_, _, f, _, rfl⟩ := h
  exact create_count _

theorem runOp_count {lv lv' : LogVec} {op : LogOp} (hc : lv.entryCount = size lv.metaFile / 8)
    (h : lv.runOp op = some lv') : lv'.entryCount = size lv'.metaFile / 8 := by
  cases op with
  | pushBack e =>
    obtain ⟨hcount, hsize⟩ := pushBack_count h
    omega
  | truncateFrom idx =>
    by_cases hidx : idx < lv.entryCount
    · obtain ⟨hcount, hsize⟩ := truncateFrom_count hc hidx h
      omega
    · have hsame : lv.truncateFrom idx = some lv := if_pos (by omega)
      obtain rfl : lv = lv' := Option.some.inj (hsame.symm.trans h)
      exact hc
  | reopen =>
    obtain rfl : LogVec.create lv.close = lv' := Option.some.inj h
    exact create_count _

theorem reaches_count {dir : Dir} {lv : LogVec}
    (hr : Reaches LogVec.diskStep (LogVec.create dir) lv) :
    lv.entryCount = size lv.metaFile / 8 := by
  refine hr.inv (P := fun lv => lv.entryCount = size lv.metaFile / 8) ?_ (create_count dir)
  intro lv step lv' hc hs
  cases step with
  | call op => exact runOp_count hc hs
  | stop op k => exact crashAfter_count hs

theorem crashAfter_all (lv : LogVec) (op : LogOp) {k : Nat} (hk : 2 ≤ k) :
    lv.crashAfter op k = (lv.runOp op).map fun lv' => LogVec.create lv'.close := by
  cases op with
  | pushBack e =>
    have hops : [FileOp.appendData (serializeToString e),
        .appendMeta (leBytes 8 (size lv.dataFile))].take k = _ :=
      List.take_of_length_le (by simpa using hk)
    simp only [LogVec.crashAfter, LogVec.fileOps, Option.bind_eq_bind, Option.bind_some, hops,
      LogVec.runOp, LogVec.pushBack]
    cases hd : append lv.dataFile (serializeToString e) with
    | none => simp [runs, FileOp.run, hd]
    | some d =>
      cases hm : append lv.metaFile (leBytes 8 (size lv.dataFile)) with
      | none => simp [runs, FileOp.run, hd, hm]
      | some m => simp [runs, FileOp.run, hd, hm, LogVec.close]
  | truncateFrom idx =>
    by_cases hidx : idx ≥ lv.entryCount
    · simp [LogVec.crashAfter, LogVec.fileOps, LogVec.runOp, LogVec.truncateFrom, hidx, runs,
        LogVec.close]
    · cases hn : lv.newDataSize idx with
      | none =>
        simp [LogVec.crashAfter, LogVec.fileOps, LogVec.runOp, LogVec.truncateFrom, hidx, hn]
      | some n =>
        have hops : [FileOp.truncateData n, .truncateMeta (idx * 8)].take k = _ :=
          List.take_of_length_le (by simpa using hk)
        simp only [LogVec.crashAfter, LogVec.fileOps, if_neg hidx, hn, Option.map_some,
          Option.bind_eq_bind, Option.bind_some, hops, LogVec.runOp, LogVec.truncateFrom]
        cases hd : truncate lv.dataFile n with
        | none => simp [runs, FileOp.run, hd]
        | some d =>
          cases hm : truncate lv.metaFile (idx * 8) with
          | none => simp [runs, FileOp.run, hd, hm]
          | some m => simp [runs, FileOp.run, hd, hm, LogVec.close]
  | reopen =>
    simp [LogVec.crashAfter, LogVec.fileOps, LogVec.runOp, runs, LogVec.create, LogVec.close]

theorem crashAfter_zero {lv lv' : LogVec} {op : LogOp} (h : lv.crashAfter op 0 = some lv') :
    lv' = LogVec.create lv.close := by
  simp only [LogVec.crashAfter, Option.bind_eq_bind, Option.bind_eq_some_iff, List.take_zero, runs,
    Option.some.injEq, Option.pure_def] at h
  obtain ⟨_, _, _, rfl, rfl⟩ := h
  rfl

omit [EntryCodec] in
theorem create_withData {lv : LogVec} (hc : lv.entryCount = size lv.metaFile / 8) (d : FileObj) :
    LogVec.create ⟨some d, some lv.metaFile⟩ = lv.withData d := by
  rw [LogVec.create, LogVec.withData, hc]

omit [EntryCodec] in
theorem create_close {lv : LogVec} (hc : lv.entryCount = size lv.metaFile / 8) :
    LogVec.create lv.close = lv := create_withData hc lv.dataFile

/-! ## Two data files -/

/-- The bytes `tail` behind `bs` in the data file make no difference: no entry ends among them, and
the last entry parses to the same with them and without. -/
structure Unread (lv : LogVec) (bs tail : Bytes) : Prop where
  ends : ∀ i off next, i + 1 < lv.entryCount → lv.getOffset i = some off →
    lv.getOffset (i + 1) = some next → off ≤ next →
    next ≤ bs.length ∨ (bs ++ tail).length < next
  last : ∀ i off, i + 1 = lv.entryCount → lv.getOffset i = some off →
    off ≤ (bs ++ tail).length →
    off ≤ bs.length ∧ parseFromArray (bs.drop off ++ tail) = parseFromArray (bs.drop off)

theorem unread_nil (lv : LogVec) (bs : Bytes) : Unread lv bs [] where
  ends := by
    intro i off next _ _ _ _
    rw [List.append_nil]
    omega
  last := by
    intro i off _ _ hle
    rw [List.append_nil] at hle ⊢
    exact ⟨hle, rfl⟩

section TwoFiles

variable {lv : LogVec} {d : FileObj} {i off next : Nat}

theorem get_eq_ite (hi : i < lv.entryCount) (hoff : lv.getOffset i = some off)
    (hnext : lv.nextOffset i = some next) : lv.get i =
      if off ≤ next ∧ next ≤ size lv.dataFile then
        some (parseFromArray (slice (bytes lv.dataFile) off (next - off)))
      else none := by
  split
  · rename_i hle
    exact get_eq_some_iff.mpr ⟨hi, off, next, hoff, hnext, hle.1, hle.2, rfl⟩
  · rename_i hle
    rw [Option.eq_none_iff_forall_not_mem]
    intro e he
    obtain ⟨_, off₁, next₁, hoff₁, hnext₁, h₁, h₂, _⟩ := get_eq_some_iff.mp he
    obtain rfl : off = off₁ := Option.some.inj (hoff.symm.trans hoff₁)
    obtain rfl : next = next₁ := Option.some.inj (hnext.symm.trans hnext₁)
    exact hle ⟨h₁, h₂⟩

theorem get_withData_inner (hi : i + 1 < lv.entryCount) (hoff : lv.getOffset i = some off)
    (hnext : lv.getOffset (i + 1) = some next) :
    (lv.withData d).get i = if off ≤ next ∧ next ≤ (bytes d).length then
      some (parseFromArray (slice (bytes d) off (next - off))) else none := by
  have hnext' : (lv.withData d).nextOffset i = some next := (if_pos hi).trans hnext
  have hget : (lv.withData d).get i = _ := get_eq_ite (Nat.lt_of_succ_lt hi) hoff hnext'
  rwa [size_eq] at hget

theorem get_withData_last (hi : i + 1 = lv.entryCount) (hoff : lv.getOffset i = some off) :
    (lv.withData d).get i = if off ≤ (bytes d).length then
      some (parseFromArray ((bytes d).drop off)) else none := by
  have hlt : i < (lv.withData d).entryCount := Nat.lt_of_succ_le hi.le
  have hnext : (lv.withData d).nextOffset i = some (bytes d).length :=
    (if_neg (Nat.not_lt.mpr hi.ge)).trans (congrArg some (size_eq d))
  have hget : (lv.withData d).get i = _ := get_eq_ite hlt hoff hnext
  have hrest : slice (bytes d) off ((bytes d).length - off) = (bytes d).drop off := by
    rw [slice, ← List.length_drop, List.take_length]
  have hend : (bytes d).length ≤ size d := (size_eq d).ge
  rw [show (lv.withData d).dataFile = d from rfl, hrest] at hget
  simpa only [hend, and_true] using hget

omit [EntryCodec] in
theorem exists_offset (hc : lv.entryCount = size lv.metaFile / 8) (hi : i < lv.entryCount) :
    ∃ off, lv.getOffset i = some off := by
  rw [LogVec.getOffset, readUint64_eq, readToSlice_eq, if_pos (by omega)]
  exact ⟨_, rfl⟩

end TwoFiles

/-- Two logs of one meta file, one with `tail` more in its data file, read alike if and only if
nothing reads `tail`. -/
theorem readsAs_iff {lv : LogVec} {d d' : FileObj} {bs tail : Bytes}
    (hc : lv.entryCount = size lv.metaFile / 8) (hd : bytes d = bs) (hd' : bytes d' = bs ++ tail) :
    (lv.withData d').ReadsAs (lv.withData d) ↔ Unread lv bs tail := by
  constructor
  · intro h
    refine ⟨?_, ?_⟩
    · intro i off next hi hoff hnext hle
      have hget := h.get i
      rw [get_withData_inner hi hoff hnext, get_withData_inner hi hoff hnext, hd, hd'] at hget
      by_cases hin : next ≤ bs.length
      · exact .inl hin
      · rw [if_neg (fun h : off ≤ next ∧ next ≤ bs.length => hin h.2)] at hget
        refine .inr (Nat.lt_of_not_le fun hend => ?_)
        rw [if_pos ⟨hle, hend⟩] at hget
        cases hget
    · intro i off hi hoff hle
      have hget := h.get i
      rw [get_withData_last hi hoff, get_withData_last hi hoff, hd, hd', if_pos hle] at hget
      by_cases hin : off ≤ bs.length
      · rw [if_pos hin, List.drop_append_of_le_length hin] at hget
        exact ⟨hin, Option.some.inj hget⟩
      · rw [if_neg hin] at hget
        cases hget
  · intro h
    refine ⟨rfl, fun i => ?_⟩
    rcases Nat.lt_trichotomy (i + 1) lv.entryCount with hi | hi | hi
    · obtain ⟨off, hoff⟩ := exists_offset hc (show i < lv.entryCount by omega)
      obtain ⟨next, hnext⟩ := exists_offset hc hi
      rw [get_withData_inner hi hoff hnext, get_withData_inner hi hoff hnext, hd, hd']
      by_cases hle : off ≤ next
      · rcases h.ends i off next hi hoff hnext hle with hin | hout
        · have hslice : slice (bs ++ tail) off (next - off) = slice bs off (next - off) := by
            rw [slice, slice, List.drop_append_of_le_length (by omega),
              List.take_append_of_le_length (by rw [List.length_drop]; omega)]
          have hlong : next ≤ (bs ++ tail).length := by
            rw [List.length_append]
            omega
          rw [if_pos ⟨hle, hlong⟩, if_pos ⟨hle, hin⟩, hslice]
        · have hshort : bs.length < next := by
            rw [List.length_append] at hout
            omega
          rw [if_neg (fun h => Nat.not_le.mpr hout h.2),
            if_neg (fun h => Nat.not_le.mpr hshort h.2)]
      · rw [if_neg (fun h => hle h.1), if_neg (fun h => hle h.1)]
    · obtain ⟨off, hoff⟩ := exists_offset hc (show i < lv.entryCount by omega)
      rw [get_withData_last hi hoff, get_withData_last hi hoff, hd, hd']
      by_cases hle : off ≤ (bs ++ tail).length
      · obtain ⟨hin, hparse⟩ := h.last i off hi hoff hle
        rw [if_pos hle, if_pos hin, List.drop_append_of_le_length hin, hparse]
      · have hout : ¬off ≤ bs.length := by
          rw [List.length_append] at hle
          omega
        rw [if_neg hle, if_neg hout]
    · have hout : ¬i < lv.entryCount := by omega
      exact (if_neg hout).trans (if_neg hout).symm

/-! ## The stop between the two file operations -/

/-- The calls that such a stop does not harm: nothing reads the bytes by which the data files before
and after the first file operation differ. -/
def CrashSafe (lv : LogVec) : LogOp → Prop
  | .pushBack e => Unread lv (bytes lv.dataFile) (serializeToString e)
  | .truncateFrom idx => idx < lv.entryCount → ∀ n, lv.newDataSize idx = some n →
    -- a file that is shorter than `n` grows
    Unread lv ((bytes lv.dataFile).take n)
      ((bytes lv.dataFile).drop n ++ List.replicate (n - size lv.dataFile) 0)
  | .reopen => True

theorem readsAs_truncate {lv : LogVec} {d : FileObj} {n : Nat}
    (hc : lv.entryCount = size lv.metaFile / 8) (hd : truncate lv.dataFile n = some d) :
    (lv.withData d).ReadsAs lv ↔ Unread lv ((bytes lv.dataFile).take n)
      ((bytes lv.dataFile).drop n ++ List.replicate (n - size lv.dataFile) 0) := by
  have hbytes := truncate_bytes hd
  rw [size_eq] at hbytes ⊢
  by_cases hn : n ≤ (bytes lv.dataFile).length
  · have hz : n - (bytes lv.dataFile).length = 0 := by omega
    rw [hz, List.replicate_zero, List.append_nil] at hbytes ⊢
    have hold : bytes lv.dataFile = (bytes lv.dataFile).take n ++ (bytes lv.dataFile).drop n :=
      (List.take_append_drop _ _).symm
    exact ⟨fun h => (readsAs_iff hc hbytes hold).mp h.symm,
      fun h => ((readsAs_iff hc hbytes hold).mpr h).symm⟩
  · have hle : (bytes lv.dataFile).length ≤ n := by omega
    rw [List.take_of_length_le (by rw [List.length_append, List.length_replicate]; omega)]
      at hbytes
    rw [List.take_of_length_le hle, List.drop_of_length_le hle, List.nil_append]
    exact readsAs_iff hc rfl hbytes

theorem crashAfter_one {lv lv' : LogVec} {op : LogOp} (hc : lv.entryCount = size lv.metaFile / 8)
    (hcr : lv.crashAfter op 1 = some lv') :
    (lv'.ReadsAs lv ∨ ∃ after, lv.runOp op = some after ∧ lv'.ReadsAs after) ↔
      CrashSafe lv op := by
  cases op with
  | pushBack e =>
    simp only [LogVec.crashAfter, LogVec.fileOps, Option.bind_eq_bind, Option.bind_some,
      List.take_succ_cons, List.take_zero, runs, FileOp.run] at hcr
    cases hd : append lv.dataFile (serializeToString e) with
    | none => simp [hd] at hcr
    | some d =>
      have hlv : LogVec.create ⟨some d, some lv.metaFile⟩ = lv' := by simpa [hd] using hcr
      rw [create_withData hc] at hlv
      subst hlv
      -- the meta file has no new entry yet
      have hno : ¬∃ after, lv.runOp (.pushBack e) = some after ∧
          (lv.withData d).ReadsAs after := by
        rintro ⟨after, ha, hr⟩
        have hcount : lv.entryCount = lv.entryCount + 1 := hr.size.trans (pushBack_count ha).1
        omega
      rw [or_iff_left hno]
      exact readsAs_iff hc rfl (append_bytes hd)
  | truncateFrom idx =>
    by_cases hidx : idx ≥ lv.entryCount
    · have hlv : LogVec.create lv.close = lv' := by
        simpa [LogVec.crashAfter, LogVec.fileOps, hidx, runs, LogVec.close] using hcr
      rw [create_close hc] at hlv
      subst hlv
      exact iff_of_true (.inl ⟨rfl, fun _ => rfl⟩) fun h => absurd h (by omega)
    · have hlt : idx < lv.entryCount := by omega
      simp only [LogVec.crashAfter, LogVec.fileOps, if_neg hidx, Option.bind_eq_bind] at hcr
      cases hn : lv.newDataSize idx with
      | none => simp [hn] at hcr
      | some n =>
        cases hd : truncate lv.dataFile n with
        | none => simp [hn, runs, FileOp.run, hd] at hcr
        | some d =>
          have hlv : LogVec.create ⟨some d, some lv.metaFile⟩ = lv' := by
            simpa [hn, runs, FileOp.run, hd] using hcr
          rw [create_withData hc] at hlv
          subst hlv
          have hno : ¬∃ after, lv.runOp (.truncateFrom idx) = some after ∧
              (lv.withData d).ReadsAs after := by
            rintro ⟨after, ha, hr⟩
            have hcount : lv.entryCount = idx := hr.size.trans (truncateFrom_count hc hlt ha).1
            omega
          rw [or_iff_left hno]
          refine (readsAs_truncate hc hd).trans ⟨fun h _ n' hn' => ?_, fun h => h hlt n hn⟩
          obtain rfl : n = n' := Option.some.inj (hn.symm.trans hn')
          exact h
  | reopen =>
    have hlv : LogVec.create lv.close = lv' := by
      simpa [LogVec.crashAfter, LogVec.fileOps, runs, LogVec.close] using hcr
    rw [create_close hc] at hlv
    subst hlv
    exact iff_of_true (.inl ⟨rfl, fun _ => rfl⟩) trivial

/-! ## Logs of entries -/

section Entries

variable {P : Entry → Prop} {lv : LogVec} {xs : List Entry} {e : Entry} {idx : Nat}

/-- The bytes of an appended entry are merged into the last one. -/
theorem unread_push (hc : Lawful P) (h : Rep lv xs) (hP : ∀ x ∈ xs, P x) (he : P e) :
    Unread lv (bytes lv.dataFile) (serializeToString e) ↔
      ∀ last, xs.getLast? = some last → last.mergeFrom e = last := by
  have hends : ∀ i off next, i + 1 < lv.entryCount → lv.getOffset i = some off →
      lv.getOffset (i + 1) = some next → off ≤ next → next ≤ (bytes lv.dataFile).length ∨
        (bytes lv.dataFile ++ serializeToString e).length < next := by
    intro i off next hi _ hnext _
    rw [h.count] at hi
    obtain rfl : entryOffset xs (i + 1) = next :=
      Option.some.inj ((h.getOffset hi).symm.trans hnext)
    rw [h.data]
    exact .inl (offset_le _ _ _)
  rcases List.eq_nil_or_concat' xs with rfl | ⟨ys, last, rfl⟩
  · refine iff_of_true ⟨hends, fun i off hi => ?_⟩ (fun last hl => by cases hl)
    rw [h.count] at hi
    cases hi
  · have hlen : lv.entryCount = ys.length + 1 := by rw [h.count, List.length_append]; rfl
    have hoff : lv.getOffset ys.length = some (ys.flatMap serializeToString).length := by
      rw [h.getOffset (by simp), entryOffset, offset_append serializeToString (Nat.le_refl _),
        offset_length]
    have hdrop : (bytes lv.dataFile).drop (ys.flatMap serializeToString).length =
        serializeToString last := by
      rw [h.data, List.flatMap_append, List.flatMap_singleton, List.drop_left]
    have hmerge := hc.merge last e (hP last (by simp)) he
    have hread := hc.roundTrip last (hP last (by simp))
    simp only [List.getLast?_concat, Option.some.injEq, forall_eq']
    constructor
    · intro hu
      have hle : (ys.flatMap serializeToString).length ≤
          (bytes lv.dataFile ++ serializeToString e).length := by
        rw [h.data, List.flatMap_append, List.length_append, List.length_append]
        omega
      have hparse := (hu.last _ _ hlen.symm hoff hle).2
      rwa [hdrop, hmerge, hread] at hparse
    · intro hm
      refine ⟨hends, fun i off hi hoff' _ => ?_⟩
      obtain rfl : i = ys.length := by omega
      obtain rfl : (ys.flatMap serializeToString).length = off :=
        Option.some.inj (hoff.symm.trans hoff')
      refine ⟨?_, by rw [hdrop, hmerge, hread, hm]⟩
      rw [h.data, List.flatMap_append, List.length_append]
      omega

/-- A cut leaves the offsets of the entries behind it. -/
theorem unread_truncate (hc : Lawful P) (h : Rep lv xs) (hP : ∀ x ∈ xs, P x)
    (hidx : idx < xs.length) :
    Unread lv ((bytes lv.dataFile).take (entryOffset xs idx))
      ((bytes lv.dataFile).drop (entryOffset xs idx)) ↔ ∀ x ∈ xs.drop idx, x = {} := by
  have htail : ∀ j, (bytes lv.dataFile).drop (entryOffset xs j) =
      (xs.drop j).flatMap serializeToString := by
    intro j
    rw [h.data]
    exact drop_flatMap serializeToString xs j
  have hshort : ((bytes lv.dataFile).take (entryOffset xs idx)).length = entryOffset xs idx := by
    rw [List.length_take, h.data]
    exact Nat.min_eq_left (offset_le _ _ _)
  constructor
  · intro hu
    -- no entry ends behind the cut, so those from `idx` on all start at it
    have hat : ∀ j, idx ≤ j → j < xs.length → entryOffset xs j = entryOffset xs idx := by
      intro j hj hlt
      rcases Nat.eq_or_lt_of_le hj with rfl | hj
      · rfl
      · obtain ⟨i, rfl⟩ : ∃ i, j = i + 1 := ⟨j - 1, by omega⟩
        have hup : entryOffset xs idx ≤ entryOffset xs (i + 1) := offset_mono _ _ (by omega)
        have hends := hu.ends i _ _ (by rw [h.count]; exact hlt) (h.getOffset (by omega))
          (h.getOffset hlt) (offset_mono _ _ (by omega))
        rw [hshort, List.take_append_drop, h.data] at hends
        have htop : entryOffset xs (i + 1) ≤ (xs.flatMap serializeToString).length :=
          offset_le _ _ _
        omega
    intro x hx
    obtain ⟨j, hj, rfl⟩ := List.getElem_of_mem hx
    rw [List.length_drop] at hj
    rw [List.getElem_drop]
    have hget : xs[idx + j]? = some xs[idx + j] := List.getElem?_eq_getElem (by omega)
    have hread := hc.roundTrip xs[idx + j] (hP _ (List.getElem_mem _))
    by_cases hl : idx + j + 1 < xs.length
    · have hnext : entryOffset xs (idx + j + 1) =
          entryOffset xs (idx + j) + (serializeToString xs[idx + j]).length :=
        offset_succ serializeToString hget
      have hstart := hat (idx + j) (by omega) (by omega)
      have hend := hat (idx + j + 1) (by omega) hl
      have hbytes : serializeToString xs[idx + j] = [] := List.eq_nil_of_length_eq_zero (by omega)
      rw [hbytes, hc.parseEmpty] at hread
      exact hread.symm
    · have hparse := (hu.last (idx + j) _ (by rw [h.count]; omega) (h.getOffset (by omega)) (by
        rw [List.take_append_drop, h.data]
        exact offset_le _ _ _)).2
      have hlast : (bytes lv.dataFile).drop (entryOffset xs idx) =
          serializeToString xs[idx + j] := by
        rw [← hat (idx + j) (by omega) (by omega), htail, List.drop_eq_getElem_cons (by omega),
          List.drop_of_length_le (by omega), List.flatMap_singleton]
      rw [hat (idx + j) (by omega) (by omega), List.drop_of_length_le (by rw [hshort]),
        List.nil_append, hlast, hread, hc.parseEmpty] at hparse
      exact hparse
  · intro hall
    have hnil : (xs.drop idx).flatMap serializeToString = [] := by
      rw [List.flatMap_eq_nil_iff]
      intro x hx
      rw [hall x hx, hc.empty]
    rw [htail, hnil]
    exact unread_nil _ _

/-- An append that changes nothing when merged into the last entry, a truncation that cuts off
nothing but `Entry{}`s. -/
def EntrySafe (xs : List Entry) : LogOp → Prop
  | .pushBack e => ∀ last, xs.getLast? = some last → last.mergeFrom e = last
  | .truncateFrom idx => ∀ x ∈ xs.drop idx, x = {}
  | .reopen => True

/-- The calls that a stop does not harm, where no call was stopped before. -/
theorem crashSafe_iff (hc : Lawful P) (h : Rep lv xs) (hP : ∀ x ∈ xs, P x) {op : LogOp}
    (hop : ∀ e, op = .pushBack e → P e) : CrashSafe lv op ↔ EntrySafe xs op := by
  cases op with
  | pushBack e => exact unread_push hc h hP (hop e rfl)
  | truncateFrom idx =>
    by_cases hidx : idx < xs.length
    · have hle : entryOffset xs idx ≤ size lv.dataFile := by
        rw [size_eq, h.data]
        exact offset_le _ _ _
      rw [EntrySafe, ← unread_truncate hc h hP hidx, CrashSafe, h.count]
      simp [hidx, h.newDataSize hidx, Nat.sub_eq_zero_of_le hle]
    · rw [EntrySafe, CrashSafe, h.count, List.drop_of_length_le (by omega)]
      exact iff_of_true (fun h => absurd h hidx) (List.forall_mem_nil _)
  | reopen => exact .rfl

end Entries

end TinyKv
