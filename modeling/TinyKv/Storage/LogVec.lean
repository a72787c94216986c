import TinyKv.Storage.Entry
import TinyKv.Storage.FileObj

/-!
# Storage.LogVec

`LogVec`: a vector of entries on two files, `log.data` with the encoded entries one after the
other and `meta.data` with the offset of each entry, eight bytes little-endian.

* `LogVec.pushBack` appends to the data file and then to the meta file, `LogVec.truncateFrom`
  cuts the data file and then the meta file.
* `LogVec.create` is the constructor: it takes the number of entries from the meta file alone.
-/

namespace TinyKv

open Lib FileSystem

variable [FileSystem]

/-- The directory of a log: its two files, `none` where the file does not exist. -/
structure Dir where
  logData : Option FileObj := none
  metaData : Option FileObj := none

structure LogVec where
  dataFile : FileObj
  metaFile : FileObj
  entryCount : Nat

namespace LogVec

/-- `LogVec::LogVec`. If one of the files is missing, both are created empty. -/
def create (dir : Dir) : LogVec :=
  match dir.logData, dir.metaData with
  | some d, some m => ⟨d, m, size m / 8⟩
  | _, _ => ⟨openNew, openNew, 0⟩

/-- `LogVec::~LogVec`: the files are synced and stay in the directory. -/
def close (lv : LogVec) : Dir := ⟨some lv.dataFile, some lv.metaFile⟩

variable [EntryCodec]

def getOffset (lv : LogVec) (idx : Nat) : Option Nat := readUint64 lv.metaFile (idx * 8)

def pushBack (lv : LogVec) (value : Entry) : Option LogVec := do
  let buf := EntryCodec.serializeToString value
  let off := size lv.dataFile
  let dataFile ← append lv.dataFile buf
  let metaFile ← append lv.metaFile (leBytes 8 off)
  return ⟨dataFile, metaFile, lv.entryCount + 1⟩

/-- `next_offset` of `operator[]`: where entry `idx` ends. -/
def nextOffset (lv : LogVec) (idx : Nat) : Option Nat :=
  if idx + 1 < lv.entryCount then lv.getOffset (idx + 1) else some (size lv.dataFile)

/-- `LogVec::operator[]`. The assertion fails outside the log; a next offset below the entry's own
makes the length wrap around, and the read fails. -/
def get (lv : LogVec) (idx : Nat) : Option Entry :=
  if idx < lv.entryCount then do
    let off ← lv.getOffset idx
    let next ← lv.nextOffset idx
    if next < off then none
    else
      let buf ← readToSlice lv.dataFile off (next - off)
      return EntryCodec.parseFromArray buf
  else none

/-- `new_data_size` of `truncate_from`. -/
def newDataSize (lv : LogVec) (idx : Nat) : Option Nat :=
  if idx > 0 then lv.getOffset idx else some 0

def truncateFrom (lv : LogVec) (idx : Nat) : Option LogVec :=
  if idx ≥ lv.entryCount then some lv
  else do
    let dataFile ← truncate lv.dataFile (← lv.newDataSize idx)
    let metaFile ← truncate lv.metaFile (idx * 8)
    return ⟨dataFile, metaFile, idx⟩

instance instLog : Log LogVec where
  size := entryCount
  get := get
  pushBack := pushBack
  truncateFrom := truncateFrom

end LogVec

/-- `LogVecIterator`: `idx_` and the direction. The cached entry only saves a second read. -/
structure LogVecIterator where
  idx : Int
  isReverse : Bool := false
  deriving DecidableEq

namespace LogVecIterator

/-- `operator*`, through `fetch`: out of range unless `0 ≤ idx_ < size()`. -/
def fetch [EntryCodec] (it : LogVecIterator) (lv : LogVec) : Option Entry :=
  if it.idx ≥ lv.entryCount ∨ it.idx < 0 then none else lv.get it.idx.toNat

/-- `operator++`. -/
def incr (it : LogVecIterator) : LogVecIterator :=
  if it.isReverse then { it with idx := it.idx - 1 } else { it with idx := it.idx + 1 }

/-- `operator==` on two iterators of one log. -/
def eq (it other : LogVecIterator) : Bool := it.idx == other.idx

end LogVecIterator

namespace LogVec

def beginIter (_ : LogVec) : LogVecIterator := ⟨0, false⟩

def endIter (lv : LogVec) : LogVecIterator := ⟨lv.entryCount, false⟩

/-- `size() - 1` as `int64_t`: `-1` for the empty log. -/
def rbegin (lv : LogVec) : LogVecIterator := ⟨(lv.entryCount : Int) - 1, true⟩

def rend (_ : LogVec) : LogVecIterator := ⟨-1, true⟩

/-- The loop `for (it; it != stop; ++it)` collecting `*it`; `none` when a read fails or the fuel
runs out. -/
def iterate [EntryCodec] (lv : LogVec) (stop : LogVecIterator) :
    Nat → LogVecIterator → Option (List Entry)
  | 0, _ => none
  | fuel + 1, it =>
    if it.eq stop then some []
    else do
      let e ← it.fetch lv
      let es ← lv.iterate stop fuel it.incr
      return e :: es

end LogVec

end TinyKv
