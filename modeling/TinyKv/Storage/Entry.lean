import TinyKv.Lib.Bytes

/-!
# Storage.Entry

The log entry `raft::Entry` and what the code does with it.

* `EntryCodec`: `SerializeToString` and `ParseFromArray`, the code protobuf generates for the
  message. The log depends on it only through `EntryCodec.Lawful`.
* `Log`: the vector-like interface of `LogVec` that the Raft node is written against. A plain
  list of entries is one implementation (`instLogList`), the file-backed `LogVec` another.
-/

namespace TinyKv

open Lib

/-- `raft::Entry`; the default value is `Entry{}`. -/
structure Entry where
  seq : Int := 0
  term : Int := 0
  key : Bytes := []
  value : Bytes := []
  deriving DecidableEq, Repr

/-- `Entry::MergeImpl`: the fields that are set in `src` overwrite those of `dst`. -/
def Entry.mergeFrom (dst src : Entry) : Entry where
  key := if src.key = [] then dst.key else src.key
  value := if src.value = [] then dst.value else src.value
  seq := if src.seq = 0 then dst.seq else src.seq
  term := if src.term = 0 then dst.term else src.term

@[simp] theorem Entry.mergeFrom_empty (e : Entry) : e.mergeFrom {} = e := rfl

/-- The generated protobuf code of `raft::Entry`. -/
class EntryCodec where
  serializeToString : Entry → Bytes
  parseFromArray : Bytes → Entry

/-- What the log relies on, for the entries `P`: the default entry takes no bytes, an entry is
read back from its own bytes, and the bytes of two entries in a row parse to their merge. -/
structure EntryCodec.Lawful [EntryCodec] (P : Entry → Prop) : Prop where
  empty : serializeToString {} = []
  parseEmpty : parseFromArray [] = {}
  roundTrip : ∀ e, P e → parseFromArray (serializeToString e) = e
  merge : ∀ a b, P a → P b →
    parseFromArray (serializeToString a ++ serializeToString b) = a.mergeFrom b

/-- The interface of the log: `get` fails where the assertion of `operator[]` would, `pushBack`
and `truncateFrom` where a file operation would. -/
class Log (L : Type) where
  size : L → Nat
  get : L → Nat → Option Entry
  pushBack : L → Entry → Option L
  truncateFrom : L → Nat → Option L

instance instLogList : Log (List Entry) where
  size := List.length
  get xs i := xs[i]?
  pushBack xs e := some (xs ++ [e])
  truncateFrom xs i := some (xs.take i)

section ListLog

@[simp] theorem size_list (xs : List Entry) : Log.size xs = xs.length := rfl

@[simp] theorem get_list (xs : List Entry) (i : Nat) : Log.get xs i = xs[i]? := rfl

@[simp] theorem pushBack_list (xs : List Entry) (e : Entry) :
    Log.pushBack xs e = some (xs ++ [e]) := rfl

@[simp] theorem truncateFrom_list (xs : List Entry) (i : Nat) :
    Log.truncateFrom xs i = some (xs.take i) := rfl

end ListLog

end TinyKv
