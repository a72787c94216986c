import TinyKv.Lib.Assoc
import TinyKv.Lib.Bytes
import TinyKv.Lib.Run

/-!
# Curp.Witness

The witness of CURP: it stores requests until the master has synced them, at most one for a key.

* `record`, `garbageCollect`, `getRecoveryData`, `stopAccepting` and `reset` are the calls of the
  class; each runs under the mutex of the witness. A refused call changes nothing.
* `WitnessInv`: each record stands under its own key, and `rpcIds` is the set of the ids of the
  records, which are distinct. `reaches_witnessInv`: every sequence of calls keeps it.
  `indexes_agree` is the same entry by entry.

The counters that only the log output reads are left out.
-/

namespace TinyKv

open Lib

structure WitnessRecord where
  rpcId : UInt64
  key : Bytes
  requestData : Bytes
  clientId : UInt64
  timestamp : UInt64
  deriving DecidableEq

inductive RecordResult where
  | accepted
  | rejectedNotCommutative
  | rejectedNoSpace
  | rejectedStopped
  | rejectedWrongMaster
  deriving DecidableEq

structure GCEntry where
  key : Bytes
  rpcId : UInt64

/-- `masterId` is empty while no master is bound. -/
structure Witness where
  masterId : String := ""
  accepting : Bool := true
  records : Assoc Bytes WitnessRecord := ∅
  rpcIds : Finset UInt64 := ∅
  deriving DecidableEq

namespace Witness

def kMaxRecords : Nat := 10000

/-- The calls of another master than the bound one are refused. -/
def Foreign (w : Witness) (masterId : String) : Prop :=
  w.masterId ≠ "" ∧ masterId ≠ w.masterId

instance (w : Witness) (masterId : String) : Decidable (w.Foreign masterId) :=
  inferInstanceAs (Decidable (_ ∧ _))

def size (w : Witness) : Nat := (values w.records).card

/-- Stores a request, and binds the master if none is bound. -/
def store (w : Witness) (masterId : String) (r : WitnessRecord) : Witness :=
  { w with
    records := w.records.insert r.key r
    rpcIds := insert r.rpcId w.rpcIds
    masterId := if w.masterId = "" then masterId else w.masterId }

/-- `Witness::record`; `now` is the time of the call. -/
def record (w : Witness) (masterId : String) (rpcId : UInt64) (key requestData : Bytes)
    (clientId now : UInt64) : Witness × RecordResult :=
  if ¬w.accepting then (w, .rejectedStopped)
  else if w.Foreign masterId then (w, .rejectedWrongMaster)
  else if w.size ≥ kMaxRecords then (w, .rejectedNoSpace)
  else if rpcId ∈ w.rpcIds then (w, .accepted)
  else if key ∈ w.records then (w, .rejectedNotCommutative)
  else (w.store masterId ⟨rpcId, key, requestData, clientId, now⟩, .accepted)

/-- One turn of the loop of `garbage_collect`, with the number of records dropped so far. -/
def collectEntry (wd : Witness × Nat) (entry : GCEntry) : Witness × Nat :=
  match wd.1.records.lookup entry.key with
  | some r =>
    if r.rpcId = entry.rpcId then
      ({ wd.1 with
        rpcIds := wd.1.rpcIds.erase r.rpcId, records := wd.1.records.erase entry.key }, wd.2 + 1)
    else wd
  | none => wd

def garbageCollect (w : Witness) (masterId : String) (entries : List GCEntry) : Witness × Nat :=
  if w.Foreign masterId then (w, 0) else entries.foldl collectEntry (w, 0)

/-- `Witness::get_recovery_data`: the records, in an order the hash table does not fix. -/
def getRecoveryData (w : Witness) (masterId : String) : Witness × Multiset WitnessRecord :=
  if w.Foreign masterId then (w, 0) else ({ w with accepting := false }, values w.records)

def stopAccepting (w : Witness) : Witness := { w with accepting := false }

/-- `Witness::reset`: empty, and bound to the new master. -/
def reset (_ : Witness) (newMasterId : String) : Witness := { masterId := newMasterId }

theorem record_cases {w w' : Witness} {masterId : String} {rpcId clientId now : UInt64}
    {key requestData : Bytes} {res : RecordResult}
    (h : w.record masterId rpcId key requestData clientId now = (w', res)) :
    (res ≠ .accepted ∧ w' = w) ∨
    (res = .accepted ∧ ¬w.Foreign masterId ∧ rpcId ∈ w.rpcIds ∧ w' = w) ∨
    (res = .accepted ∧ ¬w.Foreign masterId ∧ w.size < kMaxRecords ∧ rpcId ∉ w.rpcIds ∧
      key ∉ w.records ∧ w' = w.store masterId ⟨rpcId, key, requestData, clientId, now⟩) := by
  unfold record at h
  split at h
  · cases h
    exact .inl ⟨by simp, rfl⟩
  · split at h
    · cases h
      exact .inl ⟨by simp, rfl⟩
    · rename_i hbound
      split at h
      · cases h
        exact .inl ⟨by simp, rfl⟩
      · rename_i hspace
        split at h
        · rename_i hdup
          cases h
          exact .inr (.inl ⟨rfl, hbound, hdup, rfl⟩)
        · rename_i hnew
          split at h
          · cases h
            exact .inl ⟨by simp, rfl⟩
          · rename_i hkey
            cases h
            exact .inr (.inr ⟨rfl, hbound, Nat.not_le.mp hspace, hnew, hkey, rfl⟩)

section Store

variable {w : Witness} {masterId : String} {r x : WitnessRecord}

theorem mem_store (h : r.key ∉ w.records) :
    x ∈ values (w.store masterId r).records ↔ x = r ∨ x ∈ values w.records :=
  mem_values_insert h

@[simp] theorem store_masterId :
    (w.store masterId r).masterId = if w.masterId = "" then masterId else w.masterId := rfl

end Store

theorem mem_record {w : Witness} {masterId : String} {rpcId clientId now : UInt64}
    {key requestData : Bytes} {r : WitnessRecord} (h : r ∈ values w.records) :
    r ∈ values (w.record masterId rpcId key requestData clientId now).1.records := by
  obtain ⟨w', res, hr⟩ :
      ∃ w' res, w.record masterId rpcId key requestData clientId now = (w', res) := ⟨_, _, rfl⟩
  rw [hr]
  rcases record_cases hr with ⟨_, rfl⟩ | ⟨_, _, _, rfl⟩ | ⟨_, _, _, _, hkey, rfl⟩
  · exact h
  · exact h
  · exact (mem_store hkey).mpr (.inr h)

theorem getRecoveryData_same (w : Witness) (masterId : String) :
    (w.getRecoveryData masterId).1.records = w.records ∧
    (w.getRecoveryData masterId).1.masterId = w.masterId ∧
    (w.getRecoveryData masterId).1.rpcIds = w.rpcIds := by
  unfold getRecoveryData
  split
  · exact ⟨rfl, rfl, rfl⟩
  · exact ⟨rfl, rfl, rfl⟩

theorem getRecoveryData_records (w : Witness) (masterId : String) :
    (w.getRecoveryData masterId).1.records = w.records := (getRecoveryData_same w masterId).1

/-! ## The indexes of the witness -/

structure WitnessInv (w : Witness) : Prop where
  key : ∀ k r, w.records.lookup k = some r → r.key = k
  ids : w.rpcIds.val = (values w.records).map WitnessRecord.rpcId
  size_le : w.size ≤ kMaxRecords

theorem WitnessInv.mem_ids {w : Witness} (h : WitnessInv w) {i : UInt64} :
    i ∈ w.rpcIds ↔ ∃ r ∈ values w.records, r.rpcId = i := by
  rw [← Finset.mem_val, h.ids, Multiset.mem_map]

theorem WitnessInv.mem_iff {w : Witness} (h : WitnessInv w) {r : WitnessRecord} :
    r ∈ values w.records ↔ w.records.lookup r.key = some r := by
  rw [mem_values]
  constructor
  · rintro ⟨k, hl⟩
    rw [h.key k r hl]
    exact hl
  · intro hl
    exact ⟨r.key, hl⟩

theorem WitnessInv.unique {w : Witness} (h : WitnessInv w) {r r' : WitnessRecord}
    (hr : r ∈ values w.records) (hr' : r' ∈ values w.records) (heq : r.rpcId = r'.rpcId) :
    r = r' := by
  have hnodup : ((values w.records).map WitnessRecord.rpcId).Nodup := h.ids ▸ w.rpcIds.nodup
  exact Multiset.inj_on_of_nodup_map hnodup r hr r' hr' heq

theorem WitnessInv.lookup_iff {w : Witness} (h : WitnessInv w) {k : Bytes} {r : WitnessRecord} :
    w.records.lookup k = some r ↔ r.key = k ∧ r ∈ values w.records := by
  rw [h.mem_iff]
  constructor
  · intro hl
    obtain rfl := h.key k r hl
    exact ⟨rfl, hl⟩
  · rintro ⟨rfl, hl⟩
    exact hl

theorem WitnessInv.nodup {w : Witness} (h : WitnessInv w) : (values w.records).Nodup :=
  Multiset.Nodup.of_map WitnessRecord.rpcId (h.ids ▸ w.rpcIds.nodup)

theorem init_witnessInv (masterId : String) : WitnessInv { masterId := masterId } where
  key := fun k r h => by cases h
  ids := rfl
  size_le := Nat.zero_le _

theorem store_witnessInv {w : Witness} {masterId : String} {r : WitnessRecord}
    (h : WitnessInv w) (hspace : w.size < kMaxRecords) (hid : r.rpcId ∉ w.rpcIds)
    (hkey : r.key ∉ w.records) : WitnessInv (w.store masterId r) where
  key := by
    intro k x hl
    rw [store, lookup_insert_if] at hl
    split at hl
    · rename_i hk
      cases hl
      exact hk.symm
    · exact h.key k x hl
  ids := by
    rw [store, values_insert hkey, Multiset.map_cons, ← h.ids]
    exact Finset.insert_val_of_notMem hid
  size_le := by
    rw [size, store, values_insert hkey, Multiset.card_cons]
    exact hspace

theorem record_witnessInv {w w' : Witness} {masterId : String} {rpcId clientId now : UInt64}
    {key requestData : Bytes} {res : RecordResult} (h : WitnessInv w)
    (hr : w.record masterId rpcId key requestData clientId now = (w', res)) : WitnessInv w' := by
  cases record_cases hr with
  | inl hrej =>
    rw [hrej.2]
    exact h
  | inr hacc =>
    cases hacc with
    | inl hdup =>
      rw [hdup.2.2.2]
      exact h
    | inr hnew =>
      obtain ⟨_, _, hspace, hid, hkey, rfl⟩ := hnew
      exact store_witnessInv h hspace hid hkey

theorem collectEntry_witnessInv {wd : Witness × Nat} (h : WitnessInv wd.1) (entry : GCEntry) :
    WitnessInv (collectEntry wd entry).1 := by
  unfold collectEntry
  split
  · rename_i r hl
    split
    · constructor
      · intro k x hx
        simp only [lookup_erase_if] at hx
        split at hx
        · cases hx
        · exact h.key k x hx
      · rw [Finset.erase_val, h.ids, values_erase hl, Multiset.map_cons, Multiset.erase_cons_head]
      · have hle := h.size_le
        rw [size, values_erase hl, Multiset.card_cons] at hle
        exact Nat.le_of_succ_le hle
    · exact h
  · exact h

theorem collectEntry_mem {wd : Witness × Nat} {entry : GCEntry} (h : WitnessInv wd.1)
    {r : WitnessRecord} : r ∈ values (collectEntry wd entry).1.records ↔
      r ∈ values wd.1.records ∧ ¬(entry.key = r.key ∧ entry.rpcId = r.rpcId) := by
  rw [(collectEntry_witnessInv h entry).mem_iff, h.mem_iff]
  unfold collectEntry
  split
  · rename_i x hl
    split
    · rename_i hid
      rw [lookup_erase_if]
      split
      · rename_i hk
        refine ⟨nofun, ?_⟩
        rintro ⟨hr, hne⟩
        rw [hk, hl] at hr
        cases hr
        exact absurd ⟨hk.symm, hid.symm⟩ hne
      · rename_i hk
        exact ⟨fun hr => ⟨hr, fun hboth => hk hboth.1.symm⟩, And.left⟩
    · rename_i hid
      refine ⟨fun hr => ⟨hr, ?_⟩, And.left⟩
      rintro ⟨hk, hid'⟩
      rw [← hk, hl] at hr
      cases hr
      exact hid hid'.symm
  · rename_i hl
    refine ⟨fun hr => ⟨hr, ?_⟩, And.left⟩
    rintro ⟨hk, _⟩
    rw [← hk, hl] at hr
    cases hr

theorem foldl_collectEntry (entries : List GCEntry) : ∀ (wd : Witness × Nat), WitnessInv wd.1 →
    WitnessInv (entries.foldl collectEntry wd).1 ∧ ∀ {r : WitnessRecord},
      (r ∈ values (entries.foldl collectEntry wd).1.records ↔ r ∈ values wd.1.records ∧
        ∀ entry ∈ entries, ¬(entry.key = r.key ∧ entry.rpcId = r.rpcId)) := by
  induction entries with
  | nil => intro wd h; exact ⟨h, by simp⟩
  | cons entry entries ih =>
    intro wd h
    obtain ⟨hinv, hmem⟩ := ih _ (collectEntry_witnessInv h entry)
    refine ⟨hinv, ?_⟩
    intro r
    rw [List.foldl_cons, hmem, collectEntry_mem h, List.forall_mem_cons, and_assoc]

theorem garbageCollect_mem {w : Witness} (h : WitnessInv w) {masterId : String}
    (hown : ¬w.Foreign masterId) {entries : List GCEntry} {r : WitnessRecord} :
    r ∈ values (w.garbageCollect masterId entries).1.records ↔ r ∈ values w.records ∧
      ∀ entry ∈ entries, ¬(entry.key = r.key ∧ entry.rpcId = r.rpcId) := by
  rw [garbageCollect, if_neg hown]
  exact (foldl_collectEntry entries (w, 0) h).2

theorem garbageCollect_subset {w : Witness} (h : WitnessInv w) {masterId : String}
    {entries : List GCEntry} {r : WitnessRecord}
    (hr : r ∈ values (w.garbageCollect masterId entries).1.records) : r ∈ values w.records := by
  by_cases hforeign : w.Foreign masterId
  · rw [garbageCollect, if_pos hforeign] at hr
    exact hr
  · exact ((garbageCollect_mem h hforeign).mp hr).1

theorem garbageCollect_witnessInv {w : Witness} (h : WitnessInv w) (masterId : String)
    (entries : List GCEntry) : WitnessInv (w.garbageCollect masterId entries).1 := by
  unfold garbageCollect
  split
  · exact h
  · exact (foldl_collectEntry entries (w, 0) h).1

theorem foldl_collectEntry_same (entries : List GCEntry) : ∀ (wd : Witness × Nat),
    (entries.foldl collectEntry wd).1.masterId = wd.1.masterId ∧
    (entries.foldl collectEntry wd).1.accepting = wd.1.accepting := by
  induction entries with
  | nil => intro wd; exact ⟨rfl, rfl⟩
  | cons entry entries ih =>
    intro wd
    have hentry : (collectEntry wd entry).1.masterId = wd.1.masterId ∧
        (collectEntry wd entry).1.accepting = wd.1.accepting := by
      unfold collectEntry
      split
      · split
        · exact ⟨rfl, rfl⟩
        · exact ⟨rfl, rfl⟩
      · exact ⟨rfl, rfl⟩
    obtain ⟨hid, hacc⟩ := ih (collectEntry wd entry)
    exact ⟨hid.trans hentry.1, hacc.trans hentry.2⟩

section Collect

variable (w : Witness) (masterId : String) (entries : List GCEntry)

theorem garbageCollect_same : (w.garbageCollect masterId entries).1.masterId = w.masterId ∧
    (w.garbageCollect masterId entries).1.accepting = w.accepting := by
  unfold garbageCollect
  split
  · exact ⟨rfl, rfl⟩
  · exact foldl_collectEntry_same entries (w, 0)

theorem garbageCollect_masterId : (w.garbageCollect masterId entries).1.masterId = w.masterId :=
  (garbageCollect_same w masterId entries).1

theorem garbageCollect_accepting :
    (w.garbageCollect masterId entries).1.accepting = w.accepting :=
  (garbageCollect_same w masterId entries).2

end Collect

theorem stopAccepting_witnessInv {w : Witness} (h : WitnessInv w) : WitnessInv w.stopAccepting :=
  ⟨h.key, h.ids, h.size_le⟩

theorem getRecoveryData_witnessInv {w : Witness} (h : WitnessInv w) (masterId : String) :
    WitnessInv (w.getRecoveryData masterId).1 := by
  unfold getRecoveryData
  split
  · exact h
  · exact stopAccepting_witnessInv h

inductive WitnessCall where
  | record (masterId : String) (rpcId : UInt64) (key requestData : Bytes) (clientId now : UInt64)
  | garbageCollect (masterId : String) (entries : List GCEntry)
  | getRecoveryData (masterId : String)
  | stopAccepting
  | reset (newMasterId : String)

/-- A call never fails; a refused one leaves the witness as it is. -/
def call (w : Witness) : WitnessCall → Option Witness
  | .record masterId rpcId key requestData clientId now =>
    some (w.record masterId rpcId key requestData clientId now).1
  | .garbageCollect masterId entries => some (w.garbageCollect masterId entries).1
  | .getRecoveryData masterId => some (w.getRecoveryData masterId).1
  | .stopAccepting => some w.stopAccepting
  | .reset newMasterId => some (w.reset newMasterId)

theorem call_witnessInv {w w' : Witness} {c : WitnessCall} (h : WitnessInv w)
    (hc : w.call c = some w') : WitnessInv w' := by
  cases c with
  | record => cases hc; exact record_witnessInv h rfl
  | garbageCollect => cases hc; exact garbageCollect_witnessInv h _ _
  | getRecoveryData => cases hc; exact getRecoveryData_witnessInv h _
  | stopAccepting => cases hc; exact stopAccepting_witnessInv h
  | reset newMasterId => cases hc; exact init_witnessInv newMasterId

theorem reaches_witnessInv {w : Witness} (h : Reaches call {} w) : WitnessInv w :=
  h.inv (fun _ _ _ hw hc => call_witnessInv hw hc) (init_witnessInv "")

/-- **The indexes of the witness agree**: a record lies under its own key, no two records have one
id, and `rpcIds` is the set of their ids; and there are at most `kMaxRecords`. -/
theorem indexes_agree {w : Witness} (h : Reaches call {} w) :
    (∀ k r, w.records.lookup k = some r → r.key = k) ∧
    (∀ k k' r r', w.records.lookup k = some r → w.records.lookup k' = some r' →
      r.rpcId = r'.rpcId → k = k') ∧
    (∀ i, i ∈ w.rpcIds ↔ ∃ k r, w.records.lookup k = some r ∧ r.rpcId = i) ∧
    w.size ≤ kMaxRecords := by
  have hinv := reaches_witnessInv h
  refine ⟨hinv.key, ?_, ?_, hinv.size_le⟩
  · intro k k' r r' hl hl' heq
    have hsame : r = r' := hinv.unique (mem_values.mpr ⟨k, hl⟩) (mem_values.mpr ⟨k', hl'⟩) heq
    rw [← hinv.key k r hl, ← hinv.key k' r' hl', hsame]
  · intro i
    rw [hinv.mem_ids]
    constructor
    · rintro ⟨r, hr, hi⟩
      obtain ⟨k, hl⟩ := mem_values.mp hr
      exact ⟨k, r, hl, hi⟩
    · rintro ⟨k, r, hl, hi⟩
      exact ⟨r, mem_values.mpr ⟨k, hl⟩, hi⟩

/-- After a request that comes twice, one on a taken key, and a collection that names a record
twice and the other with a wrong id. -/
theorem indexes_agree_collected : ∃ w, Reaches call {} w ∧ w.rpcIds = {2} ∧
    ∀ i, i ∈ w.rpcIds ↔ ∃ k r, w.records.lookup k = some r ∧ r.rpcId = i := by
  have hrun : ((runs call [.record "0" 1 [97] [] 1 0, .record "0" 1 [97] [] 1 0,
      .record "0" 2 [98] [] 1 0, .record "0" 3 [98] [] 1 0,
      .garbageCollect "0" [⟨[97], 1⟩, ⟨[98], 3⟩, ⟨[97], 1⟩]] {}).any fun w =>
        decide (w.rpcIds = {2})) = true := by decide +kernel
  obtain ⟨w, hw, hids⟩ := exists_of_runs hrun
  exact ⟨w, hw, of_decide_eq_true hids, (indexes_agree hw).2.2.1⟩

end Witness
end TinyKv
