import TinyKv.Curp.Witness

/-!
# Curp.Repeat

Calls of a witness that are made again.

* `record_again_iff`: a request that the witness holds is accepted again exactly while the witness
  is not full, since the space is checked before the duplicate. `full_refuses_again`: a witness with
  `kMaxRecords` records refuses every one of them.
* `garbageCollect_exact`: a collection drops the records it lists with their key and id, and only
  the set of all entries matters, not their order nor the calls they come in.
-/

namespace TinyKv

open Lib

namespace Witness

/-! ## A request recorded again -/

theorem record_again {w : Witness} (h : WitnessInv w) (hacc : w.accepting = true)
    {r : WitnessRecord} (hr : r ∈ values w.records) (now : UInt64) :
    w.record w.masterId r.rpcId r.key r.requestData r.clientId now =
      if w.size ≥ kMaxRecords then (w, .rejectedNoSpace) else (w, .accepted) := by
  have hopen : ¬¬w.accepting = true := by simp [hacc]
  have hown : ¬w.Foreign w.masterId := fun hf => hf.2 rfl
  have hknown : r.rpcId ∈ w.rpcIds := h.mem_ids.mpr ⟨r, hr, rfl⟩
  rw [record, if_neg hopen, if_neg hown, if_pos hknown]

theorem record_again_iff {w : Witness} (h : Reaches call {} w) (hacc : w.accepting = true)
    {masterId : String} (hbound : w.masterId = masterId) {r : WitnessRecord}
    (hr : r ∈ values w.records) (now : UInt64) :
    w.record masterId r.rpcId r.key r.requestData r.clientId now = (w, .accepted) ↔
      w.size < kMaxRecords := by
  subst hbound
  rw [record_again (reaches_witnessInv h) hacc hr]
  split
  · rename_i hfull
    constructor
    · intro heq
      cases heq
    · intro hspace
      exact absurd hfull (Nat.not_le.mpr hspace)
  · rename_i hspace
    exact ⟨fun _ => Nat.not_le.mp hspace, fun _ => rfl⟩

section Fill

/-- The `n`-th of the requests that fill a witness. -/
def fillRecord (n : Nat) : WitnessRecord := ⟨UInt64.ofNat n, leBytes 8 n, [], 1, 0⟩

/-- A new witness, after `n` requests of distinct ids on distinct keys. -/
def filled : Nat → Witness
  | 0 => {}
  | n + 1 =>
    let r := fillRecord n
    ((filled n).record "m" r.rpcId r.key r.requestData r.clientId r.timestamp).1

theorem fillRecord_rpcId_inj {i j : Nat} (hi : i < 2 ^ 64) (hj : j < 2 ^ 64)
    (h : (fillRecord i).rpcId = (fillRecord j).rpcId) : i = j := by
  have hnat : (UInt64.ofNat i).toNat = (UInt64.ofNat j).toNat := congrArg UInt64.toNat h
  rwa [UInt64.toNat_ofNat', UInt64.toNat_ofNat', Nat.mod_eq_of_lt hi, Nat.mod_eq_of_lt hj] at hnat

theorem fillRecord_key_inj {i j : Nat} (hi : i < 2 ^ 64) (hj : j < 2 ^ 64)
    (h : (fillRecord i).key = (fillRecord j).key) : i = j := by
  have hnat : ofLe (leBytes 8 i) = ofLe (leBytes 8 j) := congrArg ofLe h
  rwa [ofLe_leBytes_of_lt (by omega), ofLe_leBytes_of_lt (by omega)] at hnat

theorem filled_reaches (n : Nat) : Reaches call {} (filled n) := by
  induction n with
  | zero => exact .refl
  | succ n ih =>
    let r := fillRecord n
    have hcall : (filled n).call
        (.record "m" r.rpcId r.key r.requestData r.clientId r.timestamp) = some (filled (n + 1)) :=
      rfl
    exact ih.trans (Reaches.single hcall)

theorem filled_succ {n : Nat} (hn : n < kMaxRecords) (hacc : (filled n).accepting = true)
    (hbound : (filled n).masterId = if n = 0 then "" else "m")
    (hvalues : values (filled n).records = (Multiset.range n).map fillRecord) :
    (fillRecord n).key ∉ (filled n).records ∧
      filled (n + 1) = (filled n).store "m" (fillRecord n) := by
  have hown : ¬(filled n).Foreign "m" := by
    rintro ⟨hne, hne'⟩
    rw [hbound] at hne hne'
    split at hne
    · exact hne rfl
    · rename_i h0
      exact hne' (if_neg h0).symm
  have hinv : WitnessInv (filled n) := reaches_witnessInv (filled_reaches n)
  have hmax : kMaxRecords ≤ 2 ^ 64 := by decide
  have hopen : ¬¬(filled n).accepting = true := by simp [hacc]
  have hspace : ¬(filled n).size ≥ kMaxRecords := by
    rw [size, hvalues, Multiset.card_map, Multiset.card_range]
    omega
  have hmem : ∀ {r : WitnessRecord}, r ∈ values (filled n).records →
      ∃ i, i < n ∧ fillRecord i = r := by
    intro r hr
    rw [hvalues, Multiset.mem_map] at hr
    obtain ⟨i, hi, rfl⟩ := hr
    exact ⟨i, Multiset.mem_range.mp hi, rfl⟩
  have hid : (fillRecord n).rpcId ∉ (filled n).rpcIds := by
    intro hmem'
    obtain ⟨r, hr, heq⟩ := hinv.mem_ids.mp hmem'
    obtain ⟨i, hi, rfl⟩ := hmem hr
    exact absurd (fillRecord_rpcId_inj (by omega) (by omega) heq) (Nat.ne_of_lt hi)
  have hkey : (fillRecord n).key ∉ (filled n).records := by
    intro hmem'
    obtain ⟨r, hl⟩ := Finmap.mem_iff.mp hmem'
    obtain ⟨i, hi, rfl⟩ := hmem (mem_values.mpr ⟨_, hl⟩)
    have heq : (fillRecord i).key = (fillRecord n).key := hinv.key _ _ hl
    exact absurd (fillRecord_key_inj (by omega) (by omega) heq) (Nat.ne_of_lt hi)
  refine ⟨hkey, ?_⟩
  show ((filled n).record "m" _ _ _ _ _).1 = _
  rw [record, if_neg hopen, if_neg hown, if_neg hspace, if_neg hid, if_neg hkey]

theorem filled_spec (n : Nat) (hn : n ≤ kMaxRecords) :
    (filled n).accepting = true ∧ ((filled n).masterId = if n = 0 then "" else "m") ∧
    values (filled n).records = (Multiset.range n).map fillRecord := by
  induction n with
  | zero => exact ⟨rfl, rfl, rfl⟩
  | succ n ih =>
    obtain ⟨hacc, hbound, hvalues⟩ := ih (Nat.le_of_succ_le hn)
    obtain ⟨hkey, hstep⟩ := filled_succ hn hacc hbound hvalues
    rw [hstep]
    refine ⟨hacc, ?_, ?_⟩
    · rw [store_masterId, hbound, if_neg (Nat.succ_ne_zero n)]
      by_cases h0 : n = 0
      · rw [if_pos h0, if_pos rfl]
      · rw [if_neg h0]
        exact if_neg (by decide)
    · show values ((filled n).records.insert _ _) = _
      rw [values_insert hkey, hvalues, Multiset.range_succ, Multiset.map_cons]

/-- With space left, the request is accepted again. -/
theorem record_again_one : (filled 1).record "m" (fillRecord 0).rpcId (fillRecord 0).key
    (fillRecord 0).requestData (fillRecord 0).clientId 1 = (filled 1, .accepted) :=
  (record_again_iff (filled_reaches 1) rfl rfl (by decide) 1).mpr (by decide)

/-- The full witness refuses the requests it holds. -/
theorem full_refuses_again : Reaches call {} (filled kMaxRecords) ∧
    (filled kMaxRecords).accepting = true ∧ (filled kMaxRecords).masterId = "m" ∧
    fillRecord 0 ∈ values (filled kMaxRecords).records ∧
    (filled kMaxRecords).record "m" (fillRecord 0).rpcId (fillRecord 0).key
      (fillRecord 0).requestData (fillRecord 0).clientId 1 =
        (filled kMaxRecords, .rejectedNoSpace) := by
  have hpos : kMaxRecords ≠ 0 := by decide
  generalize hn : kMaxRecords = n at hpos
  obtain ⟨hacc, hbound, hvalues⟩ := filled_spec n (Nat.le_of_eq hn.symm)
  rw [if_neg hpos] at hbound
  have hmem : fillRecord 0 ∈ values (filled n).records := by
    rw [hvalues]
    exact Multiset.mem_map_of_mem fillRecord (Multiset.mem_range.mpr (Nat.pos_of_ne_zero hpos))
  have hfull : (filled n).size ≥ kMaxRecords := by
    rw [size, hvalues, Multiset.card_map, Multiset.card_range, hn]
  have hagain := record_again (reaches_witnessInv (filled_reaches n)) hacc hmem 1
  rw [hbound, if_pos hfull] at hagain
  exact ⟨filled_reaches n, hacc, hbound, hmem, hagain⟩

end Fill

/-! ## Collections in any order and in several calls -/

/-- The request of `r` is listed, with its key and its id. -/
def Listed (entries : List GCEntry) (r : WitnessRecord) : Prop :=
  ∃ entry ∈ entries, entry.key = r.key ∧ entry.rpcId = r.rpcId

instance (entries : List GCEntry) (r : WitnessRecord) : Decidable (Listed entries r) :=
  inferInstanceAs (Decidable (∃ entry ∈ entries, _))

/-- The collections of one master, one after another. -/
def collectAll (w : Witness) (masterId : String) (calls : List (List GCEntry)) : Witness :=
  calls.foldl (fun w entries => (w.garbageCollect masterId entries).1) w

theorem eq_of_records {w₁ w₂ : Witness} (h₁ : WitnessInv w₁) (h₂ : WitnessInv w₂)
    (hid : w₁.masterId = w₂.masterId) (hacc : w₁.accepting = w₂.accepting)
    (hmem : ∀ r, r ∈ values w₁.records ↔ r ∈ values w₂.records) : w₁ = w₂ := by
  have hrecords : w₁.records = w₂.records := by
    apply Finmap.ext_lookup
    intro k
    apply Option.ext
    intro r
    rw [h₁.lookup_iff, h₂.lookup_iff, hmem]
  have hids : w₁.rpcIds = w₂.rpcIds := by
    apply Finset.ext
    intro i
    rw [h₁.mem_ids, h₂.mem_ids, hrecords]
  cases w₁
  cases w₂
  cases hid
  cases hacc
  cases hrecords
  cases hids
  rfl

theorem mem_collect {w : Witness} (h : WitnessInv w) {masterId : String}
    (hown : ¬w.Foreign masterId) {entries : List GCEntry} {r : WitnessRecord} :
    r ∈ values (w.garbageCollect masterId entries).1.records ↔
      r ∈ values w.records ∧ ¬Listed entries r := by
  rw [garbageCollect_mem h hown, Listed]
  simp only [not_exists, not_and]

theorem collectAll_spec (masterId : String) (calls : List (List GCEntry)) :
    ∀ (w : Witness), WitnessInv w → ¬w.Foreign masterId →
      WitnessInv (w.collectAll masterId calls) ∧
      (w.collectAll masterId calls).masterId = w.masterId ∧
      (w.collectAll masterId calls).accepting = w.accepting ∧
      ∀ r, r ∈ values (w.collectAll masterId calls).records ↔
        r ∈ values w.records ∧ ¬Listed calls.flatten r := by
  induction calls with
  | nil =>
    intro w h _
    exact ⟨h, rfl, rfl, fun r => by simp [collectAll, Listed]⟩
  | cons entries calls ih =>
    intro w h hown
    have hfirst : WitnessInv (w.garbageCollect masterId entries).1 :=
      garbageCollect_witnessInv h masterId entries
    have hown' : ¬(w.garbageCollect masterId entries).1.Foreign masterId := by
      rw [Foreign, garbageCollect_masterId]
      exact hown
    obtain ⟨hinv, hid, hacc, hmem⟩ := ih _ hfirst hown'
    refine ⟨hinv, hid.trans (garbageCollect_masterId ..), hacc.trans (garbageCollect_accepting ..),
      ?_⟩
    intro r
    have happend : Listed (entries :: calls).flatten r ↔
        Listed entries r ∨ Listed calls.flatten r := by
      simp only [Listed, List.flatten_cons, List.mem_append, or_and_right, exists_or]
    rw [happend, not_or, ← and_assoc, ← mem_collect h hown]
    exact hmem r

theorem foldl_collectEntry_count (entries : List GCEntry) : ∀ (wd : Witness × Nat),
    (entries.foldl collectEntry wd).2 + (entries.foldl collectEntry wd).1.size =
      wd.2 + wd.1.size := by
  induction entries with
  | nil => intro wd; rfl
  | cons entry entries ih =>
    intro wd
    have hentry : (collectEntry wd entry).2 + (collectEntry wd entry).1.size =
        wd.2 + wd.1.size := by
      unfold collectEntry
      split
      · rename_i r hl
        split
        · have hcard : wd.1.size = (values (wd.1.records.erase entry.key)).card + 1 := by
            rw [size, values_erase hl, Multiset.card_cons]
          simp only [size] at hcard ⊢
          omega
        · rfl
      · rfl
    rw [List.foldl_cons, ih, hentry]

theorem garbageCollect_count {w : Witness} (h : WitnessInv w) {masterId : String}
    (hown : ¬w.Foreign masterId) (entries : List GCEntry) :
    (w.garbageCollect masterId entries).2 = ((values w.records).filter (Listed entries)).card := by
  have hleft : values (w.garbageCollect masterId entries).1.records =
      (values w.records).filter fun r => ¬Listed entries r := by
    apply (Multiset.Nodup.ext (garbageCollect_witnessInv h masterId entries).nodup
      (h.nodup.filter _)).mpr
    intro r
    rw [mem_collect h hown, Multiset.mem_filter]
  have hcount := foldl_collectEntry_count entries (w, 0)
  have hsplit : w.size = ((values w.records).filter (Listed entries)).card +
      ((values w.records).filter fun r => ¬Listed entries r).card := by
    rw [← Multiset.card_add, Multiset.filter_add_not, size]
  rw [← hleft] at hsplit
  rw [garbageCollect, if_neg hown] at hsplit ⊢
  simp only [size] at hcount hsplit
  omega

theorem lookup_collect {w : Witness} (h : WitnessInv w) {masterId : String}
    (hown : ¬w.Foreign masterId) {entries : List GCEntry} {k : Bytes} {r : WitnessRecord} :
    (w.garbageCollect masterId entries).1.records.lookup k = some r ↔
      w.records.lookup k = some r ∧ ¬∃ entry ∈ entries, entry.key = k ∧ entry.rpcId = r.rpcId := by
  rw [(garbageCollect_witnessInv h masterId entries).lookup_iff, h.lookup_iff,
    mem_collect h hown]
  constructor
  · rintro ⟨rfl, hr, hnot⟩
    exact ⟨⟨rfl, hr⟩, hnot⟩
  · rintro ⟨⟨rfl, hr⟩, hnot⟩
    exact ⟨rfl, hr, hnot⟩

theorem mem_ids_collect {w : Witness} (h : WitnessInv w) {masterId : String}
    (hown : ¬w.Foreign masterId) {entries : List GCEntry} {i : UInt64} :
    i ∈ (w.garbageCollect masterId entries).1.rpcIds ↔
      i ∈ w.rpcIds ∧ ¬∃ r ∈ values w.records, r.rpcId = i ∧ Listed entries r := by
  rw [(garbageCollect_witnessInv h masterId entries).mem_ids, h.mem_ids]
  constructor
  · rintro ⟨r, hr, rfl⟩
    obtain ⟨hold, hnot⟩ := (mem_collect h hown).mp hr
    refine ⟨⟨r, hold, rfl⟩, ?_⟩
    rintro ⟨r', hr', heq, hlisted⟩
    obtain rfl := h.unique hr' hold heq
    exact hnot hlisted
  · rintro ⟨⟨r, hr, rfl⟩, hnot⟩
    refine ⟨r, (mem_collect h hown).mpr ⟨hr, ?_⟩, rfl⟩
    intro hlisted
    exact hnot ⟨r, hr, rfl, hlisted⟩

theorem collectAll_eq {w : Witness} (h : WitnessInv w) {masterId : String}
    (hown : ¬w.Foreign masterId) {entries : List GCEntry} {calls : List (List GCEntry)}
    (hperm : calls.flatten.Perm entries) :
    w.collectAll masterId calls = (w.garbageCollect masterId entries).1 := by
  obtain ⟨hall, hid, hacc, hmem⟩ := collectAll_spec masterId calls w h hown
  apply eq_of_records hall (garbageCollect_witnessInv h masterId entries)
    (hid.trans (garbageCollect_masterId ..).symm) (hacc.trans (garbageCollect_accepting ..).symm)
  intro r
  have hlisted : Listed calls.flatten r ↔ Listed entries r := by
    simp only [Listed, hperm.mem_iff]
  rw [hmem, hlisted, mem_collect h hown]

/-- A collection drops what it lists, however its entries are ordered and divided into calls. -/
theorem garbageCollect_exact {w : Witness} (h : Reaches call {} w) (masterId : String)
    (entries : List GCEntry) :
    (¬w.Foreign masterId → ∃ w', w.garbageCollect masterId entries =
        (w', ((values w.records).filter (Listed entries)).card) ∧
      w'.masterId = w.masterId ∧ w'.accepting = w.accepting ∧
      (∀ k r, w'.records.lookup k = some r ↔
        w.records.lookup k = some r ∧ ¬∃ entry ∈ entries, entry.key = k ∧ entry.rpcId = r.rpcId) ∧
      (∀ i, i ∈ w'.rpcIds ↔
        i ∈ w.rpcIds ∧ ¬∃ r ∈ values w.records, r.rpcId = i ∧ Listed entries r) ∧
      ∀ calls : List (List GCEntry), calls.flatten.Perm entries →
        w.collectAll masterId calls = w') ∧
    (w.Foreign masterId → w.garbageCollect masterId entries = (w, 0)) := by
  have hinv : WitnessInv w := reaches_witnessInv h
  refine ⟨?_, fun hforeign => by rw [garbageCollect, if_pos hforeign]⟩
  intro hown
  refine ⟨_, Prod.ext rfl (garbageCollect_count hinv hown entries), garbageCollect_masterId ..,
    garbageCollect_accepting .., ?_, ?_, ?_⟩
  · intro k r
    exact lookup_collect hinv hown
  · intro i
    exact mem_ids_collect hinv hown
  · intro calls hperm
    exact collectAll_eq hinv hown hperm

/-- An entry that is listed twice, and one with the id of another request on its key. -/
theorem garbageCollect_exact_two : ∃ w', (filled 2).garbageCollect "m"
    [⟨leBytes 8 1, 1⟩, ⟨leBytes 8 0, 7⟩, ⟨leBytes 8 1, 1⟩] = (w', 1) := by
  let entries : List GCEntry := [⟨leBytes 8 1, 1⟩, ⟨leBytes 8 0, 7⟩, ⟨leBytes 8 1, 1⟩]
  obtain ⟨w', heq, _⟩ := (garbageCollect_exact (filled_reaches 2) "m" entries).1 (by decide)
  have hcount : ((values (filled 2).records).filter (Listed entries)).card = 1 := by decide
  exact ⟨w', heq.trans (by rw [hcount])⟩

end Witness
end TinyKv
