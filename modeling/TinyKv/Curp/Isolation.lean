import TinyKv.Curp.Witness

/-!
# Curp.Isolation

Whether a witness keeps the requests of different masters apart.

The first record is to bind the witness to its master, but the empty name also stands for "not
bound": a record that leaves its master unnamed is stored and binds nothing, and the next master
finds the witness unbound and filled.

* `Owned` keeps for each request the master named by the call that stored it.
* `isolates_iff`: in a run the masters are kept apart iff no named master stores into or reads from
  a witness that is filled and unbound.
-/

namespace TinyKv

open Lib

namespace Witness

/-- A request that `record` stores, unless the witness is bound to another master. -/
structure Room (w : Witness) (rpcId : UInt64) (key : Bytes) : Prop where
  accepting : w.accepting = true
  space : w.size < kMaxRecords
  fresh : rpcId ∉ w.rpcIds
  free : key ∉ w.records

theorem record_room {w : Witness} {masterId : String} {rpcId clientId now : UInt64}
    {key requestData : Bytes} (h : w.Room rpcId key) (hown : ¬w.Foreign masterId) :
    w.record masterId rpcId key requestData clientId now =
      (w.store masterId ⟨rpcId, key, requestData, clientId, now⟩, .accepted) := by
  rw [record, if_neg (by rw [h.accepting]; simp), if_neg hown, if_neg (Nat.not_le.mpr h.space),
    if_neg h.fresh, if_neg h.free]

theorem record_accepting {w : Witness} {masterId : String} {rpcId clientId now : UInt64}
    {key requestData : Bytes}
    (h : (w.record masterId rpcId key requestData clientId now).2 = .accepted) :
    w.accepting = true := by
  by_contra hstop
  rw [record, if_pos hstop] at h
  cases h

end Witness

/-- A witness, and the master under which each request was stored. -/
structure Owned where
  witness : Witness := {}
  owner : Assoc UInt64 String := ∅

namespace Owned

def step (s : Owned) : Witness.WitnessCall → Option Owned
  | .record masterId rpcId key requestData clientId now =>
    let (w, result) := s.witness.record masterId rpcId key requestData clientId now
    some {
      witness := w
      owner := if result = .accepted ∧ rpcId ∉ s.witness.rpcIds then s.owner.insert rpcId masterId
        else s.owner }
  | c => (s.witness.call c).map fun w => { s with witness := w }

/-- After the step the records held are of one master, and the step has disclosed no record of
another one. -/
def Isolates (s : Owned) (c : Witness.WitnessCall) (s' : Owned) : Prop :=
  (∃ m, ∀ r ∈ values s'.witness.records, s'.owner.lookup r.rpcId = some m) ∧
  ∀ m, c = .getRecoveryData m →
    ∀ r ∈ (s.witness.getRecoveryData m).2, s.owner.lookup r.rpcId = some m

/-- No named master stores into or reads from a witness that holds records and is unbound. -/
def BindOk (s : Owned) (c : Witness.WitnessCall) : Prop :=
  s.witness.masterId = "" → values s.witness.records ≠ 0 →
    match c with
    | .record masterId rpcId key _ _ _ => s.witness.Room rpcId key → masterId = ""
    | .getRecoveryData masterId => masterId = ""
    | _ => True

/-- Each record is of the bound master, an unnamed one being of none. -/
structure OwnedInv (s : Owned) : Prop where
  witness : s.witness.WitnessInv
  owner : ∀ r ∈ values s.witness.records, s.owner.lookup r.rpcId = some s.witness.masterId

theorem init_ownedInv : OwnedInv {} where
  witness := Witness.init_witnessInv ""
  owner := fun r hr => by cases hr

variable {s s' : Owned}

theorem step_record {masterId : String} {rpcId clientId now : UInt64} {key requestData : Bytes}
    (h : s.step (.record masterId rpcId key requestData clientId now) = some s') :
    s' = s ∨ (s.witness.Room rpcId key ∧ ¬s.witness.Foreign masterId ∧
      s' = ⟨s.witness.store masterId ⟨rpcId, key, requestData, clientId, now⟩,
        s.owner.insert rpcId masterId⟩) := by
  obtain ⟨w, res, hr⟩ :
      ∃ w res, s.witness.record masterId rpcId key requestData clientId now = (w, res) :=
    ⟨_, _, rfl⟩
  simp only [step, hr, Option.some.injEq] at h
  rcases Witness.record_cases hr with ⟨hres, rfl⟩ | ⟨_, _, hid, rfl⟩ |
    ⟨hres, hown, hspace, hid, hkey, rfl⟩
  · rw [if_neg fun hboth => hres hboth.1] at h
    exact .inl h.symm
  · rw [if_neg fun hboth => hboth.2 hid] at h
    exact .inl h.symm
  · rw [if_pos ⟨hres, hid⟩] at h
    have hacc := Witness.record_accepting (by rw [hr]; exact hres)
    exact .inr ⟨⟨hacc, hspace, hid, hkey⟩, hown, h.symm⟩

theorem store_ownedInv {masterId : String} {r : WitnessRecord} (h : s.OwnedInv)
    (hroom : s.witness.Room r.rpcId r.key) (hown : ¬s.witness.Foreign masterId)
    (hok : s.witness.masterId = "" → values s.witness.records ≠ 0 → masterId = "") :
    OwnedInv ⟨s.witness.store masterId r, s.owner.insert r.rpcId masterId⟩ := by
  refine ⟨Witness.store_witnessInv h.witness hroom.space hroom.fresh hroom.free, ?_⟩
  intro x hx
  rw [lookup_insert_if, Witness.store_masterId]
  cases (Witness.mem_store hroom.free).mp hx with
  | inl hnew =>
    rw [hnew, if_pos rfl]
    split
    · rfl
    · rename_i hbound
      by_contra hne
      exact hown ⟨hbound, fun heq => hne (congrArg some heq)⟩
  | inr hold =>
    have hne : x.rpcId ≠ r.rpcId := by
      intro heq
      exact hroom.fresh (h.witness.mem_ids.mpr ⟨x, hold, heq⟩)
    rw [if_neg hne, h.owner x hold]
    split
    · rename_i hun
      rw [hun, hok hun]
      rintro hempty
      rw [hempty] at hold
      cases hold
    · rfl

theorem step_ownedInv {c : Witness.WitnessCall} (h : s.OwnedInv) (hok : s.BindOk c)
    (hs : s.step c = some s') : s'.OwnedInv := by
  cases c with
  | record masterId rpcId key requestData clientId now =>
    rcases step_record hs with rfl | ⟨hroom, hown, rfl⟩
    · exact h
    · exact store_ownedInv (r := ⟨rpcId, key, requestData, clientId, now⟩) h hroom hown
        fun hun hne => hok hun hne hroom
  | garbageCollect masterId entries =>
    cases hs
    refine ⟨Witness.garbageCollect_witnessInv h.witness masterId entries, ?_⟩
    intro r hr
    rw [Witness.garbageCollect_masterId]
    exact h.owner r (Witness.garbageCollect_subset h.witness hr)
  | getRecoveryData masterId =>
    cases hs
    refine ⟨Witness.getRecoveryData_witnessInv h.witness masterId, ?_⟩
    show ∀ r ∈ values (s.witness.getRecoveryData masterId).1.records,
      s.owner.lookup r.rpcId = some (s.witness.getRecoveryData masterId).1.masterId
    unfold Witness.getRecoveryData
    split
    · exact h.owner
    · exact h.owner
  | stopAccepting =>
    cases hs
    exact ⟨Witness.stopAccepting_witnessInv h.witness, h.owner⟩
  | reset newMasterId =>
    cases hs
    exact ⟨Witness.init_witnessInv newMasterId, fun r hr => by cases hr⟩

theorem bindOk_of_isolates {c : Witness.WitnessCall} (h : s.OwnedInv) (hs : s.step c = some s')
    (hiso : s.Isolates c s') : s.BindOk c := by
  intro hun hne
  obtain ⟨r₀, hr₀⟩ := Multiset.exists_mem_of_ne_zero hne
  have howner : s.owner.lookup r₀.rpcId = some "" := hun ▸ h.owner r₀ hr₀
  have hown : ∀ m, ¬s.witness.Foreign m := fun m hf => hf.1 hun
  cases c with
  | record masterId rpcId key requestData clientId now =>
    intro hroom
    have hneq : r₀.rpcId ≠ rpcId := by
      intro heq
      exact hroom.fresh (h.witness.mem_ids.mpr ⟨r₀, hr₀, heq⟩)
    simp only [step, Witness.record_room hroom (hown masterId), if_pos, hroom.fresh,
      not_false_eq_true, and_self, Option.some.injEq] at hs
    obtain ⟨⟨m, hall⟩, _⟩ := hiso
    subst hs
    have hold := hall r₀ ((Witness.mem_store hroom.free).mpr (.inr hr₀))
    have hnew := hall _ ((Witness.mem_store hroom.free).mpr (.inl rfl))
    simp only [lookup_insert_if, if_true, if_neg hneq, howner] at hold hnew
    exact Option.some.inj (hnew.trans hold.symm)
  | getRecoveryData masterId =>
    have hreturned : r₀ ∈ (s.witness.getRecoveryData masterId).2 := by
      rw [Witness.getRecoveryData, if_neg (hown masterId)]
      exact hr₀
    have hlookup := hiso.2 masterId rfl r₀ hreturned
    rw [howner] at hlookup
    exact (Option.some.inj hlookup).symm
  | garbageCollect => trivial
  | stopAccepting => trivial
  | reset => trivial

theorem isolates_of_bindOk {c : Witness.WitnessCall} (h : s.OwnedInv) (hs : s.step c = some s')
    (hok : s.BindOk c) : s.Isolates c s' := by
  refine ⟨⟨_, (step_ownedInv h hok hs).owner⟩, ?_⟩
  rintro m rfl r hr
  unfold Witness.getRecoveryData at hr
  split at hr
  · cases hr
  · rename_i hown
    rw [h.owner r hr]
    by_cases hun : s.witness.masterId = ""
    · have hm : m = "" := by
        apply hok hun
        intro hempty
        rw [hempty] at hr
        cases hr
      rw [hun, hm]
    · by_contra hne
      exact hown ⟨hun, fun heq => hne (congrArg some heq.symm)⟩

/-- **Masters are kept apart** in a run iff each of its calls is `BindOk`. -/
theorem isolates_iff (cs : List Witness.WitnessCall) :
    Along Isolates step cs {} ↔ Along (fun s c _ => s.BindOk c) step cs {} := by
  refine along_congr (I := OwnedInv) ?_ ?_ init_ownedInv
  · intro s c s' h hs
    exact ⟨bindOk_of_isolates h hs, isolates_of_bindOk h hs⟩
  · intro s c s' h hok hs
    exact step_ownedInv h hok hs

/-- A request of an unnamed master is stored, then one of master "A"; "A" gets both. -/
theorem unnamed_record_leaks : ∃ s : Owned, Reaches step {} s ∧
    (values s.witness.records).map (fun r => s.owner.lookup r.rpcId) = {some "", some "A"} ∧
    (s.witness.getRecoveryData "A").2.map (fun r => s.owner.lookup r.rpcId) =
      {some "", some "A"} ∧
    ∀ s', s.step (.getRecoveryData "A") = some s' → ¬s.Isolates (.getRecoveryData "A") s' := by
  have hrun : ((runs step [.record "" 1 [97] [] 1 0, .record "A" 2 [98] [] 1 0] {}).any fun s =>
      decide ((values s.witness.records).map (fun r => s.owner.lookup r.rpcId) =
          {some "", some "A"} ∧
        (s.witness.getRecoveryData "A").2.map (fun r => s.owner.lookup r.rpcId) =
          {some "", some "A"})) = true := by decide +kernel
  obtain ⟨s, hr, hs⟩ := exists_of_runs hrun
  obtain ⟨hheld, hdata⟩ := of_decide_eq_true hs
  refine ⟨s, hr, hheld, hdata, ?_⟩
  intro s' _ hiso
  obtain ⟨r, hmem, howner⟩ : ∃ r ∈ (s.witness.getRecoveryData "A").2,
      s.owner.lookup r.rpcId = some "" := by
    rw [← Multiset.mem_map, hdata]
    simp
  have hA := hiso.2 "A" rfl r hmem
  rw [howner] at hA
  exact absurd (Option.some.inj hA) (by decide)

end Owned
end TinyKv
