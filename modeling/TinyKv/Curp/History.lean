import TinyKv.Curp.Witness

/-!
# Curp.History

What a witness holds, in terms of the calls made to it.

* `Traced` keeps the calls so far beside the witness, the latest first, each with the master that
  was bound when it came and whether it was a `record` that got `ACCEPTED`.
* `Standing history q`: the latest accepted record of request `q` came after the last reset, and
  the bound master has not collected it since.
* `recoveryData_exact`: the recovery data are the standing requests, each once, and nothing is
  accepted any more until the next reset.
-/

namespace TinyKv

open Lib

/-- What a client asks a witness to keep. -/
structure Request where
  rpcId : UInt64
  key : Bytes
  requestData : Bytes
  clientId : UInt64
  deriving DecidableEq

def WitnessRecord.request (r : WitnessRecord) : Request :=
  ⟨r.rpcId, r.key, r.requestData, r.clientId⟩

structure WitnessEvent where
  call : Witness.WitnessCall
  boundTo : String
  accepted : Bool

namespace WitnessEvent

def recorded (e : WitnessEvent) : Option (String × Request) :=
  match e.call with
  | .record masterId rpcId key requestData clientId _ =>
    some (masterId, ⟨rpcId, key, requestData, clientId⟩)
  | _ => none

def Records (e : WitnessEvent) (q : Request) : Prop := ∃ masterId, e.recorded = some (masterId, q)

def Accepts (e : WitnessEvent) (q : Request) : Prop := e.accepted = true ∧ e.Records q

def Resets (e : WitnessEvent) : Prop := ∃ newMasterId, e.call = .reset newMasterId

/-- The bound master collects the request. -/
def Collects (e : WitnessEvent) (q : Request) : Prop :=
  ∃ entries, e.call = .garbageCollect e.boundTo entries ∧ ⟨q.key, q.rpcId⟩ ∈ entries

/-- An event that puts an end to what an earlier one has accepted. -/
def Ends (e : WitnessEvent) (q : Request) : Prop :=
  e.Resets ∨ e.Collects q ∨ ∃ q', q'.rpcId = q.rpcId ∧ e.Accepts q'

variable {e : WitnessEvent} {q q' : Request}

theorem not_accepts (h : e.accepted = false) : ¬e.Accepts q := by
  rintro ⟨hyes, _⟩
  rw [h] at hyes
  cases hyes

theorem ends_collects (h : e.accepted = false) (hreset : ¬e.Resets) :
    e.Ends q ↔ e.Collects q := by
  constructor
  · rintro (hr | hc | ⟨q', _, hq'⟩)
    · exact absurd hr hreset
    · exact hc
    · exact absurd hq' (not_accepts h)
  · exact fun hc => .inr (.inl hc)

theorem records_unique (h : e.Records q) (h' : e.Records q') : q = q' := by
  obtain ⟨masterId, hrec⟩ := h
  obtain ⟨masterId', hrec'⟩ := h'
  rw [hrec] at hrec'
  cases hrec'
  rfl

theorem accepts_record (h : e.Accepts q') : e.Accepts q ↔ q = q' := by
  constructor
  · exact fun hq => records_unique hq.2 h.2
  · rintro rfl
    exact h

theorem ends_record (h : e.Accepts q') : e.Ends q ↔ q.rpcId = q'.rpcId := by
  constructor
  · obtain ⟨_, hrec⟩ := h.2
    rintro (⟨_, hr⟩ | ⟨_, hc, _⟩ | ⟨x, hid, hx⟩)
    · rw [recorded, hr] at hrec; cases hrec
    · rw [recorded, hc] at hrec; cases hrec
    · rw [(accepts_record h).mp hx] at hid
      exact hid.symm
  · exact fun hid => .inr (.inr ⟨q', hid.symm, h⟩)

end WitnessEvent

def Standing (history : List WitnessEvent) (q : Request) : Prop :=
  ∃ later e earlier, history = later ++ e :: earlier ∧ e.Accepts q ∧ ∀ e' ∈ later, ¬e'.Ends q

/-- Clients name their master, and use an id for one request only. -/
structure WellFormedCalls (history : List WitnessEvent) : Prop where
  named : ∀ p ∈ history.filterMap WitnessEvent.recorded, p.1 ≠ ""
  consistent : ∀ p ∈ history.filterMap WitnessEvent.recorded,
    ∀ p' ∈ history.filterMap WitnessEvent.recorded, p.2.rpcId = p'.2.rpcId → p.2 = p'.2

/-! ## Standing requests -/

section Standing

variable {h : List WitnessEvent} {e : WitnessEvent} {q q' : Request}

theorem not_standing_nil : ¬Standing [] q := by
  rintro ⟨later, e, earlier, heq, _⟩
  cases later with
  | nil => cases heq
  | cons => cases heq

theorem standing_cons : Standing (e :: h) q ↔ e.Accepts q ∨ (Standing h q ∧ ¬e.Ends q) := by
  constructor
  · rintro ⟨later, e₀, earlier, heq, hacc, hlater⟩
    cases later with
    | nil =>
      cases heq
      exact .inl hacc
    | cons e' later =>
      cases heq
      refine .inr ⟨⟨later, e₀, earlier, rfl, hacc, ?_⟩, hlater _ List.mem_cons_self⟩
      exact fun x hx => hlater x (List.mem_cons_of_mem _ hx)
  · rintro (hacc | ⟨⟨later, e₀, earlier, rfl, hacc, hlater⟩, hends⟩)
    · exact ⟨[], e, h, rfl, hacc, nofun⟩
    · refine ⟨e :: later, e₀, earlier, rfl, hacc, ?_⟩
      exact List.forall_mem_cons.mpr ⟨hends, hlater⟩

theorem Standing.records (hs : Standing h q) :
    ∃ masterId, (masterId, q) ∈ h.filterMap WitnessEvent.recorded := by
  obtain ⟨later, e, earlier, rfl, ⟨_, masterId, hrec⟩, _⟩ := hs
  exact ⟨masterId, List.mem_filterMap.mpr ⟨e, by simp, hrec⟩⟩

theorem mem_recorded_tail {p : String × Request} (hp : p ∈ h.filterMap WitnessEvent.recorded) :
    p ∈ (e :: h).filterMap WitnessEvent.recorded := by
  obtain ⟨x, hx, hrec⟩ := List.mem_filterMap.mp hp
  exact List.mem_filterMap.mpr ⟨x, List.mem_cons_of_mem e hx, hrec⟩

theorem WellFormedCalls.tail (hw : WellFormedCalls (e :: h)) : WellFormedCalls h where
  named := fun p hp => hw.named p (mem_recorded_tail hp)
  consistent := fun p hp p' hp' =>
    hw.consistent p (mem_recorded_tail hp) p' (mem_recorded_tail hp')

theorem WellFormedCalls.same (hw : WellFormedCalls (e :: h)) (hs : Standing h q)
    (he : e.Records q') (hid : q.rpcId = q'.rpcId) : q = q' := by
  obtain ⟨masterId, hmem⟩ := hs.records
  obtain ⟨masterId', hrec⟩ := he
  exact hw.consistent (masterId, q) (mem_recorded_tail hmem) (masterId', q')
    (List.mem_filterMap.mpr ⟨e, List.mem_cons_self, hrec⟩) hid

theorem standing_skip (hacc : ¬e.Accepts q) (hends : ¬e.Ends q) :
    Standing (e :: h) q ↔ Standing h q := by
  rw [standing_cons, or_iff_right hacc, and_iff_left hends]

end Standing

structure Traced where
  witness : Witness := {}
  history : List WitnessEvent := []

namespace Traced

def accepts (w : Witness) : Witness.WitnessCall → Bool
  | .record masterId rpcId key requestData clientId now =>
    (w.record masterId rpcId key requestData clientId now).2 = .accepted
  | _ => false

def step (s : Traced) (c : Witness.WitnessCall) : Option Traced :=
  (s.witness.call c).map fun w => ⟨w, ⟨c, s.witness.masterId, accepts s.witness c⟩ :: s.history⟩

/-! ## What the witness holds -/

structure HistoryInv (s : Traced) : Prop where
  witness : s.witness.WitnessInv
  unbound : s.witness.masterId = "" → values s.witness.records = 0
  held : ∀ q, (∃ r ∈ values s.witness.records, r.request = q) ↔ Standing s.history q

theorem init_historyInv : HistoryInv {} where
  witness := Witness.init_witnessInv ""
  unbound := fun _ => rfl
  held := by
    intro q
    simp only [not_standing_nil, iff_false]
    rintro ⟨r, hr, _⟩
    cases hr

variable {s s' : Traced}

theorem HistoryInv.skip (h : s.HistoryInv) {e : WitnessEvent} {w : Witness}
    (hrecords : w.records = s.witness.records) (hbound : w.masterId = s.witness.masterId)
    (hids : w.rpcIds = s.witness.rpcIds) (hacc : e.accepted = false) (hreset : ¬e.Resets)
    (hcollect : ∀ q, ¬e.Collects q) : HistoryInv ⟨w, e :: s.history⟩ where
  witness := by
    refine ⟨?_, ?_, ?_⟩
    · rw [hrecords]; exact h.witness.key
    · rw [hids, hrecords]; exact h.witness.ids
    · rw [Witness.size, hrecords]; exact h.witness.size_le
  unbound := by
    rw [hbound, hrecords]
    exact h.unbound
  held := by
    intro q
    have hends : ¬e.Ends q := by
      rw [WitnessEvent.ends_collects hacc hreset]
      exact hcollect q
    rw [hrecords, standing_skip (WitnessEvent.not_accepts hacc) hends, h.held]

theorem HistoryInv.owner (h : s.HistoryInv) {r : WitnessRecord}
    (hr : r ∈ values s.witness.records) {masterId : String} (hown : ¬s.witness.Foreign masterId) :
    masterId = s.witness.masterId := by
  by_contra hne
  refine hown ⟨?_, hne⟩
  intro hun
  rw [h.unbound hun] at hr
  cases hr

theorem record_historyInv {masterId : String} {rpcId clientId now : UInt64}
    {key requestData : Bytes} {w : Witness} {res : RecordResult} (h : s.HistoryInv)
    (hr : s.witness.record masterId rpcId key requestData clientId now = (w, res))
    {e : WitnessEvent} (hcall : e.call = .record masterId rpcId key requestData clientId now)
    (hacc : e.accepted = decide (res = .accepted)) (hwf : WellFormedCalls (e :: s.history)) :
    HistoryInv ⟨w, e :: s.history⟩ := by
  let q₀ : Request := ⟨rpcId, key, requestData, clientId⟩
  have hname : e.recorded = some (masterId, q₀) := by rw [WitnessEvent.recorded, hcall]
  have hrec : e.Records q₀ := ⟨masterId, hname⟩
  rcases Witness.record_cases hr with ⟨hres, rfl⟩ | ⟨hres, _, hid, rfl⟩ |
    ⟨hres, _, _, hid, hkey, rfl⟩
  · refine h.skip rfl rfl rfl (by rw [hacc]; simp [hres]) ?_ ?_
    · rintro ⟨_, hreset⟩; rw [hcall] at hreset; cases hreset
    · rintro q ⟨_, hcollect, _⟩; rw [hcall] at hcollect; cases hcollect
  · -- the id is known: the record that is held under it is the same request
    have he : e.Accepts q₀ := ⟨by rw [hacc]; simp [hres], hrec⟩
    refine ⟨h.witness, h.unbound, ?_⟩
    obtain ⟨r₀, hr₀, hid₀⟩ := h.witness.mem_ids.mp hid
    have hsame : r₀.request = q₀ := hwf.same ((h.held _).mp ⟨r₀, hr₀, rfl⟩) hrec hid₀
    intro q
    rw [h.held, standing_cons, WitnessEvent.accepts_record he, WitnessEvent.ends_record he]
    constructor
    · intro hq
      by_cases hqid : q.rpcId = q₀.rpcId
      · exact .inl (hwf.same hq hrec hqid)
      · exact .inr ⟨hq, hqid⟩
    · rintro (rfl | ⟨hq, _⟩)
      · exact (h.held _).mp ⟨r₀, hr₀, hsame⟩
      · exact hq
  · have he : e.Accepts q₀ := ⟨by rw [hacc]; simp [hres], hrec⟩
    refine ⟨Witness.record_witnessInv h.witness hr, ?_, ?_⟩
    · -- the witness is bound now, to a named master
      have hnamed := hwf.named _ (List.mem_filterMap.mpr ⟨e, List.mem_cons_self, hname⟩)
      intro hun
      rw [Witness.store_masterId] at hun
      split at hun
      · exact absurd hun hnamed
      · rename_i hbound; exact absurd hun hbound
    · intro q
      rw [standing_cons, WitnessEvent.accepts_record he, WitnessEvent.ends_record he, ← h.held]
      constructor
      · rintro ⟨r, hmem, rfl⟩
        rcases (Witness.mem_store hkey).mp hmem with rfl | hold
        · exact .inl rfl
        · refine .inr ⟨⟨r, hold, rfl⟩, ?_⟩
          intro heq
          exact hid (h.witness.mem_ids.mpr ⟨r, hold, heq⟩)
      · rintro (rfl | ⟨⟨r, hold, rfl⟩, _⟩)
        · exact ⟨_, (Witness.mem_store hkey).mpr (.inl rfl), rfl⟩
        · exact ⟨r, (Witness.mem_store hkey).mpr (.inr hold), rfl⟩

theorem garbageCollect_historyInv {masterId : String} {entries : List GCEntry}
    (h : s.HistoryInv) {e : WitnessEvent} (hcall : e.call = .garbageCollect masterId entries)
    (hacc : e.accepted = false) (hbound : e.boundTo = s.witness.masterId) :
    HistoryInv ⟨(s.witness.garbageCollect masterId entries).1, e :: s.history⟩ := by
  have hreset : ¬e.Resets := by
    rintro ⟨_, hr⟩
    rw [hcall] at hr
    cases hr
  by_cases hforeign : s.witness.Foreign masterId
  · -- another master than the bound one collects nothing
    have heq : s.witness.garbageCollect masterId entries = (s.witness, 0) := if_pos hforeign
    rw [heq]
    refine h.skip rfl rfl rfl hacc hreset ?_
    rintro q ⟨_, hc, _⟩
    rw [hcall, hbound] at hc
    cases hc
    exact hforeign.2 rfl
  · have hmem : ∀ r, r ∈ values (s.witness.garbageCollect masterId entries).1.records ↔ _ :=
      fun r => Witness.garbageCollect_mem h.witness hforeign
    refine ⟨Witness.garbageCollect_witnessInv h.witness masterId entries, ?_, ?_⟩
    · intro hun
      rw [Witness.garbageCollect_masterId] at hun
      apply Multiset.eq_zero_of_forall_notMem
      intro r hr
      have hold := ((hmem r).mp hr).1
      rw [h.unbound hun] at hold
      cases hold
    · intro q
      rw [standing_cons, or_iff_right (WitnessEvent.not_accepts hacc),
        WitnessEvent.ends_collects hacc hreset, ← h.held]
      constructor
      · rintro ⟨r, hr, rfl⟩
        obtain ⟨hold, hkeep⟩ := (hmem r).mp hr
        refine ⟨⟨r, hold, rfl⟩, ?_⟩
        rintro ⟨entries', hc, hin⟩
        rw [hcall] at hc
        cases hc
        exact hkeep _ hin ⟨rfl, rfl⟩
      · rintro ⟨⟨r, hold, rfl⟩, hkeep⟩
        refine ⟨r, (hmem r).mpr ⟨hold, ?_⟩, rfl⟩
        rintro ⟨k, i⟩ hin ⟨hk, hi⟩
        simp only at hk hi
        subst hk hi
        have hown : masterId = e.boundTo := (h.owner hold hforeign).trans hbound.symm
        exact hkeep ⟨entries, by rw [hcall, hown], hin⟩

theorem reset_historyInv {newMasterId : String} {e : WitnessEvent}
    (hcall : e.call = .reset newMasterId) (hacc : e.accepted = false) :
    HistoryInv ⟨s.witness.reset newMasterId, e :: s.history⟩ where
  witness := Witness.init_witnessInv newMasterId
  unbound := fun _ => rfl
  held := by
    intro q
    rw [standing_cons]
    constructor
    · rintro ⟨r, hr, _⟩
      cases hr
    · rintro (⟨hyes, _⟩ | ⟨_, hends⟩)
      · rw [hacc] at hyes
        cases hyes
      · exact absurd (.inl ⟨newMasterId, hcall⟩) hends

theorem step_historyInv {c : Witness.WitnessCall} (h : s.HistoryInv) (hs : s.step c = some s')
    (hwf : WellFormedCalls s'.history) : s'.HistoryInv := by
  cases c with
  | record masterId rpcId key requestData clientId now =>
    cases hs
    exact record_historyInv h rfl rfl rfl hwf
  | garbageCollect masterId entries =>
    cases hs
    exact garbageCollect_historyInv h rfl rfl rfl
  | getRecoveryData masterId =>
    cases hs
    obtain ⟨hrecords, hbound, hids⟩ := Witness.getRecoveryData_same s.witness masterId
    exact h.skip hrecords hbound hids rfl nofun nofun
  | stopAccepting =>
    cases hs
    exact h.skip rfl rfl rfl rfl nofun nofun
  | reset newMasterId =>
    cases hs
    exact reset_historyInv rfl rfl

theorem step_history {c : Witness.WitnessCall} (hs : s.step c = some s') :
    ∃ e, s'.history = e :: s.history := by
  obtain ⟨w, _, rfl⟩ := Option.map_eq_some_iff.mp hs
  exact ⟨_, rfl⟩

theorem reaches_historyInv (h : Reaches step {} s) (hwf : WellFormedCalls s.history) :
    s.HistoryInv := by
  have hinv : WellFormedCalls s.history → s.HistoryInv := by
    refine h.inv (P := fun s => WellFormedCalls s.history → s.HistoryInv) ?_
      fun _ => init_historyInv
    intro s c s' ih hs hwf'
    obtain ⟨e, he⟩ := step_history hs
    exact step_historyInv (ih (he ▸ hwf').tail) hs hwf'
  exact hinv hwf

theorem step_closed {c : Witness.WitnessCall} (h : s.witness.accepting = false)
    (hno : ∀ newMasterId, c ≠ .reset newMasterId) (hs : s.step c = some s') :
    s'.witness.accepting = false := by
  cases c with
  | record masterId rpcId key requestData clientId now =>
    cases hs
    show (s.witness.record masterId rpcId key requestData clientId now).1.accepting = false
    rw [Witness.record, if_pos (by rw [h]; simp)]
    exact h
  | garbageCollect masterId entries =>
    cases hs
    exact (Witness.garbageCollect_accepting s.witness masterId entries).trans h
  | getRecoveryData masterId =>
    cases hs
    show (s.witness.getRecoveryData masterId).1.accepting = false
    unfold Witness.getRecoveryData
    split
    · exact h
    · rfl
  | stopAccepting => cases hs; rfl
  | reset newMasterId => exact absurd rfl (hno newMasterId)

theorem reaches_closed (h : s.witness.accepting = false)
    (hs : ReachesIf (fun _ c => ∀ newMasterId, c ≠ .reset newMasterId) step s s') :
    s'.witness.accepting = false :=
  hs.inv (fun _ _ _ hc hno hstep => step_closed hc hno hstep) h

/-- **Recovery data are exact and final.** The bound master gets the standing requests, each once;
from then on, as long as nothing resets the witness, no record is accepted. -/
theorem recoveryData_exact (h : Reaches step {} s) (hwf : WellFormedCalls s.history) :
    (∀ q, q ∈ (s.witness.getRecoveryData s.witness.masterId).2.map WitnessRecord.request ↔
      Standing s.history q) ∧
    ((s.witness.getRecoveryData s.witness.masterId).2.map WitnessRecord.request).Nodup ∧
    ∀ s₁ s₂, s.step (.getRecoveryData s.witness.masterId) = some s₁ →
      ReachesIf (fun _ c => ∀ newMasterId, c ≠ .reset newMasterId) step s₁ s₂ →
      ∀ masterId rpcId key requestData clientId now,
        (s₂.witness.record masterId rpcId key requestData clientId now).2 ≠ .accepted := by
  have hinv := reaches_historyInv h hwf
  have hown : s.witness.getRecoveryData s.witness.masterId =
      ({ s.witness with accepting := false }, values s.witness.records) :=
    if_neg fun hf => hf.2 rfl
  refine ⟨?_, ?_, ?_⟩
  · intro q
    rw [hown, Multiset.mem_map, hinv.held]
  · -- the ids of the records are distinct
    have hids : ((values s.witness.records).map WitnessRecord.rpcId).Nodup := by
      rw [← hinv.witness.ids]
      exact s.witness.rpcIds.nodup
    rw [hown]
    apply Multiset.Nodup.of_map Request.rpcId
    rw [Multiset.map_map]
    exact hids
  · intro s₁ s₂ hs hrun masterId rpcId key requestData clientId now
    cases hs
    have hclosed : s₂.witness.accepting = false := by
      refine reaches_closed ?_ hrun
      show (s.witness.getRecoveryData s.witness.masterId).1.accepting = false
      rw [hown]
    rw [Witness.record, if_pos (by rw [hclosed]; simp)]
    exact nofun

section Example

def first : Request := ⟨1, [97], [], 1⟩

def second : Request := ⟨2, [98], [], 1⟩

/-- Two requests are recorded and the first is collected; it is recorded anew. -/
theorem recoveryData_exact_again : ∃ s, Reaches step {} s ∧ Standing s.history first ∧
    Standing s.history second ∧
    ((s.witness.getRecoveryData s.witness.masterId).2.map WitnessRecord.request).Nodup := by
  have hrun : ((runs step [.record "0" 1 [97] [] 1 0, .record "0" 2 [98] [] 1 0,
      .garbageCollect "0" [⟨[97], 1⟩], .record "0" 1 [97] [] 1 0] {}).any fun s =>
        decide ((∀ p ∈ s.history.filterMap WitnessEvent.recorded, p.1 ≠ "") ∧
          (∀ p ∈ s.history.filterMap WitnessEvent.recorded,
            ∀ p' ∈ s.history.filterMap WitnessEvent.recorded, p.2.rpcId = p'.2.rpcId → p.2 = p'.2) ∧
          first ∈ (s.witness.getRecoveryData s.witness.masterId).2.map WitnessRecord.request ∧
          second ∈ (s.witness.getRecoveryData s.witness.masterId).2.map WitnessRecord.request)) =
      true := by decide +kernel
  obtain ⟨s, hr, hs⟩ := exists_of_runs hrun
  obtain ⟨hnamed, hconsistent, hfirst, hsecond⟩ := of_decide_eq_true hs
  obtain ⟨hiff, hnodup, _⟩ := recoveryData_exact hr ⟨hnamed, hconsistent⟩
  exact ⟨s, hr, (hiff first).mp hfirst, (hiff second).mp hsecond, hnodup⟩

end Example

end Traced
end TinyKv
