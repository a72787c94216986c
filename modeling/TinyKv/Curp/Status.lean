import TinyKv.Curp.Service

/-!
# Curp.Status

What `get_status` of a witness reports, over time.

* `Witness.oldest`: the least timestamp, as the loop over the records finds it.
* `Watched.step`: requests to a witness and a clock that does not go back; a record gets the time of
  its call.
* `oldest_stays_behind`: what a later status reports as the oldest time is not before what an
  earlier one has reported.
-/

namespace TinyKv

open Lib

structure WitnessStatus where
  masterId : String := ""
  accepting : Bool := false
  requestCount : Nat := 0
  oldestTimestamp : Option UInt64 := none
  deriving DecidableEq

namespace Witness

/-- The body of the loop. -/
def older (oldest : UInt64) (record : WitnessRecord) : UInt64 :=
  if record.timestamp < oldest then record.timestamp else oldest

theorem older_toNat (oldest : UInt64) (record : WitnessRecord) :
    (older oldest record).toNat = min record.timestamp.toNat oldest.toNat := by
  rw [older]
  split
  · rename_i h
    rw [UInt64.lt_iff_toNat_lt] at h
    omega
  · rename_i h
    rw [UInt64.lt_iff_toNat_lt] at h
    omega

/-- The hash table does not fix the order of the records, and it does not matter. -/
instance : RightCommutative older where
  right_comm := by
    intro oldest r r'
    rw [← UInt64.toNat_inj]
    simp only [older_toNat]
    omega

/-- Starts at `UINT64_MAX`. -/
def oldest (w : Witness) : UInt64 := (values w.records).foldl older (.ofNat (2 ^ 64 - 1))

/-- `Witness::get_status`; the count is cut to 32 bits. -/
def getStatus (w : Witness) : WitnessStatus where
  masterId := w.masterId
  accepting := w.accepting
  requestCount := w.size % 2 ^ 32
  oldestTimestamp := if w.size = 0 then none else some w.oldest

variable {w : Witness}

theorem foldl_older (rs : Multiset WitnessRecord) : ∀ t : UInt64,
    (rs.foldl older t).toNat ≤ t.toNat ∧ (∀ r ∈ rs, rs.foldl older t ≤ r.timestamp) ∧
      (rs.foldl older t = t ∨ ∃ r ∈ rs, r.timestamp = rs.foldl older t) := by
  induction rs using Multiset.induction_on with
  | empty =>
    intro t
    exact ⟨Nat.le_refl _, (fun r hr => by cases hr), .inl rfl⟩
  | cons r rs ih =>
    intro t
    obtain ⟨hle, hall, hsome⟩ := ih (older t r)
    have hmin := older_toNat t r
    rw [Multiset.foldl_cons]
    refine ⟨by omega, ?_, ?_⟩
    · intro x hx
      rcases Multiset.mem_cons.mp hx with rfl | hx
      · rw [UInt64.le_iff_toNat_le]
        omega
      · exact hall x hx
    · rcases hsome with heq | ⟨x, hx, heq⟩
      · rw [heq, older]
        split
        · exact .inr ⟨r, Multiset.mem_cons_self r rs, rfl⟩
        · exact .inl rfl
      · exact .inr ⟨x, Multiset.mem_cons_of_mem hx, heq⟩

theorem getStatus_count (h : w.WitnessInv) : w.getStatus.requestCount = w.size :=
  Nat.mod_eq_of_lt (Nat.lt_of_le_of_lt h.size_le (by decide))

theorem exists_oldest (h : w.size ≠ 0) : ∃ r ∈ values w.records, r.timestamp = w.oldest := by
  obtain ⟨_, hall, hmax | hsome⟩ := foldl_older (values w.records) (.ofNat (2 ^ 64 - 1))
  · -- all timestamps are `UINT64_MAX`
    obtain ⟨r, hr⟩ := Multiset.card_pos_iff_exists_mem.mp (Nat.pos_of_ne_zero h)
    refine ⟨r, hr, ?_⟩
    have hle := hall r hr
    have hlt := r.timestamp.toNat_lt
    rw [UInt64.le_iff_toNat_le, hmax, UInt64.toNat_ofNat'] at hle
    rw [oldest, hmax, ← UInt64.toNat_inj, UInt64.toNat_ofNat']
    omega
  · exact hsome

theorem oldest_le {r : WitnessRecord} (h : r ∈ values w.records) : w.oldest ≤ r.timestamp :=
  (foldl_older (values w.records) (.ofNat (2 ^ 64 - 1))).2.1 r h

theorem getStatus_oldest {t : UInt64} (h : w.getStatus.oldestTimestamp = some t) :
    (∃ r ∈ values w.records, r.timestamp = t) ∧ ∀ r ∈ values w.records, t ≤ r.timestamp := by
  simp only [getStatus, Option.ite_none_left_eq_some, Option.some.injEq] at h
  obtain ⟨hsize, rfl⟩ := h
  exact ⟨exists_oldest hsize, fun r hr => oldest_le hr⟩

end Witness

/-- The time at which a request is recorded. -/
def WitnessRequest.at (now : UInt64) : WitnessRequest → WitnessRequest
  | .record masterId rpcId key requestData clientId _ =>
    .record masterId rpcId key requestData clientId now
  | .garbageCollect masterId entries => .garbageCollect masterId entries
  | .getRecoveryData masterId => .getRecoveryData masterId
  | .stop masterId => .stop masterId
  | .reset masterId newMasterId => .reset masterId newMasterId

/-- `clock` is the time in milliseconds since the clock was started. -/
structure Watched where
  witness : Witness := {}
  clock : Nat := 0

namespace Watched

inductive Action where
  | tick (d : Nat)
  | call (q : WitnessRequest)

/-- The clock does not come to the end of 64 bits. -/
def step (s : Watched) : Action → Option Watched
  | .tick d => if s.clock + d < 2 ^ 64 then some { s with clock := s.clock + d } else none
  | .call q => some { s with witness := serve s.witness (q.at (.ofNat s.clock)) }

variable {s s' : Watched}

theorem serve_records {w : Witness} {q : WitnessRequest} (now : UInt64) (h : w.WitnessInv) :
    (serve w (q.at now)).WitnessInv ∧ ∀ r ∈ values (serve w (q.at now)).records,
      r ∈ values w.records ∨ r.timestamp = now := by
  cases q with
  | record masterId rpcId key requestData clientId t =>
    obtain ⟨w', res, hr⟩ :
        ∃ w' res, w.record masterId rpcId key requestData clientId now = (w', res) := ⟨_, _, rfl⟩
    have hserve : serve w (WitnessRequest.at now
        (.record masterId rpcId key requestData clientId t)) = w' := by
      simp only [WitnessRequest.at, serve, WitnessServiceImpl.record, hr]
    rw [hserve]
    refine ⟨Witness.record_witnessInv h hr, ?_⟩
    intro r hmem
    rcases Witness.record_cases hr with ⟨_, rfl⟩ | ⟨_, _, _, rfl⟩ | ⟨_, _, _, _, hfree, rfl⟩
    · exact .inl hmem
    · exact .inl hmem
    · rcases (Witness.mem_store hfree).mp hmem with rfl | hmem
      · exact .inr rfl
      · exact .inl hmem
  | garbageCollect masterId entries =>
    exact ⟨Witness.garbageCollect_witnessInv h masterId entries,
      fun r hr => .inl (Witness.garbageCollect_subset h hr)⟩
  | getRecoveryData masterId =>
    refine ⟨Witness.getRecoveryData_witnessInv h masterId, fun r hr => .inl ?_⟩
    exact Witness.getRecoveryData_records w masterId ▸ hr
  | stop masterId => exact ⟨Witness.stopAccepting_witnessInv h, fun r hr => .inl hr⟩
  | reset masterId newMasterId =>
    exact ⟨Witness.init_witnessInv newMasterId, fun r hr => by cases hr⟩

/-- The records are not older than `t₀`, and none is of the future. -/
structure ClockInv (t₀ : Nat) (s : Watched) : Prop where
  witness : s.witness.WitnessInv
  start : t₀ ≤ s.clock
  clock : s.clock < 2 ^ 64
  since : ∀ r ∈ values s.witness.records, t₀ ≤ r.timestamp.toNat
  past : ∀ r ∈ values s.witness.records, r.timestamp.toNat ≤ s.clock

theorem step_clockInv {t₀ : Nat} {a : Action} (h : ClockInv t₀ s) (hs : s.step a = some s') :
    ClockInv t₀ s' := by
  cases a with
  | tick d =>
    obtain ⟨hd, hs⟩ := Option.ite_none_right_eq_some.mp hs
    cases hs
    exact ⟨h.witness, h.start.trans (Nat.le_add_right _ d), hd, h.since,
      fun r hr => (h.past r hr).trans (Nat.le_add_right _ d)⟩
  | call q =>
    cases hs
    obtain ⟨hinv, hrecords⟩ := serve_records (q := q) (.ofNat s.clock) h.witness
    have hnow : (UInt64.ofNat s.clock).toNat = s.clock := UInt64.toNat_ofNat_of_lt' h.clock
    refine ⟨hinv, h.start, h.clock, ?_, ?_⟩
    · intro r hr
      rcases hrecords r hr with hold | hnew
      · exact h.since r hold
      · rw [hnew, hnow]
        exact h.start
    · intro r hr
      rcases hrecords r hr with hold | hnew
      · exact h.past r hold
      · rw [hnew, hnow]

theorem reaches_clockInv {t₀ : Nat} (h : Reaches step s s') (hs : ClockInv t₀ s) :
    ClockInv t₀ s' :=
  h.inv (fun _ _ _ hi hstep => step_clockInv hi hstep) hs

theorem init_clockInv {t₀ : Nat} (h : t₀ < 2 ^ 64) : ClockInv t₀ { clock := t₀ } where
  witness := Witness.init_witnessInv ""
  start := Nat.le_refl t₀
  clock := h
  since := fun r hr => by cases hr
  past := fun r hr => by cases hr

/-- **The oldest request only gets younger.** Whatever calls a new witness gets: a status shows an
oldest time iff it shows a request, a time of a stored request that is past; and no later status
shows an earlier one. -/
theorem oldest_stays_behind {t₀ : Nat} (ht : t₀ < 2 ^ 64) (h : Reaches step { clock := t₀ } s)
    (h' : Reaches step s s') :
    (s.witness.getStatus.oldestTimestamp = none ↔ s.witness.getStatus.requestCount = 0) ∧
    ∀ t, s.witness.getStatus.oldestTimestamp = some t →
      t₀ ≤ t.toNat ∧ t.toNat ≤ s.clock ∧
      (∃ r ∈ values s.witness.records, r.timestamp = t) ∧
      ∀ t', s'.witness.getStatus.oldestTimestamp = some t' → t ≤ t' := by
  have hinv := reaches_clockInv h (init_clockInv ht)
  constructor
  · rw [Witness.getStatus_count hinv.witness]
    simp [Witness.getStatus]
  · intro t hold
    obtain ⟨⟨r, hr, rfl⟩, hall⟩ := Witness.getStatus_oldest hold
    refine ⟨hinv.since r hr, hinv.past r hr, ⟨r, hr, rfl⟩, ?_⟩
    -- from here on no record is older than this one
    have hinv' : ClockInv r.timestamp.toNat s' :=
      reaches_clockInv h' ⟨hinv.witness, hinv.past r hr, hinv.clock,
        fun x hx => UInt64.le_iff_toNat_le.mp (hall x hx), hinv.past⟩
    intro t' hold'
    obtain ⟨⟨r', hr', rfl⟩, _⟩ := Witness.getStatus_oldest hold'
    exact UInt64.le_iff_toNat_le.mpr (hinv'.since r' hr')

/-- Two requests, 5 ms apart; then the first is collected. -/
theorem oldest_stays_behind_collected : ∃ s s' : Watched,
    Reaches step { clock := 100 } s ∧ Reaches step s s' ∧
      s.witness.getStatus.oldestTimestamp = some 100 ∧
      s'.witness.getStatus.oldestTimestamp = some 105 ∧ (100 : UInt64) ≤ 105 := by
  have hrun : ((runs step [.call (.record "0" 1 [97] [7] 1 0), .tick 5,
      .call (.record "0" 2 [98] [8] 1 0)] { clock := 100 }).any fun s =>
        decide (s.witness.getStatus.oldestTimestamp = some 100) &&
          (runs step [.call (.garbageCollect "0" [⟨[97], 1⟩])] s).any fun s' =>
            decide (s'.witness.getStatus.oldestTimestamp = some 105)) = true := by
    decide +kernel
  obtain ⟨s, h, hs⟩ := exists_of_runs hrun
  obtain ⟨hold, hrest⟩ := Bool.and_eq_true_iff.mp hs
  obtain ⟨s', h', hold'⟩ := exists_of_runs hrest
  have hold := of_decide_eq_true hold
  have hold' := of_decide_eq_true hold'
  refine ⟨s, s', h, h', hold, hold', ?_⟩
  exact ((oldest_stays_behind (by decide) h h').2 100 hold).2.2.2 105 hold'

end Watched
end TinyKv
