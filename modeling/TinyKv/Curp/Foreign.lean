import TinyKv.Curp.Service

/-!
# Curp.Foreign

What the requests of a foreign master do to a bound witness.

`Record`, `GarbageCollect` and `GetRecoveryData` are refused. `Stop` and `Reset` carry a
`master_id` too, but the service does not look at it.

* `serve_stranger`: on a witness bound to another master only these two have an effect.
* `serveAll_quiet`, `serveAll_unbound`: a sequence without a reset leaves the witness as it is, up
  to stopping it, and never binds it to a master that none of the requests names.
* `foreign_harmless_iff` says exactly which sequences leave the witness as they found it.
-/

namespace TinyKv

open Lib

namespace WitnessRequest

def isStop : WitnessRequest → Bool
  | .stop _ => true
  | _ => false

def isReset : WitnessRequest → Bool
  | .reset _ _ => true
  | _ => false

/-- The new master of the last reset, and the requests after it. -/
def lastReset : List WitnessRequest → Option (String × List WitnessRequest)
  | [] => none
  | r :: rs =>
    match lastReset rs with
    | some last => some last
    | none =>
      match r with
      | .reset _ newMasterId => some (newMasterId, rs)
      | _ => none

theorem lastReset_none {reqs : List WitnessRequest} (h : lastReset reqs = none) :
    ∀ r ∈ reqs, r.isReset = false := by
  induction reqs with
  | nil => intro r hr; cases hr
  | cons r rs ih =>
    simp only [lastReset] at h
    split at h
    · cases h
    · rename_i hrest
      have hr : r.isReset = false := by
        cases r with
        | reset => cases h
        | record => rfl
        | garbageCollect => rfl
        | getRecoveryData => rfl
        | stop => rfl
      exact List.forall_mem_cons.mpr ⟨hr, ih hrest⟩

theorem lastReset_some {reqs after : List WitnessRequest} {newMasterId : String}
    (h : lastReset reqs = some (newMasterId, after)) :
    ∃ before masterId, reqs = before ++ .reset masterId newMasterId :: after ∧
      ∀ r ∈ after, r.isReset = false := by
  induction reqs with
  | nil => cases h
  | cons r rs ih =>
    simp only [lastReset] at h
    split at h
    · rename_i last hrest
      cases h
      obtain ⟨before, masterId, rfl, hafter⟩ := ih hrest
      exact ⟨r :: before, masterId, rfl, hafter⟩
    · rename_i hrest
      cases r with
      | reset masterId x =>
        cases h
        exact ⟨[], masterId, rfl, lastReset_none hrest⟩
      | record => cases h
      | garbageCollect => cases h
      | getRecoveryData => cases h
      | stop => cases h

end WitnessRequest

open WitnessRequest

def serveAll (w : Witness) (reqs : List WitnessRequest) : Witness := reqs.foldl serve w

/-- Every request of the sequence carries another master than `masterId`. -/
def Strangers (masterId : String) (reqs : List WitnessRequest) : Prop :=
  ∀ r ∈ reqs, r.masterId ≠ masterId

variable {w : Witness} {r : WitnessRequest} {reqs : List WitnessRequest}

theorem serve_stranger (hbound : w.masterId ≠ "") (hne : r.masterId ≠ w.masterId)
    (hreset : r.isReset = false) :
    serve w r = if r.isStop then w.stopAccepting else w := by
  cases r with
  | record masterId rpcId key requestData clientId now =>
    show (w.record masterId rpcId key requestData clientId now).1 = w
    have hforeign : w.Foreign masterId := ⟨hbound, hne⟩
    rw [Witness.record, if_pos hforeign]
    split
    · rfl
    · rfl
  | garbageCollect masterId entries =>
    show (w.garbageCollect masterId entries).1 = w
    have hforeign : w.Foreign masterId := ⟨hbound, hne⟩
    rw [Witness.garbageCollect, if_pos hforeign]
  | getRecoveryData masterId =>
    show (w.getRecoveryData masterId).1 = w
    have hforeign : w.Foreign masterId := ⟨hbound, hne⟩
    rw [Witness.getRecoveryData, if_pos hforeign]
  | stop masterId => rfl
  | reset masterId newMasterId => cases hreset

theorem serveAll_quiet (hbound : w.masterId ≠ "") (hs : Strangers w.masterId reqs)
    (hreset : ∀ r ∈ reqs, r.isReset = false) :
    serveAll w reqs = if reqs.any isStop then w.stopAccepting else w := by
  induction reqs generalizing w with
  | nil => rfl
  | cons r rs ih =>
    obtain ⟨hne, hs⟩ := List.forall_mem_cons.mp hs
    obtain ⟨hr, hrs⟩ := List.forall_mem_cons.mp hreset
    show serveAll (serve w r) rs = _
    rw [serve_stranger hbound hne hr, List.any_cons]
    by_cases hstop : r.isStop = true
    · have hrest : serveAll w.stopAccepting rs =
          if rs.any isStop then w.stopAccepting.stopAccepting else w.stopAccepting :=
        ih (w := w.stopAccepting) hbound hs hrs
      simp only [hstop, if_true, Bool.true_or, hrest]
      split
      · rfl
      · rfl
    · simp only [hstop, Bool.false_or]
      exact ih hbound hs hrs

theorem serve_unbound {m : String} (hw : w.masterId ≠ m) (hne : r.masterId ≠ m)
    (hreset : r.isReset = false) : (serve w r).masterId ≠ m := by
  cases r with
  | record masterId rpcId key requestData clientId now =>
    obtain ⟨w', res, hr⟩ :
        ∃ w' res, w.record masterId rpcId key requestData clientId now = (w', res) := ⟨_, _, rfl⟩
    show (w.record masterId rpcId key requestData clientId now).1.masterId ≠ m
    rw [hr]
    rcases Witness.record_cases hr with ⟨_, rfl⟩ | ⟨_, _, _, rfl⟩ | ⟨_, _, _, _, _, rfl⟩
    · exact hw
    · exact hw
    · rw [Witness.store_masterId]
      split
      · exact hne
      · exact hw
  | garbageCollect masterId entries =>
    show (w.garbageCollect masterId entries).1.masterId ≠ m
    rw [Witness.garbageCollect_masterId]
    exact hw
  | getRecoveryData masterId =>
    show (w.getRecoveryData masterId).1.masterId ≠ m
    rw [(Witness.getRecoveryData_same w masterId).2.1]
    exact hw
  | stop masterId => exact hw
  | reset masterId newMasterId => cases hreset

theorem serveAll_unbound {m : String} (hw : w.masterId ≠ m) (hs : Strangers m reqs)
    (hreset : ∀ r ∈ reqs, r.isReset = false) : (serveAll w reqs).masterId ≠ m := by
  induction reqs generalizing w with
  | nil => exact hw
  | cons r rs ih =>
    obtain ⟨hne, hs⟩ := List.forall_mem_cons.mp hs
    obtain ⟨hr, hrs⟩ := List.forall_mem_cons.mp hreset
    exact ih (serve_unbound hw hne hr) hs hrs

theorem serveAll_reset (before after : List WitnessRequest) (masterId newMasterId : String) :
    serveAll w (before ++ .reset masterId newMasterId :: after) =
      serveAll { masterId := newMasterId } after := by
  simp only [serveAll, List.foldl_append, List.foldl_cons]
  rfl

/-- The sequence has no effect that its last reset does not undo: it stops no accepting witness,
and it resets only an empty one, in the end to the master it was bound to. -/
def Harmless (w : Witness) (reqs : List WitnessRequest) : Prop :=
  match lastReset reqs with
  | none => reqs.any isStop = true → w.accepting = false
  | some (newMasterId, after) =>
    newMasterId = w.masterId ∧ w.records = ∅ ∧ w.rpcIds = ∅ ∧ w.accepting = !after.any isStop

theorem stopAccepting_eq_iff : w.stopAccepting = w ↔ w.accepting = false := by
  constructor
  · intro h
    rw [← h]
    rfl
  · intro h
    rw [Witness.stopAccepting, ← h]

theorem serveAll_fresh {m : String} (hm : m ≠ "") (hs : Strangers m reqs)
    (hreset : ∀ r ∈ reqs, r.isReset = false) :
    serveAll { masterId := m } reqs = { masterId := m, accepting := !reqs.any isStop } := by
  rw [serveAll_quiet (w := { masterId := m }) hm hs hreset]
  by_cases hstop : reqs.any isStop = true
  · rw [if_pos hstop, hstop]
    rfl
  · rw [if_neg hstop, Bool.eq_false_iff.mpr hstop]
    rfl

theorem fresh_eq_iff {accepting : Bool} :
    { masterId := w.masterId, accepting := accepting } = w ↔
      w.records = ∅ ∧ w.rpcIds = ∅ ∧ w.accepting = accepting := by
  obtain ⟨m, a, records, rpcIds⟩ := w
  rw [Witness.mk.injEq]
  constructor
  · rintro ⟨_, ha, hrecords, hids⟩
    exact ⟨hrecords.symm, hids.symm, ha.symm⟩
  · rintro ⟨hrecords, hids, ha⟩
    exact ⟨rfl, ha.symm, hrecords.symm, hids.symm⟩

/-- The requests of foreign masters leave a bound witness as it is exactly if they are harmless. -/
theorem foreign_harmless_iff (w : Witness) (reqs : List WitnessRequest) (hbound : w.masterId ≠ "")
    (hs : Strangers w.masterId reqs) : serveAll w reqs = w ↔ Harmless w reqs := by
  unfold Harmless
  split
  · rename_i hlast
    rw [serveAll_quiet hbound hs (lastReset_none hlast)]
    by_cases hstop : reqs.any isStop = true
    · rw [if_pos hstop, stopAccepting_eq_iff]
      exact ⟨fun h _ => h, fun h => h hstop⟩
    · rw [if_neg hstop]
      exact ⟨fun _ h => absurd h hstop, fun _ => rfl⟩
  · rename_i newMasterId after hlast
    obtain ⟨before, masterId, rfl, hafter⟩ := lastReset_some hlast
    have hrest : Strangers w.masterId after :=
      fun r hr => hs r (List.mem_append_right _ (List.mem_cons_of_mem _ hr))
    rw [serveAll_reset]
    by_cases hnew : newMasterId = w.masterId
    · subst hnew
      rw [serveAll_fresh hbound hrest hafter, fresh_eq_iff]
      exact ⟨fun h => ⟨rfl, h⟩, And.right⟩
    · have hne : (serveAll { masterId := newMasterId } after).masterId ≠ w.masterId :=
        serveAll_unbound hnew hrest hafter
      constructor
      · intro h
        rw [h] at hne
        exact absurd rfl hne
      · intro h
        exact absurd h.1 hnew

/-- A foreign record, a foreign collection and a reset that binds the empty witness again. -/
theorem foreign_harmless_empty :
    ({ masterId := "A" } : Witness).masterId ≠ "" ∧
    Strangers "A" [.record "B" 1 [97] [] 1 0, .garbageCollect "B" [], .reset "B" "A"] ∧
    (serveAll { masterId := "A" }
        [.record "B" 1 [97] [] 1 0, .garbageCollect "B" [], .reset "B" "A"] = { masterId := "A" } ↔
      Harmless { masterId := "A" }
        [.record "B" 1 [97] [] 1 0, .garbageCollect "B" [], .reset "B" "A"]) := by
  have hs : Strangers "A" [.record "B" 1 [97] [] 1 0, .garbageCollect "B" [], .reset "B" "A"] := by
    unfold Strangers
    decide
  exact ⟨by decide, hs, foreign_harmless_iff { masterId := "A" } _ (by decide) hs⟩

/-- Master "B" empties the witness of "A" and binds it; its stop closes it. -/
theorem foreign_reset_erases : ∃ w : Witness, Reaches Witness.call {} w ∧ w.masterId = "A" ∧
    values w.records = {⟨1, [97], [1], 1, 0⟩} ∧ w.accepting = true ∧
    Strangers "A" [.reset "B" "B"] ∧ serveAll w [.reset "B" "B"] = { masterId := "B" } ∧
    Strangers "A" [.stop "B"] ∧ (serveAll w [.stop "B"]).accepting = false := by
  have hrun : ((runs Witness.call [.record "A" 1 [97] [1] 1 0] {}).any fun w =>
      decide (w.masterId = "A" ∧ values w.records = {⟨1, [97], [1], 1, 0⟩} ∧
        w.accepting = true)) = true := by decide +kernel
  obtain ⟨w, hr, hw⟩ := exists_of_runs hrun
  obtain ⟨hm, hrecords, hacc⟩ := of_decide_eq_true hw
  have hB : ∀ r : WitnessRequest, r.masterId = "B" → Strangers "A" [r] := by
    intro r hr
    rw [Strangers, List.forall_mem_singleton, hr]
    decide
  exact ⟨w, hr, hm, hrecords, hacc, hB _ rfl, rfl, hB _ rfl, rfl⟩

end TinyKv
