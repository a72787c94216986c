import TinyKv.Curp.Server

/-!
# Curp.Quiet

Whether a master under load executes proposals while `recover()` is at work.

A `propose` call that comes then is refused, but one that has read `curp_state_` before goes on with
its body. It has nothing to execute if its operation is `Settled`.

* `proposeBody_settled`: the body executes iff the operation is not settled.
* `recovery_quiet_iff`: in a run no call is about to execute during a recovery iff each recovery
  starts with none waiting but settled ones, and no sync comes after that to unsettle them.
-/

namespace TinyKv

open Lib

namespace CurpMaster

/-- An operation that is executed already, or is on a key that is taken. -/
def Settled (m : CurpMaster) (op : CurpOp) : Prop :=
  m.isExecuted op.rpcId ∨ op.key ∈ m.unsyncedKeys

variable {m : CurpMaster} {op : CurpOp}

theorem proposeBody_settled :
    (m.proposeBody op).1.executeCalls = m.executeCalls ↔ m.Settled op := by
  obtain ⟨m', res, hp⟩ : ∃ m' res, m.proposeBody op = (m', res) := ⟨_, _, rfl⟩
  rw [hp]
  rcases proposeBody_cases hp with ⟨hex, _, rfl⟩ | ⟨hnew, hkey, _, rfl⟩ | ⟨_, hkey, _, rfl⟩
  · exact ⟨fun _ => .inl hex, fun _ => rfl⟩
  · constructor
    · intro hcalls
      have happend : m.executeCalls ++ [op] = m.executeCalls := hcalls
      simp at happend
    · exact fun hsettled => hsettled.elim (absurd · hnew) (absurd · hkey)
  · exact ⟨fun _ => .inr hkey, fun _ => rfl⟩

theorem proposeBody_of_settled (h : m.Settled op) : (m.proposeBody op).1 = m := by
  rcases proposeBody_master m op with hm | ⟨hnew, hkey, _⟩
  · exact hm
  · exact h.elim (absurd · hnew) (absurd · hkey)

theorem proposeBody_curpState (m : CurpMaster) (op : CurpOp) :
    (m.proposeBody op).1.curpState = m.curpState := by
  rcases proposeBody_master m op with hm | ⟨_, _, hm⟩
  · rw [hm]
  · rw [hm, executeFast_curpState]

theorem replayOp_settled (r : WitnessRecord) (h : m.Settled op) : (m.replayOp r).Settled op := by
  by_cases hex : m.isExecuted r.rpcId
  · rw [replayOp_old hex]
    exact h
  · refine h.imp ?_ ?_
    · exact fun hop => replayOp_isExecuted.mpr (.inl hop)
    · intro hkey
      rw [replayOp_new hex]
      exact Finset.mem_insert_of_mem hkey

theorem replayOps_settled (records : List WitnessRecord) : ∀ {m : CurpMaster}, m.Settled op →
    (m.replayOps records).Settled op := by
  induction records with
  | nil => intro m h; exact h
  | cons r rs ih => intro m h; exact ih (replayOp_settled r h)

theorem replayOps_curpState (records : List WitnessRecord) : ∀ (m : CurpMaster),
    (m.replayOps records).curpState = m.curpState := by
  induction records with
  | nil => intro m; rfl
  | cons r rs ih =>
    intro m
    have hone : (m.replayOp r).curpState = m.curpState := by
      by_cases hex : m.isExecuted r.rpcId
      · rw [replayOp_old hex]
      · rw [replayOp_new hex, executeFast_curpState]
    exact (ih (m.replayOp r)).trans hone

theorem doSync_settled (h : m.MasterInv) (w : Option Witness) :
    (m.doSync w).1.Settled op ↔ m.isExecuted op.rpcId := by
  by_cases hempty : m.unsyncedOps = ∅
  · rw [doSync_empty hempty, Settled, h.keys_empty hempty]
    simp
  · rw [doSync_drain hempty, Settled]
    simp

theorem doSync_curpState (m : CurpMaster) (w : Option Witness) :
    (m.doSync w).1.curpState = m.curpState := by
  by_cases hempty : m.unsyncedOps = ∅
  · rw [doSync_empty hempty]
  · rw [doSync_drain hempty, drain_curpState]

end CurpMaster

namespace Server

open CurpMaster

variable {s s' : Server}

/-- A waiting `propose` call would execute now, although the state is `RECOVERING`. -/
def Speculates (s : Server) : Prop :=
  s.node.master.curpState = .recovering ∧
    ∃ k s', s.step (.body k) = some s' ∧
      s'.node.master.executeCalls ≠ s.node.master.executeCalls

/-- No waiting call has anything to execute. -/
def AllSettled (s : Server) : Prop := ∀ op ∈ s.proposing, s.node.master.Settled op

/-- A recovery starts when all waiting calls are settled, and a sync during it comes when the
operations of all of them are executed. -/
def QuietOk (s : Server) (a : Action) : Prop :=
  match a with
  | .start => s.AllSettled
  | .doSync => s.node.master.curpState = .recovering →
      ∀ op ∈ s.proposing, s.node.master.isExecuted op.rpcId
  | _ => True

theorem not_speculates (h : s.node.master.curpState = .recovering → s.AllSettled) :
    ¬s.Speculates := by
  rintro ⟨hstate, k, s', hbody, hcalls⟩
  obtain ⟨op, hop, _, rfl⟩ := step_body hbody
  exact hcalls (proposeBody_settled.mpr (h hstate op (List.mem_of_getElem? hop)))

theorem not_speculates_iff (hs : s.phase ≠ .blocked) :
    ¬s.Speculates ↔ (s.node.master.curpState = .recovering → s.AllSettled) := by
  refine ⟨?_, not_speculates⟩
  intro hquiet hstate op hop
  by_contra hnot
  obtain ⟨k, hk⟩ := List.mem_iff_getElem?.mp hop
  refine hquiet ⟨hstate, k, s.runBody k op, ?_, fun hcalls => hnot (proposeBody_settled.mp hcalls)⟩
  simp only [step, hk, if_neg hs]

structure QuietInv (s : Server) : Prop where
  master : s.node.master.MasterInv
  settled : s.node.master.curpState = .recovering → s.AllSettled

theorem init_quietInv (n : UInt64) (localWitness : Option Witness) (clients : List WitnessPeer) :
    (init n localWitness clients).QuietInv where
  master := init_masterInv n
  settled := fun hstate => by cases hstate

theorem step_settled {a : Action} (h : s.QuietInv) (hok : s.QuietOk a) (hs : s.step a = some s') :
    s'.node.master.curpState = .recovering → s'.AllSettled := by
  intro hstate
  cases a with
  | check op =>
    rw [step_check hs] at hstate ⊢
    rw [checkState_node] at hstate
    rw [checkState, if_pos hstate]
    exact h.settled hstate
  | body k =>
    obtain ⟨op, hop, _, rfl⟩ := step_body hs
    have hbefore := h.settled ((proposeBody_curpState _ _).symm.trans hstate)
    have hsame := proposeBody_of_settled (hbefore op (List.mem_of_getElem? hop))
    intro x hx
    show (s.node.master.proposeBody op).1.Settled x
    rw [hsame]
    exact hbefore x (List.mem_of_mem_eraseIdx hx)
  | record client masterId q now =>
    obtain ⟨hm, hp, _⟩ := step_record hs
    rw [AllSettled, hm, hp]
    rw [hm] at hstate
    exact h.settled hstate
  | doSync =>
    obtain ⟨_, rfl⟩ := step_doSync hs
    intro op hop
    have hbefore : s.node.master.curpState = .recovering :=
      (doSync_curpState _ s.node.localWitness).symm.trans hstate
    exact (doSync_settled h.master _).mpr (hok hbefore op hop)
  | start =>
    obtain ⟨_, rfl⟩ := step_start hs
    exact hok
  | fetch records =>
    obtain ⟨_, _, rfl⟩ := step_fetch hs
    unfold AllSettled
    rw [CurpNode.fetch_master] at hstate ⊢
    exact h.settled hstate
  | replay =>
    obtain ⟨records, _, rfl⟩ := step_replay hs
    intro op hop
    exact replayOps_settled records (h.settled ((replayOps_curpState _ _).symm.trans hstate) op hop)
  | finalSync =>
    obtain ⟨_, rfl | rfl⟩ := step_finalSync hs
    · exact h.settled hstate
    · exact h.settled hstate
  | finish =>
    obtain ⟨_, rfl⟩ := step_finish hs
    cases hstate

theorem step_quietInv {a : Action} (h : s.QuietInv) (hok : s.QuietOk a)
    (hs : s.step a = some s') : s'.QuietInv where
  master := step_masterInv h.master hs
  settled := step_settled h hok hs

theorem step_quiet_iff {a : Action} (h : s.QuietInv) (hs : s.step a = some s') :
    ¬s'.Speculates ↔ s.QuietOk a := by
  refine ⟨?_, fun hok => not_speculates (step_settled h hok hs)⟩
  intro hquiet
  cases a with
  | start =>
    obtain ⟨_, rfl⟩ := step_start hs
    have hfree : RecoverPhase.recovering ≠ .blocked := by intro h; cases h
    let t : Server := { s with node := s.node.store .recovering, phase := .recovering }
    exact (not_speculates_iff (s := t) hfree).mp hquiet rfl
  | doSync =>
    obtain ⟨hfree, rfl⟩ := step_doSync hs
    intro hstate op hop
    have hafter : s.node.sync.master.curpState = .recovering :=
      (doSync_curpState _ s.node.localWitness).trans hstate
    let t : Server := { s with node := s.node.sync }
    have hall := (not_speculates_iff (s := t) hfree).mp hquiet hafter
    exact (doSync_settled h.master s.node.localWitness).mp (hall op hop)
  | check op => trivial
  | body k => trivial
  | record client masterId q now => trivial
  | fetch records => trivial
  | replay => trivial
  | finalSync => trivial
  | finish => trivial

/-- **No speculation during a recovery.** In a run no `propose` call is ever about to execute while
the state is `RECOVERING` iff each recovery starts when every waiting call is settled, and each sync
during one comes when the operations of all waiting calls are executed. -/
theorem recovery_quiet_iff (n : UInt64) (localWitness : Option Witness)
    (clients : List WitnessPeer) (as : List Action) :
    Along (fun _ _ s' => ¬s'.Speculates) step as (init n localWitness clients) ↔
    Along (fun s a _ => s.QuietOk a) step as (init n localWitness clients) := by
  apply along_congr (I := QuietInv)
  · exact fun s a s' h hs => step_quiet_iff h hs
  · exact fun s a s' h hok hs => step_quietInv h hok hs
  · exact init_quietInv n localWitness clients

/-- A call reads the state, a recovery starts, and the call executes. -/
theorem recovery_raced : ∃ s s', Reaches step (init 0 (some {}) []) s ∧
    s.node.master.curpState = .recovering ∧ s.step (.body 0) = some s' ∧
    s.node.master.executeCalls = [] ∧ s'.node.master.executeCalls = [CurpNode.onePut] := by
  have hrun : ((runs step [.check CurpNode.onePut, .start] (init 0 (some {}) [])).any fun s =>
      decide (s.node.master.curpState = .recovering ∧ s.node.master.executeCalls = []) &&
        (s.step (.body 0)).any fun s' =>
          decide (s'.node.master.executeCalls = [CurpNode.onePut])) = true := by decide +kernel
  obtain ⟨s, hr, hs⟩ := exists_of_runs hrun
  rw [Bool.and_eq_true, Option.any_eq_true] at hs
  obtain ⟨hstate, s', hbody, hcalls⟩ := hs
  obtain ⟨hrec, hnone⟩ := of_decide_eq_true hstate
  exact ⟨s, s', hr, hrec, hbody, hnone, of_decide_eq_true hcalls⟩

end Server
end TinyKv
