import TinyKv.Curp.Quiet

/-!
# Curp.SyncWorker

The loop of the sync thread on a master under load, with a clock.

The thread waits on `sync_cv_` for 100 ms at most, and then syncs if there is something to sync and
the state is `NORMAL`. It is without `curp_mtx_` before it waits, while it waits and before it
syncs, and any other thread may come in between.

* `SyncWorker`: where the thread is in `sync_worker`.
* `Clocked.step delay`: time passes, but no further than `delay` beyond the time at which the next
  step of the thread is due; the thread takes its step; or another thread takes one.
* `reaches_server`: on the server, each run is one of `Server.step`.
* `synced_in_time`: nothing waits longer for the sync than 100 ms and three delays.

A notification and a spurious wake-up may end the wait at any time. `syncing_` is set only under the
mutex, so the thread always finds it clear, and `sync_running_` is set while the master lives.
-/

namespace TinyKv

open Lib CurpMaster

/-- Before it locks the mutex, in `wait_for`, and between the check and `do_sync`. -/
inductive SyncWorker where
  | locking (since : Nat)
  | waiting (deadline : Nat)
  | syncing (since : Nat)
  deriving DecidableEq

/-- The time that `wait_for` gets, in milliseconds. -/
def syncWait : Nat := 100

/-- When the next step of the thread is due. -/
def SyncWorker.due : SyncWorker → Nat
  | .locking since => since
  | .waiting deadline => deadline
  | .syncing since => since

structure Clocked where
  server : Server
  clock : Nat := 0
  worker : SyncWorker := .locking 0

namespace Clocked

def init (n : UInt64) (localWitness : Option Witness) (clients : List WitnessPeer) : Clocked where
  server := .init n localWitness clients

inductive Action where
  | tick (d : Nat)
  | lock
  | wake
  | doSync
  | call (a : Server.Action)
  deriving DecidableEq

/-- What the thread checks when it wakes up. -/
def Wants (s : Clocked) : Prop :=
  s.server.node.Unsynced ∧ s.server.node.master.curpState = .normal

instance (s : Clocked) : Decidable s.Wants := inferInstanceAs (Decidable (_ ∧ _))

/-- While a `recover()` waits for itself, the thread waits for the mutex. -/
def step (delay : Nat) (s : Clocked) : Action → Option Clocked
  | .tick d =>
    if s.server.phase = .blocked ∨ s.clock + d ≤ s.worker.due + delay then
      some { s with clock := s.clock + d }
    else none
  | .lock =>
    match s.worker with
    | .locking _ =>
      if s.server.phase = .blocked then none
      else some { s with worker := .waiting (s.clock + syncWait) }
    | _ => none
  | .wake =>
    match s.worker with
    | .waiting _ =>
      if s.server.phase = .blocked then none
      else some { s with worker := if s.Wants then .syncing s.clock else .locking s.clock }
    | _ => none
  | .doSync =>
    match s.worker with
    | .syncing _ =>
      (s.server.step .doSync).map fun server =>
        { s with server := server, worker := .locking s.clock }
    | _ => none
  | .call a =>
    if a = .doSync then none
    else (s.server.step a).map fun server => { s with server := server }

variable {delay : Nat} {s s' : Clocked}

theorem step_tick {d : Nat} (h : s.step delay (.tick d) = some s') :
    (s.server.phase = .blocked ∨ s.clock + d ≤ s.worker.due + delay) ∧
      s' = { s with clock := s.clock + d } := by
  obtain ⟨hd, h⟩ := Option.ite_none_right_eq_some.mp h
  exact ⟨hd, (Option.some.inj h).symm⟩

theorem step_lock (h : s.step delay .lock = some s') :
    ∃ since, s.worker = .locking since ∧ s.server.phase ≠ .blocked ∧
      s' = { s with worker := .waiting (s.clock + syncWait) } := by
  simp only [step] at h
  split at h
  · rename_i since hw
    obtain ⟨hfree, h⟩ := Option.ite_none_left_eq_some.mp h
    exact ⟨since, hw, hfree, (Option.some.inj h).symm⟩
  · cases h

theorem step_wake (h : s.step delay .wake = some s') :
    ∃ deadline, s.worker = .waiting deadline ∧ s.server.phase ≠ .blocked ∧
      s' = { s with worker := if s.Wants then .syncing s.clock else .locking s.clock } := by
  simp only [step] at h
  split at h
  · rename_i deadline hw
    obtain ⟨hfree, h⟩ := Option.ite_none_left_eq_some.mp h
    exact ⟨deadline, hw, hfree, (Option.some.inj h).symm⟩
  · cases h

theorem step_doSync (h : s.step delay .doSync = some s') :
    ∃ since server, s.worker = .syncing since ∧ s.server.step .doSync = some server ∧
      s' = { s with server := server, worker := .locking s.clock } := by
  simp only [step] at h
  split at h
  · rename_i since hw
    obtain ⟨server, hserver, heq⟩ := Option.map_eq_some_iff.mp h
    exact ⟨since, server, hw, hserver, heq.symm⟩
  · cases h

theorem step_call {a : Server.Action} (h : s.step delay (.call a) = some s') :
    ∃ server, s.server.step a = some server ∧ s' = { s with server := server } := by
  obtain ⟨_, h⟩ := Option.ite_none_left_eq_some.mp h
  obtain ⟨server, hserver, heq⟩ := Option.map_eq_some_iff.mp h
  exact ⟨server, hserver, heq.symm⟩

theorem step_server {a : Action} (h : s.step delay a = some s') :
    s'.server = s.server ∨ ∃ b, s.server.step b = some s'.server := by
  cases a with
  | tick d => obtain ⟨_, rfl⟩ := step_tick h; exact .inl rfl
  | lock => obtain ⟨_, _, _, rfl⟩ := step_lock h; exact .inl rfl
  | wake => obtain ⟨_, _, _, rfl⟩ := step_wake h; exact .inl rfl
  | doSync => obtain ⟨_, server, _, hserver, rfl⟩ := step_doSync h; exact .inr ⟨_, hserver⟩
  | call a => obtain ⟨server, hserver, rfl⟩ := step_call h; exact .inr ⟨_, hserver⟩

theorem reaches_server (h : Reaches (step delay) s s') :
    Reaches Server.step s.server s'.server := by
  apply h.inv (P := fun t => Reaches Server.step s.server t.server) ?_ .refl
  intro t a t' ht hs
  rcases step_server hs with heq | ⟨b, hb⟩
  · rw [heq]
    exact ht
  · exact ht.trans (.single hb)

end Clocked

namespace Server

variable {s s' : Server}

theorem step_recovering {a : Action} (h : s.phase ≠ .idle → s.node.master.curpState = .recovering)
    (hs : s.step a = some s') (hphase : s'.phase ≠ .idle) :
    s'.node.master.curpState = .recovering := by
  cases a with
  | check op =>
    rw [step_check hs, checkState_phase] at hphase
    rw [step_check hs, checkState_node]
    exact h hphase
  | body k =>
    obtain ⟨op, _, _, rfl⟩ := step_body hs
    exact (proposeBody_curpState _ _).trans (h hphase)
  | record client masterId q now =>
    obtain ⟨hm, _, hp, _⟩ := step_record hs
    rw [hm]
    exact h (hp ▸ hphase)
  | doSync =>
    obtain ⟨_, rfl⟩ := step_doSync hs
    exact (doSync_curpState _ _).trans (h hphase)
  | start =>
    obtain ⟨_, rfl⟩ := step_start hs
    rfl
  | fetch records =>
    obtain ⟨hp, _, rfl⟩ := step_fetch hs
    show s.node.fetch.1.master.curpState = .recovering
    rw [CurpNode.fetch_master]
    exact h (by rw [hp]; intro heq; cases heq)
  | replay =>
    obtain ⟨records, hp, rfl⟩ := step_replay hs
    exact (replayOps_curpState _ _).trans (h (by rw [hp]; intro heq; cases heq))
  | finalSync =>
    obtain ⟨hp, rfl | rfl⟩ := step_finalSync hs
    · exact h (by rw [hp]; intro heq; cases heq)
    · exact h (by rw [hp]; intro heq; cases heq)
  | finish =>
    obtain ⟨_, rfl⟩ := step_finish hs
    exact absurd rfl hphase

theorem step_blocked {a : Action} (h : s.phase = .blocked) (hs : s.step a = some s') :
    s'.phase = .blocked := by
  cases a with
  | check op => rw [step_check hs, checkState_phase, h]
  | body k => obtain ⟨_, _, hfree, _⟩ := step_body hs; exact absurd h hfree
  | record client masterId q now => rw [(step_record hs).2.2.1, h]
  | doSync => exact absurd h (step_doSync hs).1
  | start => rw [(step_start hs).1] at h; cases h
  | fetch records => rw [(step_fetch hs).1] at h; cases h
  | replay => obtain ⟨_, hp, _⟩ := step_replay hs; rw [hp] at h; cases h
  | finalSync => rw [(step_finalSync hs).1] at h; cases h
  | finish => rw [(step_finish hs).1] at h; cases h

theorem sync_synced (node : CurpNode) : ¬node.sync.Unsynced := by
  rw [CurpNode.Unsynced, not_not]
  by_cases hempty : node.master.unsyncedOps = ∅
  · simp only [CurpNode.sync, doSync_empty hempty, hempty]
  · simp only [CurpNode.sync, doSync_drain hempty, drain_unsyncedOps]

end Server

/-! ## The thread in time -/

namespace Clocked

variable {delay : Nat} {s s' : Clocked}

structure WorkerInv (delay : Nat) (s : Clocked) : Prop where
  state : s.server.phase ≠ .idle → s.server.node.master.curpState = .recovering
  due : s.worker.due ≤ s.clock + syncWait
  begun : (∀ deadline, s.worker ≠ .waiting deadline) → s.worker.due ≤ s.clock
  inTime : s.server.phase ≠ .blocked → s.clock ≤ s.worker.due + delay

theorem init_workerInv (n : UInt64) (localWitness : Option Witness) (clients : List WitnessPeer) :
    WorkerInv delay (init n localWitness clients) where
  state := fun h => absurd rfl h
  due := Nat.zero_le _
  begun := fun _ => Nat.le_refl 0
  inTime := fun _ => Nat.zero_le _

theorem step_state {a : Action} (h : WorkerInv delay s) (hs : s.step delay a = some s') :
    s'.server.phase ≠ .idle → s'.server.node.master.curpState = .recovering := by
  rcases step_server hs with heq | ⟨b, hb⟩
  · rw [heq]
    exact h.state
  · exact Server.step_recovering h.state hb

theorem step_workerInv {a : Action} (h : WorkerInv delay s) (hs : s.step delay a = some s') :
    WorkerInv delay s' := by
  have hstate := step_state h hs
  cases a with
  | tick d =>
    obtain ⟨hd, rfl⟩ := step_tick hs
    refine ⟨hstate, ?_, ?_, ?_⟩
    · exact h.due.trans (Nat.add_le_add_right (Nat.le_add_right _ d) _)
    · intro hw
      exact (h.begun hw).trans (Nat.le_add_right _ d)
    · intro hfree
      exact hd.resolve_left hfree
  | lock =>
    obtain ⟨since, _, _, rfl⟩ := step_lock hs
    refine ⟨hstate, Nat.le_refl _, fun hw => absurd rfl (hw _), fun _ => ?_⟩
    show s.clock ≤ s.clock + syncWait + delay
    omega
  | wake =>
    obtain ⟨deadline, _, _, rfl⟩ := step_wake hs
    have hdue : (if s.Wants then SyncWorker.syncing s.clock else .locking s.clock).due =
        s.clock := by
      split
      · rfl
      · rfl
    refine ⟨hstate, ?_, fun _ => ?_, fun _ => ?_⟩
    · exact hdue.le.trans (Nat.le_add_right _ _)
    · exact hdue.le
    · exact hdue.ge.trans (Nat.le_add_right _ _)
  | doSync =>
    obtain ⟨since, server, _, _, rfl⟩ := step_doSync hs
    exact ⟨hstate, Nat.le_add_right _ _, fun _ => Nat.le_refl _, fun _ => Nat.le_add_right _ _⟩
  | call a =>
    obtain ⟨server, hserver, rfl⟩ := step_call hs
    refine ⟨hstate, h.due, h.begun, fun hfree => h.inTime fun hblocked => ?_⟩
    exact hfree (Server.step_blocked hblocked hserver)

theorem reaches_workerInv (h : Reaches (step delay) s s') (hs : WorkerInv delay s) :
    WorkerInv delay s' :=
  h.inv (fun _ _ _ hi hstep => step_workerInv hi hstep) hs

theorem Wants.free (hw : s.Wants) (h : WorkerInv delay s) : s.server.phase ≠ .blocked := by
  intro hblocked
  have hstate := h.state (by rw [hblocked]; intro heq; cases heq)
  rw [hw.2] at hstate
  cases hstate

/-- How far the thread has come since `t₀`, if there was something to sync all the time. -/
def Behind (delay t₀ : Nat) : SyncWorker → Prop
  | .locking since => since ≤ t₀
  | .waiting deadline => deadline ≤ t₀ + syncWait + delay
  | .syncing since => since ≤ t₀ + syncWait + 2 * delay

structure Waits (delay t₀ : Nat) (s : Clocked) : Prop where
  inv : WorkerInv delay s
  behind : s.server.node.Unsynced → Behind delay t₀ s.worker
  clock : s.clock ≤ t₀ + syncWait + 3 * delay

theorem Behind.due_le {t₀ : Nat} {w : SyncWorker} (h : Behind delay t₀ w) :
    w.due + delay ≤ t₀ + syncWait + 3 * delay := by
  cases w with
  | locking since => simp only [Behind] at h; simp only [SyncWorker.due]; omega
  | waiting deadline => simp only [Behind] at h; simp only [SyncWorker.due]; omega
  | syncing since => simp only [Behind] at h; simp only [SyncWorker.due]; omega

theorem WorkerInv.waits (h : WorkerInv delay s) : Waits delay s.clock s where
  inv := h
  behind := by
    intro _
    cases hw : s.worker with
    | locking since =>
      have hbegun := h.begun (by rw [hw]; intro _ heq; cases heq)
      rwa [hw] at hbegun
    | waiting deadline =>
      have hdue := h.due
      rw [hw] at hdue
      exact hdue.trans (Nat.le_add_right _ _)
    | syncing since =>
      have hdue := h.due
      rw [hw] at hdue
      exact hdue.trans (Nat.le_add_right _ _)
  clock := by omega

theorem step_waits {t₀ : Nat} {a : Action} (h : Waits delay t₀ s) (hw : s.Wants)
    (hs : s.step delay a = some s') : Waits delay t₀ s' := by
  have hinv := step_workerInv h.inv hs
  have hfree := hw.free h.inv
  have hbehind := h.behind hw.1
  have htime := h.inv.inTime hfree
  cases a with
  | tick d =>
    obtain ⟨hd, rfl⟩ := step_tick hs
    exact ⟨hinv, fun _ => hbehind, (hd.resolve_left hfree).trans hbehind.due_le⟩
  | lock =>
    obtain ⟨since, hlocking, _, rfl⟩ := step_lock hs
    refine ⟨hinv, fun _ => ?_, h.clock⟩
    rw [hlocking] at hbehind htime
    show s.clock + syncWait ≤ t₀ + syncWait + delay
    simp only [Behind, SyncWorker.due] at hbehind htime
    omega
  | wake =>
    obtain ⟨deadline, hwaiting, _, rfl⟩ := step_wake hs
    refine ⟨hinv, fun _ => ?_, h.clock⟩
    rw [hwaiting] at hbehind htime
    simp only [if_pos hw, Behind, SyncWorker.due] at hbehind htime ⊢
    omega
  | doSync =>
    obtain ⟨since, server, _, hserver, rfl⟩ := step_doSync hs
    obtain ⟨_, rfl⟩ := Server.step_doSync hserver
    exact ⟨hinv, fun hun => absurd hun (Server.sync_synced _), h.clock⟩
  | call a =>
    obtain ⟨server, _, rfl⟩ := step_call hs
    exact ⟨hinv, fun _ => hbehind, h.clock⟩

/-- The thread comes to a sync without any time passing. -/
def CanSync (delay : Nat) (s : Clocked) : Prop :=
  ∃ s', Reaches (step delay) s s' ∧ s'.clock = s.clock ∧ ¬s'.server.node.Unsynced

theorem CanSync.of_step {a : Action} (hs : s.step delay a = some s') (hclock : s'.clock = s.clock)
    (h : CanSync delay s') : CanSync delay s := by
  obtain ⟨t, ht, heq, hsynced⟩ := h
  exact ⟨t, (Reaches.single hs).trans ht, heq.trans hclock, hsynced⟩

theorem canSync_syncing {since : Nat} (hfree : s.server.phase ≠ .blocked)
    (hworker : s.worker = .syncing since) : CanSync delay s := by
  have hserver : s.server.step .doSync = some { s.server with node := s.server.node.sync } :=
    if_neg hfree
  have hs : s.step delay .doSync = some
      { s with
        server := { s.server with node := s.server.node.sync }
        worker := .locking s.clock } := by
    simp only [step, hworker, hserver, Option.map_some]
  exact ⟨_, .single hs, rfl, Server.sync_synced _⟩

theorem canSync_waiting {deadline : Nat} (hfree : s.server.phase ≠ .blocked) (hw : s.Wants)
    (hworker : s.worker = .waiting deadline) : CanSync delay s := by
  have hs : s.step delay .wake = some { s with worker := .syncing s.clock } := by
    simp only [step, hworker, if_neg hfree, if_pos hw]
  exact .of_step hs rfl (canSync_syncing hfree rfl)

theorem Wants.canSync (hw : s.Wants) (h : WorkerInv delay s) : CanSync delay s := by
  have hfree := hw.free h
  cases hworker : s.worker with
  | locking since =>
    have hs : s.step delay .lock = some { s with worker := .waiting (s.clock + syncWait) } := by
      simp only [step, hworker, if_neg hfree]
    exact .of_step hs rfl (canSync_waiting hfree hw rfl)
  | waiting deadline => exact canSync_waiting hfree hw hworker
  | syncing since => exact canSync_syncing hfree hworker

end Clocked
end TinyKv
