import TinyKv.Curp.Client
import TinyKv.Curp.Execution

/-!
# Curp.SlowPath

Whether client and master mean the same by a reply.

A master that cannot execute an operation on the fast path answers with `success = false` and
`need_sync = true`. The client looks at `success` first and gives up; it never gets to the branch
that would send the sync.

`slow_path_iff`: the client keeps to the slow path iff the master does not ask for it. What it
reports as written is executed in any case.
-/

namespace TinyKv

open Lib CurpMaster

namespace CurpClient

/-- If the master asks for a sync, the client does not report failure without sending one. -/
def KeepsSlowPath (m : CurpMaster) (op : CurpOp) (write : ParallelWrite) : Prop :=
  (m.propose op).2.needSync = true → write.result.success = false → write.syncSent = true

variable {m : CurpMaster} {op : CurpOp}

theorem finishWrite_failed {resp : ProposeResponse} (h : resp.success = false)
    (accepted witnessCount : Nat) (syncReply : Bool) :
    finishWrite resp accepted witnessCount syncReply = (⟨false, false, 1, resp.error⟩, false) := by
  rw [finishWrite, if_pos (by rw [h]; simp)]

theorem success_of_finishWrite {resp : ProposeResponse} {accepted witnessCount : Nat}
    {syncReply : Bool}
    (h : (finishWrite resp accepted witnessCount syncReply).1.success = true) :
    resp.success = true := by
  by_contra hfail
  rw [finishWrite_failed (by simpa using hfail)] at h
  cases h

theorem propose_needSync (hstate : m.curpState = .normal) (op : CurpOp) :
    (m.propose op).2.needSync = true ↔ ¬m.isExecuted op.rpcId ∧ op.key ∈ m.unsyncedKeys := by
  obtain ⟨m', res, hp⟩ : ∃ m' res, m.proposeBody op = (m', res) := ⟨_, _, rfl⟩
  rw [propose_eq (by rw [hstate]; decide), hp]
  rcases proposeBody_cases hp with ⟨hex, rfl, _⟩ | ⟨_, hkey, rfl, _⟩ | ⟨hex, hkey, rfl, _⟩
  · exact ⟨nofun, fun h => absurd hex h.1⟩
  · exact ⟨nofun, fun h => absurd h.2 hkey⟩
  · exact ⟨fun _ => ⟨hex, hkey⟩, fun _ => rfl⟩

theorem propose_success (h : (m.propose op).2.success = true) :
    (m.propose op).1.isExecuted op.rpcId := by
  obtain ⟨m', res, hp⟩ : ∃ m' res, m.propose op = (m', res) := ⟨_, _, rfl⟩
  rw [hp] at h ⊢
  rcases propose_cases hp with ⟨hfail, _⟩ | ⟨_, hex, _, rfl⟩ | ⟨_, _, _, _, rfl⟩
  · rw [hfail] at h
    cases h
  · exact hex
  · exact (executeFast_isExecuted m op).mpr (.inl rfl)

theorem propose_refused (hstate : m.curpState = .normal)
    (h : (m.propose op).2.needSync = true) : (m.propose op).2.success = false := by
  obtain ⟨hnew, hkey⟩ := (propose_needSync hstate op).mp h
  rw [propose_eq (by rw [hstate]; decide), proposeBody, if_neg hnew, if_neg]
  rw [canSpeculativeExecute_iff, not_not]
  exact hkey

/-- **Client and master on the slow path.** The client keeps to it iff the master does not take it:
the operation is executed already or its key is free. A reported success is of an operation that
the master has executed, for good. -/
theorem slow_path_iff (c : CurpClient) (m : CurpMaster) (op : CurpOp) (peers : List WitnessPeer)
    (syncReply : Bool) :
    (m.curpState = .normal → (KeepsSlowPath m op (c.parallelWrite m op peers syncReply) ↔
      m.isExecuted op.rpcId ∨ op.key ∉ m.unsyncedKeys)) ∧
    ((c.parallelWrite m op peers syncReply).result.success = true →
      ∀ m', Reaches CurpMaster.step (c.parallelWrite m op peers syncReply).master m' →
        m'.isExecuted op.rpcId) := by
  constructor
  · intro hstate
    rw [← not_iff_not, not_or, not_not, ← propose_needSync hstate op]
    constructor
    · intro hno
      by_contra hask
      exact hno fun h => absurd h hask
    · intro hask hkeeps
      have hresp : (ProposeResponse.ofResult (m.propose op).2).success = false :=
        propose_refused hstate hask
      have hsent := hkeeps hask
      simp only [parallelWrite, finishWrite_failed hresp] at hsent
      cases hsent trivial
  · intro hsuccess m' hrun
    exact reaches_executed (propose_success (success_of_finishWrite hsuccess)) hrun

section Example

def firstPut : CurpOp := { rpcId := 1, clientId := 1, type := .put, key := [107], value := [1] }

def secondPut : CurpOp := { rpcId := 2, clientId := 1, type := .put, key := [107], value := [2] }

/-- On a fresh master the first put takes the fast path, with or without a witness. -/
theorem slow_path_fresh : KeepsSlowPath (CurpMaster.init 0) firstPut
    (parallelWrite { clientId := 1 } (CurpMaster.init 0) firstPut [⟨{}, .requestLost, 0⟩] true) :=
  ((slow_path_iff { clientId := 1 } (CurpMaster.init 0) firstPut [⟨{}, .requestLost, 0⟩] true).1
    rfl).mpr (.inr (by decide))

/-- The second put on the key is asked to sync; the client fails it without sending the sync. -/
theorem slow_path_given_up : ∃ m, Reaches CurpMaster.step (CurpMaster.init 0) m ∧
    m.curpState = .normal ∧ (m.propose secondPut).2.needSync = true ∧
    let write := parallelWrite { clientId := 1 } m secondPut [⟨{}, .ok, 0⟩] true
    write.result = ⟨false, false, 1, "key conflict"⟩ ∧ write.syncSent = false := by
  have hrun : ((runs CurpMaster.step [.propose firstPut] (CurpMaster.init 0)).any fun m =>
      decide (m.curpState = .normal ∧ (m.propose secondPut).2.needSync = true ∧
        (parallelWrite { clientId := 1 } m secondPut [⟨{}, .ok, 0⟩] true).result =
          ⟨false, false, 1, "key conflict"⟩ ∧
        (parallelWrite { clientId := 1 } m secondPut [⟨{}, .ok, 0⟩] true).syncSent = false)) =
      true := by decide +kernel
  obtain ⟨m, hr, hs⟩ := exists_of_runs hrun
  exact ⟨m, hr, of_decide_eq_true hs⟩

end Example

end CurpClient
end TinyKv
