import TinyKv.Raft.Cluster
import TinyKv.Raft.LogSpec
import Mathlib.Data.Fin.VecNotation

/-!
# Raft.Logs

Log Matching over whole runs, with messages delayed, lost, duplicated and reordered.

No node ever makes an entry of its own, so by log matching every log that arises is one of the
initial logs: a request is a slice of one, and `AppendEntries` leaves the log as it is or takes
over the one the slice was cut from (`LogsInv`).
-/

namespace TinyKv

open Lib RaftNode

variable {n : Nat} {logs : Fin n → List Entry}

namespace Cluster

structure LogsInv (logs : Fin n → List Entry) (s : Cluster n (List Entry)) : Prop where
  snapshot : ∀ i, (s.nodes i).lastIncludedIndex = 0
  nodes : ∀ i, ∃ m, (s.nodes i).log = logs m
  calls : ∀ c ∈ s.appendCalls, ∃ m, SliceOf (logs m) c.args

theorem init_logsInv (logs : Fin n → List Entry) : (init logs).LogsInv logs where
  snapshot := fun _ => rfl
  nodes := fun i => ⟨i, rfl⟩
  calls := fun c hc => by cases hc

variable {s s' : Cluster n (List Entry)}

theorem LogsInv.setNode (h : s.LogsInv logs) {i : Fin n} {nd : RaftNode n (List Entry)}
    (hsnap : nd.lastIncludedIndex = (s.nodes i).lastIncludedIndex) (hlog : ∃ m, nd.log = logs m) :
    (s.setNode i nd).LogsInv logs where
  snapshot := forall_setNode (P := fun _ nd => nd.lastIncludedIndex = 0)
    (hsnap.trans (h.snapshot i)) fun j _ => h.snapshot j
  nodes := forall_setNode (P := fun _ nd => ∃ m, nd.log = logs m) hlog fun j _ => h.nodes j
  calls := h.calls

theorem LogsInv.setNode_same (h : s.LogsInv logs) {i : Fin n} {nd : RaftNode n (List Entry)}
    (hsnap : nd.lastIncludedIndex = (s.nodes i).lastIncludedIndex)
    (hlog : nd.log = (s.nodes i).log) : (s.setNode i nd).LogsInv logs :=
  h.setNode hsnap (by rw [hlog]; exact h.nodes i)

theorem LogsInv.frame_election (h : s.LogsInv logs) {i : Fin n} {nd : RaftNode n (List Entry)}
    (hnd : LeavesLog (s.nodes i) nd) (hnodes : s'.nodes = (s.setNode i nd).nodes)
    (hcalls : s'.appendCalls = s.appendCalls) : s'.LogsInv logs := by
  obtain ⟨hsnap, hlogs, hsent⟩ := h.setNode_same hnd.snapshot hnd.log
  constructor
  · rw [hnodes]
    exact hsnap
  · rw [hnodes]
    exact hlogs
  · rw [hcalls]
    exact hsent

theorem step_logsInv (hm : ∀ i j, LogMatching Entry.term (logs i) (logs j)) {dup : Bool}
    {a : Action n} (h : s.LogsInv logs) (hs : s.step dup a = some s') : s'.LogsInv logs := by
  cases a with
  | elect i =>
    obtain ⟨nd, args, he, rfl⟩ := step_elect hs
    exact h.frame_election (elect_leavesLog he) rfl rfl
  | requestVote k =>
    obtain ⟨c, nd, reply, _, hr, rfl⟩ := step_requestVote hs
    exact h.frame_election (requestVote_leavesLog hr) rfl rfl
  | getVoteAnswer k r =>
    obtain ⟨c, reply, nd, got, _, _, _, hv, rfl⟩ := step_getVoteAnswer hs
    exact h.frame_election (getVoteAnswer_leavesLog hv) rfl rfl
  | collectVote k =>
    obtain ⟨c, nd, count, _, _, hv, rfl⟩ := step_collectVote hs
    exact h.frame_election (collectVote_leavesLog hv) rfl rfl
  | sendHeartBeats i =>
    obtain ⟨args, ha, rfl⟩ := step_sendHeartBeats hs
    refine ⟨h.snapshot, h.nodes, ?_⟩
    intro c hc
    cases List.mem_append.mp hc with
    | inl hc =>
      exact h.calls c hc
    | inr hc =>
      obtain ⟨p, hp, rfl⟩ := List.mem_map.mp hc
      obtain ⟨m, hlog⟩ := h.nodes i
      obtain ⟨_, _, hslice, _⟩ := sendHeartBeats_spec (h.snapshot i) ha p hp
      exact ⟨m, by rw [← hlog]; exact hslice⟩
  | appendEntries k =>
    obtain ⟨c, nd, reply, hk, hr, rfl⟩ := step_appendEntries hs
    obtain ⟨m, hslice⟩ := h.calls c (List.mem_of_getElem? hk)
    obtain ⟨m', hlog⟩ := h.nodes c.dst
    have hmatch : LogMatching Entry.term (s.nodes c.dst).log (logs m) := by
      rw [hlog]
      exact hm m' m
    have hnew : ∃ m, nd.log = logs m := by
      rcases appendEntries_slice (h.snapshot c.dst) hmatch hslice hr with
        ⟨_, hnd | ⟨_, hnd⟩⟩ | ⟨_, _, hnd⟩
      · exact ⟨m', by rw [hnd]; exact hlog⟩
      · exact ⟨m', by rw [hnd]; simpa using hlog⟩
      · rw [hnd, followCommit_log]
        cases adopt_eq_or (s.nodes c.dst).log (logs m) with
        | inl ha =>
          exact ⟨m', ha.trans hlog⟩
        | inr ha =>
          exact ⟨m, ha⟩
    have hnode := h.setNode (appendEntries_follows hr).snapshot hnew
    exact ⟨hnode.snapshot, hnode.nodes, forall_mem_set hnode.calls ⟨m, hslice⟩⟩
  | handleAppendEntries k r =>
    obtain ⟨c, reply, nd, hk, _, hnd, rfl⟩ := step_handleAppendEntries hs
    have hnode := h.setNode_same (handleAppendEntries_follows hnd).snapshot
      (handleAppendEntries_log hnd)
    exact ⟨hnode.snapshot, hnode.nodes,
      forall_mem_set hnode.calls (h.calls c (List.mem_of_getElem? hk))⟩

theorem reaches_logsInv (hm : ∀ i j, LogMatching Entry.term (logs i) (logs j)) {dup : Bool}
    (h : Reaches (step dup) (init logs) s) : s.LogsInv logs :=
  h.inv (fun _ _ _ hs hstep => step_logsInv hm hs hstep) (init_logsInv logs)

theorem LogsInv.zero (h : s.LogsInv logs) (h0 : ∀ i, (logs i)[0]? = some ({} : Entry)) (i : Fin n) :
    (s.nodes i).log[0]? = some ({} : Entry) := by
  obtain ⟨m, hlog⟩ := h.nodes i
  rw [hlog]
  exact h0 m

/-- **Log Matching is preserved**, in every state of every run, also when replies are handled more
than once. -/
theorem logMatching_preserved (hm : ∀ i j, LogMatching Entry.term (logs i) (logs j))
    (h : Reaches (step true) (init logs) s) (i j : Fin n) :
    LogMatching Entry.term (s.nodes i).log (s.nodes j).log := by
  have hinv := reaches_logsInv hm h
  obtain ⟨m, hi⟩ := hinv.nodes i
  obtain ⟨m', hj⟩ := hinv.nodes j
  rw [hi, hj]
  exact hm m m'

/-- Two nodes with different logs: node 1 is elected and overwrites the log of node 0. -/
theorem logMatching_preserved_overwrite :
    let logs : Fin 2 → List Entry := ![[{}, { term := 1 }], [{}, { term := 2 }]]
    ∃ s, Reaches (step true) (init logs) s ∧ (s.nodes 0).log = logs 1 ∧
      LogMatching Entry.term (s.nodes 0).log (s.nodes 1).log := by
  intro logs
  have hm : ∀ i j, LogMatching Entry.term (logs i) (logs j) := by decide
  have hrun : ((runs (step true) [.elect 1, .requestVote 0, .getVoteAnswer 0 0, .collectVote 0,
      .sendHeartBeats 1, .appendEntries 0, .handleAppendEntries 0 0, .sendHeartBeats 1,
      .appendEntries 1] (init logs)).any fun s => (s.nodes 0).log == logs 1) = true := by
    decide +kernel
  obtain ⟨s, hs, hlog⟩ := exists_of_runs hrun
  exact ⟨s, hs, by simpa using hlog, logMatching_preserved hm hs 0 1⟩

end Cluster
end TinyKv
