import TinyKv.Lib.Refine
import TinyKv.Raft.Logs
import TinyKv.Storage.LogVecRep
import TinyKv.Storage.Proto

/-!
# Raft.OnFiles

The cluster whose nodes keep their logs in files refines the cluster on lists of entries.

* `withLog`: the same node on another log. Where two logs read alike (`Mirrors`), every function of
  the node that only reads its log computes the same on both.
* `LogRefines`: what a log has to offer beyond that, for `AppendEntries` to be refined.
* `files_refine_lists`: every run of the cluster on files is one of the cluster on the lists that
  the files represent, with the same terms, votes, indices and messages; so what holds of lists in
  every run holds of what the nodes read from their files (`files_match`).
-/

namespace TinyKv

open Lib

variable {n : Nat} {L L' : Type}

namespace RaftNode

/-- The node on another log. -/
@[simps]
def withLog (nd : RaftNode n L) (log : L') : RaftNode n L' where
  curNodeId := nd.curNodeId
  currentTerm := nd.currentTerm
  votedFor := nd.votedFor
  log := log
  nextIndex := nd.nextIndex
  matchIndex := nd.matchIndex
  role := nd.role
  commitIndex := nd.commitIndex
  lastIncludedIndex := nd.lastIncludedIndex

@[simp] theorem withLog_virtualLogIdx (nd : RaftNode n L) (log : L') (i : Nat) :
    (nd.withLog log).virtualLogIdx i = nd.virtualLogIdx i := rfl

@[simp] theorem withLog_realLogIdx (nd : RaftNode n L) (log : L') (i : Nat) :
    (nd.withLog log).realLogIdx i = nd.realLogIdx i := rfl

@[simp] theorem observeTerm_withLog (nd : RaftNode n L) (log : L') (term : Int) :
    (nd.withLog log).observeTerm term = (nd.observeTerm term).withLog log := by
  simp only [observeTerm, withLog_currentTerm]
  split
  · rfl
  · rfl

@[simp] theorem getVoteAnswer_withLog (nd : RaftNode n L) (log : L') (request : RequestVoteArgs)
    (reply : RequestVoteReply) : (nd.withLog log).getVoteAnswer request reply =
      ((nd.getVoteAnswer request reply).1.withLog log, (nd.getVoteAnswer request reply).2) := by
  simp only [getVoteAnswer, withLog_role, withLog_currentTerm]
  split
  · rfl
  · split
    · rfl
    · rfl

end RaftNode

variable [Log L] [Log L']

structure Mirrors (log : L) (log' : L') : Prop where
  size : Log.size log' = Log.size log
  get : ∀ i, Log.get log' i = Log.get log i

theorem Mirrors.entriesFrom {log : L} {log' : L'} (h : Mirrors log log') (start : Nat) :
    RaftNode.entriesFrom log' start = RaftNode.entriesFrom log start := by
  simp only [RaftNode.entriesFrom, h.size, funext h.get]

namespace RaftNode

section Reads

variable {nd : RaftNode n L} {log' : L'} (h : Mirrors nd.log log')
include h

theorem lastIdx_withLog : (nd.withLog log').lastIdx = nd.lastIdx := by
  simp [lastIdx, h.size]

theorem lastTerm_withLog : (nd.withLog log').lastTerm = nd.lastTerm := by
  simp [lastTerm, h.size, h.get]

theorem elect_withLog : (nd.withLog log').elect =
    nd.elect.map fun p => (p.1.withLog log', p.2) := by
  simp only [elect, lastTerm_withLog h, lastIdx_withLog h]
  cases nd.lastTerm with
  | none => rfl
  | some last => rfl

theorem requestVote_withLog (request : RequestVoteArgs) :
    (nd.withLog log').requestVote request =
      (nd.requestVote request).map fun p => (p.1.withLog log', p.2) := by
  have h' : Mirrors (nd.observeTerm request.term).log log' := by simpa using h
  simp only [requestVote, observeTerm_withLog, lastTerm_withLog h', lastIdx_withLog h',
    withLog_currentTerm, withLog_votedFor]
  split
  · rfl
  · split
    · cases (nd.observeTerm request.term).lastTerm with
      | none => rfl
      | some last =>
        simp only [Option.bind_eq_bind, Option.bind_some]
        split
        · rfl
        · rfl
    · rfl

theorem collectVote_withLog (args : RequestVoteArgs) (voteCount : Nat) :
    (nd.withLog log').collectVote args voteCount =
      ((nd.collectVote args voteCount).1.withLog log', (nd.collectVote args voteCount).2) := by
  simp only [collectVote, withLog_role, withLog_currentTerm, withLog_log, h.size]
  split
  · rfl
  · split
    · split
      · rfl
      · rfl
    · rfl

theorem conflictStart_withLog (xTerm : Int) (i : Nat) :
    (nd.withLog log').conflictStart xTerm i = nd.conflictStart xTerm i := by
  induction i with
  | zero => rfl
  | succ i ih => simp [conflictStart, h.get, ih]

theorem heartBeatArgs_withLog (i : Fin n) :
    (nd.withLog log').heartBeatArgs i = nd.heartBeatArgs i := by
  simp [heartBeatArgs, newEntries, lastIdx_withLog h, h.entriesFrom, h.get]

theorem sendHeartBeats_withLog : (nd.withLog log').sendHeartBeats = nd.sendHeartBeats := by
  simp [sendHeartBeats, heartBeatArgs_withLog h]

theorem commitCount_withLog (N : Nat) : (nd.withLog log').commitCount N = nd.commitCount N := by
  have hpeer : (nd.withLog log').countPeer N = nd.countPeer N := by
    funext count i
    simp [countPeer, h.get]
  simp [commitCount, hpeer]

theorem commitScan_withLog (N : Nat) : (nd.withLog log').commitScan N = nd.commitScan N := by
  induction N with
  | zero => rfl
  | succ N ih => simp [commitScan, commitCount_withLog h, ih]

theorem termScan_withLog (xTerm : Int) (i : Nat) :
    (nd.withLog log').termScan xTerm i = nd.termScan xTerm i := by
  induction i with
  | zero => rfl
  | succ i ih => simp [termScan, h.get, ih]

theorem backUp_withLog (targetNode : Fin n) (reply : AppendEntriesReply) :
    (nd.withLog log').backUp targetNode reply = nd.backUp targetNode reply := by
  simp [backUp, termScan_withLog h, h.get]

theorem followCommit_withLog (leaderCommit : Int) :
    (nd.withLog log').followCommit leaderCommit =
      (nd.followCommit leaderCommit).withLog log' := by
  simp only [followCommit, lastIdx_withLog h, withLog_commitIndex]
  split
  · split
    · rfl
    · rfl
  · rfl

theorem handleAppendEntries_withLog (targetNode : Fin n) (args : AppendEntriesArgs)
    (reply : AppendEntriesReply) : (nd.withLog log').handleAppendEntries targetNode args reply =
      (nd.handleAppendEntries targetNode args reply).map (withLog · log') := by
  simp only [handleAppendEntries, withLog_role, withLog_currentTerm, withLog_matchIndex]
  split
  · rfl
  · split
    · -- the commit scan runs on the node with its new indices
      generalize hmatched : (if gtU64 _ _ then _ else _ : Nat) = matched
      let nd' : RaftNode n L := { nd with
        matchIndex := Function.update nd.matchIndex targetNode matched
        nextIndex := Function.update nd.nextIndex targetNode (matched + 1) }
      have h' : Mirrors nd'.log log' := h
      show (do
        let N ← (nd'.withLog log').commitScan (nd'.withLog log').lastIdx
        return { nd'.withLog log' with commitIndex := N }) = Option.map _ (do
        let N ← nd'.commitScan nd'.lastIdx
        return { nd' with commitIndex := N })
      rw [lastIdx_withLog h', commitScan_withLog h']
      cases nd'.commitScan nd'.lastIdx with
      | none => rfl
      | some N => rfl
    · split
      · rfl
      · split
        · rw [backUp_withLog h]
          cases nd.backUp targetNode reply with
          | none => rfl
          | some next => rfl
        · rfl

end Reads

end RaftNode

/-- `R` relates a log to one that reads alike and stays so in all that the node does. `P` is what
holds of the entries in the log, and has to hold of those that come into it. -/
structure LogRefines (P : Entry → Prop) (R : L → L' → Prop) : Prop where
  mirrors : ∀ log log', R log log' → Mirrors log log'
  reads : ∀ log log' i e, R log log' → Log.get log i = some e → P e
  pushBack : ∀ log log' e, R log log' → P e →
    Refines R (Log.pushBack log e) (Log.pushBack log' e)
  truncateFrom : ∀ log log' i, R log log' →
    Refines R (Log.truncateFrom log i) (Log.truncateFrom log' i)

/-- The node `t` is `nd` on a log that `R` allows. -/
def NodeRefines (R : L → L' → Prop) (nd : RaftNode n L) (t : RaftNode n L') : Prop :=
  ∃ log', t = nd.withLog log' ∧ R nd.log log'

/-- The same of a node with a reply. -/
def ReplyRefines {ρ : Type} (R : L → L' → Prop) (p : RaftNode n L × ρ) (q : RaftNode n L' × ρ) :
    Prop :=
  NodeRefines R p.1 q.1 ∧ p.2 = q.2

section Writes

open RaftNode

variable {P : Entry → Prop} {R : L → L' → Prop} (hR : LogRefines P R)
include hR

theorem LogRefines.pushAll {log : L} {log' : L'} (h : R log log') {es : List Entry}
    (hes : ∀ e ∈ es, P e) : Refines R (es.foldlM Log.pushBack log) (es.foldlM Log.pushBack log') :=
  Refines.foldlM es (fun e he log log' h => hR.pushBack log log' e h (hes e he)) h

theorem LogRefines.mergeEntries {log : L} {log' : L'} (h : R log log') (es : List Entry) :
    ∀ ridx, (∀ e ∈ es, P e) →
      Refines R (RaftNode.mergeEntries log ridx es) (RaftNode.mergeEntries log' ridx es) := by
  have hm := hR.mirrors log log' h
  induction es with
  | nil => intro ridx _; exact .some h
  | cons e es ih =>
    intro ridx hes
    simp only [RaftNode.mergeEntries, hm.size, hm.get]
    split
    · refine .bind_same fun cur hcur => ?_
      split
      · exact (hR.truncateFrom log log' ridx h).bind fun _ _ h' => hR.pushAll h' hes
      · exact ih (ridx + 1) fun e he => hes e (List.mem_cons_of_mem _ he)
    · split
      · exact hR.pushAll h hes
      · exact ih (ridx + 1) fun e he => hes e (List.mem_cons_of_mem _ he)

theorem LogRefines.appendEntries {nd : RaftNode n L} {log' : L'} (h : R nd.log log')
    {request : AppendEntriesArgs} (hes : ∀ e ∈ request.entries, P e) :
    Refines (ReplyRefines R) (nd.appendEntries request)
      ((nd.withLog log').appendEntries request) := by
  have h' : R (nd.observeTerm request.term).log log' := by simpa using h
  have hm := hR.mirrors _ _ h'
  simp only [RaftNode.appendEntries, observeTerm_withLog, withLog_currentTerm, withLog_log,
    withLog_virtualLogIdx, withLog_realLogIdx, withLog_lastIncludedIndex, hm.size, hm.get,
    conflictStart_withLog hm]
  split
  · exact .some ⟨⟨log', rfl, h⟩, rfl⟩
  · split
    · exact .some ⟨⟨log', rfl, h'⟩, rfl⟩
    · split
      · exact .some ⟨⟨log', rfl, h'⟩, rfl⟩
      · refine .bind_same fun e _ => ?_
        split
        · refine .bind_same fun i _ => ?_
          exact .some ⟨⟨log', rfl, h'⟩, rfl⟩
        · refine (hR.mergeEntries h' request.entries _ hes).bind fun log₁ log₁' h₁ => ?_
          let nd₁ : RaftNode n L := { nd.observeTerm request.term with log := log₁ }
          have hm₁ : Mirrors nd₁.log log₁' := hR.mirrors _ _ h₁
          have hfollow := followCommit_withLog hm₁ request.leaderCommit
          refine .some ⟨⟨log₁', hfollow, ?_⟩, rfl⟩
          rw [followCommit_log]
          exact h₁

theorem LogRefines.entriesFrom {log : L} {log' : L'} (h : R log log') {start : Nat}
    {es : List Entry} (hes : RaftNode.entriesFrom log start = some es) : ∀ e ∈ es, P e := by
  intro e he
  obtain ⟨i, _, hi⟩ := exists_of_mem_mapM hes e he
  exact hR.reads log log' i e h hi

theorem LogRefines.heartBeatArgs {nd : RaftNode n L} {log' : L'} (h : R nd.log log') {i : Fin n}
    {args : AppendEntriesArgs} (hs : nd.heartBeatArgs i = some (some args)) :
    ∀ e ∈ args.entries, P e := by
  simp only [RaftNode.heartBeatArgs] at hs
  split at hs
  · cases hs
  · split at hs
    · cases hs
    · simp only [Option.bind_eq_bind, Option.bind_eq_some_iff, Option.pure_def,
        Option.some.injEq] at hs
      obtain ⟨es, hes, _, _, rfl⟩ := hs
      rw [newEntries] at hes
      split at hes
      · exact hR.entriesFrom h hes
      · cases hes
        intro e he
        cases he

theorem LogRefines.sendHeartBeats {nd : RaftNode n L} {log' : L'} (h : R nd.log log')
    {calls : List (Fin n × AppendEntriesArgs)} (hs : nd.sendHeartBeats = some calls) :
    ∀ p ∈ calls, ∀ e ∈ p.2.entries, P e := by
  intro p hp
  rw [RaftNode.sendHeartBeats] at hs
  split at hs
  · cases hs
    cases hp
  · simp only [Option.bind_eq_bind, Option.bind_eq_some_iff, Option.pure_def,
      Option.some.injEq] at hs
    obtain ⟨pairs, hpairs, rfl⟩ := hs
    obtain ⟨⟨i, args⟩, hmem, hargs⟩ := List.mem_filterMap.mp hp
    obtain ⟨a, rfl, rfl⟩ := Option.map_eq_some_iff.mp hargs
    obtain ⟨j, _, hj⟩ := exists_of_mem_mapM hpairs _ hmem
    obtain ⟨_, hbeat, heq⟩ := Option.map_eq_some_iff.mp hj
    cases heq
    exact hR.heartBeatArgs h hbeat

end Writes

/-! ## The cluster -/

namespace Cluster

/-- The two clusters agree in all but their logs, which `R` relates, and only entries with `P` are
on the way. -/
structure Represents (P : Entry → Prop) (R : L → L' → Prop) (s : Cluster n L) (t : Cluster n L') :
    Prop where
  nodes : ∀ i, NodeRefines R (s.nodes i) (t.nodes i)
  voteCount : t.voteCount = s.voteCount
  voteCalls : t.voteCalls = s.voteCalls
  appendCalls : t.appendCalls = s.appendCalls
  entries : ∀ c ∈ s.appendCalls, ∀ e ∈ c.args.entries, P e

variable {P : Entry → Prop} {R : L → L' → Prop} {s : Cluster n L} {t : Cluster n L'}

section Frame

omit [Log L] [Log L']

theorem Represents.setNode (h : Represents P R s t) (i : Fin n) {nd : RaftNode n L}
    {nd' : RaftNode n L'} (hnd : NodeRefines R nd nd') :
    Represents P R (s.setNode i nd) (t.setNode i nd') where
  nodes := by
    intro j
    rw [setNode_nodes, setNode_nodes]
    split
    · exact hnd
    · exact h.nodes j
  voteCount := h.voteCount
  voteCalls := h.voteCalls
  appendCalls := h.appendCalls
  entries := h.entries

theorem Represents.setVoteCall (h : Represents P R s t) (k : Nat) (c : VoteCall n) :
    Represents P R (s.setVoteCall k c) (t.setVoteCall k c) :=
  { h with voteCalls := by rw [setVoteCall_voteCalls, setVoteCall_voteCalls, h.voteCalls] }

theorem Represents.setCount (h : Represents P R s t) (i : Fin n) (term : Int) (count : Nat) :
    Represents P R (s.setCount i term count) (t.setCount i term count) :=
  { h with voteCount := by simp only [Cluster.setCount, h.voteCount] }

theorem Represents.addVoteCalls (h : Represents P R s t) (cs : List (VoteCall n)) :
    Represents P R (s.addVoteCalls cs) (t.addVoteCalls cs) :=
  { h with voteCalls := by rw [addVoteCalls_voteCalls, addVoteCalls_voteCalls, h.voteCalls] }

theorem Represents.setAppendCall (h : Represents P R s t) (k : Nat) {c : AppendCall n}
    (hc : ∀ e ∈ c.args.entries, P e) :
    Represents P R (s.setAppendCall k c) (t.setAppendCall k c) :=
  { h with
    appendCalls := by rw [setAppendCall_appendCalls, setAppendCall_appendCalls, h.appendCalls]
    entries := forall_mem_set h.entries hc }

theorem Represents.addAppendCalls (h : Represents P R s t) {cs : List (AppendCall n)}
    (hcs : ∀ c ∈ cs, ∀ e ∈ c.args.entries, P e) :
    Represents P R (s.addAppendCalls cs) (t.addAppendCalls cs) :=
  { h with
    appendCalls := by rw [addAppendCalls_appendCalls, addAppendCalls_appendCalls, h.appendCalls]
    entries := fun c hc => (List.mem_append.mp hc).elim (h.entries c) (hcs c) }

theorem init_represents {logs : Fin n → L} {logs' : Fin n → L'} (h : ∀ i, R (logs i) (logs' i)) :
    Represents P R (init logs) (init logs') where
  nodes := fun i => ⟨logs' i, rfl, h i⟩
  voteCount := rfl
  voteCalls := rfl
  appendCalls := rfl
  entries := fun c hc => by cases hc

end Frame

theorem step_represents (hR : LogRefines P R) (dup : Bool) (a : Action n)
    (h : Represents P R s t) : Refines (Represents P R) (s.step dup a) (t.step dup a) := by
  cases a with
  | elect i =>
    obtain ⟨log', hnode, hlog⟩ := h.nodes i
    simp only [step, hnode, RaftNode.elect_withLog (hR.mirrors _ _ hlog)]
    refine Refines.bind (R := ReplyRefines R) (.map_right fun p hp => ?_) ?_
    · refine ⟨⟨log', rfl, ?_⟩, rfl⟩
      rw [(RaftNode.elect_leavesLog hp).log]
      exact hlog
    · rintro ⟨nd, args⟩ ⟨nd', _⟩ ⟨hnd, rfl⟩
      exact .some (((h.setNode i hnd).setCount i args.term 1).addVoteCalls _)
  | requestVote k =>
    simp only [step, h.voteCalls]
    refine .bind_same fun c hc => ?_
    obtain ⟨log', hnode, hlog⟩ := h.nodes c.dst
    rw [hnode, RaftNode.requestVote_withLog (hR.mirrors _ _ hlog)]
    refine Refines.bind (R := ReplyRefines R) (.map_right fun p hp => ?_) ?_
    · refine ⟨⟨log', rfl, ?_⟩, rfl⟩
      rw [(RaftNode.requestVote_leavesLog hp).log]
      exact hlog
    · rintro ⟨nd, reply⟩ ⟨nd', _⟩ ⟨hnd, rfl⟩
      exact .some ((h.setNode c.dst hnd).setVoteCall k _)
  | getVoteAnswer k r =>
    simp only [step, h.voteCalls]
    refine .bind_same fun c hc => .bind_same fun reply hr => ?_
    obtain ⟨log', hnode, hlog⟩ := h.nodes c.src
    rw [hnode, RaftNode.getVoteAnswer_withLog]
    have hleaves : RaftNode.LeavesLog (s.nodes c.src)
        ((s.nodes c.src).getVoteAnswer c.args reply).1 := RaftNode.getVoteAnswer_leavesLog rfl
    split
    · refine .some ((h.setNode c.src ⟨log', rfl, ?_⟩).setVoteCall k _)
      rw [hleaves.log]
      exact hlog
    · exact .none
  | collectVote k =>
    simp only [step, h.voteCalls]
    refine .bind_same fun c hc => ?_
    obtain ⟨log', hnode, hlog⟩ := h.nodes c.src
    rw [hnode, h.voteCount, RaftNode.collectVote_withLog (hR.mirrors _ _ hlog)]
    have hleaves : RaftNode.LeavesLog (s.nodes c.src)
        ((s.nodes c.src).collectVote c.args (s.voteCount c.src c.args.term)).1 :=
      RaftNode.collectVote_leavesLog rfl
    split
    · have hnext := (h.setNode c.src ⟨log', rfl, by rw [hleaves.log]; exact hlog⟩).setCount
        c.src c.args.term ((s.nodes c.src).collectVote c.args (s.voteCount c.src c.args.term)).2
      exact .some (hnext.setVoteCall k _)
    · exact .none
  | sendHeartBeats i =>
    obtain ⟨log', hnode, hlog⟩ := h.nodes i
    simp only [step, hnode, RaftNode.sendHeartBeats_withLog (hR.mirrors _ _ hlog)]
    refine .bind_same fun calls hcalls => .some (h.addAppendCalls ?_)
    intro c hc
    obtain ⟨p, hp, rfl⟩ := List.mem_map.mp hc
    exact hR.sendHeartBeats hlog hcalls p hp
  | appendEntries k =>
    simp only [step, h.appendCalls]
    refine .bind_same fun c hc => ?_
    obtain ⟨log', hnode, hlog⟩ := h.nodes c.dst
    have hentries := h.entries c (List.mem_of_getElem? hc)
    rw [hnode]
    refine (hR.appendEntries hlog hentries).bind ?_
    rintro ⟨nd, reply⟩ ⟨nd', _⟩ ⟨hnd, rfl⟩
    exact .some ((h.setNode c.dst hnd).setAppendCall k hentries)
  | handleAppendEntries k r =>
    simp only [step, h.appendCalls]
    refine .bind_same fun c hc => .bind_same fun reply hr => ?_
    obtain ⟨log', hnode, hlog⟩ := h.nodes c.src
    have hentries := h.entries c (List.mem_of_getElem? hc)
    rw [hnode, RaftNode.handleAppendEntries_withLog (hR.mirrors _ _ hlog)]
    split
    · refine Refines.bind (R := NodeRefines R) (.map_right fun nd hnd => ⟨log', rfl, ?_⟩) ?_
      · rw [RaftNode.handleAppendEntries_log hnd]
        exact hlog
      · exact fun nd nd' hnd => .some ((h.setNode c.src hnd).setAppendCall k hentries)
    · exact .none

theorem reaches_represents (hR : LogRefines P R) {dup : Bool} {logs : Fin n → L}
    {logs' : Fin n → L'} (h0 : ∀ i, R (logs i) (logs' i))
    (h : Reaches (step dup) (init logs) s) :
    ∃ t, Reaches (step dup) (init logs') t ∧ Represents P R s t :=
  h.refines (fun _ _ a hr => step_represents hR dup a hr) (init_represents h0)

end Cluster

/-! ## Files -/

section Files

variable [FileSystem] [EntryCodec]

/-- The files hold the entries, and protobuf reads each of them back. -/
structure Holds (lv : LogVec) (xs : List Entry) : Prop where
  rep : Rep lv xs
  roundTrips : ∀ e ∈ xs, e.RoundTrips

theorem files_logRefines : LogRefines Entry.RoundTrips Holds where
  mirrors := fun lv xs h =>
    ⟨h.rep.count.symm, fun i => (get_rep h.rep h.roundTrips i).symm⟩
  reads := by
    intro lv xs i e h he
    have he : xs[i]? = some e := (get_rep h.rep h.roundTrips i).symm.trans he
    exact h.roundTrips e (List.mem_of_getElem? he)
  pushBack := by
    intro lv xs e h hp lv' hlv
    refine ⟨xs ++ [e], rfl, pushBack_rep h.rep hlv, ?_⟩
    intro x hx
    rcases List.mem_append.mp hx with hx | hx
    · exact h.roundTrips x hx
    · rw [List.mem_singleton.mp hx]
      exact hp
  truncateFrom := by
    intro lv xs i h lv' hlv
    obtain ⟨lv₁, hlv₁, hrep, _⟩ := truncateFrom_rep h.rep i
    obtain rfl : lv₁ = lv' := Option.some.inj (hlv₁.symm.trans hlv)
    exact ⟨xs.take i, rfl, hrep, fun e he => h.roundTrips e (List.mem_of_mem_take he)⟩

/-- A log in a fresh directory, with the entries pushed one after the other. -/
def onFile (xs : List Entry) : Option LogVec := xs.foldlM LogVec.pushBack (LogVec.create {})

theorem onFile_holds {xs : List Entry} {lv : LogVec} (hxs : ∀ e ∈ xs, e.RoundTrips)
    (h : onFile xs = some lv) : Holds lv xs := by
  have hempty : Holds (LogVec.create {}) [] := ⟨create_rep, List.forall_mem_nil _⟩
  obtain ⟨ys, hys, hlv⟩ := files_logRefines.pushAll hempty hxs lv h
  obtain rfl : xs = ys := by simpa [RaftNode.foldlM_pushBack] using hys
  exact hlv

variable {n : Nat} {dup : Bool} {lvs : Fin n → LogVec} {logs : Fin n → List Entry}
  {s : Cluster n LogVec}

/-- Two nodes on new files, and a run of them that is found by evaluation. -/
theorem exists_on_files (logs : Fin 2 → List Entry) (as : List (Action 2))
    (p : Cluster 2 LogVec → Bool)
    (h : ((onFile (logs 0)).any fun lv₀ => (onFile (logs 1)).any fun lv₁ =>
      (runs (Cluster.step true) as (Cluster.init ![lv₀, lv₁])).any p) = true) :
    ∃ (lvs : Fin 2 → LogVec) (s : Cluster 2 LogVec), (∀ i, onFile (logs i) = some (lvs i)) ∧
      Reaches (Cluster.step true) (Cluster.init lvs) s ∧ p s = true := by
  obtain ⟨lv₀, h₀, h⟩ := (Option.any_eq_true _ _).mp h
  obtain ⟨lv₁, h₁, h⟩ := (Option.any_eq_true _ _).mp h
  obtain ⟨s, hs, hp⟩ := exists_of_runs h
  exact ⟨![lv₀, lv₁], s, Fin.forall_fin_two.mpr ⟨h₀, h₁⟩, hs, hp⟩

/-- **The cluster on files refines the cluster on lists.** -/
theorem files_refine_lists (h0 : ∀ i, Holds (lvs i) (logs i))
    (h : Reaches (Cluster.step dup) (Cluster.init lvs) s) :
    ∃ t, Reaches (Cluster.step dup) (Cluster.init logs) t ∧
      Cluster.Represents Entry.RoundTrips Holds s t :=
  Cluster.reaches_represents files_logRefines h0 h

omit [FileSystem] [EntryCodec] in
/-- Node 1 is elected and overwrites the files of node 0. -/
theorem files_refine_lists_overwrite :
    let _ := byteFiles
    let _ := wireCodec
    let logs : Fin 2 → List Entry := ![[{}, { term := 1 }], [{}, { term := 2 }]]
    ∃ (lvs : Fin 2 → LogVec) (s : Cluster 2 LogVec) (t : Cluster 2 (List Entry)),
      Reaches (Cluster.step true) (Cluster.init lvs) s ∧
      (s.nodes 0).log.get 1 = some { term := 2 } ∧
      Reaches (Cluster.step true) (Cluster.init logs) t ∧
      Cluster.Represents Entry.RoundTrips Holds s t := by
  intro _ _ logs
  have hrange : ∀ i, ∀ e ∈ (![[{}, { term := 1 }], [{}, { term := 2 }]] : Fin 2 → List Entry) i,
      e.InRange := by decide
  have htrips : ∀ i, ∀ e ∈ logs i, e.RoundTrips :=
    fun i e he => wireCodec_lawful.roundTrip e (hrange i e he)
  obtain ⟨lvs, s, h0, hs, hget⟩ := exists_on_files logs
    [.elect 1, .requestVote 0, .getVoteAnswer 0 0, .collectVote 0, .sendHeartBeats 1,
      .appendEntries 0, .handleAppendEntries 0 0, .sendHeartBeats 1, .appendEntries 1]
    (fun s => (s.nodes 0).log.get 1 == some { term := 2 }) (by decide +kernel)
  obtain ⟨t, ht, hrep⟩ := files_refine_lists (fun i => onFile_holds (htrips i) (h0 i)) hs
  exact ⟨lvs, s, t, hs, by simpa using hget, ht, hrep⟩

theorem files_read (hm : ∀ i j, LogMatching Entry.term (logs i) (logs j))
    (h0 : ∀ i, Holds (lvs i) (logs i)) (h : Reaches (Cluster.step dup) (Cluster.init lvs) s)
    (i : Fin n) : ∃ m, ∀ k, (s.nodes i).log.get k = (logs m)[k]? := by
  obtain ⟨t, ht, hrep⟩ := Cluster.reaches_represents files_logRefines h0 h
  obtain ⟨log, hnode, hlog⟩ := hrep.nodes i
  obtain ⟨m, hm⟩ := (Cluster.reaches_logsInv hm ht).nodes i
  refine ⟨m, fun k => ?_⟩
  rw [get_rep hlog.rep hlog.roundTrips, ← hm, hnode, RaftNode.withLog_log]

/-- **Log Matching holds of the files**, in every state of every run. -/
theorem files_match (hm : ∀ i j, LogMatching Entry.term (logs i) (logs j))
    (h0 : ∀ i, Holds (lvs i) (logs i)) (h : Reaches (Cluster.step dup) (Cluster.init lvs) s)
    (i j : Fin n) {k : Nat} {x y : Entry} (hx : (s.nodes i).log.get k = some x)
    (hy : (s.nodes j).log.get k = some y) (hterm : x.term = y.term) :
    ∀ m ≤ k, (s.nodes i).log.get m = (s.nodes j).log.get m := by
  obtain ⟨mi, hi⟩ := files_read hm h0 h i
  obtain ⟨mj, hj⟩ := files_read hm h0 h j
  intro m hmk
  have hsame := hm mi mj k x y (by rw [← hi, hx]) (by rw [← hj, hy]) hterm
  have hlt : m < k + 1 := by omega
  rw [hi, hj, ← List.getElem?_take_of_lt hlt, hsame, List.getElem?_take_of_lt hlt]

omit [FileSystem] [EntryCodec] in
/-- Node 1 is elected and appends what node 0 lacks; both then read one log. -/
theorem files_match_caught_up :
    let _ := byteFiles
    let _ := wireCodec
    ∃ (lvs : Fin 2 → LogVec) (s : Cluster 2 LogVec),
      Reaches (Cluster.step true) (Cluster.init lvs) s ∧
      ∀ m ≤ 2, (s.nodes 0).log.get m = (s.nodes 1).log.get m := by
  let _ := byteFiles
  let _ := wireCodec
  let logs : Fin 2 → List Entry :=
    ![[{}], [{}, { term := 1, key := [1] }, { term := 2, key := [2] }]]
  have hrange : ∀ i, ∀ e ∈ logs i, e.InRange := by decide
  have hm : ∀ i j, LogMatching Entry.term (logs i) (logs j) := by decide
  obtain ⟨lvs, s, h0, hs, hget⟩ := exists_on_files logs
    [.elect 1, .requestVote 0, .getVoteAnswer 0 0, .collectVote 0, .sendHeartBeats 1,
      .appendEntries 0, .handleAppendEntries 0 0, .sendHeartBeats 1, .appendEntries 1]
    (fun s => (s.nodes 0).log.get 2 == some { term := 2, key := [2] } &&
      (s.nodes 1).log.get 2 == some { term := 2, key := [2] }) (by decide +kernel)
  simp only [Bool.and_eq_true, beq_iff_eq] at hget
  have h0 := fun i => onFile_holds (fun e he => wireCodec_lawful.roundTrip e (hrange i e he)) (h0 i)
  exact ⟨lvs, s, hs, files_match hm h0 hs 0 1 hget.1 hget.2 rfl⟩

end Files

end TinyKv
