import TinyKv.Raft.Backtrack
import TinyKv.Raft.Leader

/-!
# Raft.Indices

Every index that a leader uses lies within its log, over whole runs and for any logs.

* `LogOk B xs`: the log starts with the empty entry, has no negative term and at most `B` entries.
  Merging a slice of such a log keeps this (`LogOk.merged`).
* `Hint`: the places that a refusal in the term of the request names for the leader to back up to.
  None is the start of the log, and none lies behind the refused entry.
* `NodeOk`: a leader's `nextIndex` and `matchIndex` are in range.
* `SentOk`: a request is a slice of its sender's log for as long as the sender is in the term of the
  request. A reply to it that comes late is so held against the log that it is about.

`indices_in_range` follows.
-/

namespace TinyKv

open Lib RaftNode

variable {n B : Nat}

structure LogOk (B : Nat) (xs : List Entry) : Prop where
  first : xs[0]? = some ({} : Entry)
  terms : ∀ e ∈ xs, 0 ≤ e.term
  size : xs.length ≤ B

theorem LogOk.pos {xs : List Entry} (h : LogOk B xs) : 0 < xs.length :=
  (List.getElem?_eq_some_iff.mp h.first).1

theorem SliceOf.prev_lt {ys : List Entry} {request : AppendEntriesArgs} (h : SliceOf ys request) :
    request.prevLogIndex.toNat < ys.length := by
  obtain ⟨e, he, _⟩ := h.prev
  exact (List.getElem?_eq_some_iff.mp he).1

theorem LogOk.merged {xs ys log : List Entry} {request : AppendEntriesArgs} (hx : LogOk B xs)
    (hy : LogOk B ys) (hslice : SliceOf ys request) (hc : Contains xs request)
    (hlog : mergeEntries xs (request.prevLogIndex.toNat + 1) request.entries = some log) :
    LogOk B log := by
  obtain ⟨_, e, he, _⟩ := hc
  have hi : request.prevLogIndex.toNat + 1 ≤ xs.length := (List.getElem?_eq_some_iff.mp he).1
  rcases agrees_or_first Entry.term xs (request.prevLogIndex.toNat + 1) request.entries with
    hall | ⟨k, hk, hbefore, hno⟩
  · rw [mergeEntries_agrees hall] at hlog
    cases hlog
    exact hx
  · rw [mergeEntries_differs hi hk hbefore hno] at hlog
    cases hlog
    have hle := le_of_agrees hi hbefore
    rw [hslice.entries] at hk ⊢
    constructor
    · rw [List.getElem?_append_left (by rw [List.length_take]; omega),
        List.getElem?_take_of_lt (by omega), hx.first]
    · intro e he
      cases List.mem_append.mp he with
      | inl he =>
        exact hx.terms e (List.mem_of_mem_take he)
      | inr he =>
        exact hy.terms e (List.mem_of_mem_drop (List.mem_of_mem_drop he))
    · have hsize := hy.size
      rw [List.length_drop] at hk
      rw [List.length_append, List.length_take, List.length_drop, List.length_drop]
      omega

/-! ## The receiver -/

/-- What a refusal tells the leader to back up to: the length of a log that ends before
`prevLogIndex`, or the first entry of the conflicting term. -/
def Hint (request : AppendEntriesArgs) (reply : AppendEntriesReply) : Prop :=
  (reply.xTerm = -1 ∧ ∃ len : Nat, reply.xLen = len ∧ 0 < len ∧ len ≤ request.prevLogIndex) ∨
  (0 ≤ reply.xTerm ∧ ∃ j : Nat, reply.xIndex = (j : Int) + 1 ∧ j ≤ request.prevLogIndex)

/-- A refusal is of a newer term, or it carries a hint. -/
def ReplyOk (request : AppendEntriesArgs) (reply : AppendEntriesReply) : Prop :=
  reply.success = false → request.term < reply.term ∨ Hint request reply

structure NodeOk (B : Nat) (nd : RaftNode n (List Entry)) : Prop where
  snapshot : nd.lastIncludedIndex = 0
  log : LogOk B nd.log
  indices : nd.role = .leader → ∀ j, 1 ≤ nd.nextIndex j ∧ nd.nextIndex j ≤ nd.log.length ∧
    nd.matchIndex j < nd.log.length

theorem NodeOk.becomeFollower {nd : RaftNode n (List Entry)} (h : NodeOk B nd) (t : Int) :
    NodeOk B (nd.becomeFollower t) where
  snapshot := h.snapshot
  log := h.log
  indices := fun hl => by cases hl

theorem NodeOk.observeTerm {nd : RaftNode n (List Entry)} (h : NodeOk B nd) (t : Int) :
    NodeOk B (nd.observeTerm t) := by
  unfold RaftNode.observeTerm
  split
  · exact h.becomeFollower t
  · exact h

namespace RaftNode

variable {nd nd' : RaftNode n (List Entry)} {request : AppendEntriesArgs}
  {reply : AppendEntriesReply}

theorem appendEntries_old (hold : request.term < nd.currentTerm) :
    nd.appendEntries request = some (nd, { term := nd.currentTerm, success := false }) := by
  rw [appendEntries, if_pos hold]

theorem refused_hint (h0 : nd.lastIncludedIndex = 0) (hlog : LogOk B nd.log)
    (hneg : 0 ≤ request.prevLogIndex) (hge : nd.currentTerm ≤ request.term)
    (hc : ¬Contains nd.log request) :
    ∃ reply, nd.appendEntries request = some (nd.observeTerm request.term, reply) ∧
      Hint request reply := by
  by_cases hout : geU64 request.prevLogIndex nd.log.length
  · refine ⟨_, appendEntries_short h0 hge hout, .inl ⟨rfl, _, rfl, hlog.pos, ?_⟩⟩
    rw [geU64, ltU64] at hout
    omega
  · rw [geU64, not_not] at hout
    have hlt : request.prevLogIndex.toNat < nd.log.length := by
      have := hout.2
      omega
    obtain ⟨j, hj, _, happ⟩ := appendEntries_conflict h0 hge hneg hlt fun heq =>
      hc ⟨hneg, _, List.getElem?_eq_getElem hlt, heq⟩
    exact ⟨_, happ, .inr ⟨hlog.terms _ (List.getElem_mem hlt), j, rfl, by omega⟩⟩

theorem appendEntries_ok (h0 : nd.lastIncludedIndex = 0) (hlog : LogOk B nd.log) {ys : List Entry}
    (hy : LogOk B ys) (hslice : SliceOf ys request) : ∃ nd' reply,
      nd.appendEntries request = some (nd', reply) ∧ LogOk B nd'.log ∧ ReplyOk request reply := by
  by_cases hold : request.term < nd.currentTerm
  · exact ⟨nd, _, appendEntries_old hold, hlog, fun _ => .inl hold⟩
  · have hge : nd.currentTerm ≤ request.term := Int.not_lt.mp hold
    by_cases hc : Contains nd.log request
    · obtain ⟨log, hmerge, _⟩ := merged_log hc
      refine ⟨_, _, appendEntries_contained h0 hge hc hmerge, ?_, nofun⟩
      rw [followCommit_log]
      exact hlog.merged hy hslice hc hmerge
    · obtain ⟨reply, happ, hhint⟩ := refused_hint h0 hlog hslice.nonneg hge hc
      refine ⟨_, reply, happ, ?_, fun _ => .inr hhint⟩
      rw [observeTerm_log]
      exact hlog

/-! ## The leader -/

variable {i : Fin n}

theorem backUp_ok (h : NodeOk B nd) (hlead : nd.role = .leader) (hslice : SliceOf nd.log request)
    (hhint : Hint request reply) :
    ∃ next, nd.backUp i reply = some next ∧ 1 ≤ next ∧ next ≤ nd.log.length := by
  have hprev := hslice.prev_lt
  have hneg := hslice.nonneg
  obtain ⟨hpos, hle, _⟩ := h.indices hlead i
  rcases hhint with ⟨hterm, len, hlen, hlen0, hlenle⟩ | ⟨hterm, j, hidx, hj⟩
  · exact ⟨len, backUp_short h.snapshot hterm hlen hlen0, hlen0, by omega⟩
  · have hreal : reply.xTerm ≠ -1 := by omega
    obtain ⟨next, hback, hat⟩ :=
      backUp_found h.snapshot hpos hle h.log.first hterm hreal hidx
    refine ⟨next, hback, ?_⟩
    rcases hat with rfl | ⟨k, e, rfl, hlt, _, _⟩
    · exact ⟨Nat.succ_pos j, by omega⟩
    · exact ⟨Nat.succ_pos k, by omega⟩

theorem handleAppendEntries_success_ok (h : NodeOk B nd) (hlead : nd.role = .leader)
    (hterm : request.term = nd.currentTerm) (hslice : SliceOf nd.log request)
    (hyes : reply.success = true) :
    ∃ nd', nd.handleAppendEntries i request reply = some nd' ∧ NodeOk B nd' := by
  obtain ⟨hlast, hpos⟩ := hslice.matchIdx
  have hrange := h.indices hlead
  have hmatch := Nat.le_sub_one_of_lt (hrange i).2.2
  obtain ⟨N, hhandle⟩ := handleAppendEntries_matched h.snapshot hlead hterm hyes hlast
    (Nat.sub_add_cancel hpos) hmatch
  refine ⟨_, hhandle, h.snapshot, h.log, fun _ j => ?_⟩
  by_cases hj : j = i
  · subst hj
    simp only [Function.update_self]
    omega
  · simp only [Function.update_of_ne hj]
    exact hrange j

theorem handleAppendEntries_refused_ok (h : NodeOk B nd) (hlead : nd.role = .leader)
    (hterm : request.term = nd.currentTerm) (hslice : SliceOf nd.log request)
    (hno : reply.success = false) (hreply : ReplyOk request reply) :
    ∃ nd', nd.handleAppendEntries i request reply = some nd' ∧ NodeOk B nd' := by
  by_cases hsame : reply.term = nd.currentTerm
  · have hhint : Hint request reply := (hreply hno).resolve_left (by omega)
    have hrange := h.indices hlead
    obtain ⟨next, hback, hpos, hle⟩ := backUp_ok (i := i) h hlead hslice hhint
    refine ⟨_, handleAppendEntries_refused hlead hterm hsame hno hback, h.snapshot, h.log,
      fun _ j => ?_⟩
    by_cases hj : j = i
    · subst hj
      simp only [Function.update_self]
      exact ⟨hpos, hle, (hrange j).2.2⟩
    · simp only [Function.update_of_ne hj]
      exact hrange j
  · rw [handleAppendEntries, if_neg (by simp [hlead, hterm]), if_neg (by simp [hno])]
    split
    · exact ⟨_, rfl, h.becomeFollower reply.term⟩
    · exact ⟨nd, rfl, h⟩

theorem handleAppendEntries_ok (h : NodeOk B nd) (hreply : ReplyOk request reply)
    (hslice : request.term = nd.currentTerm → SliceOf nd.log request) :
    ∃ nd', nd.handleAppendEntries i request reply = some nd' ∧ NodeOk B nd' := by
  by_cases hgone : nd.role ≠ .leader ∨ request.term ≠ nd.currentTerm
  · exact ⟨nd, by rw [handleAppendEntries, if_pos hgone], h⟩
  · simp only [not_or, not_not] at hgone
    obtain ⟨hlead, hterm⟩ := hgone
    cases hyes : reply.success with
    | true =>
      exact handleAppendEntries_success_ok h hlead hterm (hslice hterm) hyes
    | false =>
      exact handleAppendEntries_refused_ok h hlead hterm (hslice hterm) hyes hreply

theorem sendHeartBeats_ok (h : NodeOk B nd) : ∃ calls, nd.sendHeartBeats = some calls := by
  unfold sendHeartBeats
  split
  · exact ⟨[], rfl⟩
  · rename_i hlead
    have hrange := h.indices (Decidable.not_not.mp hlead)
    have hpeers : ∃ args, ((List.finRange n).filter (· ≠ nd.curNodeId)).mapM
        (fun i => (nd.heartBeatArgs i).map (i, ·)) = some args := by
      refine exists_mapM fun i _ => ?_
      obtain ⟨hpos, hle, _⟩ := hrange i
      have hlt : nd.nextIndex i - 1 < nd.log.length := by omega
      have hargs := heartBeatArgs_list h.snapshot (Nat.sub_add_cancel hpos).symm
        (List.getElem?_eq_getElem hlt)
      exact ⟨_, by rw [hargs]; rfl⟩
    obtain ⟨args, hargs⟩ := hpeers
    simp only [hargs, Option.bind_eq_bind, Option.bind_some, Option.pure_def]
    exact ⟨_, rfl⟩

end RaftNode

/-- A step that leaves the log of a leader alone as long as its term lasts. -/
structure LeadsOn (nd nd' : RaftNode n (List Entry)) : Prop where
  term : nd.currentTerm ≤ nd'.currentTerm
  stays : nd'.currentTerm = nd.currentTerm → nd.role = .leader →
    nd'.role = .leader ∧ nd'.log = nd.log

theorem Steady.leadsOn {nd nd' : RaftNode n (List Entry)} (h : Steady nd nd') : LeadsOn nd nd' :=
  ⟨h.term, fun ht hl => ⟨h.stays ht hl, h.log⟩⟩

namespace Cluster

variable {logs : Fin n → List Entry} {s s' : Cluster n (List Entry)}

structure SentOk (B : Nat) (s : Cluster n (List Entry)) (c : AppendCall n) : Prop where
  other : c.dst ≠ c.src
  won : s.Won c.src c.args.term
  slice : ∃ ys, LogOk B ys ∧ SliceOf ys c.args
  current : c.args.term = (s.nodes c.src).currentTerm →
    (s.nodes c.src).role = .leader ∧ SliceOf (s.nodes c.src).log c.args
  replies : ∀ r ∈ c.replies, ReplyOk c.args r

structure IndexInv (B : Nat) (s : Cluster n (List Entry)) : Prop where
  nodes : ∀ i, NodeOk B (s.nodes i)
  calls : ∀ c ∈ s.appendCalls, s.SentOk B c

theorem init_indexInv (h : ∀ i, LogOk B (logs i)) : (init logs).IndexInv B where
  nodes := fun i => ⟨rfl, h i, nofun⟩
  calls := fun c hc => by cases hc

/-- The sender can have reached the term of a request only as the winner of that term. -/
theorem SentOk.mono {c : AppendCall n} (h : s.SentOk B c) (he : s.ElectionInv)
    (hnode : ∀ i, LeadsOn (s.nodes i) (s'.nodes i)) (hwon : ∀ i T, s.Won i T → s'.Won i T) :
    s'.SentOk B c where
  other := h.other
  won := hwon _ _ h.won
  slice := h.slice
  current := by
    intro hterm
    have hle := (he.won_term h.won).1
    have hle' := (hnode c.src).term
    obtain ⟨hlead, hslice⟩ := h.current (by omega)
    obtain ⟨hlead', hlog⟩ := (hnode c.src).stays (by omega) hlead
    rw [hlog]
    exact ⟨hlead', hslice⟩
  replies := h.replies

theorem leadsOn_setNode {i : Fin n} {nd : RaftNode n (List Entry)} (h : LeadsOn (s.nodes i) nd)
    (j : Fin n) : LeadsOn (s.nodes j) ((s.setNode i nd).nodes j) :=
  forall_setNode (P := fun j nd => LeadsOn (s.nodes j) nd) h (fun _ _ => (Steady.refl _).leadsOn) j

theorem IndexInv.nodes_setNode (h : s.IndexInv B) {i : Fin n} {nd : RaftNode n (List Entry)}
    (hok : NodeOk B nd) (j : Fin n) : NodeOk B ((s.setNode i nd).nodes j) :=
  forall_setNode (P := fun _ nd => NodeOk B nd) hok (fun j _ => h.nodes j) j

theorem IndexInv.frame_election (h : s.IndexInv B) (he : s.ElectionInv) {i : Fin n}
    {nd : RaftNode n (List Entry)} (hok : NodeOk B nd) (hlead : LeadsOn (s.nodes i) nd)
    (hnodes : s'.nodes = (s.setNode i nd).nodes) (hwon : ∀ i T, s.Won i T → s'.Won i T)
    (hcalls : s'.appendCalls = s.appendCalls) : s'.IndexInv B := by
  constructor
  · rw [hnodes]
    exact h.nodes_setNode hok
  · intro c hc
    rw [hcalls] at hc
    refine (h.calls c hc).mono he ?_ hwon
    rw [hnodes]
    exact leadsOn_setNode hlead

theorem IndexInv.frame_call (h : s.IndexInv B) (he : s.ElectionInv) {i : Fin n} {k : Nat}
    {nd : RaftNode n (List Entry)} {c c' : AppendCall n} (hok : NodeOk B nd)
    (hlead : LeadsOn (s.nodes i) nd) (hk : s.appendCalls[k]? = some c) (hsrc : c'.src = c.src)
    (hdst : c'.dst = c.dst) (hargs : c'.args = c.args)
    (hreplies : ∀ r ∈ c'.replies, ReplyOk c.args r) :
    ((s.setNode i nd).setAppendCall k c').IndexInv B := by
  have hmono : ∀ d, s.SentOk B d → ((s.setNode i nd).setAppendCall k c').SentOk B d :=
    fun d hd => hd.mono he (leadsOn_setNode hlead) fun _ _ hw => hw
  refine ⟨h.nodes_setNode hok, forall_mem_set (fun d hd => hmono d (h.calls d hd)) ?_⟩
  obtain ⟨hother, hwon, hslice, hcur, _⟩ := hmono c (h.calls c (List.mem_of_getElem? hk))
  constructor
  · rw [hsrc, hdst]
    exact hother
  · rw [hsrc, hargs]
    exact hwon
  · rw [hargs]
    exact hslice
  · rw [hsrc, hargs]
    exact hcur
  · rw [hargs]
    exact hreplies

/-- A leader turns down what another has sent in its term or before: the winner of a term takes
requests of later terms only. -/
theorem IndexInv.leader_refuses (h : s.IndexInv B) (he : s.ElectionInv) {c : AppendCall n}
    (hc : c ∈ s.appendCalls) {nd : RaftNode n (List Entry)} {reply : AppendEntriesReply}
    (hr : (s.nodes c.dst).appendEntries c.args = some (nd, reply))
    (hl : (s.nodes c.dst).role = .leader) (hterm : nd.currentTerm = (s.nodes c.dst).currentTerm) :
    nd = s.nodes c.dst := by
  have hother : (s.nodes c.dst).currentTerm ≠ c.args.term := by
    intro heq
    have hw := he.leader c.dst hl
    rw [heq] at hw
    exact (h.calls c hc).other (he.won_unique hw (h.calls c hc).won)
  rcases appendEntries_spec hr with ⟨_, hnd, _⟩ | ⟨hge, hnd, _⟩ | ⟨hge, _, e, log, _, _, _, hnd, _⟩
  · exact hnd
  · rw [hnd, observeTerm_term (Int.not_lt.mpr hge)] at hterm
    exact absurd hterm.symm hother
  · rw [hnd, followCommit_term, observeTerm_term (Int.not_lt.mpr hge)] at hterm
    exact absurd hterm.symm hother

theorem appendEntries_indexInv (h : s.IndexInv B) (he : s.ElectionInv) {k : Nat} {c : AppendCall n}
    {nd : RaftNode n (List Entry)} {reply : AppendEntriesReply}
    (hk : s.appendCalls[k]? = some c)
    (hr : (s.nodes c.dst).appendEntries c.args = some (nd, reply)) :
    (s.replied k c nd reply).IndexInv B := by
  have hc := List.mem_of_getElem? hk
  have hfollows := appendEntries_follows hr
  obtain ⟨ys, hy, hslice⟩ := (h.calls c hc).slice
  obtain ⟨_, _, hr', hlog, hreply⟩ :=
    appendEntries_ok (h.nodes c.dst).snapshot (h.nodes c.dst).log hy hslice
  rw [hr] at hr'
  cases hr'
  have hok : NodeOk B nd := by
    refine ⟨hfollows.snapshot.trans (h.nodes c.dst).snapshot, hlog, fun hl => ?_⟩
    -- a node that leads after the request has led before it
    obtain ⟨hrole, hterm⟩ := hfollows.role (by rw [hl]; decide)
    have hsame := h.leader_refuses he hc hr (hrole.symm.trans hl) hterm
    rw [hsame] at hl ⊢
    exact (h.nodes c.dst).indices hl
  have hlead : LeadsOn (s.nodes c.dst) nd := by
    refine ⟨hfollows.term, fun hterm hl => ?_⟩
    rw [h.leader_refuses he hc hr hl hterm]
    exact ⟨hl, rfl⟩
  refine h.frame_call he hok hlead hk rfl rfl rfl fun r hr => ?_
  cases List.mem_append.mp hr with
  | inl hr =>
    exact (h.calls c hc).replies r hr
  | inr hr =>
    obtain rfl := List.mem_singleton.mp hr
    exact hreply

theorem handleAppendEntries_indexInv (h : s.IndexInv B) (he : s.ElectionInv) {k r : Nat}
    {c : AppendCall n} {reply : AppendEntriesReply} {nd : RaftNode n (List Entry)}
    (hk : s.appendCalls[k]? = some c) (hr : c.replies[r]? = some reply)
    (hnd : (s.nodes c.src).handleAppendEntries c.dst c.args reply = some nd) :
    ((s.setNode c.src nd).setAppendCall k { c with answered := true }).IndexInv B := by
  have hcall := h.calls c (List.mem_of_getElem? hk)
  have hsteady := (handleAppendEntries_follows hnd).steady (handleAppendEntries_log hnd)
  obtain ⟨_, hnd', hok⟩ := handleAppendEntries_ok (i := c.dst) (h.nodes c.src)
    (hcall.replies reply (List.mem_of_getElem? hr)) fun hterm => (hcall.current hterm).2
  rw [hnd] at hnd'
  cases hnd'
  exact h.frame_call he hok hsteady.leadsOn hk rfl rfl rfl hcall.replies

theorem sendHeartBeats_indexInv (h : s.IndexInv B) (he : s.ElectionInv) {i : Fin n}
    {args : List (Fin n × AppendEntriesArgs)} (ha : (s.nodes i).sendHeartBeats = some args) :
    (s.addAppendCalls (appendCallsOf i args)).IndexInv B := by
  refine ⟨h.nodes, fun c hc => ?_⟩
  cases List.mem_append.mp hc with
  | inl hc =>
    exact (h.calls c hc).mono he (fun _ => (Steady.refl _).leadsOn) fun _ _ hw => hw
  | inr hc =>
    obtain ⟨p, hp, rfl⟩ := List.mem_map.mp hc
    obtain ⟨hl, hne, hslice, hterm, _⟩ := sendHeartBeats_spec (h.nodes i).snapshot ha p hp
    refine ⟨by rw [he.ids] at hne; exact hne, ?_, ⟨_, (h.nodes i).log, hslice⟩,
      fun _ => ⟨hl, hslice⟩, fun r hr => by cases hr⟩
    rw [hterm]
    exact he.leader i hl

theorem step_indexInv {a : Action n} (h : s.IndexInv B) (he : s.ElectionInv)
    (hs : s.step false a = some s') : s'.IndexInv B := by
  have hwon : ∀ i T, s.Won i T → s'.Won i T := fun i T hw => won_step he hs hw
  cases a with
  | elect i =>
    obtain ⟨nd, args, hel, rfl⟩ := step_elect hs
    obtain ⟨_, _, hnd, _⟩ := elect_spec hel
    have hok : NodeOk B nd := by
      rw [hnd]
      exact ⟨(h.nodes i).snapshot, (h.nodes i).log, nofun⟩
    exact h.frame_election he hok (elect_steady hel).leadsOn rfl hwon rfl
  | requestVote k =>
    obtain ⟨c, nd, reply, hk, hr, rfl⟩ := step_requestVote hs
    have hok : NodeOk B nd := by
      rcases requestVote_spec hr with ⟨_, hnd | hnd⟩ | ⟨_, _, hnd⟩ <;> rw [hnd]
      · exact h.nodes c.dst
      · exact (h.nodes c.dst).observeTerm c.args.term
      · exact ⟨(h.nodes c.dst).snapshot, (h.nodes c.dst).log, nofun⟩
    have hlead := (requestVote_steady he (List.mem_of_getElem? hk) hr).leadsOn
    exact h.frame_election he hok hlead rfl hwon rfl
  | getVoteAnswer k r =>
    obtain ⟨c, reply, nd, got, _, _, _, hv, rfl⟩ := step_getVoteAnswer hs
    have hok : NodeOk B nd := by
      rcases (getVoteAnswer_spec hv).1 with hnd | hnd <;> rw [hnd]
      · exact h.nodes c.src
      · exact (h.nodes c.src).observeTerm reply.term
    exact h.frame_election he hok (getVoteAnswer_steady hv).leadsOn rfl hwon rfl
  | collectVote k =>
    obtain ⟨c, nd, count, hk, _, hv, rfl⟩ := step_collectVote hs
    rcases (collectVote_spec hv).2.2 with hnd | ⟨hrole, _, _, hnd⟩
    · rw [hnd] at hwon ⊢
      exact h.frame_election he (h.nodes c.src) (Steady.refl _).leadsOn rfl hwon rfl
    · have hnode := h.nodes c.src
      have hpos := hnode.log.pos
      have hok : NodeOk B nd := by
        rw [hnd]
        refine ⟨hnode.snapshot, hnode.log, fun _ j => ?_⟩
        simp only [virtualLogIdx, hnode.snapshot, size_list]
        omega
      have hlead : LeadsOn (s.nodes c.src) nd := by
        rw [hnd]
        refine ⟨Int.le_refl _, fun _ hl => ?_⟩
        rw [hrole] at hl
        cases hl
      exact h.frame_election he hok hlead rfl hwon rfl
  | sendHeartBeats i =>
    obtain ⟨args, ha, rfl⟩ := step_sendHeartBeats hs
    exact sendHeartBeats_indexInv h he ha
  | appendEntries k =>
    obtain ⟨c, nd, reply, hk, hr, rfl⟩ := step_appendEntries hs
    exact appendEntries_indexInv h he hk hr
  | handleAppendEntries k r =>
    obtain ⟨c, reply, nd, hk, hr, hnd, rfl⟩ := step_handleAppendEntries hs
    exact handleAppendEntries_indexInv h he hk hr hnd

theorem reaches_indexInv (h : ∀ i, LogOk B (logs i)) (hs : Reaches (step false) (init logs) s) :
    s.ElectionInv ∧ s.IndexInv B :=
  hs.inv (P := fun s => s.ElectionInv ∧ s.IndexInv B)
    (fun _ _ _ hP hstep => ⟨step_electionInv hP.1 hstep, step_indexInv hP.2 hP.1 hstep⟩)
    ⟨init_electionInv logs, init_indexInv h⟩

/-- A leader's indices are in range, every log fits an `int`, and no function that reads the log
fails on a request or a reply that is under way. -/
structure InRange (s : Cluster n (List Entry)) : Prop where
  leader : ∀ l, (s.nodes l).role = .leader → ∀ i, 1 ≤ (s.nodes l).nextIndex i ∧
    (s.nodes l).nextIndex i ≤ (s.nodes l).log.length ∧
    (s.nodes l).matchIndex i < (s.nodes l).log.length
  size : ∀ i, (s.nodes i).log.length < 2 ^ 31
  sendHeartBeats : ∀ i, (s.nodes i).sendHeartBeats ≠ none
  appendEntries : ∀ c ∈ s.appendCalls, (s.nodes c.dst).appendEntries c.args ≠ none
  handleAppendEntries : ∀ c ∈ s.appendCalls, ∀ r ∈ c.replies,
    (s.nodes c.src).handleAppendEntries c.dst c.args r ≠ none

/-- **Leader indices stay in range**, in every state of every run. -/
theorem indices_in_range (h0 : ∀ i, (logs i)[0]? = some ({} : Entry))
    (hterms : ∀ i, ∀ e ∈ logs i, 0 ≤ e.term) (hsize : ∀ i, (logs i).length < 2 ^ 31)
    (hs : Reaches (step false) (init logs) s) : s.InRange := by
  have hlogs : ∀ i, LogOk (2 ^ 31 - 1) (logs i) :=
    fun i => ⟨h0 i, hterms i, Nat.le_sub_one_of_lt (hsize i)⟩
  obtain ⟨_, h⟩ := reaches_indexInv hlogs hs
  constructor
  · intro l hl i
    exact (h.nodes l).indices hl i
  · intro i
    have := (h.nodes i).log.size
    omega
  · intro i
    obtain ⟨calls, hcalls⟩ := sendHeartBeats_ok (h.nodes i)
    rw [hcalls]
    exact Option.some_ne_none _
  · intro c hc
    obtain ⟨ys, hy, hslice⟩ := (h.calls c hc).slice
    obtain ⟨nd, reply, happ, _⟩ :=
      appendEntries_ok (h.nodes c.dst).snapshot (h.nodes c.dst).log hy hslice
    rw [happ]
    exact Option.some_ne_none _
  · intro c hc r hr
    have hcall := h.calls c hc
    obtain ⟨nd, hnd, _⟩ := handleAppendEntries_ok (i := c.dst) (h.nodes c.src)
      (hcall.replies r hr) fun hterm => (hcall.current hterm).2
    rw [hnd]
    exact Option.some_ne_none _

/-- Node 1 is elected and backs up to the second entry, the follower's log being too short. -/
theorem indices_in_range_backed_up :
    let logs : Fin 2 → List Entry := ![[{}], [{}, { term := 1 }, { term := 1 }]]
    ∃ s, Reaches (step false) (init logs) s ∧ (s.nodes 1).role = .leader ∧
      (s.nodes 1).nextIndex 0 = 1 ∧ s.InRange := by
  intro logs
  have hrun : ((runs (step false) [.elect 1, .requestVote 0, .getVoteAnswer 0 0, .collectVote 0,
      .sendHeartBeats 1, .appendEntries 0, .handleAppendEntries 0 0] (init logs)).any fun s =>
        (s.nodes 1).role == .leader && (s.nodes 1).nextIndex 0 == 1) = true := by decide +kernel
  obtain ⟨s, hs, hp⟩ := exists_of_runs hrun
  simp only [Bool.and_eq_true, beq_iff_eq] at hp
  exact ⟨s, hs, hp.1, hp.2, indices_in_range (by decide) (by decide) (by decide) hs⟩

end Cluster

end TinyKv
