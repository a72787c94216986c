import TinyKv.Raft.CommitRule
import TinyKv.Raft.Merge

/-!
# Raft.Backtrack

A leader and a follower whose logs differ, left to themselves.

* `Pair.round`: the leader's request for the follower, the answer, and what the leader makes of it.
* `Diverging`: the logs may differ above the follower's commit index. A round lowers `nextIndex`,
  but not to 0, or ends with the leader's log at the follower (`Diverging.round`).
* `Synced`: the follower has the leader's log. Every round succeeds (`Synced.round`).
* `backtracking_converges` is about whole runs.
-/

namespace TinyKv

open Lib RaftNode

variable {n : Nat}

structure Pair (n : Nat) where
  leader : RaftNode n (List Entry)
  follower : RaftNode n (List Entry)

namespace Pair

/-- One round, in which node `i` of the leader's cluster is the follower, and whether the follower
answered with success. -/
def round (p : Pair n) (i : Fin n) : Option (Pair n × Bool) := do
  let args ← (← p.leader.heartBeatArgs i)
  let (follower, reply) ← p.follower.appendEntries args
  let leader ← p.leader.handleAppendEntries i args reply
  return (⟨leader, follower⟩, reply.success)

def rounds (i : Fin n) : Nat → Pair n → Option (Pair n)
  | 0, p => some p
  | m + 1, p => do
    let (p, _) ← p.round i
    rounds i m p

/-- The leader of a term and a follower in that term, neither of which took a snapshot. -/
structure Linked (p : Pair n) (i : Fin n) : Prop where
  role : p.leader.role = .leader
  term : p.follower.currentTerm = p.leader.currentTerm
  leaderSnapshot : p.leader.lastIncludedIndex = 0
  followerSnapshot : p.follower.lastIncludedIndex = 0
  nextPos : 1 ≤ p.leader.nextIndex i
  nextLe : p.leader.nextIndex i ≤ p.leader.log.length
  matchIndex : p.leader.matchIndex i < p.leader.log.length

structure Diverging (p : Pair n) (i : Fin n) : Prop extends Linked p i where
  leaderFirst : p.leader.log[0]? = some ({} : Entry)
  followerTerms : ∀ e ∈ p.follower.log, 0 ≤ e.term
  committed : p.follower.commitIndex < p.leader.log.length ∧
    p.follower.commitIndex < p.follower.log.length
  agree : p.leader.log.take (p.follower.commitIndex + 1) =
    p.follower.log.take (p.follower.commitIndex + 1)
  matching : LogMatching Entry.term p.follower.log p.leader.log

structure Synced (p : Pair n) (i : Fin n) : Prop extends Linked p i where
  carries : p.leader.log <+: p.follower.log
  next : p.leader.nextIndex i = p.leader.log.length

end Pair

/-! ## The leader's scans -/

namespace RaftNode

variable {nd : RaftNode n (List Entry)} {i : Fin n}

theorem termScan_spec (h0 : nd.lastIncludedIndex = 0) (xTerm : Int) {k : Nat}
    (hk : k < nd.log.length) : ∃ j e, nd.termScan xTerm k = some j ∧ j ≤ k ∧
      nd.log[j]? = some e ∧ (j = 0 ∨ e.term ≤ xTerm) := by
  induction k with
  | zero => exact ⟨0, _, rfl, Nat.le_refl 0, List.getElem?_eq_getElem hk, .inl rfl⟩
  | succ k ih =>
    have hpos : k + 1 > nd.lastIncludedIndex := by omega
    have he := List.getElem?_eq_getElem hk
    rw [termScan, if_pos hpos, realLogIdx, h0, Nat.sub_zero, get_list, he]
    simp only [Option.bind_eq_bind, Option.bind_some]
    split
    · obtain ⟨j, e, hj, hle, hget, hstop⟩ := ih (Nat.lt_of_succ_lt hk)
      exact ⟨j, e, hj, Nat.le_succ_of_le hle, hget, hstop⟩
    · rename_i hterm
      exact ⟨k + 1, _, rfl, Nat.le_refl _, he, .inr (Int.not_lt.mp hterm)⟩

theorem backUp_short {len : Nat} {reply : AppendEntriesReply} (h0 : nd.lastIncludedIndex = 0)
    (hterm : reply.xTerm = -1) (hlen : reply.xLen = len) (hpos : 0 < len) :
    nd.backUp i reply = some len := by
  have hge : geU64 (len : Int) 1 := by
    rw [geU64, ltU64]
    omega
  rw [backUp, if_pos hterm, hlen, h0, if_pos hge, asU64_natCast]

theorem backUp_found {j : Nat} {e₀ : Entry} {reply : AppendEntriesReply}
    (h0 : nd.lastIncludedIndex = 0) (hpos : 1 ≤ nd.nextIndex i)
    (hle : nd.nextIndex i ≤ nd.log.length) (hfirst : nd.log[0]? = some e₀)
    (hzero : e₀.term ≤ reply.xTerm) (hreal : reply.xTerm ≠ -1)
    (hidx : reply.xIndex = (j : Int) + 1) :
    ∃ next, nd.backUp i reply = some next ∧ (next = j + 1 ∨ ∃ k e, next = k + 1 ∧
      k < nd.nextIndex i ∧ nd.log[k]? = some e ∧ e.term = reply.xTerm) := by
  have hin : nd.nextIndex i - 1 < nd.log.length := by omega
  obtain ⟨k, e, hk, hkle, hget, hstop⟩ := termScan_spec h0 reply.xTerm hin
  have hne : nd.nextIndex i ≠ 0 := by omega
  have hlast : e.term ≤ reply.xTerm := by
    rcases hstop with rfl | hle'
    · rw [hfirst] at hget
      cases hget
      exact hzero
    · exact hle'
  have hge : geU64 ((j : Int) + 1) 1 := by
    rw [geU64, ltU64]
    omega
  rw [backUp, if_neg hreal, if_neg hne, h0, Nat.max_zero, hk]
  simp only [Option.bind_eq_bind, Option.bind_some, realLogIdx, h0, Nat.sub_zero, get_list, hget,
    if_neg (fun h : k = 0 ∧ e.term > reply.xTerm => absurd hlast (Int.not_le.mpr h.2)),
    Option.pure_def, hidx, Nat.zero_add, if_pos hge]
  split
  · rename_i hsame
    exact ⟨k + 1, rfl, .inr ⟨k, e, rfl, by omega, hget, hsame⟩⟩
  · exact ⟨asU64 (j + 1), rfl, .inl (asU64_natCast (j + 1))⟩

theorem backUp_conflict {prev j : Nat} {e₀ e : Entry} {reply : AppendEntriesReply}
    (h0 : nd.lastIncludedIndex = 0) (hnext : nd.nextIndex i = prev + 1)
    (hfirst : nd.log[0]? = some e₀) (hzero : e₀.term ≤ reply.xTerm) (hreal : reply.xTerm ≠ -1)
    (he : nd.log[prev]? = some e) (hdiff : e.term ≠ reply.xTerm)
    (hidx : reply.xIndex = (j : Int) + 1) (hj : j < prev) :
    ∃ next, nd.backUp i reply = some next ∧ 1 ≤ next ∧ next ≤ prev := by
  have hin : prev < nd.log.length := (List.getElem?_eq_some_iff.mp he).1
  have hpos : 1 ≤ nd.nextIndex i := by omega
  have hle : nd.nextIndex i ≤ nd.log.length := by omega
  obtain ⟨next, hback, hat⟩ := backUp_found h0 hpos hle hfirst hzero hreal hidx
  refine ⟨next, hback, ?_⟩
  rcases hat with rfl | ⟨k, e', rfl, hlt, hget, hsame⟩
  · exact ⟨Nat.succ_pos j, hj⟩
  · -- the leader's last entry of the term, which is not the refused one
    have hkp : k ≠ prev := by
      rintro rfl
      rw [he] at hget
      cases hget
      exact hdiff hsame
    exact ⟨Nat.succ_pos k, by omega⟩

theorem handleAppendEntries_refused {args : AppendEntriesArgs} {reply : AppendEntriesReply}
    {next : Nat} (hlead : nd.role = .leader) (hterm : args.term = nd.currentTerm)
    (hreply : reply.term = nd.currentTerm) (hno : reply.success = false)
    (hback : nd.backUp i reply = some next) : nd.handleAppendEntries i args reply =
      some { nd with nextIndex := Function.update nd.nextIndex i next } := by
  have hlt : ¬reply.term > nd.currentTerm := by omega
  rw [handleAppendEntries, if_neg (by simp [hlead, hterm]), if_neg (by simp [hno]), if_neg hlt,
    if_pos hreply, hback]
  rfl

theorem commitScan_some (h0 : nd.lastIncludedIndex = 0) {k : Nat} (hk : k < nd.log.length) :
    ∃ N, nd.commitScan k = some N := by
  induction k with
  | zero => exact ⟨0, rfl⟩
  | succ k ih =>
    have he : nd.log[nd.realLogIdx (k + 1)]? = some nd.log[k + 1] := by
      rw [realLogIdx, h0, Nat.sub_zero, List.getElem?_eq_getElem hk]
    have hcount : ∃ count, nd.commitCount (k + 1) = some count :=
      ⟨_, foldlM_countPeer_exact he _ 1⟩
    obtain ⟨count, hcount⟩ := hcount
    rw [commitScan, hcount]
    split
    · simp only [Option.bind_eq_bind, Option.bind_some, Option.pure_def]
      split
      · exact ⟨k + 1, rfl⟩
      · exact ih (Nat.lt_of_succ_lt hk)
    · exact ⟨k + 1, rfl⟩

theorem matched_eq {last : Nat} (hmatch : nd.matchIndex i ≤ last) : nd.matched i last = { nd with
    matchIndex := Function.update nd.matchIndex i last
    nextIndex := Function.update nd.nextIndex i (last + 1) } := by
  have hidx : (if gtU64 (last : Int) (nd.matchIndex i) then asU64 (last : Int)
      else nd.matchIndex i) = last := by
    split
    · exact asU64_natCast last
    · rename_i hle
      simp only [gtU64, not_or, Int.not_lt] at hle
      omega
  simp only [matched, hidx]

theorem handleAppendEntries_matched {args : AppendEntriesArgs} {reply : AppendEntriesReply}
    {last : Nat} (h0 : nd.lastIncludedIndex = 0) (hlead : nd.role = .leader)
    (hterm : args.term = nd.currentTerm) (hyes : reply.success = true)
    (hlast : args.prevLogIndex + args.entries.length = (last : Nat))
    (hin : last + 1 = nd.log.length) (hmatch : nd.matchIndex i ≤ last) :
    ∃ N, nd.handleAppendEntries i args reply = some { nd with
      matchIndex := Function.update nd.matchIndex i last
      nextIndex := Function.update nd.nextIndex i (last + 1)
      commitIndex := N } := by
  have h0' : (nd.matched i last).lastIncludedIndex = 0 := h0
  have hlt : nd.lastIdx < (nd.matched i last).log.length := by
    simp only [matched, lastIdx, virtualLogIdx, h0, size_list]
    omega
  obtain ⟨N, hN⟩ := commitScan_some h0' hlt
  refine ⟨N, ?_⟩
  rw [← hlast] at hN
  rw [handleAppendEntries_success hlead hterm hyes hN, hlast, matched_eq hmatch]

theorem appendEntries_hint {request : AppendEntriesArgs} {prev : Nat} {e : Entry}
    (h0 : nd.lastIncludedIndex = 0) (hterm : request.term = nd.currentTerm)
    (hprev : request.prevLogIndex = (prev : Nat)) (he : nd.log[prev]? = some e)
    (hdiff : e.term ≠ request.prevLogTerm) (hnew : nd.commitIndex < prev) :
    ∃ (j : Nat) (reply : AppendEntriesReply),
      nd.appendEntries request = some (nd, reply) ∧ reply.success = false ∧
      reply.term = request.term ∧ reply.xTerm = e.term ∧ reply.xIndex = (j : Int) + 1 ∧
      j < prev := by
  have hidx : request.prevLogIndex.toNat = prev := by rw [hprev, Int.toNat_natCast]
  rw [← hidx] at he hnew
  obtain ⟨hlt, rfl⟩ := List.getElem?_eq_some_iff.mp he
  obtain ⟨j, _, hpast, happ⟩ :=
    appendEntries_conflict h0 (Int.le_of_eq hterm.symm) (by omega) hlt hdiff
  have hsame : nd.observeTerm request.term = nd := by rw [hterm, observeTerm_self]
  rw [hsame] at happ
  exact ⟨j, _, happ, rfl, rfl, rfl, rfl, hidx ▸ hpast hnew⟩

theorem appendEntries_adopts {request : AppendEntriesArgs} {ys : List Entry}
    (h0 : nd.lastIncludedIndex = 0) (hterm : request.term = nd.currentTerm)
    (hm : LogMatching Entry.term nd.log ys) (hslice : SliceOf ys request)
    (hc : Contains nd.log request) : ∃ ci, nd.appendEntries request =
      some ({ nd with log := adopt nd.log ys, commitIndex := ci },
        { term := request.term, success := true }) := by
  obtain ⟨e', he', hterm'⟩ := hslice.prev
  obtain ⟨_, e, he, hprev⟩ := id hc
  have hlt := (List.getElem?_eq_some_iff.mp he).1
  have hlt' := (List.getElem?_eq_some_iff.mp he').1
  have hmerge := mergeEntries_slice hm _ _ (Nat.add_sub_of_le hlt') hlt
    (hm _ e e' he he' (hprev.trans hterm'.symm))
  rw [← hslice.entries] at hmerge
  have happ := appendEntries_contained h0 (Int.le_of_eq hterm.symm) hc hmerge
  obtain ⟨ci, hci⟩ := followCommit_eq { nd.observeTerm request.term with
    log := adopt nd.log ys } request.leaderCommit
  have hsame : nd.observeTerm request.term = nd := by rw [hterm, observeTerm_self]
  rw [hci, hsame] at happ
  exact ⟨ci, happ⟩

end RaftNode

/-! ## One round -/

namespace Pair

variable {p : Pair n} {i : Fin n}

theorem round_eq {args : AppendEntriesArgs} {reply : AppendEntriesReply}
    {leader follower : RaftNode n (List Entry)}
    (hargs : p.leader.heartBeatArgs i = some (some args))
    (happ : p.follower.appendEntries args = some (follower, reply))
    (hhandle : p.leader.handleAppendEntries i args reply = some leader) :
    p.round i = some (⟨leader, follower⟩, reply.success) := by
  rw [round, hargs]
  simp only [Option.bind_eq_bind, Option.bind_some, happ, hhandle, Option.pure_def]

theorem Linked.request (h : p.Linked i) : ∃ prev args, p.leader.nextIndex i = prev + 1 ∧
    p.leader.heartBeatArgs i = some (some args) ∧ args.prevLogIndex = (prev : Nat) ∧
    SliceOf p.leader.log args ∧ args.term = p.leader.currentTerm := by
  have hpos := h.nextPos
  have hle := h.nextLe
  have hlt : p.leader.nextIndex i - 1 < p.leader.log.length := by omega
  have hargs := heartBeatArgs_list h.leaderSnapshot (Nat.sub_add_cancel hpos).symm
    (List.getElem?_eq_getElem hlt)
  exact ⟨_, _, (Nat.sub_add_cancel hpos).symm, hargs, rfl,
    (heartBeatArgs_spec h.leaderSnapshot hargs).1, rfl⟩

theorem Linked.round_contained (h : p.Linked i) {args : AppendEntriesArgs}
    (hargs : p.leader.heartBeatArgs i = some (some args))
    (hm : LogMatching Entry.term p.follower.log p.leader.log)
    (hslice : SliceOf p.leader.log args) (hterm : args.term = p.leader.currentTerm)
    (hc : Contains p.follower.log args) :
    ∃ q, p.round i = some (q, true) ∧ q.Synced i ∧ q.leader.log = p.leader.log := by
  obtain ⟨ci, happ⟩ :=
    appendEntries_adopts h.followerSnapshot (hterm.trans h.term.symm) hm hslice hc
  obtain ⟨hlast, hpos⟩ := hslice.matchIdx
  have hmatch := h.matchIndex
  have hyes : ({ term := args.term, success := true } : AppendEntriesReply).success = true := rfl
  obtain ⟨N, hhandle⟩ := handleAppendEntries_matched h.leaderSnapshot h.role hterm hyes
    hlast (Nat.sub_add_cancel hpos) (Nat.le_sub_one_of_lt hmatch)
  have hnext : Function.update p.leader.nextIndex i (p.leader.log.length - 1 + 1) i =
      p.leader.log.length := by rw [Function.update_self, Nat.sub_add_cancel hpos]
  refine ⟨_, round_eq hargs happ hhandle, { h with
    nextPos := Nat.lt_of_lt_of_eq hpos hnext.symm
    nextLe := Nat.le_of_eq hnext
    matchIndex := ?_
    carries := prefix_adopt _ _
    next := hnext }, rfl⟩
  show Function.update p.leader.matchIndex i (p.leader.log.length - 1) i < p.leader.log.length
  rw [Function.update_self]
  exact Nat.sub_one_lt_of_lt hpos

theorem Synced.round (h : p.Synced i) :
    ∃ q, p.round i = some (q, true) ∧ q.Synced i ∧ q.leader.log = p.leader.log := by
  obtain ⟨prev, args, _, hargs, _, hslice, hterm⟩ := h.request
  obtain ⟨e, he, hprev⟩ := hslice.prev
  exact h.round_contained hargs (logMatching_of_extends h.carries) hslice hterm
    ⟨hslice.nonneg, e, prefix_getElem? h.carries he, hprev⟩

theorem Diverging.agreeAt (h : p.Diverging i) {j : Nat} (hle : j ≤ p.follower.commitIndex) :
    p.leader.log[j]? = p.follower.log[j]? := by
  have hin : j < p.follower.commitIndex + 1 := Nat.lt_succ_of_le hle
  have heq := congrArg (fun xs => xs[j]?) h.agree
  simpa only [List.getElem?_take_of_lt hin] using heq

theorem Diverging.backUp (h : p.Diverging i) {args : AppendEntriesArgs} {prev : Nat}
    (hnext : p.leader.nextIndex i = prev + 1) (hprev : args.prevLogIndex = (prev : Nat))
    (hslice : SliceOf p.leader.log args) (hterm : args.term = p.leader.currentTerm)
    (hno : ¬Contains p.follower.log args) :
    ∃ reply next, p.follower.appendEntries args = some (p.follower, reply) ∧
      reply.success = false ∧ reply.term = p.leader.currentTerm ∧
      p.leader.backUp i reply = some next ∧ 1 ≤ next ∧ next ≤ prev := by
  have hterm' : args.term = p.follower.currentTerm := hterm.trans h.term.symm
  cases he : p.follower.log[prev]? with
  | none =>
    -- the follower's log is too short
    rw [List.getElem?_eq_none_iff] at he
    have hout : geU64 args.prevLogIndex p.follower.log.length := by
      rw [geU64, ltU64, hprev]
      omega
    have happ := appendEntries_short h.followerSnapshot (Int.le_of_eq hterm'.symm) hout
    rw [hterm', observeTerm_self, ← hterm'] at happ
    have hpos : 0 < p.follower.log.length := Nat.zero_lt_of_lt h.committed.2
    exact ⟨_, _, happ, rfl, hterm, backUp_short h.leaderSnapshot rfl rfl hpos, hpos, he⟩
  | some e =>
    obtain ⟨e₁, he₁, hprevTerm⟩ := hslice.prev
    rw [hprev, Int.toNat_natCast] at he₁
    have hdiff : e.term ≠ args.prevLogTerm := fun heq =>
      hno ⟨hslice.nonneg, e, by rw [hprev, Int.toNat_natCast, he], heq⟩
    have hnew : p.follower.commitIndex < prev := by
      by_contra hle
      have heq := h.agreeAt (Nat.not_lt.mp hle)
      rw [he₁, he, Option.some.injEq] at heq
      exact hdiff (by rw [← heq, hprevTerm])
    obtain ⟨j, reply, happ, hfail, hreply, hx, hxIndex, hj⟩ :=
      appendEntries_hint h.followerSnapshot hterm' hprev he hdiff hnew
    have hzero : 0 ≤ reply.xTerm := hx ▸ h.followerTerms e (List.mem_of_getElem? he)
    obtain ⟨next, hback, hpos, hle⟩ := backUp_conflict h.leaderSnapshot hnext h.leaderFirst hzero
      (by omega) he₁ (by rw [hx, hprevTerm]; exact hdiff.symm) hxIndex hj
    exact ⟨reply, next, happ, hfail, hreply.trans hterm, hback, hpos, hle⟩

/-- A round of two diverging nodes ends with the leader's log at the follower, or with a smaller
`nextIndex`. -/
theorem Diverging.round (h : p.Diverging i) : ∃ q ok, p.round i = some (q, ok) ∧
    q.leader.log = p.leader.log ∧ ((ok = true ∧ q.Synced i) ∨
      (ok = false ∧ q.Diverging i ∧ q.leader.nextIndex i < p.leader.nextIndex i)) := by
  obtain ⟨prev, args, hnext, hargs, hprev, hslice, hterm⟩ := h.request
  by_cases hc : Contains p.follower.log args
  · obtain ⟨q, hround, hsynced, hlog⟩ := h.round_contained hargs h.matching hslice hterm hc
    exact ⟨q, true, hround, hlog, .inl ⟨rfl, hsynced⟩⟩
  · obtain ⟨reply, next, happ, hno, hreply, hback, hpos, hle⟩ :=
      h.backUp hnext hprev hslice hterm hc
    have hround := round_eq hargs happ
      (handleAppendEntries_refused h.role hterm hreply hno hback)
    have hupdate : Function.update p.leader.nextIndex i next i = next := Function.update_self ..
    have hlen := h.nextLe
    refine ⟨_, _, hround, rfl, .inr ⟨hno, { h with
      nextPos := ?_
      nextLe := ?_ }, ?_⟩⟩
    · show 1 ≤ Function.update p.leader.nextIndex i next i
      omega
    · show Function.update p.leader.nextIndex i next i ≤ p.leader.log.length
      omega
    · show Function.update p.leader.nextIndex i next i < p.leader.nextIndex i
      omega

theorem rounds_settled (h : p.Diverging i ∨ p.Synced i) (m : Nat) :
    ∃ q, rounds i m p = some q ∧ (q.Diverging i ∨ q.Synced i) := by
  induction m generalizing p with
  | zero => exact ⟨p, rfl, h⟩
  | succ m ih =>
    have hround : ∃ q ok, p.round i = some (q, ok) ∧ (q.Diverging i ∨ q.Synced i) := by
      rcases h with h | h
      · obtain ⟨q, ok, hround, _, ⟨_, hq⟩ | ⟨_, hq, _⟩⟩ := h.round
        · exact ⟨q, ok, hround, .inr hq⟩
        · exact ⟨q, ok, hround, .inl hq⟩
      · obtain ⟨q, hround, hq, _⟩ := h.round
        exact ⟨q, true, hround, .inr hq⟩
    obtain ⟨q, ok, hround, hq⟩ := hround
    obtain ⟨q', hrounds, hq'⟩ := ih hq
    refine ⟨q', ?_, hq'⟩
    simp only [rounds, hround, Option.bind_eq_bind, Option.bind_some, hrounds]

theorem Diverging.succeeds (h : p.Diverging i) : ∃ m < p.leader.nextIndex i, ∃ q q',
    rounds i m p = some q ∧ q.round i = some (q', true) ∧ q'.Synced i ∧
      q'.leader.log = p.leader.log := by
  induction hk : p.leader.nextIndex i using Nat.strong_induction_on generalizing p with
  | _ k ih =>
    obtain ⟨q, ok, hround, hlog, ⟨rfl, hq⟩ | ⟨rfl, hq, hlt⟩⟩ := h.round
    · exact ⟨0, hk ▸ h.nextPos, p, q, rfl, hround, hq, hlog⟩
    · obtain ⟨m, hm, r, r', hrounds, hsuccess, hr', hlog'⟩ := ih _ (hk ▸ hlt) hq rfl
      refine ⟨m + 1, by omega, r, r', ?_, hsuccess, hr', hlog'.trans hlog⟩
      simp only [rounds, hround, Option.bind_eq_bind, Option.bind_some, hrounds]

/-- **Backtracking converges.** In every round `nextIndex` is positive and a refusal lowers it; the
first success, after less rounds than it says, leaves the leader's log at the follower. -/
theorem backtracking_converges (p : Pair n) (i : Fin n) (h : p.Diverging i) :
    (∀ m, ∃ q q' ok, rounds i m p = some q ∧ 1 ≤ q.leader.nextIndex i ∧
      q.round i = some (q', ok) ∧
      (ok = false → q'.leader.nextIndex i < q.leader.nextIndex i)) ∧
    ∃ m < p.leader.nextIndex i, ∃ q q', rounds i m p = some q ∧ q.round i = some (q', true) ∧
      q'.leader.log = p.leader.log ∧ p.leader.log <+: q'.follower.log ∧
      q'.leader.nextIndex i = p.leader.log.length := by
  constructor
  · intro m
    obtain ⟨q, hrounds, hq⟩ := rounds_settled (.inl h) m
    rcases hq with hq | hq
    · obtain ⟨q', ok, hround, _, hor⟩ := hq.round
      refine ⟨q, q', ok, hrounds, hq.nextPos, hround, fun hno => ?_⟩
      rcases hor with ⟨hyes, _⟩ | ⟨_, _, hlt⟩
      · exact absurd (hyes.symm.trans hno) (by decide)
      · exact hlt
    · obtain ⟨q', hround, _, _⟩ := hq.round
      exact ⟨q, q', true, hrounds, hq.nextPos, hround, fun hno => absurd hno (by decide)⟩
  · obtain ⟨m, hm, q, q', hrounds, hsuccess, hsynced, hlog⟩ := h.succeeds
    exact ⟨m, hm, q, q', hrounds, hsuccess, hlog, hlog ▸ hsynced.carries, hlog ▸ hsynced.next⟩

/-- A follower with two entries of a term that the leader does not have, and a third too many. -/
theorem backtracking_converges_conflict : ∃ p : Pair 2,
    p.leader.log = [{}, { term := 1 }, { term := 3 }, { term := 3 }] ∧
    p.follower.log = [{}, { term := 1 }, { term := 2 }, { term := 2 }, { term := 2 }] ∧
    p.Diverging 1 ∧
    (∀ m, ∃ q q' ok, rounds 1 m p = some q ∧ 1 ≤ q.leader.nextIndex 1 ∧
      q.round 1 = some (q', ok) ∧
      (ok = false → q'.leader.nextIndex 1 < q.leader.nextIndex 1)) ∧
    ∃ m < p.leader.nextIndex 1, ∃ q q', rounds 1 m p = some q ∧ q.round 1 = some (q', true) ∧
      q'.leader.log = p.leader.log ∧ p.leader.log <+: q'.follower.log ∧
      q'.leader.nextIndex 1 = p.leader.log.length := by
  have h : Pair.Diverging (n := 2) ⟨{
      (init 0 [{}, { term := 1 }, { term := 3 }, { term := 3 }]) with
        currentTerm := 3, role := .leader, nextIndex := fun _ => 4 }, {
      (init 1 [{}, { term := 1 }, { term := 2 }, { term := 2 }, { term := 2 }]) with
        currentTerm := 3, commitIndex := 1 }⟩ 1 := {
    role := rfl, term := rfl, leaderSnapshot := rfl, followerSnapshot := rfl
    nextPos := by decide, nextLe := by decide, matchIndex := by decide, leaderFirst := rfl
    followerTerms := by decide, committed := by decide, agree := rfl, matching := by decide }
  exact ⟨_, rfl, rfl, h, backtracking_converges _ _ h⟩

end Pair

end TinyKv
