import TinyKv.Raft.LogSpec

/-!
# Raft.Merge

`AppendEntries` on any log and any request, whoever sent it.

* `Contains`: the log has the entry that the request builds on. `appendEntries_contained` and
  `appendEntries_refused` say what the function does with and without it.
* `appendEntries_merges`: the log is kept as far as it agrees with the request, and the request's
  entries follow from the first difference on.
* `commit_verified_iff`: when the new commit index stays within what the request has verified.
-/

namespace TinyKv

open Lib

/-- The log `xs` has the entry at `prevLogIndex`, with its term. -/
def Contains (xs : List Entry) (request : AppendEntriesArgs) : Prop :=
  0 ≤ request.prevLogIndex ∧
    ∃ e, xs[request.prevLogIndex.toNat]? = some e ∧ e.term = request.prevLogTerm

namespace RaftNode

variable {n : Nat} {nd : RaftNode n (List Entry)} {request : AppendEntriesArgs}

/-! ## The loop over the new entries -/

theorem mergeEntries_agrees {xs es : List Entry} {i : Nat}
    (h : ∀ k < es.length, AgreesAt Entry.term xs i es k) : mergeEntries xs i es = some xs := by
  induction es generalizing i with
  | nil => rfl
  | cons e es ih =>
    have hfirst := h 0 (Nat.succ_pos _)
    have hlt : i < xs.length := hfirst.lt
    obtain ⟨x, y, hx, hy, hterm⟩ := hfirst
    cases hy
    have hrest : mergeEntries xs (i + 1) es = some xs :=
      ih fun k hk => agreesAt_cons.mp (h (k + 1) (Nat.succ_lt_succ hk))
    simp only [mergeEntries, size_list, if_pos hlt, get_list, Option.bind_eq_bind]
    rw [Nat.add_zero] at hx
    rw [hx, Option.bind_some, if_neg (not_not.mpr hterm), hrest]

theorem mergeEntries_differs {xs es : List Entry} {i k : Nat} (hi : i ≤ xs.length)
    (hk : k < es.length) (hbefore : ∀ j < k, AgreesAt Entry.term xs i es j)
    (hno : ¬AgreesAt Entry.term xs i es k) :
    mergeEntries xs i es = some (xs.take (i + k) ++ es.drop k) := by
  induction es generalizing i k with
  | nil => cases hk
  | cons e es ih =>
    cases k with
    | zero =>
      -- the first entry is missing or in conflict: the rest of the log goes
      by_cases hlt : i < xs.length
      · have hx : xs[i]? = some xs[i] := List.getElem?_eq_getElem hlt
        have hterm : xs[i].term ≠ e.term := fun heq => hno ⟨xs[i], e, hx, rfl, heq⟩
        simp only [mergeEntries, size_list, if_pos hlt, get_list, hx, Option.bind_eq_bind,
          Option.bind_some, if_pos hterm, truncateFrom_list, foldlM_pushBack, Nat.add_zero,
          List.drop_zero]
      · obtain rfl : i = xs.length := Nat.le_antisymm hi (Nat.not_lt.mp hlt)
        simp only [mergeEntries, size_list, if_neg hlt, if_true, foldlM_pushBack, Nat.add_zero,
          List.drop_zero, List.take_length]
    | succ k =>
      have hfirst := hbefore 0 (Nat.succ_pos k)
      have hlt : i < xs.length := hfirst.lt
      obtain ⟨x, y, hx, hy, hterm⟩ := hfirst
      cases hy
      have hrest : mergeEntries xs (i + 1) es = some (xs.take (i + 1 + k) ++ es.drop k) := by
        refine ih hlt (Nat.lt_of_succ_lt_succ hk) (fun j hj => ?_) (fun hag => ?_)
        · exact agreesAt_cons.mp (hbefore (j + 1) (Nat.succ_lt_succ hj))
        · exact hno (agreesAt_cons.mpr hag)
      simp only [mergeEntries, size_list, if_pos hlt, get_list, Option.bind_eq_bind]
      rw [Nat.add_zero] at hx
      rw [hx, Option.bind_some, if_neg (not_not.mpr hterm), hrest, List.drop_succ_cons,
        Nat.add_right_comm, Nat.add_assoc]

theorem appendEntries_contained (h0 : nd.lastIncludedIndex = 0)
    (hge : nd.currentTerm ≤ request.term) (hc : Contains nd.log request) {log : List Entry}
    (hlog : mergeEntries nd.log (request.prevLogIndex.toNat + 1) request.entries = some log) :
    nd.appendEntries request =
      some ({ nd.observeTerm request.term with log := log }.followCommit request.leaderCommit,
        { term := request.term, success := true }) := by
  obtain ⟨hneg, e, he, hterm⟩ := hc
  have hlt := (List.getElem?_eq_some_iff.mp he).1
  have hin : ¬geU64 request.prevLogIndex nd.log.length := by
    rw [geU64, not_not]
    exact ⟨hneg, by omega⟩
  unfold appendEntries
  rw [if_neg (Int.not_lt.mpr hge)]
  simp only [observeTerm_snapshot, observeTerm_log, virtualLogIdx, realLogIdx, h0, Nat.add_zero,
    Nat.sub_zero, size_list, get_list, if_neg (not_ltU64_zero _), if_neg hin, he, hterm,
    Option.bind_eq_bind, Option.bind_some, ne_eq, not_true, if_false, hlog, Option.pure_def,
    observeTerm_term (Int.not_lt.mpr hge)]

theorem conflictStart_spec (h0 : nd.lastIncludedIndex = 0) (xTerm : Int) {i : Nat}
    (hi : i < nd.log.length) : ∃ j, nd.conflictStart xTerm i = some j ∧ j ≤ i ∧
      (nd.commitIndex < i → nd.log[i].term = xTerm → j < i) := by
  induction i with
  | zero => exact ⟨0, rfl, Nat.le_refl 0, fun hlt => absurd hlt (Nat.not_lt_zero _)⟩
  | succ i ih =>
    rw [conflictStart]
    split
    · rw [realLogIdx, h0, Nat.sub_zero, get_list, List.getElem?_eq_getElem hi]
      simp only [Option.bind_eq_bind, Option.bind_some]
      split
      · obtain ⟨j, hj, hle, _⟩ := ih (Nat.lt_of_succ_lt hi)
        exact ⟨j, hj, Nat.le_succ_of_le hle, fun _ _ => Nat.lt_succ_of_le hle⟩
      · rename_i hterm
        exact ⟨i + 1, rfl, Nat.le_refl _, fun _ heq => absurd heq hterm⟩
    · rename_i hcommitted
      exact ⟨i + 1, rfl, Nat.le_refl _, fun hlt => absurd hlt hcommitted⟩

theorem appendEntries_short (h0 : nd.lastIncludedIndex = 0) (hge : nd.currentTerm ≤ request.term)
    (hout : geU64 request.prevLogIndex nd.log.length) :
    nd.appendEntries request = some (nd.observeTerm request.term,
      { term := request.term, success := false, xTerm := -1, xLen := nd.log.length }) := by
  unfold appendEntries
  rw [if_neg (Int.not_lt.mpr hge)]
  simp only [observeTerm_snapshot, observeTerm_log, virtualLogIdx, h0, Nat.add_zero, size_list,
    if_neg (not_ltU64_zero _), if_pos hout, observeTerm_term (Int.not_lt.mpr hge)]

theorem appendEntries_conflict (h0 : nd.lastIncludedIndex = 0)
    (hge : nd.currentTerm ≤ request.term) (hneg : 0 ≤ request.prevLogIndex)
    (hlt : request.prevLogIndex.toNat < nd.log.length)
    (hterm : nd.log[request.prevLogIndex.toNat].term ≠ request.prevLogTerm) :
    ∃ j, j ≤ request.prevLogIndex.toNat ∧
      (nd.commitIndex < request.prevLogIndex.toNat → j < request.prevLogIndex.toNat) ∧
      nd.appendEntries request = some (nd.observeTerm request.term, {
        term := request.term, success := false
        xTerm := nd.log[request.prevLogIndex.toNat].term, xIndex := j + 1
        xLen := nd.log.length }) := by
  have hin : ¬geU64 request.prevLogIndex nd.log.length := by
    rw [geU64, not_not]
    exact ⟨hneg, by omega⟩
  have he := List.getElem?_eq_getElem hlt
  have h0' : (nd.observeTerm request.term).lastIncludedIndex = 0 := by
    rw [observeTerm_snapshot, h0]
  obtain ⟨j, hj, hle, hpast⟩ := conflictStart_spec h0' nd.log[request.prevLogIndex.toNat].term
    (by rw [observeTerm_log]; exact hlt)
  refine ⟨j, hle, fun hc => hpast (by rw [observeTerm_commitIndex]; exact hc) (by simp), ?_⟩
  unfold appendEntries
  rw [if_neg (Int.not_lt.mpr hge)]
  simp only [observeTerm_snapshot, observeTerm_log, virtualLogIdx, realLogIdx, h0, Nat.add_zero,
    Nat.sub_zero, size_list, get_list, if_neg (not_ltU64_zero _), if_neg hin, he,
    Option.bind_eq_bind, Option.bind_some, ne_eq, hterm, not_false_eq_true, if_true, hj,
    Option.pure_def, observeTerm_term (Int.not_lt.mpr hge)]

theorem appendEntries_refused (h0 : nd.lastIncludedIndex = 0)
    (hge : nd.currentTerm ≤ request.term) (hc : ¬Contains nd.log request) :
    ∃ reply, nd.appendEntries request = some (nd.observeTerm request.term, reply) ∧
      reply.success = false := by
  by_cases hout : geU64 request.prevLogIndex nd.log.length
  · exact ⟨_, appendEntries_short h0 hge hout, rfl⟩
  · rw [geU64, not_not] at hout
    obtain ⟨hneg, hlt⟩ := hout
    have hlt : request.prevLogIndex.toNat < nd.log.length := by omega
    obtain ⟨j, _, _, happ⟩ := appendEntries_conflict h0 hge hneg hlt fun heq =>
      hc ⟨hneg, _, List.getElem?_eq_getElem hlt, heq⟩
    exact ⟨_, happ, rfl⟩

theorem merged_log {xs : List Entry} (hc : Contains xs request) :
    ∃ log, mergeEntries xs (request.prevLogIndex.toNat + 1) request.entries = some log ∧
      (Contains log request ∧ ∀ k < request.entries.length, AgreesAt Entry.term log
        (request.prevLogIndex.toNat + 1) request.entries k) ∧
      ((∀ k < request.entries.length, AgreesAt Entry.term xs
        (request.prevLogIndex.toNat + 1) request.entries k) → log = xs) ∧
      (∀ k < request.entries.length, (∀ j < k, AgreesAt Entry.term xs
          (request.prevLogIndex.toNat + 1) request.entries j) →
        ¬AgreesAt Entry.term xs (request.prevLogIndex.toNat + 1) request.entries k →
        log = xs.take (request.prevLogIndex.toNat + 1 + k) ++ request.entries.drop k) := by
  obtain ⟨hneg, e, he, hterm⟩ := hc
  have hi : request.prevLogIndex.toNat + 1 ≤ xs.length := (List.getElem?_eq_some_iff.mp he).1
  rcases agrees_or_first Entry.term xs (request.prevLogIndex.toNat + 1) request.entries with
    hall | ⟨k, hk, hbefore, hno⟩
  · exact ⟨xs, mergeEntries_agrees hall, ⟨⟨hneg, e, he, hterm⟩, hall⟩, fun _ => rfl,
      fun k hk _ hno => absurd (hall k hk) hno⟩
  · have hlog := mergeEntries_differs hi hk hbefore hno
    have hle := le_of_agrees hi hbefore
    refine ⟨_, hlog, ⟨⟨hneg, e, ?_, hterm⟩, agreesAt_splice hi hbefore⟩,
      fun hall => absurd (hall k hk) hno, ?_⟩
    · rw [List.getElem?_append_left (by rw [List.length_take]; omega),
        List.getElem?_take_of_lt (by omega), he]
    · intro k' hk' hbefore' hno'
      exact Option.some.inj (hlog.symm.trans (mergeEntries_differs hi hk' hbefore' hno'))

/-- **AppendEntries merges exactly.** The log stays as it is if it agrees with all entries of the
request, and else takes them over from the first difference on; the same request once more changes
nothing. Without the entry that the request builds on it is refused. -/
theorem appendEntries_merges (nd : RaftNode n (List Entry)) (request : AppendEntriesArgs)
    (h0 : nd.lastIncludedIndex = 0) (hge : nd.currentTerm ≤ request.term) :
    ∃ nd' reply, nd.appendEntries request = some (nd', reply) ∧
      (Contains nd.log request → reply.success = true ∧
        ((∀ k < request.entries.length, AgreesAt Entry.term nd.log
          (request.prevLogIndex.toNat + 1) request.entries k) → nd'.log = nd.log) ∧
        (∀ k < request.entries.length, (∀ j < k, AgreesAt Entry.term nd.log
            (request.prevLogIndex.toNat + 1) request.entries j) →
          ¬AgreesAt Entry.term nd.log (request.prevLogIndex.toNat + 1) request.entries k →
          nd'.log = nd.log.take (request.prevLogIndex.toNat + 1 + k) ++ request.entries.drop k) ∧
        ∃ nd'' reply', nd'.appendEntries request = some (nd'', reply') ∧ nd''.log = nd'.log) ∧
      (¬Contains nd.log request → reply.success = false ∧ nd'.log = nd.log ∧
        nd'.commitIndex = nd.commitIndex) := by
  by_cases hc : Contains nd.log request
  · obtain ⟨log, hlog, hagain, hsame, hnew⟩ := merged_log hc
    have happ := appendEntries_contained h0 hge hc hlog
    refine ⟨_, _, happ, fun _ => ⟨rfl, ?_, ?_, ?_⟩, fun hno => absurd hc hno⟩
    · intro h
      rw [followCommit_log]
      exact hsame h
    · intro k hk hbefore hno
      rw [followCommit_log]
      exact hnew k hk hbefore hno
    · -- the same request meets a log that agrees with all of it
      obtain ⟨ci, hci⟩ := followCommit_eq
        { nd.observeTerm request.term with log := log } request.leaderCommit
      rw [hci]
      have hterm : (nd.observeTerm request.term).currentTerm = request.term :=
        observeTerm_term (Int.not_lt.mpr hge)
      have h0' : { nd.observeTerm request.term with
          log := log, commitIndex := ci }.lastIncludedIndex = 0 :=
        (observeTerm_snapshot _ _).trans h0
      have happ' := appendEntries_contained h0' (Int.le_of_eq hterm) hagain.1
        (mergeEntries_agrees hagain.2)
      exact ⟨_, _, happ', followCommit_log _ _⟩
  · obtain ⟨reply, happ, hno⟩ := appendEntries_refused h0 hge hc
    exact ⟨_, reply, happ, fun hc' => absurd hc' hc,
      fun _ => ⟨hno, observeTerm_log _ _, observeTerm_commitIndex _ _⟩⟩

/-- A follower with a longer log of another term takes over the second entry. -/
theorem appendEntries_merges_conflict : ∃ (nd : RaftNode 2 (List Entry))
    (request : AppendEntriesArgs), nd.log = [{}, { term := 1 }, { term := 1 }] ∧
    request.entries = [{ term := 1 }, { term := 2 }] ∧
    (nd.lastIncludedIndex = 0 ∧ nd.currentTerm ≤ request.term) ∧
    ∃ nd' reply, nd.appendEntries request = some (nd', reply) ∧
      (Contains nd.log request → reply.success = true ∧
        ((∀ k < request.entries.length, AgreesAt Entry.term nd.log
          (request.prevLogIndex.toNat + 1) request.entries k) → nd'.log = nd.log) ∧
        (∀ k < request.entries.length, (∀ j < k, AgreesAt Entry.term nd.log
            (request.prevLogIndex.toNat + 1) request.entries j) →
          ¬AgreesAt Entry.term nd.log (request.prevLogIndex.toNat + 1) request.entries k →
          nd'.log = nd.log.take (request.prevLogIndex.toNat + 1 + k) ++ request.entries.drop k) ∧
        ∃ nd'' reply', nd'.appendEntries request = some (nd'', reply') ∧ nd''.log = nd'.log) ∧
      (¬Contains nd.log request → reply.success = false ∧ nd'.log = nd.log ∧
        nd'.commitIndex = nd.commitIndex) :=
  ⟨init 0 [{}, { term := 1 }, { term := 1 }], ⟨2, 1, 0, 0, [{ term := 1 }, { term := 2 }], 0⟩,
    rfl, rfl, by decide, appendEntries_merges _ _ (by decide) (by decide)⟩

/-! ## The commit index -/

theorem followCommit_le_iff {b : Int} {leaderCommit : Int} (hb : nd.commitIndex ≤ b) :
    ((nd.followCommit leaderCommit).commitIndex : Int) ≤ b ↔
      (0 ≤ leaderCommit ∧ leaderCommit ≤ b) ∨ (nd.lastIdx : Int) ≤ b := by
  unfold followCommit
  split
  · rename_i hgt
    split
    · rename_i hlast
      unfold gtU64 at hlast
      simp only
      omega
    · rename_i hlast
      simp only [gtU64, not_or, Int.not_lt] at hlast
      simp only [asU64, if_neg (Int.not_lt.mpr hlast.1)]
      omega
  · rename_i hgt
    simp only [gtU64, not_or, Int.not_lt] at hgt
    omega

/-- Nothing beyond the verified prefix can become committed: the request is outdated, the leader's
commit index or the log ends within the prefix, or the request replaces the end of the log. -/
def CommitOk (nd : RaftNode n (List Entry)) (request : AppendEntriesArgs) : Prop :=
  let bound : Int := max nd.commitIndex (request.prevLogIndex + request.entries.length)
  ltU64 request.prevLogIndex nd.lastIncludedIndex ∨
  (0 ≤ request.leaderCommit ∧ request.leaderCommit ≤ bound) ∨ (nd.lastIdx : Int) ≤ bound ∨
  ∃ k < request.entries.length, ¬AgreesAt Entry.term nd.log
    (nd.realLogIdx request.prevLogIndex.toNat + 1) request.entries k

theorem appendEntries_stale {reply : AppendEntriesReply} {nd' : RaftNode n (List Entry)}
    (h : nd.appendEntries request = some (nd', reply))
    (hstale : ltU64 request.prevLogIndex nd.lastIncludedIndex) :
    nd'.commitIndex = nd.commitIndex := by
  unfold appendEntries at h
  split at h
  · cases h
    rfl
  · simp only [observeTerm_snapshot, if_pos hstale, Option.some.injEq, Prod.mk.injEq] at h
    rw [← h.1, observeTerm_commitIndex]

theorem merged_lastIdx {log : List Entry} {b : Int} (hstale : ¬ltU64 request.prevLogIndex
      nd.lastIncludedIndex)
    (hin : ltU64 request.prevLogIndex (nd.virtualLogIdx (Log.size nd.log)))
    (hlog : mergeEntries nd.log (nd.realLogIdx request.prevLogIndex.toNat + 1) request.entries =
      some log) (hb : request.prevLogIndex + request.entries.length ≤ b) :
    (({ nd with log := log }.lastIdx : Nat) : Int) ≤ b ↔ (nd.lastIdx : Int) ≤ b ∨
      ∃ k < request.entries.length, ¬AgreesAt Entry.term nd.log
        (nd.realLogIdx request.prevLogIndex.toNat + 1) request.entries k := by
  simp only [ltU64, virtualLogIdx, realLogIdx, size_list] at hstale hin hlog
  have hi : request.prevLogIndex.toNat - nd.lastIncludedIndex + 1 ≤ nd.log.length := by omega
  rcases agrees_or_first Entry.term nd.log
    (request.prevLogIndex.toNat - nd.lastIncludedIndex + 1) request.entries with
    hall | ⟨k, hk, hbefore, hno⟩
  · rw [mergeEntries_agrees hall] at hlog
    cases hlog
    refine ⟨.inl, ?_⟩
    rintro (hle | ⟨k, hk, hno⟩)
    · exact hle
    · exact absurd (hall k hk) hno
  · rw [mergeEntries_differs hi hk hbefore hno] at hlog
    cases hlog
    have hle := le_of_agrees hi hbefore
    refine iff_of_true ?_ (.inr ⟨k, hk, hno⟩)
    simp only [lastIdx, virtualLogIdx, size_list, List.length_append, List.length_take,
      List.length_drop, Nat.min_eq_left hle]
    omega

/-- **What a success commits** lies within the verified prefix iff the request meets `CommitOk`. -/
theorem commit_verified_iff (nd nd' : RaftNode n (List Entry)) (request : AppendEntriesArgs)
    (reply : AppendEntriesReply) (h : nd.appendEntries request = some (nd', reply))
    (hyes : reply.success = true) :
    (nd'.commitIndex : Int) ≤
        max (nd.commitIndex : Int) (request.prevLogIndex + request.entries.length) ↔
      nd.CommitOk request := by
  by_cases hstale : ltU64 request.prevLogIndex nd.lastIncludedIndex
  · rw [appendEntries_stale h hstale]
    exact iff_of_true (Int.le_max_left _ _) (.inl hstale)
  · rcases appendEntries_spec h with ⟨_, _, hno⟩ | ⟨_, _, hsnap⟩ |
      ⟨_, hin, e, log, _, _, hlog, hnd, _⟩
    · rw [hyes] at hno
      cases hno
    · exact absurd (hsnap hyes) hstale
    · have hcommit : ((nd.observeTerm request.term).commitIndex : Int) ≤
          max (nd.commitIndex : Int) (request.prevLogIndex + request.entries.length) := by
        rw [observeTerm_commitIndex]
        exact Int.le_max_left _ _
      have hlast : ({ nd.observeTerm request.term with log := log }.lastIdx : Int) =
          { nd with log := log }.lastIdx := by
        simp only [lastIdx, virtualLogIdx, observeTerm_snapshot]
      rw [hnd, @followCommit_le_iff n { nd.observeTerm request.term with log := log } _ _ hcommit,
        hlast, merged_lastIdx hstale hin hlog (Int.le_max_right _ _)]
      exact (or_iff_right hstale).symm

theorem heartBeatArgs_commitOk {leader : RaftNode n (List Entry)} {i : Fin n}
    {args : AppendEntriesArgs} (h0 : leader.lastIncludedIndex = 0)
    (hcommit : leader.commitIndex ≤ leader.lastIdx)
    (h : leader.heartBeatArgs i = some (some args)) : nd.CommitOk args := by
  obtain ⟨hslice, _, hlc⟩ := heartBeatArgs_spec h0 h
  obtain ⟨hend, _⟩ := hslice.matchIdx
  simp only [lastIdx, virtualLogIdx, h0, size_list] at hcommit
  refine .inr (.inl ⟨by omega, ?_⟩)
  exact Int.le_trans (by omega) (Int.le_max_right _ _)

/-- A heart beat of term 1 without entries, on a fresh log. -/
theorem commit_verified_fresh : ∃ (nd nd' : RaftNode 2 (List Entry)) (request : AppendEntriesArgs)
    (reply : AppendEntriesReply), nd.log = [{}] ∧ request.leaderCommit = 5 ∧
    nd.appendEntries request = some (nd', reply) ∧ reply.success = true ∧
    ((nd'.commitIndex : Int) ≤
        max (nd.commitIndex : Int) (request.prevLogIndex + request.entries.length) ↔
      nd.CommitOk request) :=
  ⟨init 0 [{}], becomeFollower (init 0 [{}]) 1, ⟨1, 1, 0, 0, [], 5⟩, ⟨1, true, 0, 0, 0⟩, rfl, rfl,
    rfl, rfl, commit_verified_iff _ _ _ _ rfl rfl⟩

/-- The follower holds two entries of an old leader that the heart beat has not verified. -/
theorem heart_beat_commits_unverified : ∃ nd' reply,
    (init 0 [{}, { term := 1 }, { term := 1 }] : RaftNode 2 (List Entry)).appendEntries
      ⟨2, 1, 0, 0, [], 2⟩ = some (nd', reply) ∧ reply.success = true ∧
    nd'.log = [{}, { term := 1 }, { term := 1 }] ∧ nd'.commitIndex = 2 ∧
    ¬(nd'.commitIndex : Int) ≤ max 0 (0 + ([] : List Entry).length) :=
  ⟨_, _, rfl, rfl, rfl, rfl, by decide⟩

end RaftNode
end TinyKv
