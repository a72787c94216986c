import TinyKv.Lib.LogMatch
import TinyKv.Lib.Table
import TinyKv.Raft.NodeSpec

/-!
# Raft.LogSpec

The replication functions on logs that are lists, as long as no snapshot was taken.

* `SliceOf xs args`: the request carries the end of the log `xs`, from some index on.
  `sendHeartBeats_spec` shows that a leader sends slices of its log.
* `mergeEntries_slice`: given log matching, the loop of `AppendEntries` brings the log in line with
  the one the request is a slice of (`adopt`). `appendEntries_slice` is the whole function.
-/

namespace TinyKv

open Lib

structure SliceOf (xs : List Entry) (args : AppendEntriesArgs) : Prop where
  nonneg : 0 ≤ args.prevLogIndex
  prev : ∃ e, xs[args.prevLogIndex.toNat]? = some e ∧ e.term = args.prevLogTerm
  entries : args.entries = xs.drop (args.prevLogIndex.toNat + 1)

theorem SliceOf.matchIdx {L : List Entry} {args : AppendEntriesArgs} (h : SliceOf L args) :
    args.prevLogIndex + args.entries.length = (L.length - 1 : Nat) ∧ 0 < L.length := by
  obtain ⟨e, he, _⟩ := h.prev
  have hlt := (List.getElem?_eq_some_iff.mp he).1
  have hpos := h.nonneg
  rw [h.entries, List.length_drop]
  omega

namespace RaftNode

variable {n : Nat}

theorem not_ltU64_zero (a : Int) : ¬ltU64 a 0 := fun h => absurd h.2 (Int.not_lt.mpr h.1)

theorem entriesFrom_list (xs : List Entry) :
    ∀ (m start : Nat), m = xs.length - start → entriesFrom xs start = some (xs.drop start) := by
  intro m
  induction m with
  | zero =>
    intro start hm
    rw [List.drop_of_length_le (by omega)]
    simp [entriesFrom, ← hm]
  | succ m ih =>
    intro start hm
    have hlt : start < xs.length := by omega
    have hrest := ih (start + 1) (by omega)
    simp only [entriesFrom, size_list] at hrest
    rw [List.drop_eq_getElem_cons hlt]
    simp only [entriesFrom, size_list, ← hm, List.range'_succ, List.mapM_cons]
    rw [show xs.length - (start + 1) = m by omega] at hrest
    rw [hrest]
    simp [List.getElem?_eq_getElem hlt]

theorem newEntries_list {nd : RaftNode n (List Entry)} (h0 : nd.lastIncludedIndex = 0)
    (prev : Nat) : nd.newEntries prev = some (nd.log.drop (prev + 1)) := by
  unfold newEntries
  simp only [lastIdx, virtualLogIdx, realLogIdx, h0, size_list]
  split
  · rw [Nat.sub_zero, entriesFrom_list nd.log _ _ rfl]
  · rw [List.drop_of_length_le (by omega)]

theorem heartBeatArgs_spec {nd : RaftNode n (List Entry)} {i : Fin n} {args : AppendEntriesArgs}
    (h0 : nd.lastIncludedIndex = 0) (h : nd.heartBeatArgs i = some (some args)) :
    SliceOf nd.log args ∧ args.term = nd.currentTerm ∧ args.leaderCommit = nd.commitIndex := by
  unfold heartBeatArgs at h
  simp only at h
  split at h
  · cases h
  · split at h
    · cases h
    · rename_i hneg
      simp only [Option.bind_eq_bind, Option.bind_eq_some_iff, Option.pure_def,
        Option.some.injEq, realLogIdx, h0, Nat.sub_zero, get_list] at h
      obtain ⟨entries, hentries, e, he, rfl⟩ := h
      rw [newEntries_list h0] at hentries
      cases hentries
      exact ⟨⟨Int.not_lt.mp hneg, ⟨e, he, rfl⟩, rfl⟩, rfl, rfl⟩

theorem heartBeatArgs_list {nd : RaftNode n (List Entry)} {i : Fin n} {prev : Nat} {e : Entry}
    (h0 : nd.lastIncludedIndex = 0) (hnext : nd.nextIndex i = prev + 1)
    (he : nd.log[prev]? = some e) : nd.heartBeatArgs i = some (some {
      term := nd.currentTerm, leaderId := (nd.curNodeId : Nat), prevLogIndex := prev,
      prevLogTerm := e.term, entries := nd.log.drop (prev + 1),
      leaderCommit := nd.commitIndex }) := by
  have hprev : (nd.nextIndex i : Int) - 1 = prev := by omega
  have hneg : ¬(prev : Int) < 0 := by omega
  unfold heartBeatArgs
  simp only [hprev, h0, if_neg (not_ltU64_zero _), if_neg hneg, Int.toNat_natCast,
    newEntries_list h0, realLogIdx, Nat.sub_zero, get_list, he, Option.bind_eq_bind,
    Option.bind_some, Option.pure_def]

theorem sendHeartBeats_spec {nd : RaftNode n (List Entry)}
    {calls : List (Fin n × AppendEntriesArgs)} (h0 : nd.lastIncludedIndex = 0)
    (h : nd.sendHeartBeats = some calls) : ∀ p ∈ calls, nd.role = .leader ∧ p.1 ≠ nd.curNodeId ∧
      SliceOf nd.log p.2 ∧ p.2.term = nd.currentTerm ∧ p.2.leaderCommit = nd.commitIndex := by
  intro p hp
  unfold sendHeartBeats at h
  split at h
  · cases h
    cases hp
  · rename_i hrole
    simp only [Option.bind_eq_bind, Option.bind_eq_some_iff, Option.pure_def,
      Option.some.injEq] at h
    obtain ⟨args, hargs, rfl⟩ := h
    obtain ⟨⟨j, a⟩, hmem, ha⟩ := List.mem_filterMap.mp hp
    obtain ⟨b, rfl, rfl⟩ := Option.map_eq_some_iff.mp ha
    obtain ⟨i, hi, hb⟩ := exists_of_mem_mapM hargs _ hmem
    obtain ⟨b', hb', heq⟩ := Option.map_eq_some_iff.mp hb
    obtain ⟨rfl, rfl⟩ := Prod.mk.inj heq
    exact ⟨Decidable.not_not.mp hrole, by simpa using hi, heartBeatArgs_spec h0 hb'⟩

theorem foldlM_pushBack (es : List Entry) :
    ∀ xs : List Entry, es.foldlM Log.pushBack xs = some (xs ++ es) := by
  induction es with
  | nil => intro xs; simp
  | cons e es ih => intro xs; simp [List.foldlM_cons, ih]

/-- The loop of `AppendEntries` over a slice of `ys`, the logs being equal up to the slice. -/
theorem mergeEntries_slice {xs ys : List Entry} (hm : LogMatching Entry.term xs ys) :
    ∀ (m k : Nat), k + m = ys.length → k ≤ xs.length → xs.take k = ys.take k →
      mergeEntries xs k (ys.drop k) = some (adopt xs ys) := by
  intro m
  induction m with
  | zero =>
    intro k hk hle heq
    have hpre : ys <+: xs := by
      rw [← List.take_of_length_le (i := k) (l := ys) (by omega), ← heq]
      exact List.take_prefix k xs
    rw [List.drop_of_length_le (by omega), mergeEntries, adopt_extends hpre]
  | succ m ih =>
    intro k hk hle heq
    have hlt : k < ys.length := by omega
    have hys : ys[k]? = some ys[k] := List.getElem?_eq_getElem hlt
    have hdrop : ys.drop k = ys[k] :: ys.drop (k + 1) := List.drop_eq_getElem_cons hlt
    have hwhole : xs.take k ++ ys.drop k = ys := by rw [heq, List.take_append_drop]
    rw [hdrop, mergeEntries, size_list]
    by_cases hx : k < xs.length
    · have hxs : xs[k]? = some xs[k] := List.getElem?_eq_getElem hx
      simp only [hx, if_true, get_list, hxs, Option.bind_eq_bind, Option.bind_some]
      by_cases ht : xs[k].term = ys[k].term
      · have hnext := hm k _ _ hxs hys ht
        simp only [ht, ne_eq, not_true, if_false]
        exact ih (k + 1) (by omega) hx hnext
      · have hno : ¬ys <+: xs := by
          intro hp
          have := prefix_getElem? hp hys
          rw [hxs, Option.some.injEq] at this
          exact ht (congrArg Entry.term this)
        simp only [ne_eq, ht, not_false_eq_true, if_true, truncateFrom_list, Option.bind_some]
        rw [foldlM_pushBack, ← hdrop, hwhole, adopt_other hno]
    · have hend : k = xs.length := by omega
      have hno : ¬ys <+: xs := by
        intro hp
        have := hp.length_le
        omega
      have hys : xs ++ ys.drop k = ys := by
        rw [← hwhole]
        simp [hend]
      rw [if_neg hx, if_pos hend, foldlM_pushBack, ← hdrop, hys, adopt_other hno]

theorem appendEntries_slice {nd nd' : RaftNode n (List Entry)} {request : AppendEntriesArgs}
    {reply : AppendEntriesReply} {ys : List Entry} (h0 : nd.lastIncludedIndex = 0)
    (hm : LogMatching Entry.term nd.log ys) (hslice : SliceOf ys request)
    (h : nd.appendEntries request = some (nd', reply)) :
    (reply.success = false ∧ (nd' = nd ∨
      nd.currentTerm ≤ request.term ∧ nd' = nd.observeTerm request.term)) ∨
    (reply.success = true ∧ nd.currentTerm ≤ request.term ∧
      nd' = { nd.observeTerm request.term with log := adopt nd.log ys }.followCommit
        request.leaderCommit) := by
  rcases appendEntries_spec h with ⟨_, hnd, hno⟩ | ⟨hge, hnd, hsnap⟩ |
    ⟨hge, hin, e, log, he, hterm, hlog, hnd, hyes⟩
  · exact .inl ⟨hno, .inl hnd⟩
  · refine .inl ⟨?_, .inr ⟨hge, hnd⟩⟩
    by_contra hs
    have := hsnap (by simpa using hs)
    rw [h0] at this
    exact absurd this.2 (by have := hslice.nonneg; omega)
  · refine .inr ⟨hyes, hge, ?_⟩
    obtain ⟨e', he', hterm'⟩ := hslice.prev
    simp only [realLogIdx, h0, Nat.sub_zero, get_list] at he hlog
    -- the entries before the slice are equal, by log matching at `prevLogIndex`
    have heq := hm _ e e' he he' (hterm.trans hterm'.symm)
    have hx := (List.getElem?_eq_some_iff.mp he).1
    have hy := (List.getElem?_eq_some_iff.mp he').1
    rw [hslice.entries, mergeEntries_slice hm _ _ (Nat.add_sub_of_le hy) hx heq] at hlog
    rw [hnd, ← Option.some.inj hlog]

end RaftNode
end TinyKv
