import Mathlib.Data.Fintype.Card
import Mathlib.Order.Bounds.Basic
import TinyKv.Lib.Quorum
import TinyKv.Raft.NodeSpec

/-!
# Raft.CommitRule

The commit index that a leader computes from a successful reply, exactly.

* `holders nd N`: the leader and the nodes that it knows to hold index `N`.
* `Committable nd N`: the log has an entry of the leader's term at `N`, above the commit index, and
  a majority holds it. `commitScan_exact`: the scan finds the largest such index.
* `commit_rule` is the whole step.
-/

namespace TinyKv
namespace RaftNode

open Lib

variable {n : Nat} {nd : RaftNode n (List Entry)}

def holders (nd : RaftNode n (List Entry)) (N : Nat) : Finset (Fin n) :=
  {i | i = nd.curNodeId ∨ N ≤ nd.matchIndex i}

structure Committable (nd : RaftNode n (List Entry)) (N : Nat) : Prop where
  new : nd.commitIndex < N
  inLog : N ≤ nd.lastIdx
  term : ∃ e, nd.log[nd.realLogIdx N]? = some e ∧ e.term = nd.currentTerm
  majority : Majority (nd.holders N)

theorem mem_holders {N : Nat} {i : Fin n} :
    i ∈ nd.holders N ↔ i = nd.curNodeId ∨ N ≤ nd.matchIndex i := by simp [holders]

theorem foldlM_countPeer_exact {N : Nat} {e : Entry} (he : nd.log[nd.realLogIdx N]? = some e) :
    ∀ (peers : List (Fin n)) (count : Nat), peers.foldlM (nd.countPeer N) count =
      some (count + if e.term = nd.currentTerm then (peers.filter (nd.holds N)).length else 0) := by
  intro peers
  induction peers with
  | nil => intro count; simp
  | cons i peers ih =>
    intro count
    rw [List.foldlM_cons]
    by_cases hholds : nd.holds N i = true
    · have hi : i ≠ nd.curNodeId ∧ N ≤ nd.matchIndex i := by simpa [holds] using hholds
      rw [List.filter_cons_of_pos hholds, countPeer, if_neg hi.1, if_pos hi.2, get_list, he]
      simp only [Option.bind_eq_bind, Option.bind_some, Option.pure_def]
      rw [ih, List.length_cons]
      split
      · congr 1
        omega
      · rfl
    · have hsame : nd.countPeer N count i = some count := by
        rw [countPeer]
        split
        · rfl
        · rename_i hi
          rw [if_neg fun hge => hholds (by simpa [holds] using ⟨hi, hge⟩)]
      rw [List.filter_cons_of_neg hholds, hsame]
      simp only [Option.bind_eq_bind, Option.bind_some]
      exact ih count

theorem card_holders (nd : RaftNode n (List Entry)) (N : Nat) :
    (nd.holders N).card = 1 + ((List.finRange n).filter (nd.holds N)).length := by
  have hsplit : nd.holders N =
      insert nd.curNodeId ((List.finRange n).filter (nd.holds N)).toFinset := by
    ext i
    by_cases hi : i = nd.curNodeId
    · simp [mem_holders, hi]
    · simp [mem_holders, holds, hi]
  have hnot : nd.curNodeId ∉ ((List.finRange n).filter (nd.holds N)).toFinset := by simp [holds]
  rw [hsplit, Finset.card_insert_of_notMem hnot,
    List.toFinset_card_of_nodup ((List.nodup_finRange n).filter _), Nat.add_comm]

theorem commitCount_exact (hn : 2 ≤ n) {N : Nat} {e : Entry}
    (he : nd.log[nd.realLogIdx N]? = some e) : ∃ count, nd.commitCount N = some count ∧
      (n / 2 < count ↔ e.term = nd.currentTerm ∧ Majority (nd.holders N)) := by
  refine ⟨_, foldlM_countPeer_exact he _ 1, ?_⟩
  rw [Majority, Fintype.card_fin, card_holders]
  split
  · rename_i hterm
    exact (and_iff_right hterm).symm
  · rename_i hterm
    refine iff_of_false ?_ fun h => hterm h.1
    omega

/-- The scan from `k` down finds the largest committable index, or ends at the commit index. -/
theorem commitScan_exact (hn : 2 ≤ n) (hlog : nd.log ≠ []) :
    ∀ {k : Nat}, nd.commitIndex ≤ k → k < nd.virtualLogIdx (Log.size nd.log) →
      ∃ N, nd.commitScan k = some N ∧ N ≤ k ∧ (N = nd.commitIndex ∨ nd.Committable N) ∧
        ∀ M ≤ k, nd.Committable M → M ≤ N := by
  intro k
  induction k with
  | zero =>
    intro hcommit _
    exact ⟨0, rfl, Nat.le_refl 0, .inl (Nat.le_zero.mp hcommit).symm, fun M hM _ => hM⟩
  | succ k ih =>
    intro hcommit hin
    rw [commitScan]
    split
    · rename_i hlt
      simp only [virtualLogIdx, size_list] at hin
      have hpos := List.length_pos_iff.mpr hlog
      have hreal : nd.realLogIdx (k + 1) < nd.log.length := by
        rw [realLogIdx]
        omega
      have he := List.getElem?_eq_getElem hreal
      obtain ⟨count, hcount, hiff⟩ := commitCount_exact hn he
      simp only [hcount, Option.bind_eq_bind, Option.bind_some, Option.pure_def]
      split
      · rename_i hmaj
        obtain ⟨hterm, hmaj⟩ := hiff.mp hmaj
        have hlast : k + 1 ≤ nd.lastIdx := by
          simp only [lastIdx, virtualLogIdx, size_list]
          omega
        exact ⟨k + 1, rfl, Nat.le_refl _, .inr ⟨hlt, hlast, ⟨_, he, hterm⟩, hmaj⟩, fun M hM _ => hM⟩
      · rename_i hno
        obtain ⟨N, hN, hle, hfound, hmax⟩ := ih (Nat.le_of_lt_succ hlt) (by
          simp only [virtualLogIdx, size_list]
          omega)
        refine ⟨N, hN, Nat.le_succ_of_le hle, hfound, fun M hM hcom => ?_⟩
        rcases Nat.of_le_succ hM with hM | rfl
        · exact hmax M hM hcom
        · obtain ⟨e, he', hterm⟩ := hcom.term
          rw [he] at he'
          cases he'
          exact absurd (hiff.mpr ⟨hterm, hcom.majority⟩) hno
    · rename_i hend
      have heq : nd.commitIndex = k + 1 := by omega
      exact ⟨k + 1, rfl, Nat.le_refl _, .inl heq.symm, fun M hM _ => hM⟩

theorem handleAppendEntries_success {target : Fin n} {args : AppendEntriesArgs}
    {reply : AppendEntriesReply} {N : Nat} (hlead : nd.role = .leader)
    (hterm : args.term = nd.currentTerm) (hyes : reply.success = true)
    (hN : (nd.matched target (args.prevLogIndex + args.entries.length)).commitScan nd.lastIdx =
      some N) : nd.handleAppendEntries target args reply = some
        { nd.matched target (args.prevLogIndex + args.entries.length) with commitIndex := N } := by
  rw [handleAppendEntries, if_neg (by simp [hlead, hterm]), if_pos hyes]
  show (do
    let N ← (nd.matched target (args.prevLogIndex + args.entries.length)).commitScan nd.lastIdx
    return { nd.matched target (args.prevLogIndex + args.entries.length) with
      commitIndex := N }) = _
  rw [hN]
  rfl

/-- **The leader's commit rule.** After a successful reply of its term the commit index is the
greatest committable index, or the old one where there is none. -/
theorem commit_rule (nd : RaftNode n (List Entry)) (target : Fin n) (args : AppendEntriesArgs)
    (reply : AppendEntriesReply) (hn : 2 ≤ n) (hlead : nd.role = .leader)
    (hlog : nd.log ≠ []) (hcommit : nd.commitIndex ≤ nd.lastIdx)
    (hterm : args.term = nd.currentTerm) (hyes : reply.success = true) :
    ∃ nd', nd.handleAppendEntries target args reply = some nd' ∧
      ((∃ N, (nd.matched target (args.prevLogIndex + args.entries.length)).Committable N) →
        IsGreatest {N | (nd.matched target
          (args.prevLogIndex + args.entries.length)).Committable N} nd'.commitIndex) ∧
      ((¬∃ N, (nd.matched target (args.prevLogIndex + args.entries.length)).Committable N) →
        nd'.commitIndex = nd.commitIndex) ∧
      nd.commitIndex ≤ nd'.commitIndex := by
  have hlast : nd.lastIdx < nd.virtualLogIdx (Log.size nd.log) := by
    have hpos := List.length_pos_iff.mpr hlog
    simp only [lastIdx, virtualLogIdx, size_list]
    omega
  have hlog' : (nd.matched target (args.prevLogIndex + args.entries.length)).log ≠ [] := hlog
  obtain ⟨N, hN, -, hfound, hmax⟩ := commitScan_exact hn hlog' hcommit hlast
  refine ⟨_, handleAppendEntries_success hlead hterm hyes hN, ?_, ?_, ?_⟩
  · rintro ⟨M, hM⟩
    have hle := hmax M hM.inLog hM
    rcases hfound with heq | hcom
    · exact absurd (heq ▸ hle) (Nat.not_le.mpr hM.new)
    · exact ⟨hcom, fun M' hM' => hmax M' hM'.inLog hM'⟩
  · intro hnone
    exact hfound.resolve_right fun hcom => hnone ⟨N, hcom⟩
  · rcases hfound with heq | hcom
    · exact Nat.le_of_eq heq.symm
    · exact Nat.le_of_lt hcom.new

/-- A leader of three nodes with one entry of its term, which node 1 has just confirmed. -/
theorem commit_rule_three : ∃ (nd : RaftNode 3 (List Entry)) (args : AppendEntriesArgs)
    (reply : AppendEntriesReply), nd.log = [{}, { term := 1 }] ∧ 2 ≤ 3 ∧ nd.role = .leader ∧
    nd.log ≠ [] ∧ nd.commitIndex ≤ nd.lastIdx ∧ args.term = nd.currentTerm ∧
    reply.success = true ∧ ∃ nd', nd.handleAppendEntries 1 args reply = some nd' ∧
      ((∃ N, (nd.matched 1 (args.prevLogIndex + args.entries.length)).Committable N) →
        IsGreatest {N | (nd.matched 1
          (args.prevLogIndex + args.entries.length)).Committable N} nd'.commitIndex) ∧
      ((¬∃ N, (nd.matched 1 (args.prevLogIndex + args.entries.length)).Committable N) →
        nd'.commitIndex = nd.commitIndex) ∧
      nd.commitIndex ≤ nd'.commitIndex :=
  ⟨{ (init 0 [{}, { term := 1 }] : RaftNode 3 (List Entry)) with
      currentTerm := 1, role := .leader }, ⟨1, 0, 0, 0, [{ term := 1 }], 0⟩, ⟨1, true, 0, 0, 0⟩,
    rfl, by decide, rfl, by decide, by decide, rfl, rfl,
    commit_rule _ _ _ _ (by decide) rfl (by decide) (by decide) rfl rfl⟩

end RaftNode
end TinyKv
