import TinyKv.Raft.NodeSpec
import TinyKv.Storage.Refinement

/-!
# Raft.Restart

The node on its log directory, over runs of `AppendEntries` requests and clean restarts.

The constructor adds its empty entry to the log that the directory holds, not only to a new one, so
no restart gives the old log back.

* `LogKept P`: what appending keeps, and a truncation behind the first entry.
  `LogKept.appendEntries`: then `AppendEntries` keeps it.
* `restart_never_restores`: on any directory, and after any run, the log is one entry longer.
* `restart_appends_empty`: on a directory that represents a list, that entry is `Entry{}`.
-/

namespace TinyKv

open Lib EntryCodec FileSystem

variable {n : Nat}

namespace RaftNode

section Kept

variable {L : Type} [Log L]

structure LogKept (P : L → Prop) : Prop where
  pushBack : ∀ log e log', P log → Log.pushBack log e = some log' → P log'
  truncateFrom : ∀ log i log', 0 < i → P log → Log.truncateFrom log i = some log' → P log'

variable {P : L → Prop}

theorem LogKept.pushAll (h : LogKept P) (es : List Entry) :
    ∀ {log log' : L}, P log → es.foldlM Log.pushBack log = some log' → P log' := by
  induction es with
  | nil =>
    intro log log' hp hf
    cases hf
    exact hp
  | cons e es ih =>
    intro log log' hp hf
    simp only [List.foldlM_cons, Option.bind_eq_bind, Option.bind_eq_some_iff] at hf
    obtain ⟨log₁, h₁, hf⟩ := hf
    exact ih (h.pushBack log e log₁ hp h₁) hf

theorem LogKept.mergeEntries (h : LogKept P) {log log' : L} (hp : P log) (es : List Entry) :
    ∀ {ridx : Nat}, 0 < ridx → mergeEntries log ridx es = some log' → P log' := by
  induction es with
  | nil =>
    intro ridx _ hm
    cases hm
    exact hp
  | cons e es ih =>
    intro ridx hpos hm
    rw [RaftNode.mergeEntries] at hm
    split at hm
    · simp only [Option.bind_eq_bind, Option.bind_eq_some_iff] at hm
      obtain ⟨cur, _, hm⟩ := hm
      split at hm
      · obtain ⟨log₁, h₁, hm⟩ := Option.bind_eq_some_iff.mp hm
        exact h.pushAll (e :: es) (h.truncateFrom log ridx log₁ hpos hp h₁) hm
      · exact ih (Nat.succ_pos ridx) hm
    · split at hm
      · exact h.pushAll (e :: es) hp hm
      · exact ih (Nat.succ_pos ridx) hm

theorem LogKept.appendEntries (h : LogKept P) {nd nd' : RaftNode n L}
    {request : AppendEntriesArgs} {reply : AppendEntriesReply} (hp : P nd.log)
    (ha : nd.appendEntries request = some (nd', reply)) : P nd'.log := by
  cases appendEntries_spec ha with
  | inl hold =>
    rw [hold.2.1]
    exact hp
  | inr ha =>
    cases ha with
    | inl hobs =>
      rw [hobs.2.1, observeTerm_log]
      exact hp
    | inr hmerge =>
      obtain ⟨_, _, _, log, _, _, hlog, rfl, _⟩ := hmerge
      have hkeep : P log := h.mergeEntries hp request.entries (Nat.succ_pos _) hlog
      unfold followCommit
      split
      · split
        · exact hkeep
        · exact hkeep
      · exact hkeep

end Kept

variable [FileSystem] [EntryCodec]

/-- `RaftNode::RaftNode` on a log directory. -/
def ofDir (curNodeId : Fin n) (dir : Dir) : Option (RaftNode n LogVec) :=
  create curNodeId (LogVec.create dir)

/-- A clean shutdown, and a new node on the same directory. -/
def restart (nd : RaftNode n LogVec) : Option (RaftNode n LogVec) :=
  ofDir nd.curNodeId nd.log.close

inductive NodeEvent where
  | appendEntries (request : AppendEntriesArgs)
  | restart

def runEvent (nd : RaftNode n LogVec) : NodeEvent → Option (RaftNode n LogVec)
  | .appendEntries request => (nd.appendEntries request).map Prod.fst
  | .restart => nd.restart

/-- The same entries at the same indices, the same last index and the same last term. -/
structure SameLog (nd nd' : RaftNode n LogVec) : Prop where
  size : nd'.log.entryCount = nd.log.entryCount
  get : ∀ i, nd'.log.get i = nd.log.get i
  lastIdx : nd'.lastIdx = nd.lastIdx
  lastTerm : nd'.lastTerm = nd.lastTerm

/-- A restart gives the log back. -/
def Restored (nd : RaftNode n LogVec) : Prop := ∃ nd', nd.restart = some nd' ∧ SameLog nd nd'

theorem run_kept {P : LogVec → Prop} (h : LogKept P)
    (hre : ∀ lv lv', P lv → (LogVec.create lv.close).pushBack {} = some lv' → P lv')
    {nd nd' : RaftNode n LogVec} (hr : Reaches runEvent nd nd')
    (hp : P nd.log ∧ nd.lastIncludedIndex = 0) : P nd'.log ∧ nd'.lastIncludedIndex = 0 := by
  refine hr.inv (P := fun nd => P nd.log ∧ nd.lastIncludedIndex = 0) ?_ hp
  intro nd ev nd' hp hev
  cases ev with
  | appendEntries request =>
    obtain ⟨⟨nd₁, reply⟩, ha, rfl⟩ := Option.map_eq_some_iff.mp hev
    exact ⟨h.appendEntries hp.1 ha, (appendEntries_follows ha).snapshot.trans hp.2⟩
  | restart =>
    obtain ⟨lv', hlv, hnd⟩ := Option.bind_eq_some_iff.mp hev
    cases hnd
    exact ⟨hre nd.log lv' hp.1 hlv, rfl⟩

/-! ## Any directory -/

/-- The number of entries is that of the meta file, and there is one. -/
structure Counted (lv : LogVec) : Prop where
  count : lv.entryCount = size lv.metaFile / 8
  pos : 0 < lv.entryCount

theorem pushBack_counted {lv lv' : LogVec} {e : Entry}
    (hcount : lv.entryCount = size lv.metaFile / 8) (h : lv.pushBack e = some lv') :
    Counted lv' := by
  obtain ⟨hc, hm⟩ := pushBack_count h
  exact ⟨by omega, by omega⟩

theorem counted_kept : LogKept Counted where
  pushBack := fun _ _ _ hc h => pushBack_counted hc.count h
  truncateFrom := by
    intro lv i lv' hi hc h
    have h : lv.truncateFrom i = some lv' := h
    by_cases hlt : i < lv.entryCount
    · obtain ⟨hcount, hsize⟩ := truncateFrom_count hc.count hlt h
      exact ⟨by omega, by omega⟩
    · unfold LogVec.truncateFrom at h
      rw [if_pos (by omega)] at h
      cases h
      exact hc

theorem run_counted {id : Fin n} {dir : Dir} {nd₀ nd : RaftNode n LogVec}
    (h₀ : ofDir id dir = some nd₀) (hr : Reaches runEvent nd₀ nd) :
    Counted nd.log ∧ nd.lastIncludedIndex = 0 := by
  obtain ⟨lv, hlv, hnd⟩ := Option.bind_eq_some_iff.mp h₀
  cases hnd
  exact run_kept counted_kept (fun _ _ _ h => pushBack_counted (create_count _) h) hr
    ⟨pushBack_counted (create_count dir) hlv, rfl⟩

/-- **No restart gives the log back.** On any directory, after any run of requests and restarts, a
restarted node has one entry more, and its last index is one higher. -/
theorem restart_never_restores {id : Fin n} {dir : Dir} {nd₀ nd : RaftNode n LogVec}
    (h₀ : ofDir id dir = some nd₀) (hr : Reaches runEvent nd₀ nd) :
    ¬nd.Restored ∧ ∀ nd', nd.restart = some nd' →
      nd'.log.entryCount = nd.log.entryCount + 1 ∧ nd'.lastIdx = nd.lastIdx + 1 := by
  obtain ⟨hc, hsnap⟩ := run_counted h₀ hr
  have hlonger : ∀ nd', nd.restart = some nd' →
      nd'.log.entryCount = nd.log.entryCount + 1 ∧ nd'.lastIdx = nd.lastIdx + 1 := by
    intro nd' hre
    obtain ⟨lv', hlv, hnd⟩ := Option.bind_eq_some_iff.mp hre
    cases hnd
    have hcount : lv'.entryCount = nd.log.entryCount + 1 := by
      rw [(pushBack_count hlv).1, hc.count]
      rfl
    refine ⟨hcount, ?_⟩
    have hpos := hc.pos
    show lv'.entryCount - 1 + 0 = nd.log.entryCount - 1 + nd.lastIncludedIndex + 1
    omega
  refine ⟨?_, hlonger⟩
  rintro ⟨nd', hre, hsame⟩
  have hsize := hsame.size
  rw [(hlonger nd' hre).1] at hsize
  omega

section Example

/-- One entry of term 1 for the new node of an empty directory. -/
def firstRequest : AppendEntriesArgs where
  term := 1
  leaderId := 1
  prevLogIndex := 0
  prevLogTerm := 0
  entries := [{ term := 1 }]
  leaderCommit := 0

omit [FileSystem] [EntryCodec]

theorem restart_never_restores_twice :
    let _ := byteFiles
    let _ := wireCodec
    ∃ nd : RaftNode 2 LogVec, nd.log.entryCount = 4 ∧ ¬nd.Restored := by
  intro _ _
  have hrun : ((ofDir (0 : Fin 2) {}).bind fun nd₀ =>
      (runs runEvent [.appendEntries firstRequest, .restart, .restart] nd₀).map fun nd =>
        nd.log.entryCount) = some 4 := by decide +kernel
  obtain ⟨nd₀, h₀, hrun⟩ := Option.bind_eq_some_iff.mp hrun
  obtain ⟨nd, hr, hcount⟩ := Option.map_eq_some_iff.mp hrun
  exact ⟨nd, hcount, (restart_never_restores h₀ (reaches_of_runs hr)).1⟩

/-- After one request the last term is 1; after the restart it is 0, and the log is longer. -/
theorem restart_forgets_last_term :
    let _ := byteFiles
    let _ := wireCodec
    ∃ nd₀ nd nd' : RaftNode 2 LogVec, ofDir (0 : Fin 2) {} = some nd₀ ∧
      Reaches runEvent nd₀ nd ∧ nd.restart = some nd' ∧ nd.log.entryCount = 2 ∧
      nd'.log.entryCount = 3 ∧ nd.lastTerm = some 1 ∧ nd'.lastTerm = some 0 ∧ ¬nd.Restored := by
  intro _ _
  have hrun : ((ofDir (0 : Fin 2) {}).bind fun nd₀ =>
      (runs runEvent [.appendEntries firstRequest] nd₀).bind fun nd =>
      (nd.restart).map fun nd' =>
        (nd.log.entryCount, nd'.log.entryCount, nd.lastTerm, nd'.lastTerm)) =
      some (2, 3, some 1, some 0) := by decide +kernel
  obtain ⟨nd₀, h₀, hrun⟩ := Option.bind_eq_some_iff.mp hrun
  obtain ⟨nd, hr, hrun⟩ := Option.bind_eq_some_iff.mp hrun
  obtain ⟨nd', hre, hrun⟩ := Option.map_eq_some_iff.mp hrun
  simp only [Prod.mk.injEq] at hrun
  obtain ⟨hcount, hcount', hterm, hterm'⟩ := hrun
  refine ⟨nd₀, nd, nd', h₀, reaches_of_runs hr, hre, hcount, hcount', hterm, hterm', ?_⟩
  rintro ⟨nd'', hre', hsame⟩
  obtain rfl : nd'' = nd' := Option.some.inj (hre'.symm.trans hre)
  have hlast := hsame.lastTerm
  rw [hterm, hterm'] at hlast
  cases hlast

end Example

/-! ## Directories that represent a list -/

theorem rep_kept : LogKept fun lv => ∃ xs, Rep lv xs where
  pushBack := by
    intro lv e lv' ⟨xs, hrep⟩ h
    exact ⟨xs ++ [e], pushBack_rep hrep h⟩
  truncateFrom := by
    intro lv i lv' _ ⟨xs, hrep⟩ h
    obtain ⟨lv₁, h₁, hrep', _⟩ := truncateFrom_rep hrep i
    obtain rfl : lv₁ = lv' := Option.some.inj (h₁.symm.trans h)
    exact ⟨xs.take i, hrep'⟩

/-- On a directory that represents a list, the log represents a list along the whole run, and a
restart appends one more `Entry{}` to it. -/
theorem restart_appends_empty {id : Fin n} {dir : Dir} {nd₀ nd : RaftNode n LogVec}
    (hdir : ∃ xs, Rep (LogVec.create dir) xs) (h₀ : ofDir id dir = some nd₀)
    (hr : Reaches runEvent nd₀ nd) :
    ∃ xs, Rep nd.log xs ∧ ∀ nd', nd.restart = some nd' → Rep nd'.log (xs ++ [({} : Entry)]) := by
  have happend : ∀ {lv lv' xs}, Rep lv xs → (LogVec.create lv.close).pushBack {} = some lv' →
      Rep lv' (xs ++ [({} : Entry)]) := fun hrep h => pushBack_rep (reopen_rep hrep) h
  obtain ⟨lv, hlv, hnd⟩ := Option.bind_eq_some_iff.mp h₀
  cases hnd
  obtain ⟨xs₀, hrep₀⟩ := hdir
  have hstart : ∃ xs, Rep (init id lv).log xs := ⟨_, pushBack_rep hrep₀ hlv⟩
  obtain ⟨⟨xs, hrep⟩, _⟩ := run_kept rep_kept
    (fun _ _ ⟨xs, hrep⟩ h => ⟨xs ++ [{}], happend hrep h⟩) hr ⟨hstart, rfl⟩
  refine ⟨xs, hrep, ?_⟩
  intro nd' hre
  obtain ⟨lv', hlv', hnd⟩ := Option.bind_eq_some_iff.mp hre
  cases hnd
  exact happend hrep hlv'

end RaftNode
end TinyKv
