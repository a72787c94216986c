import TinyKv.Raft.CommitHistory
import TinyKv.Storage.Proto
import Mathlib.Data.Fin.VecNotation

/-!
# Rpc.RaftMessages

The messages of the Raft service as bytes, and what the bytes mean for replication.

* `raft_round_trip`: what fits the fields is read back, except that a request with an entry whose
  key is not UTF-8 does not parse.
* `foreign_keys_stay`: such an entry is never replicated. A node has it only if it had it when it
  started.
-/

namespace TinyKv

open Lib ProtoType Protobuf Format

variable [Protobuf]

def RequestVoteArgs.format : Format RequestVoteArgs where
  zero := ⟨0, 0, 0, 0⟩
  fields := [
    .scalar 1 int32 term (fun m z => { m with term := z }) fun _ => rfl,
    .scalar 2 int32 candidateId (fun m z => { m with candidateId := z }) fun _ => rfl,
    .scalar 3 int32 lastLogIndex (fun m z => { m with lastLogIndex := z }) fun _ => rfl,
    .scalar 4 int32 lastLogTerm (fun m z => { m with lastLogTerm := z }) fun _ => rfl]

def RequestVoteReply.format : Format RequestVoteReply where
  zero := {}
  fields := [
    .scalar 1 int32 term (fun m z => { m with term := z }) fun _ => rfl,
    .scalar 2 bool voteGranted (fun m b => { m with voteGranted := b }) fun _ => rfl]

def AppendEntriesArgs.format : Format AppendEntriesArgs where
  zero := ⟨0, 0, 0, 0, [], 0⟩
  fields := [
    .scalar 1 int32 term (fun m z => { m with term := z }) fun _ => rfl,
    .scalar 2 int32 leaderId (fun m z => { m with leaderId := z }) fun _ => rfl,
    .scalar 3 int32 prevLogIndex (fun m z => { m with prevLogIndex := z }) fun _ => rfl,
    .scalar 4 int32 prevLogTerm (fun m z => { m with prevLogTerm := z }) fun _ => rfl,
    .repeated 5 Entry.format entries (fun m es => { m with entries := es })
      (fun _ => rfl) (fun _ _ => rfl) fun _ _ _ => rfl,
    .scalar 6 int32 leaderCommit (fun m z => { m with leaderCommit := z }) fun _ => rfl]

def AppendEntriesReply.format : Format AppendEntriesReply where
  zero := {}
  fields := [
    .scalar 1 int32 term (fun m z => { m with term := z }) fun _ => rfl,
    .scalar 2 bool success (fun m b => { m with success := b }) fun _ => rfl,
    .scalar 3 int32 xTerm (fun m z => { m with xTerm := z }) fun _ => rfl,
    .scalar 4 int32 xIndex (fun m z => { m with xIndex := z }) fun _ => rfl,
    .scalar 5 int32 xLen (fun m z => { m with xLen := z }) fun _ => rfl]

/-! ## Round trips -/

/-- The numbers fit their fields, and the request is not too long. -/
structure AppendEntriesArgs.Fits (m : AppendEntriesArgs) : Prop where
  term : IsInt32 m.term
  leaderId : IsInt32 m.leaderId
  prevLogIndex : IsInt32 m.prevLogIndex
  prevLogTerm : IsInt32 m.prevLogTerm
  entries : ∀ e ∈ m.entries, IsInt64 e.seq ∧ IsInt32 e.term
  leaderCommit : IsInt32 m.leaderCommit
  size : (format.write m).length < maxSize

theorem RequestVoteArgs.parse_write {m : RequestVoteArgs} (ht : IsInt32 m.term)
    (hc : IsInt32 m.candidateId) (hi : IsInt32 m.lastLogIndex) (hl : IsInt32 m.lastLogTerm) :
    format.parse (format.write m) = some m := by
  have hr : format.InRange m := by
    simp only [Format.InRange, format, Field.scalar, List.forall_mem_cons]
    exact ⟨ht, hc, hi, hl, List.forall_mem_nil _⟩
  have hfield : ∀ f ∈ format.fields, (writeField f m).length ≤ 15 := by
    simp only [format, List.forall_mem_cons]
    exact ⟨length_writeField_scalar (length_int32 _), length_writeField_scalar (length_int32 _),
      length_writeField_scalar (length_int32 _), length_writeField_scalar (length_int32 _),
      List.forall_mem_nil _⟩
  have hlen : (format.write m).length < maxSize :=
    Nat.lt_of_le_of_lt (length_write_le hfield) (by decide : 4 * 15 < maxSize)
  exact (Format.parse_write hr hlen).trans (if_pos rfl)
theorem RequestVoteReply.parse_write {m : RequestVoteReply} (ht : IsInt32 m.term) :
    format.parse (format.write m) = some m := by
  have hr : format.InRange m := by
    simp only [Format.InRange, format, Field.scalar, List.forall_mem_cons]
    exact ⟨ht, trivial, List.forall_mem_nil _⟩
  have hfield : ∀ f ∈ format.fields, (writeField f m).length ≤ 15 := by
    simp only [format, List.forall_mem_cons]
    exact ⟨length_writeField_scalar (length_int32 _), length_writeField_scalar (length_bool _),
      List.forall_mem_nil _⟩
  have hlen : (format.write m).length < maxSize :=
    Nat.lt_of_le_of_lt (length_write_le hfield) (by decide : 2 * 15 < maxSize)
  exact (Format.parse_write hr hlen).trans (if_pos rfl)

theorem AppendEntriesArgs.parse_write {m : AppendEntriesArgs} (h : m.Fits) :
    format.parse (format.write m) =
      if m.entries.all fun e => isUtf8 e.key then some m else none := by
  have hr : format.InRange m := by
    simp only [Format.InRange, format, Field.scalar, Field.repeated, List.forall_mem_cons]
    exact ⟨h.term, h.leaderId, h.prevLogIndex, h.prevLogTerm,
      fun e he => e.format_inRange.mpr (h.entries e he), h.leaderCommit, List.forall_mem_nil _⟩
  have hv : format.valid m = m.entries.all fun e => isUtf8 e.key := by
    have hkeys : (fun e : Entry => isUtf8 e.key) = Entry.format.valid :=
      funext fun e => (Entry.format_valid e).symm
    rw [hkeys]
    simp [Format.valid, format, Field.scalar, Field.repeated, int32, Scalar.varint]
  rw [Format.parse_write hr h.size, hv]

theorem AppendEntriesReply.parse_write {m : AppendEntriesReply} (ht : IsInt32 m.term)
    (hx : IsInt32 m.xTerm) (hi : IsInt32 m.xIndex) (hl : IsInt32 m.xLen) :
    format.parse (format.write m) = some m := by
  have hr : format.InRange m := by
    simp only [Format.InRange, format, Field.scalar, List.forall_mem_cons]
    exact ⟨ht, trivial, hx, hi, hl, List.forall_mem_nil _⟩
  have hfield : ∀ f ∈ format.fields, (writeField f m).length ≤ 15 := by
    simp only [format, List.forall_mem_cons]
    exact ⟨length_writeField_scalar (length_int32 _), length_writeField_scalar (length_bool _),
      length_writeField_scalar (length_int32 _), length_writeField_scalar (length_int32 _),
      length_writeField_scalar (length_int32 _), List.forall_mem_nil _⟩
  have hlen : (format.write m).length < maxSize :=
    Nat.lt_of_le_of_lt (length_write_le hfield) (by decide : 5 * 15 < maxSize)
  exact (Format.parse_write hr hlen).trans (if_pos rfl)

/-- **The Raft messages survive the wire.** Messages whose numbers fit their fields are read back,
but a request does not parse as soon as the key of one of its entries is not UTF-8. -/
theorem raft_round_trip :
    (∀ m : RequestVoteArgs, IsInt32 m.term → IsInt32 m.candidateId → IsInt32 m.lastLogIndex →
      IsInt32 m.lastLogTerm →
      RequestVoteArgs.format.parse (RequestVoteArgs.format.write m) = some m) ∧
    (∀ m : RequestVoteReply, IsInt32 m.term →
      RequestVoteReply.format.parse (RequestVoteReply.format.write m) = some m) ∧
    (∀ m : AppendEntriesArgs, m.Fits →
      AppendEntriesArgs.format.parse (AppendEntriesArgs.format.write m) =
        if m.entries.all fun e => isUtf8 e.key then some m else none) ∧
    (∀ m : AppendEntriesReply, IsInt32 m.term → IsInt32 m.xTerm → IsInt32 m.xIndex →
      IsInt32 m.xLen →
      AppendEntriesReply.format.parse (AppendEntriesReply.format.write m) = some m) :=
  ⟨fun _ ht hc hi hl => RequestVoteArgs.parse_write ht hc hi hl,
    fun _ ht => RequestVoteReply.parse_write ht, fun _ h => AppendEntriesArgs.parse_write h,
    fun _ ht hx hi hl => AppendEntriesReply.parse_write ht hx hi hl⟩

omit [Protobuf] in
/-- A request comes through with a key `é`, and does not with half of one. -/
theorem raft_round_trip_key :
    let _ := wireFormat
    let request (key : Bytes) : AppendEntriesArgs :=
      { term := 3, leaderId := 0, prevLogIndex := 0, prevLogTerm := 0,
        entries := [{ term := 1, key := key, value := [255] }], leaderCommit := -1 }
    let parse bs := AppendEntriesArgs.format.parse bs
    parse (AppendEntriesArgs.format.write (request [0xc3, 0xa9])) = some (request [0xc3, 0xa9]) ∧
      parse (AppendEntriesArgs.format.write (request [0xc3])) = none := by
  intro _ request parse
  have hfits : ∀ key ∈ ([[0xc3, 0xa9], [0xc3]] : List Bytes), (request key).Fits := by
    intro key hkey
    simp only [List.mem_cons, List.not_mem_nil, or_false] at hkey
    rcases hkey with rfl | rfl
    all_goals
      refine ⟨by decide, by decide, by decide, by decide, ?_, by decide, by decide +kernel⟩
      intro e he
      rw [List.mem_singleton.mp he]
      decide
  have htrip := raft_round_trip.2.2.1
  exact ⟨(htrip _ (hfits _ (by simp))).trans (if_pos (by decide +kernel)),
    (htrip _ (hfits _ (by simp))).trans (if_neg (by decide +kernel))⟩

/-! ## Keys that are not UTF-8 -/

theorem Entry.internalParse_utf8 {bs : Bytes} {e : Entry}
    (h : Entry.format.internalParse bs = some e) : isUtf8 e.key = true := by
  have h0 : isUtf8 [] = true := by decide
  refine Format.internalParse_inv (P := fun e => isUtf8 e.key = true) h0 ?_ h
  intro f hf acc bs acc' rest hacc hread
  simp only [format, List.mem_cons, List.not_mem_nil, or_false] at hf
  rcases hf with rfl | rfl | rfl | rfl
  · obtain ⟨p, _, heq⟩ := Option.map_eq_some_iff.mp hread
    cases heq
    exact hacc
  · obtain ⟨p, _, heq⟩ := Option.map_eq_some_iff.mp hread
    cases heq
    exact hacc
  · obtain ⟨p, hp, heq⟩ := Option.map_eq_some_iff.mp hread
    cases heq
    exact ProtoType.string.read_valid _ _ _ hp
  · obtain ⟨p, _, heq⟩ := Option.map_eq_some_iff.mp hread
    cases heq
    exact hacc

theorem AppendEntriesArgs.parse_utf8 {bs : Bytes} {m : AppendEntriesArgs}
    (h : format.parse bs = some m) : ∀ e ∈ m.entries, isUtf8 e.key = true := by
  refine Format.internalParse_inv (P := fun m => ∀ e ∈ m.entries, isUtf8 e.key = true)
    (fun e he => by cases he) ?_ (parseFromString_eq_some h)
  intro f hf acc bs acc' rest hacc hread
  simp only [format, List.mem_cons, List.not_mem_nil, or_false] at hf
  rcases hf with rfl | rfl | rfl | rfl | rfl | rfl
  case inr.inr.inr.inr.inl =>
    obtain ⟨p, hp, heq⟩ := Option.map_eq_some_iff.mp hread
    cases heq
    obtain ⟨body, hbody⟩ := parseMessage_eq_some hp
    intro e he
    rcases List.mem_append.mp he with he | he
    · exact hacc e he
    · rw [List.mem_singleton.mp he]
      exact Entry.internalParse_utf8 hbody
  all_goals
    obtain ⟨p, _, heq⟩ := Option.map_eq_some_iff.mp hread
    cases heq
    exact hacc

namespace Cluster

open RaftNode

variable {n : Nat} {logs : Fin n → List Entry} {s s' : Cluster n (List Entry)}
  {lead lead' : Leaders}

/-- A request that is delivered has come through its bytes. -/
def Parses (s : Cluster n (List Entry)) (a : Action n) : Prop :=
  ∀ k c, a = .appendEntries k → s.appendCalls[k]? = some c →
    AppendEntriesArgs.format.parse (AppendEntriesArgs.format.write c.args) = some c.args

/-- What a node has of keys that are not UTF-8, and what it has acknowledged of them, was in its own
log from the start. -/
structure KeysInv (logs : Fin n → List Entry) (s : Cluster n (List Entry)) (lead : Leaders) :
    Prop where
  nodes : ∀ v, ∀ e ∈ (s.nodes v).log, isUtf8 e.key = false → e ∈ logs v
  acked : ∀ v T L, lead T = some L → s.Acked v T → ∀ e ∈ L, isUtf8 e.key = false → e ∈ logs v

omit [Protobuf] in
theorem init_keysInv (logs : Fin n → List Entry) : (init logs).KeysInv logs fun _ => none where
  nodes := fun v e he _ => he
  acked := fun v T L h => by cases h

theorem step_keys {dup : Bool} {a : Action n}
    (h : ∀ v, ∀ e ∈ (s.nodes v).log, isUtf8 e.key = false → e ∈ logs v) (hok : s.Parses a)
    (hs : s.step dup a = some s') :
    ∀ v, ∀ e ∈ (s'.nodes v).log, isUtf8 e.key = false → e ∈ logs v := by
  have hkeep : ∀ (i : Fin n) (nd : RaftNode n (List Entry)),
      (∀ e ∈ nd.log, isUtf8 e.key = false → e ∈ (s.nodes i).log) →
      ∀ v, ∀ e ∈ ((s.setNode i nd).nodes v).log, isUtf8 e.key = false → e ∈ logs v := by
    intro i nd hnd
    exact forall_setNode (P := fun v nd => ∀ e ∈ nd.log, isUtf8 e.key = false → e ∈ logs v)
      (fun e he hu => h i e (hnd e he hu) hu) fun j _ => h j
  have hleave : ∀ (i : Fin n) (nd : RaftNode n (List Entry)), nd.log = (s.nodes i).log →
      ∀ v, ∀ e ∈ ((s.setNode i nd).nodes v).log, isUtf8 e.key = false → e ∈ logs v := by
    intro i nd hnd
    exact hkeep i nd fun e he _ => hnd ▸ he
  cases a with
  | elect i =>
    obtain ⟨nd, args, he, rfl⟩ := step_elect hs
    exact hleave i nd (elect_leavesLog he).log
  | requestVote k =>
    obtain ⟨c, nd, reply, _, hr, rfl⟩ := step_requestVote hs
    exact hleave c.dst nd (requestVote_leavesLog hr).log
  | getVoteAnswer k r =>
    obtain ⟨c, reply, nd, got, _, _, _, hv, rfl⟩ := step_getVoteAnswer hs
    exact hleave c.src nd (getVoteAnswer_leavesLog hv).log
  | collectVote k =>
    obtain ⟨c, nd, count, _, _, hv, rfl⟩ := step_collectVote hs
    exact hleave c.src nd (collectVote_leavesLog hv).log
  | sendHeartBeats i =>
    obtain ⟨args, _, rfl⟩ := step_sendHeartBeats hs
    exact h
  | appendEntries k =>
    obtain ⟨c, nd, reply, hk, hr, rfl⟩ := step_appendEntries hs
    have hutf8 := AppendEntriesArgs.parse_utf8 (hok k c rfl hk)
    refine hkeep c.dst nd fun e he hu => ?_
    rcases mem_appendEntries hr he with he | he
    · exact he
    · rw [hutf8 e he] at hu
      cases hu
  | handleAppendEntries k r =>
    obtain ⟨c, reply, nd, _, _, hnd, rfl⟩ := step_handleAppendEntries hs
    exact hleave c.src nd (handleAppendEntries_log hnd)

theorem step_keysInv {a : Action n} (h : s.KeysInv logs lead)
    (hl : s.LeaderInv logs lead) (hl' : s'.LeaderInv logs lead') (hg : Grows s s' lead lead')
    (hok : s.Parses a) (hs : s.step false a = some s') : s'.KeysInv logs lead' := by
  have hnodes := step_keys h.nodes hok hs
  refine ⟨hnodes, ?_⟩
  intro v T L hL hack e he hu
  rcases acked_back hs hack with hold | hterm
  · -- a term that was acknowledged before had its leader before
    have ⟨c, hc, ⟨_, hct⟩, _⟩ := hold
    obtain ⟨_, _, L', hL', _⟩ := hl.calls c hc
    rw [hct] at hL'
    rw [hg.old T L' hL', Option.some.injEq] at hL
    subst hL
    exact h.acked v T L' hL' hold e he hu
  · subst hterm
    exact hnodes v e ((hl'.kept_all hL (.inl hack)).subset he) hu

/-- **Entries with foreign keys stay where they are.** Where requests come through their bytes, an
entry whose key is not UTF-8 is in the log of a node only if it was there from the start. A leader
with such an entry gets no success at all from a peer that started without it, and counts it for no
commit. -/
theorem foreign_keys_stay (hm : ∀ i j, LogMatching Entry.term (logs i) (logs j))
    (hs : ReachesIf Parses (step false) (init logs) s) (v : Fin n) {e : Entry}
    (hu : isUtf8 e.key = false) :
    (e ∈ (s.nodes v).log → e ∈ logs v) ∧
    ∀ l, (s.nodes l).role = .leader → e ∈ (s.nodes l).log → e ∉ logs v →
      (s.nodes l).matchIndex v = 0 := by
  have hinv : ∃ lead, s.ElectionInv ∧ s.LogsInv logs ∧ s.LeaderInv logs lead ∧
      s.KeysInv logs lead := by
    refine hs.inv (P := fun s => ∃ lead, s.ElectionInv ∧ s.LogsInv logs ∧ s.LeaderInv logs lead ∧
      s.KeysInv logs lead) ?_
      ⟨_, init_electionInv logs, init_logsInv logs, init_leaderInv logs, init_keysInv logs⟩
    rintro s a s' ⟨lead, he, hlogs, hl, hk⟩ hok hstep
    obtain ⟨lead', hl', hg⟩ := step_leaderInv hm hl hlogs he hstep
    exact ⟨lead', step_electionInv he hstep, step_logsInv hm hlogs hstep, hl',
      step_keysInv hk hl hl' hg hok hstep⟩
  obtain ⟨lead, _, _, hl, hk⟩ := hinv
  refine ⟨fun he => hk.nodes v e he hu, ?_⟩
  intro l hlead he hnot
  by_contra hmatch
  have hack := (hl.matched l v hlead hmatch).1
  exact hnot (hk.acked v _ _ (hl.leader l hlead) hack e he hu)

omit [Protobuf] in
/-- Node 0 leads with such an entry; node 1 refuses the first heartbeat, and the next request does
not parse. -/
theorem foreign_keys_stay_two :
    let _ := wireFormat
    let e : Entry := { term := 1, key := [0xff] }
    let logs : Fin 2 → List Entry := ![[{}, e], [{}]]
    ∃ s, ReachesIf Parses (step false) (init logs) s ∧
      (s.nodes 0).role = .leader ∧ e ∈ (s.nodes 0).log ∧ e ∉ (s.nodes 1).log ∧
      (s.nodes 0).matchIndex 1 = 0 ∧ s.appendCalls.length = 2 := by
  intro _ e logs
  let check (s : Cluster 2 (List Entry)) (_ : Action 2) : Bool := s.appendCalls.all fun c =>
    AppendEntriesArgs.format.parse (AppendEntriesArgs.format.write c.args) = some c.args
  have hcheck : ∀ s a, check s a = true → s.Parses a := by
    intro s a hok k c _ hk
    exact of_decide_eq_true (List.all_eq_true.mp hok c (List.mem_of_getElem? hk))
  obtain ⟨s, hs, hp⟩ := exists_of_runsIf (s := init logs) (step false) hcheck
    [.elect 0, .requestVote 0, .getVoteAnswer 0 0, .collectVote 0, .sendHeartBeats 0,
      .appendEntries 0, .handleAppendEntries 0 0, .sendHeartBeats 0]
    (fun s => decide ((s.nodes 0).role = .leader ∧ e ∈ (s.nodes 0).log ∧
      s.appendCalls.length = 2)) (by decide +kernel)
  obtain ⟨hlead, he, hcalls⟩ := decide_eq_true_eq.mp hp
  obtain ⟨hstay, hmatch⟩ := foreign_keys_stay (by decide) hs 1 (e := e) (by decide)
  have hnot : e ∉ logs 1 := by decide
  exact ⟨s, hs, hlead, he, fun hmem => hnot (hstay hmem), hmatch 0 hlead he hnot, hcalls⟩

end Cluster
end TinyKv
