import TinyKv.Raft.CommitRule
import TinyKv.Raft.Steps

/-!
# Raft.Commit

State machine safety, under a condition on the votes.

The terms of reloaded entries are from before the restart, and the terms of the run start at 0
again: `RequestVote` compares numbers of two counts, so that a candidate whose log lacks committed
entries can look up to date. `VoteAgrees` asks what the comparison is there to guarantee: the
candidate's log does not conflict with the part of the voter's log that may be committed, which
ends at an entry of a term whose leader the voter has followed, or was.

* `Committed s lead T N`: a majority has, or had, entry `N` of the log of term `T`, itself of term
  `T`. `CommitInv.complete`: no later leader's log conflicts with it, by the usual induction on the
  term over the voter that two majorities share.
* `Covered s lead U xs k`: the entries of `xs` up to `k` lie in a log committed in a term up to `U`.
  Everything below a commit index is covered.
* `state_machine_safety`: what is below two commit indices agrees, and no step changes an entry
  below a node's own commit index.
-/

namespace TinyKv

open Lib RaftNode

variable {n : Nat}

namespace Cluster

variable {logs : Fin n → List Entry} {s s' : Cluster n (List Entry)} {lead lead' : Leaders}

/-- A vote in an open election goes to a candidate whose log agrees with the voter's up to each
entry of a term in which the voter has acknowledged the leader, or was the leader. -/
def VoteAgrees (s : Cluster n (List Entry)) (a : Action n) : Prop :=
  ∀ k c, a = .requestVote k → s.voteCalls[k]? = some c →
    (s.nodes c.src).currentTerm = c.args.term → (s.nodes c.src).role ≠ .leader →
    (s.nodes c.dst).Grants c.args →
    ∀ N e, (s.nodes c.dst).log[N]? = some e → s.Has c.dst e.term →
      Comparable ((s.nodes c.dst).log.take (N + 1)) (s.nodes c.src).log

/-- Node `v` does not stand for a leader of term `U` with a log `C` that conflicts with what `v`
holds of an earlier leader's log, unless a leader in between does already. -/
def Safe (s : Cluster n (List Entry)) (lead : Leaders) (U : Int) (C : List Entry) (v : Fin n) :
    Prop :=
  ∀ T L N e, T < U → lead T = some L → s.Has v T → L[N]? = some e → e.term = T →
    Agreed lead (L.take (N + 1)) T (U - 1) → Comparable (L.take (N + 1)) C

structure Committed (s : Cluster n (List Entry)) (lead : Leaders) (T : Int) (N : Nat)
    (L : List Entry) : Prop where
  log : lead T = some L
  entry : ∃ e, L[N]? = some e ∧ e.term = T
  quorum : ∃ Q, Majority Q ∧ ∀ v ∈ Q, s.Has v T

def Covered (s : Cluster n (List Entry)) (lead : Leaders) (U : Int) (xs : List Entry) (k : Nat) :
    Prop :=
  k = 0 ∨ ∃ T N L, s.Committed lead T N L ∧ T ≤ U ∧ k ≤ N ∧ L.take (k + 1) <+: xs

structure CommitInv (s : Cluster n (List Entry)) (lead : Leaders) : Prop where
  vote : ∀ c ∈ s.voteCalls, c.Granted → (s.nodes c.src).currentTerm = c.args.term →
    lead c.args.term = none → s.Safe lead c.args.term (s.nodes c.src).log c.dst
  win : ∀ U C, lead U = some C →
    ∃ Q, Majority Q ∧ ∀ v ∈ Q, U ≤ (s.nodes v).currentTerm ∧ s.Safe lead U C v
  nodes : ∀ v, s.Covered lead (s.nodes v).currentTerm (s.nodes v).log (s.nodes v).commitIndex
  calls : ∀ c ∈ s.appendCalls, ∃ L ci, lead c.args.term = some L ∧
    c.args.leaderCommit = (ci : Nat) ∧ s.Covered lead c.args.term L ci

theorem init_commitInv (logs : Fin n → List Entry) : (init logs).CommitInv fun _ => none where
  vote := fun c hc => by cases hc
  win := fun U C h => by cases h
  nodes := fun v => .inl rfl
  calls := fun c hc => by cases hc

/-! ## Leader completeness -/

theorem take_getElem? {L : List Entry} {k N : Nat} (h : k ≤ N) : (L.take (N + 1))[k]? = L[k]? :=
  List.getElem?_take_of_lt (by omega)

theorem CommitInv.complete (h : s.CommitInv lead) {T : Int} {N : Nat} {L : List Entry}
    (hc : s.Committed lead T N L) :
    ∀ (m : Nat) (U : Int) (C : List Entry), (U - T).toNat = m → T ≤ U → lead U = some C →
      Comparable (L.take (N + 1)) C := by
  intro m
  induction m using Nat.strong_induction_on with
  | _ m ih =>
    intro U C hm hTU hC
    by_cases hT : U = T
    · rw [hT, hc.log, Option.some.injEq] at hC
      subst hC
      exact .inl (List.take_prefix _ _)
    · -- a voter of `U` that held the entry; the leaders in between agree by induction
      obtain ⟨Q, hQ, hhas⟩ := hc.quorum
      obtain ⟨Q', hQ', hsafe⟩ := h.win U C hC
      obtain ⟨v, hv, hv'⟩ := hQ.meet hQ'
      obtain ⟨e, he, hterm⟩ := hc.entry
      refine (hsafe v hv').2 T L N e (by omega) hc.log (hhas v hv) he hterm ?_
      intro T' L' hlt hle hL'
      exact ih (T' - T).toNat (by omega) T' L' rfl (by omega) hL'

theorem CommitInv.agrees (h : s.CommitInv lead) {T U : Int} {N : Nat} {L C : List Entry}
    (hc : s.Committed lead T N L) (hTU : T ≤ U) (hC : lead U = some C) :
    Comparable (L.take (N + 1)) C := h.complete hc _ U C rfl hTU hC

theorem Covered.le {U : Int} {xs : List Entry} {k k' : Nat} (h : s.Covered lead U xs k)
    (hk : k' ≤ k) : s.Covered lead U xs k' := by
  cases h with
  | inl h => exact .inl (by omega)
  | inr h =>
    obtain ⟨T, N, L, hc, hT, hN, hpre⟩ := h
    have htake : L.take (k' + 1) <+: L.take (k + 1) := List.take_prefix_take_left (by omega)
    exact .inr ⟨T, N, L, hc, hT, by omega, htake.trans hpre⟩

theorem Covered.extend {U : Int} {xs ys : List Entry} {k : Nat} (h : s.Covered lead U xs k)
    (hxs : xs <+: ys) : s.Covered lead U ys k := by
  cases h with
  | inl h => exact .inl h
  | inr h =>
    obtain ⟨T, N, L, hc, hT, hN, hpre⟩ := h
    exact .inr ⟨T, N, L, hc, hT, hN, hpre.trans hxs⟩

theorem CommitInv.covered_adopt (h : s.CommitInv lead) {U U' : Int} {xs C : List Entry} {k : Nat}
    (hcov : s.Covered lead U xs k) (hU : U ≤ U') (hC : lead U' = some C) :
    s.Covered lead U' (adopt xs C) k := by
  cases hcov with
  | inl h0 => exact .inl h0
  | inr hcov =>
    obtain ⟨T, N, L, hc, hT, hN, hpre⟩ := hcov
    have htake : L.take (k + 1) <+: L.take (N + 1) := List.take_prefix_take_left (by omega)
    have hcomp := (h.agrees hc (by omega) hC).mono htake
    exact .inr ⟨T, N, L, hc, by omega, hN, prefix_adopt_of_comparable hpre hcomp⟩

theorem CommitInv.adopt_entry (h : s.CommitInv lead) {U U' : Int} {xs C : List Entry} {k j : Nat}
    {x : Entry} (hcov : s.Covered lead U xs k) (hU : U ≤ U') (hC : lead U' = some C) (hk : 0 < k)
    (hj : j ≤ k) (hx : xs[j]? = some x) : (adopt xs C)[j]? = some x := by
  cases hcov with
  | inl h0 => omega
  | inr hcov =>
    obtain ⟨T, N, L, hc, hT, hN, hpre⟩ := hcov
    obtain ⟨e, he, _⟩ := hc.entry
    have hlt : j < (L.take (k + 1)).length := by
      have := (List.getElem?_eq_some_iff.mp he).1
      rw [List.length_take]
      omega
    have htake : L.take (k + 1) <+: L.take (N + 1) := List.take_prefix_take_left (by omega)
    have hcomp := (h.agrees hc (by omega) hC).mono htake
    have hLj := List.getElem?_eq_getElem hlt
    rw [prefix_getElem? hpre hLj, Option.some.injEq] at hx
    rw [prefix_getElem? (prefix_adopt_of_comparable hpre hcomp) hLj, hx]

theorem Covered.entry {U : Int} {xs : List Entry} {k j : Nat} {x : Entry}
    (h : s.Covered lead U xs k) (hk : 0 < k) (hj : j ≤ k) (hx : xs[j]? = some x) :
    ∃ T N L, s.Committed lead T N L ∧ j ≤ N ∧ L[j]? = some x := by
  cases h with
  | inl h => omega
  | inr h =>
    obtain ⟨T, N, L, hc, _, hN, hpre⟩ := h
    obtain ⟨e, he, _⟩ := hc.entry
    have hlt : j < L.length := by
      have := (List.getElem?_eq_some_iff.mp he).1
      omega
    have hLj : L[j]? = some L[j] := List.getElem?_eq_getElem hlt
    have hxj := prefix_getElem? hpre ((take_getElem? hj).trans hLj)
    rw [hx] at hxj
    exact ⟨T, N, L, hc, by omega, hLj.trans hxj.symm⟩

theorem CommitInv.committed_unique (h : s.CommitInv lead) {T₁ T₂ : Int} {N₁ N₂ j : Nat}
    {L₁ L₂ : List Entry} {x y : Entry} (h₁ : s.Committed lead T₁ N₁ L₁)
    (h₂ : s.Committed lead T₂ N₂ L₂) (hj₁ : j ≤ N₁) (hj₂ : j ≤ N₂) (hx : L₁[j]? = some x)
    (hy : L₂[j]? = some y) : x = y := by
  cases Int.le_total T₁ T₂ with
  | inl hle =>
    have hcomp := h.agrees h₁ hle h₂.log
    exact hcomp.getElem?_eq ((take_getElem? hj₁).trans hx) hy
  | inr hle =>
    have hcomp := h.agrees h₂ hle h₁.log
    exact (hcomp.getElem?_eq ((take_getElem? hj₂).trans hy) hx).symm

/-! ## One step -/

section Step

variable {a : Action n}

theorem has_step (he : s.ElectionInv) (hs : s.step false a = some s') {v : Fin n} {T : Int}
    (hv : s.Has v T) : s'.Has v T := by
  cases hv with
  | inl hv => exact .inl (acked_step hs hv)
  | inr hv => exact .inr (won_step he hs hv)

theorem Committed.step (he : s.ElectionInv) (hs : s.step false a = some s')
    (hg : Grows s s' lead lead') {T : Int} {N : Nat} {L : List Entry}
    (h : s.Committed lead T N L) : s'.Committed lead' T N L := by
  obtain ⟨Q, hQ, hhas⟩ := h.quorum
  exact ⟨hg.old T L h.log, h.entry, Q, hQ, fun v hv => has_step he hs (hhas v hv)⟩

theorem Covered.step (he : s.ElectionInv) (hs : s.step false a = some s')
    (hg : Grows s s' lead lead') {U U' : Int} {xs : List Entry} {k : Nat}
    (h : s.Covered lead U xs k) (hU : U ≤ U') : s'.Covered lead' U' xs k := by
  cases h with
  | inl h => exact .inl h
  | inr h =>
    obtain ⟨T, N, L, hc, hT, hN, hpre⟩ := h
    exact .inr ⟨T, N, L, hc.step he hs hg, by omega, hN, hpre⟩

theorem agreed_of_grows (hg : Grows s s' lead lead') {p : List Entry} {T U : Int}
    (h : Agreed lead' p T U) : Agreed lead p T U :=
  fun T' L hlt hle hL => h T' L hlt hle (hg.old T' L hL)

/-- What a node holds of terms it has passed is settled. -/
theorem has_back (h : s.LeaderInv logs lead) (he : s.ElectionInv)
    (hs : s.step false a = some s') (hg : Grows s s' lead lead') {v : Fin n} {T : Int}
    {L : List Entry} (hlt : T < (s'.nodes v).currentTerm) (hL : lead' T = some L)
    (hv : s'.Has v T) : lead T = some L ∧ s.Has v T := by
  have he' := step_electionInv he hs
  have hwon : ∀ i T, s.Won i T → s'.Won i T := fun i T hw => won_step he hs hw
  have hback : s'.Acked v T → s.Acked v T := by
    intro hack
    cases acked_back hs hack with
    | inl hack => exact hack
    | inr hterm => omega
  cases hg.new T L hL with
  | inl hold =>
    refine ⟨hold, ?_⟩
    cases hv with
    | inl hv => exact .inl (hback hv)
    | inr hv => exact .inr (h.won_back he' hwon hold hv)
  | inr hnew =>
    -- a term that is led only now: nobody has its log but the leader, who is still in it
    obtain ⟨i, hnone, _, hterm, _, hw⟩ := hnew
    cases hv with
    | inl hv =>
      obtain ⟨c, hc, ⟨_, hct⟩, _⟩ := hback hv
      obtain ⟨_, _, L', hL', _⟩ := h.calls c hc
      rw [hct, hnone] at hL'
      cases hL'
    | inr hv =>
      obtain rfl := he'.won_unique hv hw
      omega

theorem Safe.step (h : s.LeaderInv logs lead) (he : s.ElectionInv)
    (hs : s.step false a = some s') (hg : Grows s s' lead lead') {U : Int} {C : List Entry}
    {v : Fin n} (hsafe : s.Safe lead U C v) (hU : U ≤ (s'.nodes v).currentTerm) :
    s'.Safe lead' U C v := by
  intro T L N e hT hL hv he hterm hagree
  obtain ⟨hL₀, hv₀⟩ := has_back h ‹_› hs hg (by omega) hL hv
  exact hsafe T L N e hT hL₀ hv₀ he hterm (agreed_of_grows hg hagree)

/-- A prefix a node still has is safe with it, unless the term's election is over. -/
theorem kept_of_open (h : s.LeaderInv logs lead) {U : Int} {v : Fin n}
    (hnone : lead U = none) (hle : (s.nodes v).currentTerm ≤ U) {T : Int} {L : List Entry}
    {N : Nat} (hL : lead T = some L) (hv : s.Has v T)
    (hagree : Agreed lead (L.take N) T (U - 1)) : L.take N <+: (s.nodes v).log := by
  apply h.kept v T L N hL hv
  intro T' L' hlt hle' hL'
  have hne : T' ≠ U := by
    rintro rfl
    rw [hnone] at hL'
    cases hL'
  exact hagree T' L' hlt (by omega) hL'

/-- Every vote on record after the step is safe, judged by the logs before it. -/
theorem vote_safe (h : s.LeaderInv logs lead) (hc : s.CommitInv lead) (hok : s.VoteAgrees a)
    (hs : s.step false a = some s') {c : VoteCall n}
    (hmem : c ∈ s'.voteCalls) (hgr : c.Granted)
    (hterm : (s.nodes c.src).currentTerm = c.args.term) (hnone : lead c.args.term = none) :
    s.Safe lead c.args.term (s.nodes c.src).log c.dst := by
  obtain ⟨c₀, hc₀, hsrc, hdst, hargs, hgr⟩ := granted_step hs hmem hgr
  rw [← hsrc, ← hargs] at hterm
  rw [← hargs] at hnone
  rw [← hsrc, ← hdst, ← hargs]
  cases hgr with
  | inl hgr => exact hc.vote c₀ hc₀ hgr hterm hnone
  | inr hgr =>
    obtain ⟨k, rfl, hk, hgr⟩ := hgr
    intro T L N e hT hL hv heN hte hagree
    have hpre := kept_of_open h hnone hgr.term hL hv hagree
    have hvN := prefix_getElem? hpre ((take_getElem? (Nat.le_refl N)).trans heN)
    have hrole : (s.nodes c₀.src).role ≠ .leader := by
      intro hl
      have := h.leader c₀.src hl
      rw [hterm, hnone] at this
      cases this
    have hcomp := hok k c₀ rfl hk hterm hrole hgr N e hvN (hte ▸ hv)
    exact hcomp.mono (List.prefix_take_iff.mpr ⟨hpre, List.length_take_le _ _⟩)

theorem vote_step (hm : ∀ i j, LogMatching Entry.term (logs i) (logs j))
    (h : s.LeaderInv logs lead) (hlogs : s.LogsInv logs) (he : s.ElectionInv)
    (hc : s.CommitInv lead) (hok : s.VoteAgrees a) (hs : s.step false a = some s')
    (hg : Grows s s' lead lead') {c : VoteCall n} (hmem : c ∈ s'.voteCalls) (hgr : c.Granted)
    (hterm : (s'.nodes c.src).currentTerm = c.args.term) (hnone : lead' c.args.term = none) :
    s'.Safe lead' c.args.term (s'.nodes c.src).log c.dst := by
  have he' := step_electionInv he hs
  have hnone₀ : lead c.args.term = none := by
    cases hL : lead c.args.term with
    | none => rfl
    | some L =>
      rw [hg.old _ L hL] at hnone
      cases hnone
  have hterm₀ : (s.nodes c.src).currentTerm = c.args.term := by
    obtain ⟨c₀, hc₀, hsrc, _, hargs, _⟩ := granted_step hs hmem hgr
    have hcall := (he.calls c₀ hc₀).term
    rw [hsrc, hargs] at hcall
    have := (step_node hm h hlogs hs c.src).term
    omega
  -- the candidate's log is the one it had: no leader of its term has sent it another
  have hlog : (s'.nodes c.src).log = (s.nodes c.src).log := by
    cases (step_node hm h hlogs hs c.src).log with
    | inl hsame => exact hsame
    | inr hnew =>
      obtain ⟨L, hL, _⟩ := hnew
      rw [hterm, hnone₀] at hL
      cases hL
  have hbound := (he'.bound c.dst c.args.term c.src (.inr ⟨c, hmem, ⟨rfl, rfl, rfl⟩, hgr⟩)).1
  rw [hlog]
  exact (vote_safe h hc hok hs hmem hgr hterm₀ hnone₀).step h he hs hg hbound

theorem win_step (hm : ∀ i j, LogMatching Entry.term (logs i) (logs j))
    (h : s.LeaderInv logs lead) (hlogs : s.LogsInv logs) (he : s.ElectionInv)
    (hc : s.CommitInv lead) (hok : s.VoteAgrees a) (hs : s.step false a = some s')
    (hg : Grows s s' lead lead') {U : Int} {C : List Entry} (hC : lead' U = some C) :
    ∃ Q, Majority Q ∧ ∀ v ∈ Q, U ≤ (s'.nodes v).currentTerm ∧ s'.Safe lead' U C v := by
  have he' := step_electionInv he hs
  cases hg.new U C hC with
  | inl hold =>
    obtain ⟨Q, hQ, hsafe⟩ := hc.win U C hold
    refine ⟨Q, hQ, ?_⟩
    intro v hv
    have hU := Int.le_trans (hsafe v hv).1 (step_node hm h hlogs hs v).term
    exact ⟨hU, (hsafe v hv).2.step h he hs hg hU⟩
  | inr hnew =>
    obtain ⟨i, hnone, hterm, hterm', rfl, hw⟩ := hnew
    obtain ⟨Q, hQ, hvoted⟩ := he'.voters hw
    refine ⟨Q, hQ, ?_⟩
    intro v hv
    have hU := (he'.bound v U i (hvoted v hv)).1
    have hsafe : s.Safe lead U (s.nodes i).log v := by
      cases hvoted v hv with
      | inl hself =>
        obtain ⟨rfl, _⟩ := hself
        intro T L N e hT hL hhas _ _ hagree
        exact .inl (kept_of_open h hnone (by omega) hL hhas hagree)
      | inr hcall =>
        obtain ⟨c, hmem, ⟨rfl, rfl, rfl⟩, hgr⟩ := hcall
        exact vote_safe h hc hok hs hmem hgr hterm hnone
    exact ⟨hU, hsafe.step h he hs hg hU⟩

theorem followCommit_natCast (nd : RaftNode n (List Entry)) (ci : Nat) :
    (nd.followCommit ci).commitIndex = nd.commitIndex ∨ (nd.followCommit ci).commitIndex ≤ ci := by
  unfold followCommit
  split
  · split
    · rename_i hlast
      unfold gtU64 at hlast
      exact .inr (by simp only; omega)
    · exact .inr (by simp)
  · exact .inl rfl

theorem committed_of_scan (h' : s'.LeaderInv logs lead') (he' : s'.ElectionInv) {v j : Fin n}
    (hl : (s'.nodes v).role = .leader) (hother : j ≠ v) (nd : RaftNode n (List Entry)) {N : Nat}
    (hsnap : nd.lastIncludedIndex = 0) (hid : nd.curNodeId = v)
    (hlog : nd.log = (s'.nodes v).log) (hterm : nd.currentTerm = (s'.nodes v).currentTerm)
    (hmatch : nd.matchIndex = (s'.nodes v).matchIndex) (hN : 0 < N) {count : Nat}
    (hcount : nd.commitCount N = some count) (hmaj : n / 2 < count) :
    s'.Committed lead' (s'.nodes v).currentTerm N (s'.nodes v).log := by
  obtain ⟨hle, hentry⟩ := commitCount_spec hcount
  have htwo : 1 < count := by
    have hv := v.isLt
    have hj := j.isLt
    have hne : (j : Nat) ≠ v := fun heq => hother (Fin.ext heq)
    omega
  refine ⟨h'.leader v hl, ?_, nd.holders N, ?_, ?_⟩
  · obtain ⟨e, he, hcur⟩ := hentry htwo
    rw [realLogIdx, hsnap, Nat.sub_zero, get_list, hlog] at he
    exact ⟨e, he, hcur.trans hterm⟩
  · rw [Majority, Fintype.card_fin, card_holders]
    omega
  · intro i hi
    cases mem_holders.mp hi with
    | inl hself =>
      rw [hself, hid]
      exact .inr (he'.leader v hl)
    | inr hheld =>
      rw [hmatch] at hheld
      exact .inl (h'.matched v i hl (by omega)).1

theorem nodes_step (hm : ∀ i j, LogMatching Entry.term (logs i) (logs j))
    (h : s.LeaderInv logs lead) (hlogs : s.LogsInv logs) (he : s.ElectionInv)
    (hc : s.CommitInv lead) (h' : s'.LeaderInv logs lead') (hs : s.step false a = some s')
    (hg : Grows s s' lead lead') (v : Fin n) :
    s'.Covered lead' (s'.nodes v).currentTerm (s'.nodes v).log (s'.nodes v).commitIndex := by
  cases step_node hm h hlogs hs v with
  | quiet hlog hcommit hterm =>
    rw [hlog, hcommit]
    exact (hc.nodes v).step he hs hg hterm
  | append c L hmem hL hge hnd =>
    obtain ⟨L', ci, hL', hlc, hmsg⟩ := hc.calls c hmem
    obtain rfl := Option.some.inj (hL.symm.trans hL')
    rw [hlc] at hnd
    have hterm : (s'.nodes v).currentTerm = c.args.term := by
      obtain ⟨k, hk⟩ := followCommit_eq { (s.nodes v).observeTerm c.args.term with
        log := adopt (s.nodes v).log L } ci
      rw [hnd, hk]
      exact observeTerm_term (by omega)
    have hlog : (s'.nodes v).log = adopt (s.nodes v).log L := by rw [hnd, followCommit_log]
    rw [hterm, hlog]
    have hold := hc.covered_adopt (hc.nodes v) hge hL
    have hnew := hmsg.extend (prefix_adopt (s.nodes v).log L)
    cases followCommit_natCast { (s.nodes v).observeTerm c.args.term with
        log := adopt (s.nodes v).log L } ci with
    | inl hsame =>
      rw [hnd, hsame]
      simp only [observeTerm_commitIndex]
      exact hold.step he hs hg (Int.le_refl _)
    | inr hle =>
      rw [hnd]
      exact (hnew.le hle).step he hs hg (Int.le_refl _)
  | commit c idx N hother hlead hN hnd =>
    have hl : (s'.nodes v).role = .leader := by rw [hnd]; exact hlead
    have hlog : (s'.nodes v).log = (s.nodes v).log := by rw [hnd]; rfl
    have hterm : (s'.nodes v).currentTerm = (s.nodes v).currentTerm := by rw [hnd]; rfl
    have hci : (s'.nodes v).commitIndex = N := by rw [hnd]
    by_cases hle : N ≤ (s.nodes v).commitIndex
    · rw [hlog, hterm, hci]
      exact ((hc.nodes v).le hle).step he hs hg (Int.le_refl _)
    · obtain ⟨count, hcount, hmaj⟩ := (commitScan_spec hN).2 (Nat.not_le.mp hle)
      have hcom := committed_of_scan h' (step_electionInv he hs) hl hother
        ((s.nodes v).matched c.dst idx) (hlogs.snapshot v) (he.ids v) (by rw [hnd]) (by rw [hnd])
        (by rw [hnd]) (by omega) hcount hmaj
      rw [hci]
      exact .inr ⟨_, N, _, hcom, Int.le_refl _, Nat.le_refl _, List.take_prefix _ _⟩

theorem calls_covered_step (hlogs : s.LogsInv logs) (h : s.LeaderInv logs lead)
    (he : s.ElectionInv) (hc : s.CommitInv lead) (hs : s.step false a = some s')
    (hg : Grows s s' lead lead') {c : AppendCall n} (hmem : c ∈ s'.appendCalls) :
    ∃ L ci, lead' c.args.term = some L ∧ c.args.leaderCommit = (ci : Nat) ∧
      s'.Covered lead' c.args.term L ci := by
  cases calls_step hlogs hs hmem with
  | inl hold =>
    obtain ⟨c₀, hc₀, hargs⟩ := hold
    obtain ⟨L, ci, hL, hlc, hcov⟩ := hc.calls c₀ hc₀
    rw [hargs] at hL hlc hcov
    exact ⟨L, ci, hg.old _ L hL, hlc, hcov.step he hs hg (Int.le_refl _)⟩
  | inr hnew =>
    obtain ⟨i, hl, hterm, hlc⟩ := hnew
    refine ⟨(s.nodes i).log, (s.nodes i).commitIndex, ?_, hlc, ?_⟩
    · rw [hterm]
      exact hg.old _ _ (h.leader i hl)
    · rw [hterm]
      exact (hc.nodes i).step he hs hg (Int.le_refl _)

end Step

structure SafetyInv (logs : Fin n → List Entry) (s : Cluster n (List Entry)) : Prop where
  electionInv : s.ElectionInv
  logsInv : s.LogsInv logs
  history : ∃ lead, s.LeaderInv logs lead ∧ s.CommitInv lead

theorem step_commitInv (hm : ∀ i j, LogMatching Entry.term (logs i) (logs j)) {a : Action n}
    (he : s.ElectionInv) (hlogs : s.LogsInv logs) (hl : s.LeaderInv logs lead)
    (hc : s.CommitInv lead) (hok : s.VoteAgrees a) (hs : s.step false a = some s') :
    ∃ lead', s'.LeaderInv logs lead' ∧ s'.CommitInv lead' ∧ Grows s s' lead lead' := by
  obtain ⟨lead', hl', hg⟩ := step_leaderInv hm hl hlogs he hs
  refine ⟨lead', hl', ?_, hg⟩
  constructor
  · intro c hmem hgr hterm hnone
    exact vote_step hm hl hlogs he hc hok hs hg hmem hgr hterm hnone
  · intro U C hC
    exact win_step hm hl hlogs he hc hok hs hg hC
  · exact nodes_step hm hl hlogs he hc hl' hs hg
  · intro c hmem
    exact calls_covered_step hlogs hl he hc hs hg hmem

theorem step_safetyInv (hm : ∀ i j, LogMatching Entry.term (logs i) (logs j)) {a : Action n}
    (h : s.SafetyInv logs) (hok : s.VoteAgrees a) (hs : s.step false a = some s') :
    s'.SafetyInv logs := by
  obtain ⟨he, hlogs, lead, hl, hc⟩ := h
  obtain ⟨lead', hl', hc', _⟩ := step_commitInv hm he hlogs hl hc hok hs
  exact ⟨step_electionInv he hs, step_logsInv hm hlogs hs, lead', hl', hc'⟩

theorem reaches_safetyInv (hm : ∀ i j, LogMatching Entry.term (logs i) (logs j))
    (h : ReachesIf VoteAgrees (step false) (init logs) s) : s.SafetyInv logs :=
  h.inv (fun _ _ _ hinv hok hs => step_safetyInv hm hinv hok hs)
    ⟨init_electionInv logs, init_logsInv logs, _, init_leaderInv logs, init_commitInv logs⟩

/-- **State machine safety.** In a run whose votes agree with the voters' logs, two nodes have the
same entry wherever both have committed, and no step changes an entry that a node has committed. -/
theorem state_machine_safety (h0 : ∀ i, (logs i)[0]? = some ({} : Entry))
    (hm : ∀ i j, LogMatching Entry.term (logs i) (logs j))
    (hs : ReachesIf VoteAgrees (step false) (init logs) s) :
    (∀ i j k x y, k ≤ (s.nodes i).commitIndex → k ≤ (s.nodes j).commitIndex →
      (s.nodes i).log[k]? = some x → (s.nodes j).log[k]? = some y → x = y) ∧
    (∀ a s', s.step false a = some s' → ∀ i k x, k ≤ (s.nodes i).commitIndex →
      (s.nodes i).log[k]? = some x → (s'.nodes i).log[k]? = some x) := by
  obtain ⟨he, hlogs, lead, hl, hc⟩ := reaches_safetyInv hm hs
  constructor
  · intro i j k x y hi hj hx hy
    by_cases hk : k = 0
    · rw [hk, hlogs.zero h0] at hx hy
      exact Option.some.inj (hx.symm.trans hy)
    · obtain ⟨_, _, _, hc₁, hk₁, hx₁⟩ := (hc.nodes i).entry (by omega) hi hx
      obtain ⟨_, _, _, hc₂, hk₂, hy₂⟩ := (hc.nodes j).entry (by omega) hj hy
      exact hc.committed_unique hc₁ hc₂ hk₁ hk₂ hx₁ hy₂
  · intro a s' hstep i k x hk hx
    by_cases h : k = 0
    · rw [h, hlogs.zero h0] at hx
      rw [h, (step_logsInv hm hlogs hstep).zero h0]
      exact hx
    · cases step_node hm hl hlogs hstep i with
      | quiet hlog _ _ => rw [hlog, hx]
      | commit c idx N _ _ _ hnd =>
        rw [hnd]
        exact hx
      | append c L _ hL hge hnd =>
        -- the entry is in a committed log, which the log of the request does not conflict with
        rw [hnd, followCommit_log]
        exact hc.adopt_entry (hc.nodes i) hge hL (by omega) hk hx

theorem voteAgrees_of_ne {a : Action n} (h : ∀ k, a ≠ .requestVote k) (s : Cluster n (List Entry)) :
    s.VoteAgrees a := fun k _ ha => absurd ha (h k)

/-- Node 0 replicates its entry to node 1, whose log was empty, and both commit it. -/
theorem state_machine_safety_commit :
    let logs : Fin 2 → List Entry := ![[{}, { term := 1 }], [{}]]
    ∃ s, ReachesIf VoteAgrees (step false) (init logs) s ∧ (s.nodes 0).commitIndex = 1 ∧
      (s.nodes 1).commitIndex = 1 ∧
      ∀ x y, (s.nodes 0).log[1]? = some x → (s.nodes 1).log[1]? = some y → x = y := by
  intro logs
  have hm : ∀ i j, LogMatching Entry.term (logs i) (logs j) := by decide
  let rest : List (Action 2) := [.getVoteAnswer 0 0, .collectVote 0, .sendHeartBeats 0,
    .appendEntries 0, .handleAppendEntries 0 0, .sendHeartBeats 0, .appendEntries 1,
    .handleAppendEntries 1 0, .sendHeartBeats 0, .appendEntries 2]
  have hrun : ((step false (init logs) (.elect 0)).bind fun s₁ =>
      (step false s₁ (.requestVote 0)).bind fun s₂ => (runs (step false) rest s₂).map fun s =>
        ((s₁.voteCalls[0]?.map fun c => ((s₁.nodes c.dst).log, (s₁.nodes c.src).log)),
          (s.nodes 0).commitIndex, (s.nodes 1).commitIndex)) =
      some (some ([{}], [{}, { term := 1 }]), 1, 1) := by
    decide +kernel
  obtain ⟨s₁, h₁, hrun⟩ := Option.bind_eq_some_iff.mp hrun
  obtain ⟨s₂, h₂, hrun⟩ := Option.bind_eq_some_iff.mp hrun
  obtain ⟨s, h₃, hrun⟩ := Option.map_eq_some_iff.mp hrun
  obtain ⟨hvoter, hrest⟩ := Prod.mk.inj hrun
  obtain ⟨hci₀, hci₁⟩ := Prod.mk.inj hrest
  have hvote : s₁.VoteAgrees (.requestVote 0) := by
    -- the voter's log is a prefix of the candidate's
    intro k c ha hk _ _ _ N _ _ _
    cases ha
    rw [hk, Option.map_some, Option.some.injEq, Prod.mk.injEq] at hvoter
    rw [hvoter.1, hvoter.2]
    exact .inl ((List.take_prefix (N + 1) _).trans ⟨[{ term := 1 }], rfl⟩)
  have hs : ReachesIf VoteAgrees (step false) (init logs) s := by
    refine (ReachesIf.single (voteAgrees_of_ne (by simp) _) h₁).trans ?_
    refine (ReachesIf.single hvote h₂).trans (reachesIf_of_runs ?_ h₃)
    intro a ha s'
    apply voteAgrees_of_ne
    intro k hk
    rw [hk] at ha
    simp [rest] at ha
  have hsafe := (state_machine_safety (by decide) hm hs).1
  exact ⟨s, hs, hci₀, hci₁, fun x y => hsafe 0 1 1 x y (by omega) (by omega)⟩

/-- Three nodes on reloaded logs: node 0 leads term 1 and commits its entry of that term with node
1; node 2 wins node 1's vote in term 2, as its log is longer, and replaces the committed entry. -/
theorem reloaded_logs_lose_commit :
    let x : Entry := { term := 1, value := [120] }
    let y : Entry := { term := 2, value := [121] }
    let loaded : Fin 3 → List Entry := ![[{}, x], [], [{}, y, y]]
    let logs : Fin 3 → List Entry := fun i => loaded i ++ [({} : Entry)]
    (∀ i, (RaftNode.create i (loaded i)) = some ((init logs).nodes i)) ∧
    (∀ i, (logs i)[0]? = some ({} : Entry)) ∧
    (∀ i j, LogMatching Entry.term (logs i) (logs j)) ∧
    ∃ s a s', Reaches (step false) (init logs) s ∧ step false s a = some s' ∧
      1 ≤ (s.nodes 1).commitIndex ∧ (s.nodes 1).log[1]? = some x ∧
      (s'.nodes 1).log[1]? = some y ∧
      ∃ s'', Reaches (step false) s' s'' ∧
        1 ≤ (s''.nodes 0).commitIndex ∧ 1 ≤ (s''.nodes 2).commitIndex ∧
        (s''.nodes 0).log[1]? = some x ∧ (s''.nodes 2).log[1]? = some y ∧ x ≠ y := by
  intro x y loaded logs
  have hrun : ((runs (step false) [.elect 0, .requestVote 0, .getVoteAnswer 0 0, .collectVote 0,
      .sendHeartBeats 0, .appendEntries 0, .handleAppendEntries 0 0, .sendHeartBeats 0,
      .appendEntries 2, .handleAppendEntries 2 0, .sendHeartBeats 0, .appendEntries 4,
      .elect 2, .elect 2, .requestVote 5, .getVoteAnswer 5 0, .collectVote 5, .sendHeartBeats 2,
      .appendEntries 7, .handleAppendEntries 7 0, .sendHeartBeats 2, .appendEntries 9,
      .handleAppendEntries 9 0, .sendHeartBeats 2] (init logs)).bind fun s =>
        (step false s (.appendEntries 11)).bind fun s' =>
        (step false s' (.handleAppendEntries 11 0)).map fun s'' =>
          decide (1 ≤ (s.nodes 1).commitIndex ∧ (s.nodes 1).log[1]? = some x ∧
            (s'.nodes 1).log[1]? = some y ∧ 1 ≤ (s''.nodes 0).commitIndex ∧
            1 ≤ (s''.nodes 2).commitIndex ∧ (s''.nodes 0).log[1]? = some x ∧
            (s''.nodes 2).log[1]? = some y ∧ x ≠ y)) = some true := by decide +kernel
  obtain ⟨s, hs, hrun⟩ := Option.bind_eq_some_iff.mp hrun
  obtain ⟨s', hs', hrun⟩ := Option.bind_eq_some_iff.mp hrun
  obtain ⟨s'', hs'', hrun⟩ := Option.map_eq_some_iff.mp hrun
  obtain ⟨h₁, h₂, h₃, h₄⟩ := of_decide_eq_true hrun
  refine ⟨fun i => rfl, by decide, by decide, s, .appendEntries 11, s', reaches_of_runs hs, hs',
    h₁, h₂, h₃, s'', .single hs'', h₄⟩

end Cluster
end TinyKv
