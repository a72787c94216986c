import TinyKv.Lib.Quorum
import TinyKv.Raft.Cluster
import TinyKv.Raft.NodeSpec

/-!
# Raft.Election

Election safety: no two nodes are leader in one term, at whatever moments of a run.

* `Voted s j t i`: node `j` has voted for `i` in term `t`, by a reply that granted it or as the
  candidate itself. A vote binds the voter's `currentTerm` and `votedFor` (`ElectionInv.bound`),
  so that a node votes once in a term (`ElectionInv.unique`).
* `Counted s i t j`: a vote the counter of `i`'s election has counted. Calls are told apart by
  `VoteCall.key`, and each is counted once, so the counter is at most the number of voters.
* `Won s i t`: the counter has passed half of the nodes. It never drops again (`won_step`), so two
  leaders of a term have voters in common whenever they were leader.
-/

namespace TinyKv

open Lib RaftNode

variable {n : Nat} {L : Type}

def VoteCall.Granted (c : VoteCall n) : Prop := ∃ r ∈ c.replies, r.voteGranted = true

def VoteCall.key (c : VoteCall n) : Fin n × Int × Fin n := (c.src, c.args.term, c.dst)

/-- Call `c` is the one by which `i` asks `j` for its vote in term `t`. -/
def VoteCall.Asks (c : VoteCall n) (i : Fin n) (t : Int) (j : Fin n) : Prop :=
  c.src = i ∧ c.args.term = t ∧ c.dst = j

theorem VoteCall.Asks.key_eq {c : VoteCall n} {i j : Fin n} {t : Int} (h : c.Asks i t j) :
    c.key = (i, t, j) := by
  obtain ⟨rfl, rfl, rfl⟩ := h
  rfl

namespace Cluster

def Voted (s : Cluster n L) (j : Fin n) (t : Int) (i : Fin n) : Prop :=
  (j = i ∧ s.voteCount i t ≠ 0) ∨ ∃ c ∈ s.voteCalls, c.Asks i t j ∧ c.Granted

def Counted (s : Cluster n L) (i : Fin n) (t : Int) (j : Fin n) : Prop :=
  j = i ∨ ∃ c ∈ s.voteCalls, c.Asks i t j ∧ c.Granted ∧ c.phase = .finished

def Won (s : Cluster n L) (i : Fin n) (t : Int) : Prop := n / 2 < s.voteCount i t

structure CallOk (s : Cluster n L) (c : VoteCall n) : Prop where
  candidate : c.args.candidateId = (c.src : Nat)
  other : c.dst ≠ c.src
  pos : 0 < c.args.term
  term : c.args.term ≤ (s.nodes c.src).currentTerm
  counter : s.voteCount c.src c.args.term ≠ 0
  granted : c.phase = .granted → c.Granted

structure ElectionInv (s : Cluster n L) : Prop where
  ids : ∀ i, (s.nodes i).curNodeId = i
  terms : ∀ i, 0 ≤ (s.nodes i).currentTerm
  calls : ∀ c ∈ s.voteCalls, s.CallOk c
  keys : (s.voteCalls.map VoteCall.key).Nodup
  bound : ∀ j t i, s.Voted j t i → t ≤ (s.nodes j).currentTerm ∧
    ((s.nodes j).currentTerm = t → (s.nodes j).votedFor = (i : Nat))
  unique : ∀ j t i i', s.Voted j t i → s.Voted j t i' → i = i'
  count : ∀ i t, ∃ Q : Finset (Fin n), s.voteCount i t ≤ Q.card ∧ ∀ j ∈ Q, s.Counted i t j
  leader : ∀ i, (s.nodes i).role = .leader → s.Won i (s.nodes i).currentTerm

theorem id_inj {i j : Fin n} (h : ((i : Nat) : Int) = (j : Nat)) : i = j := by
  apply Fin.ext; omega

theorem init_electionInv (logs : Fin n → L) : (init logs).ElectionInv where
  ids := fun _ => rfl
  terms := fun _ => Int.le_refl 0
  calls := fun c hc => by cases hc
  keys := List.nodup_nil
  bound := by
    rintro j t i (⟨_, h⟩ | ⟨c, hc, _⟩)
    · exact absurd rfl h
    · cases hc
  unique := by
    rintro j t i i' (⟨_, h⟩ | ⟨c, hc, _⟩)
    · exact absurd rfl h
    · cases hc
  count := fun i t => ⟨∅, Nat.zero_le _, fun j hj => absurd hj (Finset.notMem_empty j)⟩
  leader := fun i h => by cases h

/-! ## Steps that leave the votes alone -/

section Frame

variable {s s' : Cluster n L}

theorem bound_follows {nd nd' : RaftNode n L} (h : Follows nd nd') {t v : Int}
    (hb : t ≤ nd.currentTerm ∧ (nd.currentTerm = t → nd.votedFor = v)) :
    t ≤ nd'.currentTerm ∧ (nd'.currentTerm = t → nd'.votedFor = v) := by
  have hle := h.term
  refine ⟨by omega, ?_⟩
  intro ht
  have hsame : nd'.currentTerm = nd.currentTerm := by omega
  rw [h.vote hsame]
  exact hb.2 (by omega)

/-- The nodes may change as long as they keep to their votes and none leads without a majority. -/
theorem ElectionInv.frame (h : s.ElectionInv)
    (hid : ∀ i, (s'.nodes i).curNodeId = (s.nodes i).curNodeId)
    (hterm : ∀ i, (s.nodes i).currentTerm ≤ (s'.nodes i).currentTerm)
    (hbound : ∀ j t i, s.Voted j t i → t ≤ (s'.nodes j).currentTerm ∧
      ((s'.nodes j).currentTerm = t → (s'.nodes j).votedFor = (i : Nat)))
    (hleader : ∀ i, (s'.nodes i).role = .leader → s.Won i (s'.nodes i).currentTerm)
    (hcount : s'.voteCount = s.voteCount) (hcalls : s'.voteCalls = s.voteCalls) :
    s'.ElectionInv := by
  have hvoted : ∀ {j t i}, s'.Voted j t i → s.Voted j t i := by
    intro j t i hv
    rw [Voted, hcount, hcalls] at hv
    exact hv
  constructor
  · intro i
    rw [hid, h.ids]
  · intro i
    exact Int.le_trans (h.terms i) (hterm i)
  · intro c hc
    rw [hcalls] at hc
    have hok := h.calls c hc
    exact ⟨hok.candidate, hok.other, hok.pos, Int.le_trans hok.term (hterm c.src),
      by rw [hcount]; exact hok.counter, hok.granted⟩
  · rw [hcalls]
    exact h.keys
  · intro j t i hv
    exact hbound j t i (hvoted hv)
  · intro j t i i' hv hv'
    exact h.unique j t i i' (hvoted hv) (hvoted hv')
  · intro i t
    unfold Counted
    rw [hcount, hcalls]
    exact h.count i t
  · intro i hl
    rw [Won, hcount]
    exact hleader i hl

theorem ElectionInv.changeNode (h : s.ElectionInv) {i : Fin n} {nd : RaftNode n L}
    (hid : nd.curNodeId = (s.nodes i).curNodeId)
    (hterm : (s.nodes i).currentTerm ≤ nd.currentTerm)
    (hbound : ∀ t v, s.Voted i t v → t ≤ nd.currentTerm ∧
      (nd.currentTerm = t → nd.votedFor = (v : Nat)))
    (hleader : nd.role = .leader → s.Won i nd.currentTerm) : (s.setNode i nd).ElectionInv := by
  refine h.frame ?_ ?_ ?_ ?_ rfl rfl
  · exact forall_setNode (P := fun j nd => nd.curNodeId = (s.nodes j).curNodeId) hid
      fun _ _ => rfl
  · exact forall_setNode (P := fun j nd => (s.nodes j).currentTerm ≤ nd.currentTerm) hterm
      fun _ _ => Int.le_refl _
  · exact forall_setNode (P := fun j nd => ∀ t v, s.Voted j t v → t ≤ nd.currentTerm ∧
      (nd.currentTerm = t → nd.votedFor = (v : Nat))) hbound fun j _ => h.bound j
  · exact forall_setNode (P := fun j nd => nd.role = .leader → s.Won j nd.currentTerm) hleader
      fun j _ => h.leader j

theorem ElectionInv.follows (h : s.ElectionInv) (hnode : ∀ i, Follows (s.nodes i) (s'.nodes i))
    (hcount : s'.voteCount = s.voteCount) (hcalls : s'.voteCalls = s.voteCalls) :
    s'.ElectionInv := by
  refine h.frame (fun i => (hnode i).id) (fun i => (hnode i).term) ?_ ?_ hcount hcalls
  · intro j t i hv
    exact bound_follows (hnode j) (h.bound j t i hv)
  · intro i hl
    obtain ⟨hrole, hterm⟩ := (hnode i).role (by rw [hl]; decide)
    rw [hterm]
    exact h.leader i (hrole.symm.trans hl)

theorem follows_setNode {i : Fin n} {nd : RaftNode n L} (h : Follows (s.nodes i) nd) (j : Fin n) :
    Follows (s.nodes j) ((s.setNode i nd).nodes j) :=
  forall_setNode (P := fun j nd => Follows (s.nodes j) nd) h (fun _ _ => .refl _) j

theorem ElectionInv.setNode (h : s.ElectionInv) {i : Fin n} {nd : RaftNode n L}
    (hnd : Follows (s.nodes i) nd) : (s.setNode i nd).ElectionInv :=
  h.follows (follows_setNode hnd) rfl rfl

theorem asks_congr {c c' : VoteCall n} (hsrc : c'.src = c.src) (hdst : c'.dst = c.dst)
    (hargs : c'.args = c.args) {i j : Fin n} {t : Int} : c'.Asks i t j ↔ c.Asks i t j := by
  rw [VoteCall.Asks, VoteCall.Asks, hsrc, hdst, hargs]

theorem CallOk.congr {c c' : VoteCall n} (hok : s.CallOk c) (hsrc : c'.src = c.src)
    (hdst : c'.dst = c.dst) (hargs : c'.args = c.args)
    (hphase : c'.phase = .granted → c'.Granted) : s.CallOk c' where
  candidate := by rw [hargs, hsrc]; exact hok.candidate
  other := by rw [hdst, hsrc]; exact hok.other
  pos := by rw [hargs]; exact hok.pos
  term := by rw [hargs, hsrc]; exact hok.term
  counter := by rw [hargs, hsrc]; exact hok.counter
  granted := hphase

theorem voted_setVoteCall {k : Nat} {c c' : VoteCall n} (hk : s.voteCalls[k]? = some c)
    (hasks : ∀ {i t j}, c'.Asks i t j ↔ c.Asks i t j)
    (hnew : c'.Granted → c.Granted ∨ ((s.nodes c.dst).currentTerm = c.args.term ∧
      (s.nodes c.dst).votedFor = (c.src : Nat))) {j i : Fin n} {t : Int}
    (hv : (s.setVoteCall k c').Voted j t i) :
    s.Voted j t i ∨ ((s.nodes j).currentTerm = t ∧ (s.nodes j).votedFor = (i : Nat)) := by
  rcases hv with hself | ⟨d, hd, ha, hg⟩
  · exact .inl (.inl hself)
  · rcases List.mem_or_eq_of_mem_set hd with hd | rfl
    · exact .inl (.inr ⟨d, hd, ha, hg⟩)
    · cases hnew hg with
      | inl hg =>
        exact .inl (.inr ⟨c, List.mem_of_getElem? hk, hasks.mp ha, hg⟩)
      | inr hb =>
        obtain ⟨rfl, rfl, rfl⟩ := hasks.mp ha
        exact .inr hb

theorem ElectionInv.setVoteCall (h : s.ElectionInv) {k : Nat} {c c' : VoteCall n}
    (hk : s.voteCalls[k]? = some c) (hsrc : c'.src = c.src) (hdst : c'.dst = c.dst)
    (hargs : c'.args = c.args) (hmono : c.Granted → c'.Granted)
    (hnew : c'.Granted → c.Granted ∨ ((s.nodes c.dst).currentTerm = c.args.term ∧
      (s.nodes c.dst).votedFor = (c.src : Nat)))
    (hphase : c'.phase = .granted → c'.Granted)
    (hfin : c.phase = .finished → c'.phase = .finished) :
    (s.setVoteCall k c').ElectionInv := by
  have hmem : c ∈ s.voteCalls := List.mem_of_getElem? hk
  have hasks : ∀ {i t j}, c'.Asks i t j ↔ c.Asks i t j := asks_congr hsrc hdst hargs
  have hvoted : ∀ {j t i}, (s.setVoteCall k c').Voted j t i →
      s.Voted j t i ∨ ((s.nodes j).currentTerm = t ∧ (s.nodes j).votedFor = (i : Nat)) :=
    fun hv => voted_setVoteCall hk hasks hnew hv
  have hbound : ∀ j t i, (s.setVoteCall k c').Voted j t i →
      t ≤ (s.nodes j).currentTerm ∧
        ((s.nodes j).currentTerm = t → (s.nodes j).votedFor = (i : Nat)) := by
    intro j t i hv
    rcases hvoted hv with hv | ⟨hterm, hfor⟩
    · exact h.bound j t i hv
    · exact ⟨Int.le_of_eq hterm.symm, fun _ => hfor⟩
  constructor
  · exact h.ids
  · exact h.terms
  · apply forall_mem_set
    · intro d hd
      have hok := h.calls d hd
      exact ⟨hok.candidate, hok.other, hok.pos, hok.term, hok.counter, hok.granted⟩
    · have hok := (h.calls c hmem).congr hsrc hdst hargs hphase
      exact ⟨hok.candidate, hok.other, hok.pos, hok.term, hok.counter, hok.granted⟩
  · have hkey : c'.key = c.key := by rw [VoteCall.key, VoteCall.key, hsrc, hargs, hdst]
    show ((s.voteCalls.set k c').map VoteCall.key).Nodup
    rw [map_set_key hk hkey]
    exact h.keys
  · exact hbound
  · intro j t i i' hv hv'
    -- a vote of the voter's current term is for the node it is bound to
    rcases hvoted hv with hold | ⟨hterm, hfor⟩
    · rcases hvoted hv' with hold' | ⟨hterm, hfor⟩
      · exact h.unique j t i i' hold hold'
      · exact id_inj (((h.bound j t i hold).2 hterm).symm.trans hfor)
    · exact id_inj (hfor.symm.trans ((hbound j t i' hv').2 hterm))
  · intro i t
    obtain ⟨Q, hcard, hQ⟩ := h.count i t
    refine ⟨Q, hcard, ?_⟩
    intro j hj
    cases hQ j hj with
    | inl hself =>
      exact .inl hself
    | inr hc =>
      refine .inr (exists_mem_set hk ?_ hc)
      rintro ⟨ha, hg, hf⟩
      exact ⟨hasks.mpr ha, hmono hg, hfin hf⟩
  · exact h.leader

end Frame

/-! ## The steps of an election -/

section Steps

variable {s s' : Cluster n L}

theorem nodup_voteCallsOf (i : Fin n) (args : RequestVoteArgs) :
    ((voteCallsOf i args).map VoteCall.key).Nodup := by
  rw [voteCallsOf, List.map_map]
  apply List.Nodup.map
  · intro j j' h
    exact (Prod.mk.inj (Prod.mk.inj h).2).2
  · exact (List.nodup_finRange n).filter _

/-- The cluster after node `i` has started the election `args`. -/
abbrev elected (s : Cluster n L) (i : Fin n) (nd : RaftNode n L) (args : RequestVoteArgs) :
    Cluster n L :=
  ((s.setNode i nd).setCount i args.term 1).addVoteCalls (voteCallsOf i args)

section Elect

variable {i : Fin n} {nd : RaftNode n L} {args : RequestVoteArgs}

theorem voted_elected {j i' : Fin n} {t : Int} (hv : (s.elected i nd args).Voted j t i') :
    s.Voted j t i' ∨ (j = i ∧ t = args.term ∧ i' = i) := by
  cases hv with
  | inl hself =>
    obtain ⟨hj, hc⟩ := hself
    simp only [addVoteCalls_voteCount, setCount_voteCount] at hc
    split at hc
    · rename_i hit
      exact .inr ⟨hj.trans hit.1, hit.2, hit.1⟩
    · exact .inl (.inl ⟨hj, hc⟩)
  | inr hcall =>
    obtain ⟨c, hc, ha, hg⟩ := hcall
    cases List.mem_append.mp hc with
    | inl hc => exact .inl (.inr ⟨c, hc, ha, hg⟩)
    | inr hc =>
      obtain ⟨r, hr, _⟩ := hg
      rw [(mem_voteCallsOf i hc).2.2.2.1] at hr
      cases hr

theorem callOk_elected_old {c : VoteCall n} (hok : s.CallOk c)
    (hlt : (s.nodes i).currentTerm ≤ nd.currentTerm) : (s.elected i nd args).CallOk c where
  candidate := hok.candidate
  other := hok.other
  pos := hok.pos
  term := by
    have hterm := hok.term
    simp only [addVoteCalls_nodes, setCount_nodes, setNode_nodes]
    split
    · rename_i hj
      rw [hj] at hterm
      omega
    · exact hterm
  counter := by
    simp only [addVoteCalls_voteCount, setCount_voteCount]
    split
    · exact Nat.one_ne_zero
    · exact hok.counter
  granted := hok.granted

theorem callOk_elected_new {c : VoteCall n} (hc : c ∈ voteCallsOf i args)
    (hcand : args.candidateId = (i : Nat)) (hpos : 0 < args.term)
    (hterm : nd.currentTerm = args.term) : (s.elected i nd args).CallOk c := by
  obtain ⟨hsrc, hdst, hca, _, hph⟩ := mem_voteCallsOf i hc
  constructor
  · rw [hca, hcand, hsrc]
  · rw [hsrc]
    exact hdst
  · rw [hca]
    exact hpos
  · rw [hca, hsrc]
    simp only [addVoteCalls_nodes, setCount_nodes, setNode_self]
    exact Int.le_of_eq hterm.symm
  · rw [hca, hsrc]
    simp [setCount_voteCount]
  · intro hg
    rw [hph] at hg
    cases hg

theorem keys_elected (h : s.ElectionInv) (hlt : (s.nodes i).currentTerm < args.term) :
    ((s.elected i nd args).voteCalls.map VoteCall.key).Nodup := by
  show ((s.voteCalls ++ voteCallsOf i args).map VoteCall.key).Nodup
  rw [List.map_append, List.nodup_append]
  refine ⟨h.keys, nodup_voteCallsOf i args, ?_⟩
  intro key hkey key' hkey' heq
  obtain ⟨c, hc, rfl⟩ := List.mem_map.mp hkey
  obtain ⟨c', hc', rfl⟩ := List.mem_map.mp hkey'
  obtain ⟨hsrc, _, hca, _⟩ := mem_voteCallsOf i hc'
  obtain ⟨hsrc', hrest⟩ := Prod.mk.inj heq
  have hct := (Prod.mk.inj hrest).1
  have hle := (h.calls c hc).term
  rw [hsrc', hsrc] at hle
  rw [hca] at hct
  omega

variable [Log L]

theorem elect_electionInv (h : s.ElectionInv) (he : (s.nodes i).elect = some (nd, args)) :
    (s.elected i nd args).ElectionInv := by
  obtain ⟨last, _, hnd, hargs⟩ := elect_spec he
  have hid := h.ids i
  have hterm : nd.currentTerm = args.term := by rw [hnd, hargs]
  have hlt : (s.nodes i).currentTerm < args.term := by rw [hargs]; simp only; omega
  have hpos := h.terms i
  -- the term of the election is above everything node `i` has voted or asked for
  have hfresh : ∀ {j}, ¬s.Voted i args.term j := by
    intro j hv
    have := (h.bound i _ j hv).1
    omega
  constructor
  case ids =>
    intro j
    simp only [addVoteCalls_nodes, setCount_nodes, setNode_nodes]
    split
    · rename_i hj; rw [hj, hnd]; exact hid
    · exact h.ids j
  case terms =>
    intro j
    simp only [addVoteCalls_nodes, setCount_nodes, setNode_nodes]
    split
    · omega
    · exact h.terms j
  case calls =>
    intro c hc
    cases List.mem_append.mp hc with
    | inl hold => exact callOk_elected_old (h.calls c hold) (by omega)
    | inr hnew =>
      exact callOk_elected_new hnew (by rw [hargs, hid]) (by omega) hterm
  case keys => exact keys_elected h hlt
  case bound =>
    intro j t i' hv
    rcases voted_elected hv with hv | ⟨rfl, rfl, rfl⟩
    · have hb := h.bound j t i' hv
      simp only [addVoteCalls_nodes, setCount_nodes, setNode_nodes]
      split
      · rename_i hj
        subst hj
        refine ⟨by omega, fun ht => ?_⟩
        omega
      · exact hb
    · simp only [addVoteCalls_nodes, setCount_nodes, setNode_self]
      refine ⟨Int.le_of_eq hterm.symm, fun _ => ?_⟩
      rw [hnd, hid]
  case unique =>
    intro j t i₁ i₂ hv₁ hv₂
    rcases voted_elected hv₁ with hold₁ | ⟨rfl, rfl, rfl⟩
    · rcases voted_elected hv₂ with hv₂ | ⟨rfl, rfl, rfl⟩
      · exact h.unique j t i₁ i₂ hold₁ hv₂
      · exact absurd hold₁ hfresh
    · rcases voted_elected hv₂ with hold | ⟨_, _, rfl⟩
      · exact absurd hold hfresh
      · rfl
  case count =>
    intro i' t
    simp only [addVoteCalls_voteCount, setCount_voteCount]
    split
    · exact ⟨{i}, by simp, fun j hj => .inl ((Finset.mem_singleton.mp hj).trans (by simp [*]))⟩
    · obtain ⟨Q, hcard, hQ⟩ := h.count i' t
      refine ⟨Q, hcard, fun j hj => ?_⟩
      rcases hQ j hj with hself | ⟨c, hc, hrest⟩
      · exact .inl hself
      · exact .inr ⟨c, List.mem_append_left _ hc, hrest⟩
  case leader =>
    intro j hl
    simp only [addVoteCalls_nodes, setCount_nodes, setNode_nodes] at hl ⊢
    split at hl
    · rw [hnd] at hl; cases hl
    · rename_i hj
      rw [if_neg hj, Won]
      simp only [addVoteCalls_voteCount, setCount_voteCount, hj, false_and, if_false]
      exact h.leader j hl

end Elect

variable [Log L]

theorem granted_append {c : VoteCall n} {reply : RequestVoteReply} :
    { c with replies := c.replies ++ [reply] }.Granted ↔
      c.Granted ∨ reply.voteGranted = true := by
  simp [VoteCall.Granted, or_and_right, exists_or]

theorem requestVote_electionInv (h : s.ElectionInv) {k : Nat} {c : VoteCall n}
    {nd : RaftNode n L} {reply : RequestVoteReply} (hk : s.voteCalls[k]? = some c)
    (hr : (s.nodes c.dst).requestVote c.args = some (nd, reply)) :
    ((s.setNode c.dst nd).setVoteCall k { c with
      replies := c.replies ++ [reply] }).ElectionInv := by
  have hok := h.calls c (List.mem_of_getElem? hk)
  have hmono : c.Granted → { c with replies := c.replies ++ [reply] }.Granted :=
    fun hg => granted_append.mpr (.inl hg)
  rcases requestVote_spec hr with ⟨hno, hnd⟩ | ⟨_, hgr, hnd⟩
  · have hfollows : Follows (s.nodes c.dst) nd := by
      rcases hnd with rfl | rfl
      · exact .refl _
      · exact observeTerm_follows _ _
    refine (h.setNode hfollows).setVoteCall hk rfl rfl rfl hmono ?_ ?_ id
    · intro hg
      cases granted_append.mp hg with
      | inl hg =>
        exact .inl hg
      | inr hyes =>
        rw [hno] at hyes
        cases hyes
    · exact fun hp => hmono (hok.granted hp)
  · have hnode : (s.setNode c.dst nd).ElectionInv := by
      refine h.changeNode (by rw [hnd]) (by rw [hnd]; exact hgr.term) ?_ ?_
      · intro t i hv
        have hb := h.bound c.dst t i hv
        have hle := hgr.term
        rw [hnd]
        refine ⟨by simp only; omega, fun ht => ?_⟩
        -- the voter had voted in this term already: for the candidate that asks again
        simp only at ht
        have hfor := hb.2 (by omega)
        cases hgr.free (by omega) with
        | inl hfree =>
          omega
        | inr hsame =>
          exact hsame.symm.trans hfor
      · intro hl
        rw [hnd] at hl
        cases hl
    refine hnode.setVoteCall hk rfl rfl rfl hmono ?_ ?_ id
    · intro _
      refine .inr ?_
      rw [setNode_self, hnd]
      exact ⟨rfl, hok.candidate⟩
    · exact fun hp => hmono (hok.granted hp)

omit [Log L] in
theorem getVoteAnswer_electionInv (h : s.ElectionInv) {k r : Nat} {c : VoteCall n}
    {reply : RequestVoteReply} {nd : RaftNode n L} {got : Bool} (hk : s.voteCalls[k]? = some c)
    (hr : c.replies[r]? = some reply) (hp : c.phase = .waiting)
    (hv : (s.nodes c.src).getVoteAnswer c.args reply = (nd, got)) :
    ((s.setNode c.src nd).setVoteCall k { c with
      phase := if got then .granted else .finished }).ElectionInv := by
  obtain ⟨hnd, hgot⟩ := getVoteAnswer_spec hv
  have hfollows : Follows (s.nodes c.src) nd := by
    rcases hnd with rfl | rfl
    · exact .refl _
    · exact observeTerm_follows _ _
  refine (h.setNode hfollows).setVoteCall hk rfl rfl rfl id .inl ?_ ?_
  · intro hph
    simp only at hph
    split at hph
    · rename_i hyes
      exact ⟨reply, List.mem_of_getElem? hr, hgot hyes⟩
    · cases hph
  · intro hph
    rw [hp] at hph
    cases hph

omit [Log L] in
theorem ElectionInv.uncounted (h : s.ElectionInv) {c : VoteCall n} (hmem : c ∈ s.voteCalls)
    (hp : c.phase = .granted) : ¬s.Counted c.src c.args.term c.dst := by
  rintro (hself | ⟨d, hd, ha, _, hf⟩)
  · exact (h.calls c hmem).other hself
  · obtain rfl : c = d := eq_of_key_eq h.keys hmem hd ha.key_eq.symm
    rw [hp] at hf
    cases hf

omit [Log L] in
theorem Counted.finish {k : Nat} {c : VoteCall n} (hk : s.voteCalls[k]? = some c) {i j : Fin n}
    {t : Int} (hc : s.Counted i t j) :
    (s.setVoteCall k { c with phase := .finished }).Counted i t j := by
  cases hc with
  | inl hself =>
    exact .inl hself
  | inr hd =>
    exact .inr (exists_mem_set hk (fun ⟨ha, hg, _⟩ => ⟨ha, hg, rfl⟩) hd)

omit [Log L] in
theorem countVote_electionInv (h : s.ElectionInv) {k : Nat} {c : VoteCall n} {count : Nat}
    (hk : s.voteCalls[k]? = some c) (hp : c.phase = .granted)
    (hle : s.voteCount c.src c.args.term ≤ count)
    (hsucc : count ≤ s.voteCount c.src c.args.term + 1) :
    ((s.setVoteCall k { c with phase := .finished }).setCount c.src c.args.term
      count).ElectionInv := by
  have hmem := List.mem_of_getElem? hk
  have hok := h.calls c hmem
  have hg : c.Granted := hok.granted hp
  have h₁ : (s.setVoteCall k { c with phase := .finished }).ElectionInv :=
    h.setVoteCall hk rfl rfl rfl id .inl (fun _ => hg) (fun _ => rfl)
  have hmono : ∀ i t, s.voteCount i t ≤
      ((s.setVoteCall k { c with phase := .finished }).setCount c.src c.args.term
        count).voteCount i t := by
    intro i t
    rw [setCount_voteCount]
    split
    · rename_i hit
      rw [hit.1, hit.2]
      exact hle
    · exact Nat.le_refl _
  have hvoted : ∀ {j t i}, ((s.setVoteCall k { c with phase := .finished }).setCount c.src
      c.args.term count).Voted j t i →
      (s.setVoteCall k { c with phase := .finished }).Voted j t i := by
    rintro j t i (⟨hj, hc⟩ | hc)
    · refine .inl ⟨hj, ?_⟩
      rw [setCount_voteCount] at hc
      split at hc
      · rename_i hit
        rw [hit.1, hit.2]
        exact hok.counter
      · exact hc
    · exact .inr hc
  constructor
  · exact h₁.ids
  · exact h₁.terms
  · intro d hd
    have hokd := h₁.calls d hd
    have hpos := hmono d.src d.args.term
    have hne : s.voteCount d.src d.args.term ≠ 0 := hokd.counter
    exact ⟨hokd.candidate, hokd.other, hokd.pos, hokd.term, by omega, hokd.granted⟩
  · exact h₁.keys
  · intro j t i hv
    exact h₁.bound j t i (hvoted hv)
  · intro j t i i' hv hv'
    exact h₁.unique j t i i' (hvoted hv) (hvoted hv')
  · intro i t
    rw [setCount_voteCount]
    split
    · rename_i hit
      obtain ⟨Q, hcard, hQ⟩ := h.count c.src c.args.term
      have hfresh : c.dst ∉ Q := fun hin => h.uncounted hmem hp (hQ c.dst hin)
      refine ⟨insert c.dst Q, ?_, ?_⟩
      · rw [Finset.card_insert_of_notMem hfresh]
        omega
      · intro j hj
        rw [hit.1, hit.2]
        rcases Finset.mem_insert.mp hj with rfl | hj
        · exact .inr ⟨_, mem_set_self hk, ⟨rfl, rfl, rfl⟩, hg, rfl⟩
        · exact (hQ j hj).finish hk
    · exact h₁.count i t
  · intro i hl
    exact Nat.lt_of_lt_of_le (h.leader i hl) (hmono i _)

theorem collectVote_electionInv (h : s.ElectionInv) {k : Nat} {c : VoteCall n}
    {nd : RaftNode n L} {count : Nat} (hk : s.voteCalls[k]? = some c) (hp : c.phase = .granted)
    (hv : (s.nodes c.src).collectVote c.args (s.voteCount c.src c.args.term) = (nd, count)) :
    (((s.setNode c.src nd).setCount c.src c.args.term count).setVoteCall k
      { c with phase := .finished }).ElectionInv := by
  obtain ⟨hle, hsucc, hnd⟩ := collectVote_spec hv
  have hcount := countVote_electionInv h hk hp hle hsucc
  suffices hnode : (((s.setVoteCall k { c with phase := .finished }).setCount c.src c.args.term
      count).setNode c.src nd).ElectionInv from hnode
  rcases hnd with rfl | ⟨_, hterm, hmaj, rfl⟩
  · exact hcount.setNode (.refl _)
  · refine hcount.changeNode rfl (Int.le_refl _) ?_ ?_
    · intro t v hv
      exact hcount.bound c.src t v hv
    · intro _
      rw [Won, setCount_voteCount, if_pos ⟨rfl, hterm⟩]
      exact hmaj

theorem step_electionInv {a : Action n} (h : s.ElectionInv)
    (hs : s.step false a = some s') : s'.ElectionInv := by
  cases a with
  | elect i =>
    obtain ⟨nd, args, he, rfl⟩ := step_elect hs
    exact elect_electionInv h he
  | requestVote k =>
    obtain ⟨c, nd, reply, hk, hr, rfl⟩ := step_requestVote hs
    exact requestVote_electionInv h hk hr
  | getVoteAnswer k r =>
    obtain ⟨c, reply, nd, got, hk, hr, hp, hv, rfl⟩ := step_getVoteAnswer hs
    exact getVoteAnswer_electionInv h hk hr (by simpa using hp) hv
  | collectVote k =>
    obtain ⟨c, nd, count, hk, hp, hv, rfl⟩ := step_collectVote hs
    exact collectVote_electionInv h hk hp hv
  | sendHeartBeats i =>
    obtain ⟨args, _, rfl⟩ := step_sendHeartBeats hs
    exact h.follows (fun _ => .refl _) rfl rfl
  | appendEntries k =>
    obtain ⟨c, nd, reply, hk, hr, rfl⟩ := step_appendEntries hs
    exact h.follows (follows_setNode (appendEntries_follows hr)) rfl rfl
  | handleAppendEntries k r =>
    obtain ⟨c, reply, nd, hk, hr, hnd, rfl⟩ := step_handleAppendEntries hs
    exact h.follows (follows_setNode (handleAppendEntries_follows hnd)) rfl rfl

theorem reaches_electionInv {logs : Fin n → L} (h : Reaches (step false) (init logs) s) :
    s.ElectionInv :=
  h.inv (fun _ _ _ hs hstep => step_electionInv hs hstep) (init_electionInv logs)

/-- An election once won stays won: only `Elect` sets a counter back, that of a new term. -/
theorem won_step {a : Action n} (h : s.ElectionInv) (hs : s.step false a = some s') {i : Fin n}
    {t : Int} (hw : s.Won i t) : s'.Won i t := by
  cases a with
  | elect i' =>
    obtain ⟨nd, args, he, rfl⟩ := step_elect hs
    obtain ⟨_, _, _, hargs⟩ := elect_spec he
    have hle := (h.bound i t i (.inl ⟨rfl, by unfold Won at hw; omega⟩)).1
    rw [Won, addVoteCalls_voteCount, setCount_voteCount, if_neg]
    · exact hw
    · rintro ⟨rfl, rfl⟩
      rw [hargs] at hle
      simp only at hle
      omega
  | requestVote k =>
    obtain ⟨c, nd, reply, _, _, rfl⟩ := step_requestVote hs
    exact hw
  | getVoteAnswer k r =>
    obtain ⟨c, reply, nd, got, _, _, _, _, rfl⟩ := step_getVoteAnswer hs
    exact hw
  | collectVote k =>
    obtain ⟨c, nd, count, _, _, hv, rfl⟩ := step_collectVote hs
    have hle := (collectVote_spec hv).1
    rw [Won, setVoteCall_voteCount, setCount_voteCount]
    split
    · rename_i hit
      rw [Won, hit.1, hit.2] at hw
      omega
    · exact hw
  | sendHeartBeats i' =>
    obtain ⟨args, _, rfl⟩ := step_sendHeartBeats hs
    exact hw
  | appendEntries k =>
    obtain ⟨c, nd, reply, _, _, rfl⟩ := step_appendEntries hs
    exact hw
  | handleAppendEntries k r =>
    obtain ⟨c, reply, nd, _, _, _, rfl⟩ := step_handleAppendEntries hs
    exact hw

theorem won_reaches (h : s.ElectionInv) (hs : Reaches (step false) s s') {i : Fin n} {t : Int}
    (hw : s.Won i t) : s'.Won i t :=
  (hs.inv (P := fun s => s.ElectionInv ∧ s.Won i t)
    (fun _ _ _ hP hstep => ⟨step_electionInv hP.1 hstep, won_step hP.1 hstep hP.2⟩) ⟨h, hw⟩).2

omit [Log L] in
theorem ElectionInv.won_term (h : s.ElectionInv) {i : Fin n} {t : Int} (hw : s.Won i t) :
    t ≤ (s.nodes i).currentTerm ∧
      ((s.nodes i).currentTerm = t → (s.nodes i).votedFor = (i : Nat)) :=
  h.bound i t i (.inl ⟨rfl, Nat.ne_of_gt (Nat.lt_of_le_of_lt (Nat.zero_le _) hw)⟩)

omit [Log L] in
theorem ElectionInv.voters (h : s.ElectionInv) {i : Fin n} {t : Int} (hw : s.Won i t) :
    ∃ Q, Majority Q ∧ ∀ j ∈ Q, s.Voted j t i := by
  obtain ⟨Q, hcard, hQ⟩ := h.count i t
  refine ⟨Q, ?_, ?_⟩
  · rw [Majority, Fintype.card_fin]
    exact Nat.lt_of_lt_of_le hw hcard
  · intro j hj
    rcases hQ j hj with rfl | ⟨c, hc, ha, hg, _⟩
    · exact .inl ⟨rfl, by unfold Won at hw; omega⟩
    · exact .inr ⟨c, hc, ha, hg⟩

omit [Log L] in
theorem ElectionInv.won_unique (h : s.ElectionInv) {i i' : Fin n} {t : Int} (hw : s.Won i t)
    (hw' : s.Won i' t) : i = i' := by
  obtain ⟨Q, hQ, hv⟩ := h.voters hw
  obtain ⟨Q', hQ', hv'⟩ := h.voters hw'
  obtain ⟨j, hj, hj'⟩ := hQ.meet hQ'
  exact h.unique j t i i' (hv j hj) (hv' j hj')

/-- **Election safety.** Two nodes that are leader in one term, now and at any later moment of a
run, are the same node. -/
theorem election_safety {logs : Fin n → L} (hs : Reaches (step false) (init logs) s)
    (hs' : Reaches (step false) s s') {i i' : Fin n} (hl : (s.nodes i).role = .leader)
    (hl' : (s'.nodes i').role = .leader)
    (ht : (s.nodes i).currentTerm = (s'.nodes i').currentTerm) : i = i' := by
  have hinv := reaches_electionInv hs
  have hinv' := reaches_electionInv (hs.trans hs')
  have hw : s'.Won i (s.nodes i).currentTerm := won_reaches hinv hs' (hinv.leader i hl)
  have hw' := hinv'.leader i' hl'
  rw [← ht] at hw'
  exact hinv'.won_unique hw hw'

end Steps

/-- Two nodes: node 0 is elected, and from then on no other node leads in its term. -/
theorem election_safety_two : ∃ s : Cluster 2 (List Entry),
    Reaches (step false) (init fun _ => [{}]) s ∧ (s.nodes 0).role = .leader ∧
      ∀ s' i', Reaches (step false) s s' → (s'.nodes i').role = .leader →
        (s.nodes 0).currentTerm = (s'.nodes i').currentTerm → 0 = i' := by
  have hrun : ((runs (step false) [.elect 0, .requestVote 0, .getVoteAnswer 0 0, .collectVote 0]
      (init (fun _ => [{}] : Fin 2 → List Entry))).any fun s =>
        (s.nodes 0).role == .leader) = true := by decide
  obtain ⟨s, hs, hl⟩ := exists_of_runs hrun
  have hl : (s.nodes 0).role = .leader := by simpa using hl
  exact ⟨s, hs, hl, fun s' i' hs' hl' ht => election_safety hs hs' hl hl' ht⟩

end Cluster
end TinyKv
