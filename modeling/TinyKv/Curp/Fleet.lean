import TinyKv.Lib.Table
import TinyKv.Curp.FastPath
import TinyKv.Curp.RpcIds
import Mathlib.Data.Fin.VecNotation

/-!
# Curp.Fleet

Any number of clients that write through a table of witnesses, with the `CurpMasterClient` of the
source, which answers every `propose` and `sync` at once.

* A write takes its id, records at the configured witnesses one after the other and ends when the
  last call is answered. Writes go on side by side, also those of one client, and calls of others
  reach the witnesses in between.
* `fast_once`: as long as nothing is cleared from a witness, a key is written on the fast path
  through it at most once, by all clients together.
-/

namespace TinyKv

open Lib

namespace CurpMasterClient

def propose (_op : CurpOp) : ProposeResponse := ⟨true, true, false, [], ""⟩

def sync (_rpcId : UInt64) : Bool := true

end CurpMasterClient

/-! ## Clients and witnesses -/

/-- A write that has begun: the operation, the next witness in the loop of `record_to_witnesses`,
how many have accepted, and the result once there is one. -/
structure Write (κ : Type) where
  client : κ
  op : CurpOp
  next : Nat := 0
  accepted : Nat := 0
  result : Option WriteResult := none

def Write.Fast {κ : Type} (wr : Write κ) : Prop :=
  wr.result.any (fun r => r.success && r.fastPath) = true

instance {κ : Type} (wr : Write κ) : Decidable wr.Fast := inferInstanceAs (Decidable (_ = true))

structure Fleet (κ ι : Type) where
  clients : κ → CurpClient
  /-- The witness behind each of the configured addresses. -/
  witnessAddrs : κ → List ι
  witnesses : ι → Witness := fun _ => {}
  writes : List (Write κ) := []

namespace Fleet

variable {κ ι : Type}

def init (clientIds : κ → UInt64) (witnessAddrs : κ → List ι) : Fleet κ ι where
  clients := fun c => .init (clientIds c)
  witnessAddrs := witnessAddrs

inductive Action (κ ι : Type) where
  | write (c : κ) (key value : Bytes)
  | deleteOp (c : κ) (key : Bytes)
  | record (k : Nat) (outcome : RpcOutcome) (now : UInt64)
  | finish (k : Nat)
  | reset (c : κ)
  | call (i : ι) (c : Witness.WitnessCall)

section Step

variable [DecidableEq κ] [DecidableEq ι]

def begin (s : Fleet κ ι) (c : κ) (built : CurpClient × CurpOp) : Fleet κ ι :=
  { s with
    clients := Function.update s.clients c built.1
    writes := s.writes ++ [{ client := c, op := built.2 }] }

/-- The next turn of the loop of `record_to_witnesses`, at witness `i`. -/
def recordAt (s : Fleet κ ι) (k : Nat) (wr : Write κ) (i : ι) (outcome : RpcOutcome)
    (now : UInt64) : Fleet κ ι :=
  let (w, result) := WitnessClient.record outcome (s.witnesses i) "master" wr.op.rpcId wr.op.key
    (CurpClient.serializeRequest wr.op) (s.clients wr.client).clientId now
  { s with
    witnesses := Function.update s.witnesses i w
    writes := s.writes.set k { wr with
      next := wr.next + 1
      accepted := if result = .accepted then wr.accepted + 1 else wr.accepted } }

def finishAt (s : Fleet κ ι) (k : Nat) (wr : Write κ) : Fleet κ ι :=
  let result := (CurpClient.finishWrite (CurpMasterClient.propose wr.op) wr.accepted
    (s.witnessAddrs wr.client).length (CurpMasterClient.sync wr.op.rpcId)).1
  { s with writes := s.writes.set k { wr with result := some result } }

def step (s : Fleet κ ι) : Action κ ι → Option (Fleet κ ι)
  | .write c key value => some (s.begin c ((s.clients c).buildWrite key value))
  | .deleteOp c key => some (s.begin c ((s.clients c).buildDelete key))
  | .record k outcome now => do
    let wr ← s.writes[k]?
    let i ← (s.witnessAddrs wr.client)[wr.next]?
    return s.recordAt k wr i outcome now
  | .finish k => do
    let wr ← s.writes[k]?
    if wr.result = none ∧ wr.next = (s.witnessAddrs wr.client).length then
      return s.finishAt k wr
    else none
  | .reset c => some { s with clients := Function.update s.clients c (s.clients c).reset }
  | .call i c =>
    (s.witnesses i).call c |>.map fun w =>
      { s with witnesses := Function.update s.witnesses i w }

end Step

/-- A call of others than the clients that takes nothing from them. -/
def Spares : Witness.WitnessCall → Prop
  | .record .. => False
  | .garbageCollect masterId _ => masterId ≠ "master"
  | .getRecoveryData _ => True
  | .stopAccepting => True
  | .reset _ => False

/-- A witness that has its records from the operations `ops` of clients. -/
structure WitnessOk (ops : List CurpOp) (w : Witness) : Prop where
  inv : w.WitnessInv
  bound : values w.records ≠ 0 → w.masterId = "master"
  origin : ∀ r ∈ values w.records, ∃ op ∈ ops,
    r.rpcId = op.rpcId ∧ r.key = op.key ∧ r.requestData = CurpClient.serializeRequest op

section Witness

open CurpClient

variable {ops : List CurpOp} {op op' : CurpOp} {w w' : Witness}

theorem init_witnessOk : WitnessOk ops {} where
  inv := Witness.init_witnessInv ""
  bound := fun h => absurd rfl h
  origin := fun r hr => by cases hr

theorem WitnessOk.mono {ops' : List CurpOp} (h : WitnessOk ops w) (hsub : ops ⊆ ops') :
    WitnessOk ops' w where
  inv := h.inv
  bound := h.bound
  origin := by
    intro r hr
    obtain ⟨op, hop, hsame⟩ := h.origin r hr
    exact ⟨op, hsub hop, hsame⟩

theorem WitnessOk.known (h : WitnessOk ops w) (hids : (ops.map CurpOp.rpcId).Nodup)
    (hop : op ∈ ops) : Known w op := by
  intro hid
  obtain ⟨r, hr, hrid⟩ := h.inv.mem_ids.mp hid
  obtain ⟨op', hop', hid', hkey, hdata⟩ := h.origin r hr
  obtain rfl : op' = op := eq_of_key_eq hids hop' hop (hid'.symm.trans hrid)
  exact ⟨r, h.inv.lookup_iff.mpr ⟨hkey, hr⟩, hid', hkey, hdata⟩

theorem holds_unique (h : Holds w op) (h' : Holds w op') (hkey : op.key = op'.key) :
    op.rpcId = op'.rpcId := by
  obtain ⟨r, hl, hid, _⟩ := h
  obtain ⟨r', hl', hid', _⟩ := h'
  rw [hkey, hl', Option.some.injEq] at hl
  rw [← hid, ← hid', hl]

theorem holds_mem (h : Holds w op) : values w.records ≠ 0 := by
  obtain ⟨r, hl, _⟩ := h
  exact fun h0 => Multiset.eq_zero_iff_forall_notMem.mp h0 r (mem_values.mpr ⟨_, hl⟩)

theorem WitnessOk.record {clientId now : UInt64} (h : WitnessOk ops w) (hop : op ∈ ops) :
    WitnessOk ops (w.record "master" op.rpcId op.key (serializeRequest op) clientId now).1 ∧
    ∀ {op'}, Holds w op' →
      Holds (w.record "master" op.rpcId op.key (serializeRequest op) clientId now).1 op' := by
  obtain ⟨w', res, hr⟩ : ∃ w' res, w.record "master" op.rpcId op.key (serializeRequest op) clientId
      now = (w', res) := ⟨_, _, rfl⟩
  rw [hr]
  have hinv := Witness.record_witnessInv h.inv hr
  rcases Witness.record_cases hr with ⟨_, rfl⟩ | ⟨_, _, _, rfl⟩ | ⟨_, hown, _, _, hkey, rfl⟩
  · exact ⟨h, id⟩
  · exact ⟨h, id⟩
  · refine ⟨⟨hinv, ?_, ?_⟩, ?_⟩
    · intro _
      rw [Witness.store_masterId]
      split
      · rfl
      · rename_i hbound
        by_contra hne
        exact hown ⟨hbound, Ne.symm hne⟩
    · intro r hmem
      rcases (Witness.mem_store hkey).mp hmem with rfl | hold
      · exact ⟨op, hop, rfl, rfl, rfl⟩
      · exact h.origin r hold
    · rintro op' ⟨r, hl, hrest⟩
      refine ⟨r, ?_, hrest⟩
      have hne : op'.key ≠ op.key := by
        intro heq
        exact hkey (Finmap.lookup_isSome.mp (by rw [← heq, hl]; rfl))
      rw [Witness.store, lookup_insert_if, if_neg hne, hl]

theorem WitnessOk.clientRecord {outcome : RpcOutcome} {clientId now : UInt64}
    (h : WitnessOk ops w) (hop : op ∈ ops) (hw : (WitnessClient.record outcome w "master" op.rpcId
      op.key (serializeRequest op) clientId now).1 = w') :
    WitnessOk ops w' ∧ ∀ {op'}, Holds w op' → Holds w' op' := by
  rcases WitnessClient.record_witness outcome w "master" op.rpcId op.key (serializeRequest op)
    clientId now with heq | heq
  · rw [← hw, heq]
    exact ⟨h, id⟩
  · rw [← hw, heq]
    exact h.record hop

theorem WitnessOk.call {c : Witness.WitnessCall} (h : WitnessOk ops w) (hc : Spares c)
    (hw : w.call c = some w') : WitnessOk ops w' ∧ ∀ {op}, Holds w op → Holds w' op := by
  have hinv := Witness.call_witnessInv h.inv hw
  cases c with
  | record => exact hc.elim
  | garbageCollect masterId entries =>
    cases hw
    refine ⟨⟨hinv, ?_, ?_⟩, ?_⟩
    · intro hne
      rw [Witness.garbageCollect_masterId]
      refine h.bound fun h0 => hne (Multiset.eq_zero_of_forall_notMem fun r hr => ?_)
      exact Multiset.eq_zero_iff_forall_notMem.mp h0 r (Witness.garbageCollect_subset h.inv hr)
    · exact fun r hr => h.origin r (Witness.garbageCollect_subset h.inv hr)
    · intro op hop
      have hbound := h.bound (holds_mem hop)
      have hforeign : w.Foreign masterId := ⟨by rw [hbound]; decide, by rw [hbound]; exact hc⟩
      rw [Witness.garbageCollect, if_pos hforeign]
      exact hop
  | getRecoveryData masterId =>
    cases hw
    obtain ⟨hrecords, hbound, _⟩ := Witness.getRecoveryData_same w masterId
    refine ⟨⟨hinv, ?_, ?_⟩, ?_⟩
    · rw [hrecords, hbound]
      exact h.bound
    · rw [hrecords]
      exact h.origin
    · rintro op ⟨r, hl, hrest⟩
      exact ⟨r, by rw [hrecords]; exact hl, hrest⟩
  | stopAccepting =>
    cases hw
    exact ⟨⟨hinv, h.bound, h.origin⟩, id⟩
  | reset => exact hc.elim

end Witness

/-! ## The fleet -/

variable {s s' : Fleet κ ι} {i : ι} {clientIds : κ → UInt64}

/-- The ids of the clients differ in the bits that go into a request id. -/
def DistinctIds (clientIds : κ → UInt64) : Prop :=
  ∀ c d, (clientIds c).toNat % 2 ^ 16 = (clientIds d).toNat % 2 ^ 16 → c = d

/-- No client starts its counter anew or runs out of numbers, and the calls of others spare witness
`i`. -/
def Undisturbed (i : ι) (s : Fleet κ ι) : Action κ ι → Prop
  | .write c _ _ => (s.clients c).nextSeq.toNat < 2 ^ 48
  | .deleteOp c _ => (s.clients c).nextSeq.toNat < 2 ^ 48
  | .record _ _ _ => True
  | .finish _ => True
  | .reset _ => False
  | .call j c => j = i → Spares c

/-- What the calls of a write have left at witness `w`, which stands behind the addresses that name
`i`. -/
structure Placed (w : Witness) (i : ι) (addrs : List ι) (wr : Write κ) : Prop where
  le : wr.accepted ≤ wr.next
  held : wr.accepted = wr.next → ∀ j < wr.next, addrs[j]? = some i → CurpClient.Holds w wr.op
  fast : wr.Fast → wr.accepted = addrs.length ∧ wr.next = addrs.length

structure FleetInv (clientIds : κ → UInt64) (i : ι) (s : Fleet κ ι) : Prop where
  clientId : ∀ c, (s.clients c).clientId = clientIds c
  seqs : ∀ wr ∈ s.writes, ∃ m < (s.clients wr.client).nextSeq.toNat, m < 2 ^ 48 ∧
    wr.op.rpcId = rpcIdOf (clientIds wr.client) (.ofNat m)
  ids : ((s.writes.map Write.op).map CurpOp.rpcId).Nodup
  witness : WitnessOk (s.writes.map Write.op) (s.witnesses i)
  placed : ∀ wr ∈ s.writes, Placed (s.witnesses i) i (s.witnessAddrs wr.client) wr

theorem init_fleetInv (clientIds : κ → UInt64) (witnessAddrs : κ → List ι) (i : ι) :
    FleetInv clientIds i (init clientIds witnessAddrs) where
  clientId := fun _ => rfl
  seqs := fun wr hwr => by cases hwr
  ids := List.nodup_nil
  witness := init_witnessOk
  placed := fun wr hwr => by cases hwr

theorem Placed.mono {w w' : Witness} {addrs : List ι} {wr : Write κ} (h : Placed w i addrs wr)
    (hkeep : CurpClient.Holds w wr.op → CurpClient.Holds w' wr.op) : Placed w' i addrs wr :=
  { h with held := fun hall j hj haddr => hkeep (h.held hall j hj haddr) }

theorem Placed.holds {w : Witness} {addrs : List ι} {wr : Write κ} (h : Placed w i addrs wr)
    (hfast : wr.Fast) (hi : i ∈ addrs) : CurpClient.Holds w wr.op := by
  obtain ⟨hacc, hnext⟩ := h.fast hfast
  obtain ⟨j, hj⟩ := List.getElem?_of_mem hi
  have hlt : j < addrs.length := (List.getElem?_eq_some_iff.mp hj).1
  exact h.held (hacc.trans hnext.symm) j (hnext ▸ hlt) hj

theorem FleetInv.fresh (h : FleetInv clientIds i s) (hids : DistinctIds clientIds) {c : κ}
    (hseq : (s.clients c).nextSeq.toNat < 2 ^ 48) :
    ∀ wr ∈ s.writes, wr.op.rpcId ≠ (s.clients c).nextRpcId.2 := by
  intro wr hwr heq
  obtain ⟨m, hm, hlt, hid⟩ := h.seqs wr hwr
  rw [hid, CurpClient.nextRpcId_eq, h.clientId, rpcIdOf_eq_iff, UInt64.toNat_ofNat'] at heq
  obtain ⟨hlow, hhigh⟩ := heq
  have hm64 : m % 2 ^ 64 = m := Nat.mod_eq_of_lt (by omega)
  rw [hm64, Nat.div_eq_of_lt hlt, Nat.div_eq_of_lt hseq, Nat.or_zero, Nat.or_zero] at hhigh
  obtain rfl : wr.client = c := hids _ _ hhigh
  rw [hm64, Nat.mod_eq_of_lt hlt, Nat.mod_eq_of_lt hseq] at hlow
  omega

theorem FleetInv.begin [DecidableEq κ] (h : FleetInv clientIds i s)
    (hids : DistinctIds clientIds) {c : κ} (hseq : (s.clients c).nextSeq.toNat < 2 ^ 48)
    {op : CurpOp} (hop : op.rpcId = (s.clients c).nextRpcId.2) :
    FleetInv clientIds i (s.begin c ((s.clients c).nextRpcId.1, op)) := by
  have hnext : ((s.clients c).nextSeq + 1).toNat = (s.clients c).nextSeq.toNat + 1 := by
    rw [UInt64.toNat_add, UInt64.toNat_one, Nat.mod_eq_of_lt (by omega)]
  have hseqs : ∀ d, (s.clients d).nextSeq.toNat ≤
      (Function.update s.clients c (s.clients c).nextRpcId.1 d).nextSeq.toNat := by
    intro d
    by_cases hd : d = c
    · subst hd
      rw [Function.update_self, CurpClient.nextRpcId_eq, hnext]
      exact Nat.le_succ _
    · rw [Function.update_of_ne hd]
  refine ⟨?_, ?_, ?_, ?_, ?_⟩
  · intro d
    by_cases hd : d = c
    · subst hd
      simp only [Fleet.begin, Function.update_self]
      exact h.clientId d
    · simp only [Fleet.begin, Function.update_of_ne hd]
      exact h.clientId d
  · intro wr hwr
    rcases List.mem_append.mp hwr with hwr | hwr
    · obtain ⟨m, hm, hrest⟩ := h.seqs wr hwr
      exact ⟨m, Nat.lt_of_lt_of_le hm (hseqs wr.client), hrest⟩
    · obtain rfl := List.mem_singleton.mp hwr
      refine ⟨(s.clients c).nextSeq.toNat, ?_, hseq, ?_⟩
      · simp only [Fleet.begin, Function.update_self, CurpClient.nextRpcId_eq, hnext]
        exact Nat.lt_succ_self _
      · rw [hop, CurpClient.nextRpcId_eq, h.clientId, UInt64.ofNat_toNat]
  · simp only [Fleet.begin, List.map_append, List.map_cons, List.map_nil]
    rw [List.nodup_append_comm, List.singleton_append, List.nodup_cons]
    refine ⟨?_, h.ids⟩
    intro hmem
    obtain ⟨_, hold, heq⟩ := List.mem_map.mp hmem
    obtain ⟨wr, hwr, rfl⟩ := List.mem_map.mp hold
    exact h.fresh hids hseq wr hwr (heq.trans hop)
  · refine h.witness.mono ?_
    simp only [Fleet.begin, List.map_append]
    exact List.subset_append_left _ _
  · intro wr hwr
    rcases List.mem_append.mp hwr with hwr | hwr
    · exact h.placed wr hwr
    · obtain rfl := List.mem_singleton.mp hwr
      exact ⟨Nat.le_refl 0, fun _ j hj => absurd hj (Nat.not_lt_zero j), fun hf => by cases hf⟩

theorem Placed.recorded {w w' : Witness} {addrs : List ι} {wr : Write κ} {j : ι}
    {res : RecordResult} (h : Placed w i addrs wr) (hj : addrs[wr.next]? = some j)
    (hkeep : CurpClient.Holds w wr.op → CurpClient.Holds w' wr.op)
    (hres : i = j → res = .accepted → CurpClient.Holds w' wr.op) :
    Placed w' i addrs { wr with
      next := wr.next + 1
      accepted := if res = .accepted then wr.accepted + 1 else wr.accepted } := by
  have hle := h.le
  refine ⟨?_, ?_, ?_⟩
  · show (if res = .accepted then wr.accepted + 1 else wr.accepted) ≤ wr.next + 1
    split
    · omega
    · omega
  · intro hcount j' hj' haddr
    -- all calls so far were accepted, so this one was and all before it were
    have hall : res = .accepted ∧ wr.accepted = wr.next := by
      simp only at hcount
      split at hcount
      · rename_i hok
        exact ⟨hok, Nat.succ.inj hcount⟩
      · omega
    by_cases hlast : j' < wr.next
    · exact hkeep (h.held hall.2 j' hlast haddr)
    · obtain rfl : j' = wr.next := by
        simp only at hj'
        omega
      exact hres (Option.some.inj (haddr.symm.trans hj)) hall.1
  · intro hf
    have hnext := (h.fast hf).2
    have hlt := (List.getElem?_eq_some_iff.mp hj).1
    omega

theorem FleetInv.recordAt [DecidableEq ι] (h : FleetInv clientIds i s) {k : Nat} {wr : Write κ}
    {j : ι} (hwr : s.writes[k]? = some wr) (hj : (s.witnessAddrs wr.client)[wr.next]? = some j)
    (outcome : RpcOutcome) (now : UInt64) :
    FleetInv clientIds i (s.recordAt k wr j outcome now) := by
  obtain ⟨w, res, hr⟩ : ∃ w res, WitnessClient.record outcome (s.witnesses j) "master" wr.op.rpcId
      wr.op.key (CurpClient.serializeRequest wr.op) (s.clients wr.client).clientId now =
        (w, res) := ⟨_, _, rfl⟩
  have hmem := List.mem_of_getElem? hwr
  have hplaced := h.placed wr hmem
  let wr' : Write κ := { wr with
    next := wr.next + 1
    accepted := if res = .accepted then wr.accepted + 1 else wr.accepted }
  have heq : s.recordAt k wr j outcome now = { s with
      witnesses := Function.update s.witnesses j w, writes := s.writes.set k wr' } := by
    simp only [Fleet.recordAt, hr, wr']
  have hop : wr.op ∈ s.writes.map Write.op := List.mem_map_of_mem hmem
  have hmap : (s.writes.set k wr').map Write.op = s.writes.map Write.op := map_set_key hwr rfl
  rw [heq]
  refine ⟨h.clientId, forall_mem_set h.seqs (h.seqs wr hmem), ?_, ?_, ?_⟩
  · simp only [hmap]
    exact h.ids
  · simp only [hmap]
    by_cases hij : i = j
    · subst hij
      rw [Function.update_self]
      exact (h.witness.clientRecord hop (congrArg Prod.fst hr)).1
    · rw [Function.update_of_ne hij]
      exact h.witness
  · by_cases hij : i = j
    · subst hij
      obtain ⟨_, hkeep⟩ := h.witness.clientRecord hop (congrArg Prod.fst hr)
      have hknown := h.witness.known h.ids hop
      have hholds := (CurpClient.clientRecord_holds hknown hr).2.2
      simp only [Function.update_self]
      exact forall_mem_set (fun wr₀ h₀ => (h.placed wr₀ h₀).mono hkeep)
        (hplaced.recorded hj hkeep fun _ => hholds)
    · simp only [Function.update_of_ne hij]
      exact forall_mem_set h.placed (hplaced.recorded hj id fun heq => absurd heq hij)

theorem FleetInv.finishAt (h : FleetInv clientIds i s) {k : Nat} {wr : Write κ}
    (hwr : s.writes[k]? = some wr) (hnext : wr.next = (s.witnessAddrs wr.client).length) :
    FleetInv clientIds i (s.finishAt k wr) := by
  have hmem := List.mem_of_getElem? hwr
  have hplaced := h.placed wr hmem
  have hmap : (s.finishAt k wr).writes.map Write.op = s.writes.map Write.op := map_set_key hwr rfl
  refine ⟨h.clientId, forall_mem_set h.seqs (h.seqs wr hmem), ?_, ?_, ?_⟩
  · rw [hmap]
    exact h.ids
  · rw [hmap]
    exact h.witness
  · refine forall_mem_set h.placed ⟨hplaced.le, hplaced.held, ?_⟩
    intro hf
    simp only [Write.Fast, Option.any_some, Bool.and_eq_true] at hf
    exact ⟨(CurpClient.finishWrite_fast.mp hf).2.2, hnext⟩

theorem FleetInv.eq_of_rpcId (h : FleetInv clientIds i s) {wr wr' : Write κ} (hwr : wr ∈ s.writes)
    (hwr' : wr' ∈ s.writes) (heq : wr.op.rpcId = wr'.op.rpcId) : wr = wr' := by
  have hids := h.ids
  rw [List.map_map] at hids
  exact eq_of_key_eq hids hwr hwr' heq

def fastThrough [DecidableEq ι] (s : Fleet κ ι) (i : ι) : List (Write κ) :=
  s.writes.filter fun wr => wr.Fast ∧ i ∈ s.witnessAddrs wr.client

theorem FleetInv.fastThrough_holds [DecidableEq ι] (h : FleetInv clientIds i s) {wr : Write κ}
    (hwr : wr ∈ s.fastThrough i) : wr ∈ s.writes ∧ CurpClient.Holds (s.witnesses i) wr.op := by
  obtain ⟨hmem, hfast⟩ := List.mem_filter.mp hwr
  obtain ⟨hfast, hi⟩ := of_decide_eq_true hfast
  exact ⟨hmem, (h.placed wr hmem).holds hfast hi⟩

theorem FleetInv.nodup_fastThrough [DecidableEq ι] (h : FleetInv clientIds i s) :
    ((s.fastThrough i).map fun wr => wr.op.rpcId).Nodup := by
  have hids := h.ids
  rw [List.map_map] at hids
  exact hids.sublist (List.filter_sublist.map _)

variable [DecidableEq κ] [DecidableEq ι]

theorem step_fleetInv {a : Action κ ι} (hids : DistinctIds clientIds)
    (h : FleetInv clientIds i s) (hok : s.Undisturbed i a) (hs : s.step a = some s') :
    FleetInv clientIds i s' := by
  cases a with
  | write c key value =>
    cases hs
    exact h.begin hids hok rfl
  | deleteOp c key =>
    cases hs
    exact h.begin hids hok rfl
  | record k outcome now =>
    simp only [step, Option.bind_eq_bind, Option.bind_eq_some_iff, Option.pure_def,
      Option.some.injEq] at hs
    obtain ⟨wr, hwr, j, hj, rfl⟩ := hs
    exact h.recordAt hwr hj outcome now
  | finish k =>
    simp only [step, Option.bind_eq_bind, Option.bind_eq_some_iff] at hs
    obtain ⟨wr, hwr, hs⟩ := hs
    obtain ⟨⟨_, hnext⟩, heq⟩ := Option.ite_none_right_eq_some.mp hs
    cases heq
    exact h.finishAt hwr hnext
  | reset c => exact hok.elim
  | call j c =>
    obtain ⟨w, hw, rfl⟩ := Option.map_eq_some_iff.mp hs
    by_cases hij : i = j
    · subst hij
      obtain ⟨hwitness, hkeep⟩ := h.witness.call (hok rfl) hw
      refine ⟨h.clientId, h.seqs, h.ids, ?_, ?_⟩
      · simp only [Function.update_self]
        exact hwitness
      · intro wr hwr
        simp only [Function.update_self]
        exact (h.placed wr hwr).mono hkeep
    · refine ⟨h.clientId, h.seqs, h.ids, ?_, ?_⟩
      · simp only [Function.update_of_ne hij]
        exact h.witness
      · intro wr hwr
        simp only [Function.update_of_ne hij]
        exact h.placed wr hwr

theorem reaches_fleetInv {witnessAddrs : κ → List ι} (hids : DistinctIds clientIds)
    (h : ReachesIf (Undisturbed i) step (init clientIds witnessAddrs) s) :
    FleetInv clientIds i s :=
  h.inv (fun _ _ _ hinv hok hs => step_fleetInv hids hinv hok hs) (init_fleetInv _ _ i)

/-- **One fast write of a key.** Whatever the clients do side by side, of the writes that succeed on
the fast path through a witness from which nothing is cleared no two have one key, and there are no
more of them than the witness has room for records. -/
theorem fast_once {witnessAddrs : κ → List ι} (hids : DistinctIds clientIds)
    (h : ReachesIf (Undisturbed i) step (init clientIds witnessAddrs) s) :
    ((s.fastThrough i).map fun wr => wr.op.key).Nodup ∧
    (s.fastThrough i).length ≤ Witness.kMaxRecords := by
  have hinv := reaches_fleetInv hids h
  have hnodup := hinv.nodup_fastThrough
  constructor
  · refine (List.Nodup.of_map _ hnodup).map_on ?_
    intro wr hwr wr' hwr' hkey
    obtain ⟨hmem, hholds⟩ := hinv.fastThrough_holds hwr
    obtain ⟨hmem', hholds'⟩ := hinv.fastThrough_holds hwr'
    exact hinv.eq_of_rpcId hmem hmem' (holds_unique hholds hholds' hkey)
  · have hsub : ((s.fastThrough i).map fun wr => wr.op.rpcId).toFinset ⊆
        (s.witnesses i).rpcIds := by
      intro x hx
      obtain ⟨wr, hwr, rfl⟩ := List.mem_map.mp (List.mem_toFinset.mp hx)
      obtain ⟨r, hl, hid, _⟩ := (hinv.fastThrough_holds hwr).2
      exact hinv.witness.inv.mem_ids.mpr ⟨r, mem_values.mpr ⟨_, hl⟩, hid⟩
    have hcard := Finset.card_le_card hsub
    rw [List.toFinset_card_of_nodup hnodup, List.length_map, Finset.card_def,
      hinv.witness.inv.ids, Multiset.card_map] at hcard
    exact hcard.trans hinv.witness.inv.size_le

section Example

/-- An evaluable check for `Undisturbed i`. -/
def leaves (s : Fleet κ ι) : Action κ ι → Bool
  | .write c _ _ => decide ((s.clients c).nextSeq.toNat < 2 ^ 48)
  | .record _ _ _ => true
  | .finish _ => true
  | .call _ (.garbageCollect masterId _) => decide (masterId ≠ "master")
  | _ => false

omit [DecidableEq κ] [DecidableEq ι] in
theorem undisturbed_of_leaves (s : Fleet κ ι) (a : Action κ ι) (h : s.leaves a = true) :
    s.Undisturbed i a := by
  cases a with
  | write c key value =>
    show (s.clients c).nextSeq.toNat < 2 ^ 48
    exact of_decide_eq_true h
  | deleteOp => cases h
  | record => trivial
  | finish => trivial
  | reset => cases h
  | call j c =>
    intro _
    cases c with
    | garbageCollect masterId entries =>
      show masterId ≠ "master"
      exact of_decide_eq_true h
    | record => cases h
    | getRecoveryData => trivial
    | stopAccepting => trivial
    | reset => cases h

def twoIds : Fin 2 → UInt64 := ![1, 2]

def twoAddrs : Fin 2 → List (Fin 2) := ![[0], [1, 0]]

theorem twoIds_distinct : DistinctIds twoIds := by
  unfold DistinctIds
  decide

/-- Two clients write one key at the same time, and the second comes too late at witness 0. -/
theorem fast_once_two : ∃ s, ReachesIf (Undisturbed 0) step (init twoIds twoAddrs) s ∧
    s.writes.map (fun wr => (wr.client, wr.op.key, wr.result.map (·.rttCount))) =
      [(0, [97], some 1), (1, [97], some 2), (0, [98], some 1)] ∧
    (s.fastThrough 0).length = 2 ∧ ((s.fastThrough 0).map fun wr => wr.op.key).Nodup := by
  obtain ⟨s, hs, hp⟩ := exists_of_runsIf (s := init twoIds twoAddrs) step undisturbed_of_leaves
    [.write 0 [97] [1], .write 1 [97] [2], .record 1 .ok 0, .record 0 .ok 0, .finish 0,
      .record 1 .ok 0, .finish 1, .write 0 [98] [3], .record 2 .ok 0, .finish 2]
    (fun s => decide (s.writes.map (fun wr => (wr.client, wr.op.key, wr.result.map (·.rttCount))) =
      [(0, [97], some 1), (1, [97], some 2), (0, [98], some 1)] ∧ (s.fastThrough 0).length = 2))
    (by decide +kernel)
  obtain ⟨hwrites, hlen⟩ := of_decide_eq_true hp
  exact ⟨s, hs, hwrites, hlen, (fast_once twoIds_distinct hs).1⟩

end Example

/-- **A fast write stays recoverable.** Whatever else happens, a witness from which nothing is
cleared gives the request of each write that succeeded on the fast path through it to "master", and
gives nothing to a master of another name. -/
theorem fast_recovered {witnessAddrs : κ → List ι} (hids : DistinctIds clientIds)
    (h : ReachesIf (Undisturbed i) step (init clientIds witnessAddrs) s) {wr : Write κ}
    (hwr : wr ∈ s.fastThrough i) :
    (∃ r ∈ ((s.witnesses i).getRecoveryData "master").2, r.rpcId = wr.op.rpcId ∧
      r.key = wr.op.key ∧ r.requestData = CurpClient.serializeRequest wr.op) ∧
    ∀ masterId, masterId ≠ "master" →
      (s.witnesses i).getRecoveryData masterId = (s.witnesses i, 0) := by
  have hinv := reaches_fleetInv hids h
  obtain ⟨_, hholds⟩ := hinv.fastThrough_holds hwr
  have hbound := hinv.witness.bound (holds_mem hholds)
  constructor
  · have hown : (s.witnesses i).getRecoveryData "master" =
        ({ s.witnesses i with accepting := false }, values (s.witnesses i).records) :=
      if_neg fun hf => hf.2 hbound.symm
    obtain ⟨r, hl, hsame⟩ := hholds
    rw [hown]
    exact ⟨r, mem_values.mpr ⟨_, hl⟩, hsame⟩
  · intro masterId hne
    exact if_pos ⟨by rw [hbound]; decide, by rw [hbound]; exact hne⟩

/-- A write on the fast path, and a master with a number that tries to collect it. -/
theorem fast_recovered_kept : ∃ s, ReachesIf (Undisturbed 0) step (init twoIds twoAddrs) s ∧
    ∃ wr ∈ s.fastThrough 0, ∃ r ∈ ((s.witnesses 0).getRecoveryData "master").2,
      r.rpcId = wr.op.rpcId := by
  obtain ⟨s, hs, hp⟩ := exists_of_runsIf (s := init twoIds twoAddrs) step undisturbed_of_leaves
    [.write 0 [97] [1], .record 0 .ok 0, .finish 0,
      .call 0 (.garbageCollect "0" [⟨[97], 281474976710657⟩])]
    (fun s => decide ((s.fastThrough 0).length = 1)) (by decide +kernel)
  obtain ⟨wr, hwr⟩ := List.exists_mem_of_length_pos (Nat.lt_of_lt_of_eq Nat.one_pos
    (of_decide_eq_true hp).symm)
  obtain ⟨⟨r, hr, hid, _⟩, _⟩ := fast_recovered twoIds_distinct hs hwr
  exact ⟨s, hs, wr, hwr, r, hr, hid⟩

end Fleet
end TinyKv
