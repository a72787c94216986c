import TinyKv.Curp.Client

/-!
# Curp.RpcIds

The request ids that clients give out: the low 16 bits of the client id above the sequence number.

* `issued_nodup_iff`: the ids of one client are distinct exactly if it issues none after a reset
  that follows an issued id.
* `nextRpcId_ne_iff`: when the ids of two clients differ.
-/

namespace TinyKv

open Lib

inductive ClientCall where
  | nextRpcId
  | write (key value : Bytes)
  | deleteOp (key : Bytes)
  | reset
  deriving DecidableEq

namespace CurpClient

/-- The client after the call, and the id that the call took from `next_rpc_id`. -/
def call (c : CurpClient) : ClientCall → CurpClient × Option UInt64
  | .nextRpcId => (c.nextRpcId.1, some c.nextRpcId.2)
  | .write key value => ((c.buildWrite key value).1, some (c.buildWrite key value).2.rpcId)
  | .deleteOp key => ((c.buildDelete key).1, some (c.buildDelete key).2.rpcId)
  | .reset => (c.reset, none)

def issued (c : CurpClient) : List ClientCall → List UInt64
  | [] => []
  | call :: calls => (c.call call).2.toList ++ (c.call call).1.issued calls

end CurpClient

namespace ClientCall

def Issues (calls : List ClientCall) : Prop := ∃ call ∈ calls, call ≠ .reset

/-- An id is taken after a reset. -/
def AfterReset (calls : List ClientCall) : Prop :=
  ∃ pre post, calls = pre ++ .reset :: post ∧ Issues post

/-- An id is taken after a reset that some id precedes. -/
def Reissues (calls : List ClientCall) : Prop :=
  ∃ pre post, calls = pre ++ .reset :: post ∧ Issues pre ∧ Issues post

/-- The sequence numbers that the run uses, from `s` on. -/
def seqs (s : Nat) : List ClientCall → List Nat
  | [] => []
  | .reset :: calls => seqs 1 calls
  | _ :: calls => s :: seqs (s + 1) calls

variable {call : ClientCall} {calls : List ClientCall} {s : Nat}

@[simp] theorem seqs_cons (h : call ≠ .reset) :
    seqs s (call :: calls) = s :: seqs (s + 1) calls := by
  cases call with
  | reset => exact absurd rfl h
  | nextRpcId => rfl
  | write => rfl
  | deleteOp => rfl

theorem seqs_append_reset (pre post : List ClientCall) :
    seqs s (pre ++ .reset :: post) = seqs s pre ++ seqs 1 post := by
  induction pre generalizing s with
  | nil => rfl
  | cons call pre ih =>
    by_cases h : call = .reset
    · subst h
      exact ih
    · rw [List.cons_append, seqs_cons h, seqs_cons h, ih, List.cons_append]

theorem one_mem_seqs (h : Issues calls) : 1 ∈ seqs 1 calls := by
  induction calls with
  | nil =>
    obtain ⟨_, hmem, _⟩ := h
    cases hmem
  | cons call calls ih =>
    by_cases hr : call = .reset
    · subst hr
      obtain ⟨x, hmem, hx⟩ := h
      rcases List.mem_cons.mp hmem with rfl | hmem
      · exact absurd rfl hx
      · exact ih ⟨x, hmem, hx⟩
    · rw [seqs_cons hr]
      exact List.mem_cons_self

theorem seqs_quiet (h : ¬Issues calls) : seqs s calls = [] := by
  induction calls generalizing s with
  | nil => rfl
  | cons call calls ih =>
    have hr : call = .reset := by
      by_contra hr
      exact h ⟨call, List.mem_cons_self, hr⟩
    subst hr
    exact ih (fun ⟨x, hmem, hx⟩ => h ⟨x, List.mem_cons_of_mem _ hmem, hx⟩)

theorem afterReset_cons (h : call ≠ .reset) : AfterReset (call :: calls) ↔ AfterReset calls := by
  constructor
  · rintro ⟨pre, post, heq, hpost⟩
    cases pre with
    | nil =>
      cases heq
      exact absurd rfl h
    | cons x pre =>
      cases heq
      exact ⟨pre, post, rfl, hpost⟩
  · rintro ⟨pre, post, rfl, hpost⟩
    exact ⟨call :: pre, post, rfl, hpost⟩

theorem seqs_eq_range (h : ¬AfterReset calls) :
    seqs s calls = List.range' s (seqs s calls).length := by
  induction calls generalizing s with
  | nil => rfl
  | cons call calls ih =>
    by_cases hr : call = .reset
    · subst hr
      have hquiet : ¬Issues calls := fun hpost => h ⟨[], calls, rfl, hpost⟩
      show seqs 1 calls = List.range' s (seqs 1 calls).length
      rw [seqs_quiet hquiet]
      rfl
    · rw [seqs_cons hr, List.length_cons, List.range'_succ, ← ih]
      exact fun hafter => h ((afterReset_cons hr).mpr hafter)

theorem reissues_reset : Reissues (.reset :: calls) ↔ Reissues calls := by
  constructor
  · rintro ⟨pre, post, heq, ⟨x, hx, hne⟩, hpost⟩
    cases pre with
    | nil => cases hx
    | cons y pre =>
      cases heq
      rcases List.mem_cons.mp hx with rfl | hx
      · exact absurd rfl hne
      · exact ⟨pre, post, rfl, ⟨x, hx, hne⟩, hpost⟩
  · rintro ⟨pre, post, rfl, ⟨x, hx, hne⟩, hpost⟩
    exact ⟨.reset :: pre, post, rfl, ⟨x, List.mem_cons_of_mem _ hx, hne⟩, hpost⟩

theorem reissues_cons (h : call ≠ .reset) : Reissues (call :: calls) ↔ AfterReset calls := by
  rw [← afterReset_cons h]
  constructor
  · rintro ⟨pre, post, heq, _, hpost⟩
    exact ⟨pre, post, heq, hpost⟩
  · rintro ⟨pre, post, heq, hpost⟩
    refine ⟨pre, post, heq, ?_, hpost⟩
    cases pre with
    | nil =>
      cases heq
      exact absurd rfl h
    | cons x pre =>
      cases heq
      exact ⟨call, List.mem_cons_self, h⟩

theorem seqs_nodup_iff : (seqs 1 calls).Nodup ↔ ¬Reissues calls := by
  induction calls with
  | nil =>
    refine iff_of_true List.nodup_nil ?_
    rintro ⟨pre, post, heq, _⟩
    cases pre with
    | nil => cases heq
    | cons => cases heq
  | cons call calls ih =>
    by_cases hr : call = .reset
    · subst hr
      rw [reissues_reset]
      exact ih
    · rw [reissues_cons hr]
      constructor
      · rintro hnodup ⟨pre, post, rfl, hpost⟩
        rw [seqs_cons hr, seqs_append_reset, List.nodup_cons] at hnodup
        exact hnodup.1 (List.mem_append_right _ (one_mem_seqs hpost))
      · intro hno
        rw [seqs_eq_range (fun hafter => hno ((afterReset_cons hr).mp hafter))]
        exact List.nodup_range'

theorem seqs_lt {m : Nat} (hs : 1 ≤ s) (h : m ∈ seqs s calls) :
    m < s + (seqs s calls).length := by
  induction calls generalizing s with
  | nil => cases h
  | cons call calls ih =>
    by_cases hr : call = .reset
    · subst hr
      have hlt := ih Nat.le.refl h
      exact Nat.lt_of_lt_of_le hlt (Nat.add_le_add_right hs _)
    · rw [seqs_cons hr] at h ⊢
      rw [List.length_cons]
      rcases List.mem_cons.mp h with rfl | h
      · omega
      · have hlt := ih (Nat.le_add_left 1 s) h
        omega

end ClientCall

/-! ## The ids as numbers -/

/-- `(client_id << 48) | seq` -/
def rpcIdOf (clientId seq : UInt64) : UInt64 := (clientId <<< 48) ||| seq

theorem toNat_rpcIdOf (clientId seq : UInt64) :
    (rpcIdOf clientId seq).toNat = (clientId.toNat % 2 ^ 16) * 2 ^ 48 ||| seq.toNat := by
  have hshift : clientId.toNat * 2 ^ 48 % 2 ^ 64 = (clientId.toNat % 2 ^ 16) * 2 ^ 48 :=
    Nat.mul_mod_mul_right (2 ^ 48) clientId.toNat (2 ^ 16)
  rw [rpcIdOf, UInt64.toNat_or, UInt64.toNat_shiftLeft, Nat.shiftLeft_eq]
  exact congrArg (· ||| seq.toNat) hshift

theorem rpcIdOf_low (clientId seq : UInt64) :
    (rpcIdOf clientId seq).toNat % 2 ^ 48 = seq.toNat % 2 ^ 48 := by
  rw [toNat_rpcIdOf, Nat.or_mod_two_pow, Nat.mul_mod_left, Nat.zero_or]

theorem rpcIdOf_high (clientId seq : UInt64) :
    (rpcIdOf clientId seq).toNat / 2 ^ 48 = clientId.toNat % 2 ^ 16 ||| seq.toNat / 2 ^ 48 := by
  rw [toNat_rpcIdOf, Nat.or_div_two_pow, Nat.mul_div_cancel _ (Nat.two_pow_pos 48)]

theorem rpcIdOf_eq_iff (a b s t : UInt64) :
    rpcIdOf a s = rpcIdOf b t ↔ s.toNat % 2 ^ 48 = t.toNat % 2 ^ 48 ∧
      a.toNat % 2 ^ 16 ||| s.toNat / 2 ^ 48 = b.toNat % 2 ^ 16 ||| t.toNat / 2 ^ 48 := by
  rw [← rpcIdOf_low a s, ← rpcIdOf_low b t, ← rpcIdOf_high a s, ← rpcIdOf_high b t,
    ← UInt64.toNat_inj]
  constructor
  · intro h
    rw [h]
    exact ⟨rfl, rfl⟩
  · rintro ⟨hlow, hhigh⟩
    rw [← Nat.div_add_mod (rpcIdOf a s).toNat (2 ^ 48), hhigh, hlow, Nat.div_add_mod]

namespace CurpClient

open ClientCall

def init (clientId : UInt64) : CurpClient := { clientId := clientId }

theorem nextRpcId_eq (c : CurpClient) :
    c.nextRpcId = ({ c with nextSeq := c.nextSeq + 1 }, rpcIdOf c.clientId c.nextSeq) := rfl

theorem issued_eq (clientId : UInt64) (s : Nat) (calls : List ClientCall) :
    (CurpClient.mk clientId (.ofNat s)).issued calls =
      (seqs s calls).map fun m => rpcIdOf clientId (.ofNat m) := by
  induction calls generalizing s with
  | nil => rfl
  | cons call calls ih =>
    have hnext : UInt64.ofNat s + 1 = .ofNat (s + 1) := (UInt64.ofNat_add s 1).symm
    by_cases hr : call = .reset
    · subst hr
      exact ih 1
    · rw [seqs_cons hr, List.map_cons, ← ih, ← hnext]
      cases call with
      | reset => exact absurd rfl hr
      | nextRpcId => rfl
      | write => rfl
      | deleteOp => rfl

/-- **The ids of one client** are pairwise distinct iff none is taken after a reset that an id
precedes. -/
theorem issued_nodup_iff (clientId : UInt64) (calls : List ClientCall)
    (hcount : ((init clientId).issued calls).length < 2 ^ 48) :
    ((init clientId).issued calls).Nodup ↔ ¬Reissues calls := by
  have heq : (init clientId).issued calls =
      (seqs 1 calls).map fun m => rpcIdOf clientId (.ofNat m) := issued_eq clientId 1 calls
  rw [heq, List.length_map] at hcount
  rw [heq, ← seqs_nodup_iff]
  refine ⟨List.Nodup.of_map _, List.Nodup.map_on ?_⟩
  intro x hx y hy hxy
  have hx := seqs_lt Nat.le.refl hx
  have hy := seqs_lt Nat.le.refl hy
  have hlow := ((rpcIdOf_eq_iff _ _ _ _).mp hxy).1
  rw [UInt64.toNat_ofNat', UInt64.toNat_ofNat'] at hlow
  omega

/-- A reset before the first id, then a write and a deletion. -/
theorem issued_nodup_first_reset :
    ((init 7).issued [.reset, .write [97] [1], .deleteOp [97]]).length < 2 ^ 48 ∧
    (((init 7).issued [.reset, .write [97] [1], .deleteOp [97]]).Nodup ↔
      ¬Reissues [.reset, .write [97] [1], .deleteOp [97]]) :=
  ⟨by decide, issued_nodup_iff 7 _ (by decide)⟩

/-- The write after the reset takes the id of the one before it. -/
theorem reset_reissues :
    ((init 1000).issued [.write [97] [1], .reset, .write [98] [2]]).length < 2 ^ 48 ∧
    (init 1000).issued [.write [97] [1], .reset, .write [98] [2]] =
      [281474976710656001, 281474976710656001] := by decide

/-! ## Two clients -/

def after (c : CurpClient) (calls : List ClientCall) : CurpClient :=
  calls.foldl (fun c call => (c.call call).1) c

theorem after_nextRpcIds (clientId : UInt64) (m s : Nat) :
    (CurpClient.mk clientId (.ofNat s)).after (List.replicate m .nextRpcId) =
      ⟨clientId, .ofNat (s + m)⟩ := by
  induction m generalizing s with
  | zero => rfl
  | succ m ih =>
    have hnext : UInt64.ofNat s + 1 = .ofNat (s + 1) := (UInt64.ofNat_add s 1).symm
    have hstep : (CurpClient.mk clientId (.ofNat s)).nextRpcId.1 = ⟨clientId, .ofNat (s + 1)⟩ := by
      rw [nextRpcId_eq, hnext]
    show ((CurpClient.mk clientId (.ofNat s)).nextRpcId.1).after _ = _
    rw [hstep, ih, Nat.add_right_comm, Nat.add_assoc]

theorem exists_after (clientId seq : UInt64) :
    ∃ calls, .reset ∉ calls ∧ (init clientId).after calls = ⟨clientId, seq⟩ := by
  refine ⟨List.replicate (2 ^ 64 - 1 + seq.toNat) .nextRpcId, ?_, ?_⟩
  · intro h
    cases List.eq_of_mem_replicate h
  · have hwrap : UInt64.ofNat (1 + (2 ^ 64 - 1 + seq.toNat)) = seq := by
      rw [← UInt64.toNat_inj, UInt64.toNat_ofNat']
      have hlt : seq.toNat < 2 ^ 64 := seq.toNat_lt
      omega
    have hafter := after_nextRpcIds clientId (2 ^ 64 - 1 + seq.toNat) 1
    rw [hwrap] at hafter
    exact hafter

/-- The counters agree below bit 48, and so do, above it, the low halves of the client ids with
what the counters spill into them. -/
def Collide (c d : CurpClient) : Prop :=
  c.nextSeq.toNat % 2 ^ 48 = d.nextSeq.toNat % 2 ^ 48 ∧
  c.clientId.toNat % 2 ^ 16 ||| c.nextSeq.toNat / 2 ^ 48 =
    d.clientId.toNat % 2 ^ 16 ||| d.nextSeq.toNat / 2 ^ 48

/-- **The ids of two clients** differ iff the clients do not collide. -/
theorem nextRpcId_ne_iff (c d : CurpClient) : c.nextRpcId.2 ≠ d.nextRpcId.2 ↔ ¬Collide c d :=
  not_congr (rpcIdOf_eq_iff c.clientId d.clientId c.nextSeq d.nextSeq)

theorem collide_iff_of_lt {c d : CurpClient} (hc : c.nextSeq.toNat < 2 ^ 48)
    (hd : d.nextSeq.toNat < 2 ^ 48) : Collide c d ↔
      c.nextSeq = d.nextSeq ∧ c.clientId.toNat % 2 ^ 16 = d.clientId.toNat % 2 ^ 16 := by
  rw [Collide, Nat.mod_eq_of_lt hc, Nat.mod_eq_of_lt hd, Nat.div_eq_of_lt hc, Nat.div_eq_of_lt hd,
    Nat.or_zero, Nat.or_zero, UInt64.toNat_inj]

/-- The first ids of the clients 1000 and 66536. -/
theorem first_ids_collide : (init 1000).clientId ≠ (init 66536).clientId ∧
    (init 1000).nextRpcId.2 = (init 66536).nextRpcId.2 := by decide

end CurpClient
end TinyKv
