import TinyKv.Lib.Message

/-!
# Lib.Channel

Calls over a gRPC channel with default arguments whose connection holds.

* `Channel`: what the runtime does with the bytes of a request and of its reply.
* `callWire`: a call of a stub, for any two message formats. `callWire_eq`: what it does, by what
  can keep its messages from arriving; `callWire_passes`: nothing does.
-/

namespace TinyKv
namespace Lib

open Protobuf

/-- A receiver takes at most 4 MB. -/
def maxReceive : Nat := 4 * 1024 * 1024

/-- The handler of a method refuses the bytes of a request, or gives the next state of the server
and the bytes of the reply. A call leaves the server in some state, and the client gets the bytes of
the reply or an error. -/
class Channel where
  unaryCall : {σ : Type} → (Bytes → Option (σ × Bytes)) → σ → Bytes → σ × Option Bytes
  unaryCall_large : ∀ {σ : Type} (handler : Bytes → Option (σ × Bytes)) (s : σ) {request},
    maxReceive < request.length → unaryCall handler s request = (s, none)
  unaryCall_refused : ∀ {σ : Type} {handler : Bytes → Option (σ × Bytes)} (s : σ) {request},
    handler request = none → unaryCall handler s request = (s, none)
  unaryCall_handled : ∀ {σ : Type} {handler : Bytes → Option (σ × Bytes)} (s : σ)
    {request s' reply}, request.length ≤ maxReceive → handler request = some (s', reply) →
    unaryCall handler s request = (s', if reply.length ≤ maxReceive then some reply else none)

@[reducible] def defaultChannel : Channel where
  unaryCall handler s request :=
    if request.length ≤ maxReceive then
      match handler request with
      | none => (s, none)
      | some (s', reply) => (s', if reply.length ≤ maxReceive then some reply else none)
    else (s, none)
  unaryCall_large _ _ _ h := if_neg (Nat.not_le.mpr h)
  unaryCall_refused s _ h := by simp only [h, ite_self]
  unaryCall_handled s _ _ _ hle h := by simp only [h, if_pos hle]

open Channel

variable [Protobuf]

namespace Format

variable {M : Type}

/-- The receiver takes the message. -/
def Sized (F : Format M) (m : M) : Prop := (F.write m).length ≤ maxReceive

instance (F : Format M) (m : M) : Decidable (F.Sized m) := inferInstanceAs (Decidable (_ ≤ _))

variable [Channel]

/-- The message that arrives at a handler. -/
def carry (F : Format M) (m : M) : Option M :=
  (unaryCall (fun bs => (F.parse bs).map fun m => (some m, [])) none (F.write m)).1

variable {F : Format M} {m m' : M}

theorem carry_ite : F.carry m = if F.Sized m then F.parse (F.write m) else none := by
  rw [carry]
  by_cases hs : F.Sized m
  · rw [if_pos hs]
    cases hm : F.parse (F.write m) with
    | none => rw [unaryCall_refused none (by rw [hm, Option.map_none])]
    | some m' => rw [unaryCall_handled none hs (by rw [hm, Option.map_some])]
  · rw [if_neg hs, unaryCall_large _ none (Nat.not_le.mp hs)]

theorem carry_eq (h : F.InRange m) :
    F.carry m = if F.Sized m ∧ F.valid m = true then some m else none := by
  rw [carry_ite]
  by_cases hs : F.Sized m
  · have hlen : (F.write m).length < maxSize := Nat.lt_of_le_of_lt hs (by decide)
    rw [if_pos hs, parse_write h hlen]
    simp only [hs, true_and]
  · rw [if_neg hs, if_neg fun hand => hs hand.1]

theorem carry_inv {P : M → Prop} (h0 : P F.zero)
    (hread : ∀ f ∈ F.fields, ∀ acc bs acc' rest, P acc → f.read acc bs = some (acc', rest) →
      P acc') (h : F.carry m = some m') : P m' := by
  rw [carry_ite] at h
  obtain ⟨_, hparse⟩ := Option.ite_none_right_eq_some.mp h
  exact internalParse_inv h0 hread (parseFromString_eq_some hparse)

end Format

section Call

variable {σ Q R : Type}

/-- What a method does with the bytes of a request: it parses them, calls the service and serializes
the reply. -/
def handle (requests : Format Q) (replies : Format R) (service : Q → σ × R) (bs : Bytes) :
    Option (σ × Bytes) :=
  (requests.parse bs).map fun m => ((service m).1, replies.write (service m).2)

variable [Channel]

/-- A call of a stub. -/
def callWire (requests : Format Q) (replies : Format R) (s : σ) (request : Q)
    (service : Q → σ × R) : σ × Option R :=
  let (s', reply) := unaryCall (handle requests replies service) s (requests.write request)
  (s', reply.bind replies.parse)

/-- The service does not see a request that does not arrive, and the client no reply that does
not. -/
theorem callWire_carry (requests : Format Q) (replies : Format R) (s : σ) (request : Q)
    (service : Q → σ × R) : callWire requests replies s request service =
      (requests.carry request).elim (s, none) fun m =>
        ((service m).1, replies.carry (service m).2) := by
  rw [callWire, Format.carry_ite]
  by_cases hs : requests.Sized request
  · rw [if_pos hs]
    cases hm : requests.parse (requests.write request) with
    | none =>
      have hhandle : handle requests replies service (requests.write request) = none := by
        rw [handle, hm, Option.map_none]
      rw [unaryCall_refused s hhandle]
      rfl
    | some m =>
      have hhandle : handle requests replies service (requests.write request) =
          some ((service m).1, replies.write (service m).2) := by
        rw [handle, hm, Option.map_some]
      rw [unaryCall_handled s hs hhandle, Option.elim_some, Format.carry_ite]
      by_cases hr : (replies.write (service m).2).length ≤ maxReceive
      · rw [if_pos hr, if_pos (show replies.Sized _ from hr)]
        rfl
      · rw [if_neg hr, if_neg (show ¬replies.Sized _ from hr)]
        rfl
  · rw [if_neg hs, unaryCall_large _ s (Nat.not_le.mp hs)]
    rfl

theorem callWire_eq {requests : Format Q} {replies : Format R} (s : σ) {request : Q}
    (service : Q → σ × R) (hq : requests.InRange request)
    (hr : replies.InRange (service request).2) :
    callWire requests replies s request service =
      if requests.Sized request ∧ requests.valid request = true then
        ((service request).1,
          if replies.Sized (service request).2 ∧ replies.valid (service request).2 = true then
            some (service request).2
          else none)
      else (s, none) := by
  rw [callWire_carry, Format.carry_eq hq]
  by_cases hok : requests.Sized request ∧ requests.valid request = true
  · rw [if_pos hok, if_pos hok, Option.elim_some, Format.carry_eq hr]
  · rw [if_neg hok, if_neg hok, Option.elim_none]

/-- The receiver gets the message. -/
structure Format.Passes (F : Format Q) (m : Q) : Prop where
  inRange : F.InRange m
  sized : F.Sized m
  valid : F.valid m = true

theorem callWire_passes {requests : Format Q} {replies : Format R} (s : σ) {request : Q}
    (service : Q → σ × R) (hq : requests.Passes request)
    (hr : replies.Passes (service request).2) :
    callWire requests replies s request service =
      ((service request).1, some (service request).2) := by
  rw [callWire_eq s service hq.inRange hr.inRange, if_pos ⟨hq.sized, hq.valid⟩,
    if_pos ⟨hr.sized, hr.valid⟩]

end Call

end Lib
end TinyKv
