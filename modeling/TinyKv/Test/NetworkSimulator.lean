import Mathlib.Data.Rat.Defs
import Mathlib.Algebra.Order.Ring.Unbundled.Rat
import TinyKv.Lib.Agenda
import TinyKv.Lib.Assoc
import TinyKv.Lib.Bytes
import TinyKv.Lib.Run

/-!
# Test.NetworkSimulator

The network on which the tests run, as `network_simulator.cpp` has it, and a run of its worker
among the calls of the tests.

Everything happens under `mtx_`: a turn of the worker is a `beginTurn`, some `pop`, and an
`endTurn`, with no call in between. Which of two messages with the same `deliver_time` is on top
of the queue is open, so `pop k` takes any that is due first. The random numbers of a call are
arguments of its action. A handler that calls the simulator would wait for `mtx_` for ever; the
handlers here do not. The loss rate is a rational number, as every finite `double` is one.

* `simulator_conserves`: no message is lost or doubled.
* `simulator_in_order`, `simulator_on_time`: messages come in the order of their times to deliver,
  and at these times.
* `simulator_cut_holds`: nothing passes a link that is cut, except what is on the way.
-/

namespace TinyKv

open Lib

structure SimulatedMessage where
  id : UInt64
  fromNode : UInt64
  toNode : UInt64
  data : Bytes
  sendTime : UInt64
  deliverTime : UInt64
  type : String
  deriving DecidableEq

structure NetworkConfig where
  minDelayMs : UInt64 := 1
  maxDelayMs : UInt64 := 50
  packetLossRate : ℚ := 0

/-- `handlers` has the nodes with a handler; `messageQueue` has no order of its own. -/
structure NetworkSimulator where
  config : NetworkConfig := {}
  messageQueue : List SimulatedMessage := []
  handlers : Finset UInt64 := ∅
  delayConfig : Assoc (UInt64 × UInt64) (UInt64 × UInt64) := ∅
  isolatedNodes : Finset UInt64 := ∅
  partitions : List (List UInt64 × List UInt64) := []
  nextMessageId : UInt64 := 1
  currentTime : UInt64 := 0
  droppedCount : UInt64 := 0
  deliveredCount : UInt64 := 0

namespace NetworkSimulator

/-- `draw` is the number in `[0, 1)` that the distribution gives. -/
def shouldDrop (net : NetworkSimulator) (draw : ℚ) : Bool :=
  if net.config.packetLossRate ≤ 0 then false else decide (draw < net.config.packetLossRate)

/-- The least and the greatest delay of a link. -/
def delayRange (net : NetworkSimulator) (fromNode toNode : UInt64) : UInt64 × UInt64 :=
  (net.delayConfig.lookup (fromNode, toNode)).getD (net.config.minDelayMs, net.config.maxDelayMs)

def canDeliver (net : NetworkSimulator) (fromNode toNode : UInt64) : Bool :=
  if fromNode ∈ net.isolatedNodes ∨ toNode ∈ net.isolatedNodes then false
  else net.partitions.all fun p =>
    !((decide (fromNode ∈ p.1) && decide (toNode ∈ p.2)) ||
      (decide (fromNode ∈ p.2) && decide (toNode ∈ p.1)))

/-- The message that `send_message` puts into the queue. -/
def message (net : NetworkSimulator) (fromNode toNode : UInt64) (data : Bytes) (type : String)
    (delay : UInt64) : SimulatedMessage where
  id := net.nextMessageId
  fromNode := fromNode
  toNode := toNode
  data := data
  sendTime := net.currentTime
  deliverTime := net.currentTime + delay
  type := type

def push (net : NetworkSimulator) (msg : SimulatedMessage) : NetworkSimulator :=
  { net with
    nextMessageId := net.nextMessageId + 1
    messageQueue := net.messageQueue ++ [msg] }

def drop (net : NetworkSimulator) : NetworkSimulator :=
  { net with droppedCount := net.droppedCount + 1 }

def registerHandler (net : NetworkSimulator) (nodeId : UInt64) : NetworkSimulator :=
  { net with handlers := insert nodeId net.handlers }

def setDelay (net : NetworkSimulator) (fromNode toNode minMs maxMs : UInt64) : NetworkSimulator :=
  { net with delayConfig := net.delayConfig.insert (fromNode, toNode) (minMs, maxMs) }

def setPacketLossRate (net : NetworkSimulator) (rate : ℚ) : NetworkSimulator :=
  { net with config.packetLossRate := rate }

def partition (net : NetworkSimulator) (group1 group2 : List UInt64) : NetworkSimulator :=
  { net with partitions := net.partitions ++ [(group1, group2)] }

def heal (net : NetworkSimulator) : NetworkSimulator :=
  { net with partitions := [], isolatedNodes := ∅ }

def isolateNode (net : NetworkSimulator) (nodeId : UInt64) : NetworkSimulator :=
  { net with isolatedNodes := insert nodeId net.isolatedNodes }

def reconnectNode (net : NetworkSimulator) (nodeId : UInt64) : NetworkSimulator :=
  { net with isolatedNodes := net.isolatedNodes.erase nodeId }

/-- The handlers, the configuration and the next id outlive a reset. -/
def reset (net : NetworkSimulator) : NetworkSimulator :=
  { config := net.config, handlers := net.handlers, nextMessageId := net.nextMessageId }

def advanceTime (net : NetworkSimulator) (ms : UInt64) : NetworkSimulator :=
  { net with currentTime := net.currentTime + ms }

/-- One round of the loop in `worker_loop`: a message without a handler is gone uncounted. -/
def pop (net : NetworkSimulator) (k : Nat) (msg : SimulatedMessage) : NetworkSimulator :=
  { net with
    messageQueue := net.messageQueue.eraseIdx k
    deliveredCount :=
      if msg.toNode ∈ net.handlers then net.deliveredCount + 1 else net.deliveredCount }

/-- The calls that change neither the messages nor the clock. -/
inductive Setting where
  | registerHandler (nodeId : UInt64)
  | setDelay (fromNode toNode minMs maxMs : UInt64)
  | setPacketLossRate (rate : ℚ)
  | partition (group1 group2 : List UInt64)
  | heal
  | isolateNode (nodeId : UInt64)
  | reconnectNode (nodeId : UInt64)

def set (net : NetworkSimulator) : Setting → NetworkSimulator
  | .registerHandler nodeId => net.registerHandler nodeId
  | .setDelay fromNode toNode minMs maxMs => net.setDelay fromNode toNode minMs maxMs
  | .setPacketLossRate rate => net.setPacketLossRate rate
  | .partition group1 group2 => net.partition group1 group2
  | .heal => net.heal
  | .isolateNode nodeId => net.isolateNode nodeId
  | .reconnectNode nodeId => net.reconnectNode nodeId

structure SameMessages (net net' : NetworkSimulator) : Prop where
  queue : net'.messageQueue = net.messageQueue
  nextId : net'.nextMessageId = net.nextMessageId
  time : net'.currentTime = net.currentTime
  dropped : net'.droppedCount = net.droppedCount
  delivered : net'.deliveredCount = net.deliveredCount

theorem set_same (net : NetworkSimulator) (c : Setting) : SameMessages net (net.set c) := by
  cases c <;> exact ⟨rfl, rfl, rfl, rfl, rfl⟩

end NetworkSimulator

/-! ## Runs -/

/-- A message that the worker has taken, when, and whether there was a handler for it. -/
structure Delivery where
  msg : SimulatedMessage
  time : UInt64
  handled : Bool
  deriving DecidableEq

/-- The simulator while its worker is in a turn or not, with what has happened since the last
reset: the calls of `send_message`, the messages that were accepted, and those taken. -/
structure Simulation where
  net : NetworkSimulator := {}
  inTurn : Bool := false
  calls : Nat := 0
  firstId : UInt64 := 1
  sent : List SimulatedMessage := []
  popped : List Delivery := []

namespace Simulation

open NetworkSimulator

inductive Action where
  | sendMessage (fromNode toNode : UInt64) (data : Bytes) (type : String) (draw : ℚ)
      (delay : UInt64)
  | set (c : Setting)
  | reset
  | advanceTime (ms : UInt64)
  | beginTurn
  | pop (k : Nat)
  | endTurn

/-- A range with the bounds the wrong way round is undefined behaviour; there is no step. -/
def step (s : Simulation) : Action → Option Simulation
  | .sendMessage fromNode toNode data type draw delay =>
    if s.inTurn ∨ draw < 0 ∨ 1 ≤ draw then none
    else if s.net.shouldDrop draw ∨ ¬s.net.canDeliver fromNode toNode then
      some { s with net := s.net.drop, calls := s.calls + 1 }
    else
      let (minMs, maxMs) := s.net.delayRange fromNode toNode
      if minMs ≤ delay ∧ delay ≤ maxMs then
        let msg := s.net.message fromNode toNode data type delay
        some { s with net := s.net.push msg, calls := s.calls + 1, sent := s.sent ++ [msg] }
      else none
  | .set c => if s.inTurn then none else some { s with net := s.net.set c }
  | .reset =>
    if s.inTurn then none
    else some { net := s.net.reset, firstId := s.net.nextMessageId }
  | .advanceTime ms => if s.inTurn then none else some { s with net := s.net.advanceTime ms }
  | .beginTurn =>
    if s.inTurn then none else some { s with net := s.net.advanceTime 1, inTurn := true }
  | .pop k =>
    match s.net.messageQueue[k]? with
    | none => none
    | some msg =>
      if s.inTurn ∧ (∀ m ∈ s.net.messageQueue, msg.deliverTime ≤ m.deliverTime) ∧
          msg.deliverTime ≤ s.net.currentTime then
        some { s with
          net := s.net.pop k msg
          popped := s.popped ++ [⟨msg, s.net.currentTime, decide (msg.toNode ∈ s.net.handlers)⟩] }
      else none
  | .endTurn =>
    if s.inTurn ∧ ∀ m ∈ s.net.messageQueue, s.net.currentTime < m.deliverTime then
      some { s with inTurn := false }
    else none

variable {s s' : Simulation} {config : NetworkConfig}

/-- A simulator that has just been built. -/
def init (config : NetworkConfig) : Simulation := { net := { config := config } }

theorem step_sendMessage {fromNode toNode delay : UInt64} {data : Bytes} {type : String} {draw : ℚ}
    (h : s.step (.sendMessage fromNode toNode data type draw delay) = some s') :
    s.inTurn = false ∧
      (s' = { s with net := s.net.drop, calls := s.calls + 1 } ∨
      s.net.canDeliver fromNode toNode = true ∧
      s' = { s with
        net := s.net.push (s.net.message fromNode toNode data type delay)
        calls := s.calls + 1
        sent := s.sent ++ [s.net.message fromNode toNode data type delay] }) := by
  simp only [step] at h
  split at h
  · cases h
  · rename_i hfree
    rw [not_or, Bool.not_eq_true] at hfree
    refine ⟨hfree.1, ?_⟩
    split at h
    · cases h
      exact .inl rfl
    · rename_i hgo
      rw [not_or, not_not] at hgo
      split at h
      · cases h
        exact .inr ⟨hgo.2, rfl⟩
      · cases h

theorem step_pop {k : Nat} (h : s.step (.pop k) = some s') :
    ∃ msg, s.net.messageQueue[k]? = some msg ∧ s.inTurn = true ∧
      (∀ m ∈ s.net.messageQueue, msg.deliverTime ≤ m.deliverTime) ∧
      msg.deliverTime ≤ s.net.currentTime ∧
      s' = { s with
        net := s.net.pop k msg
        popped := s.popped ++
          [⟨msg, s.net.currentTime, decide (msg.toNode ∈ s.net.handlers)⟩] } := by
  simp only [step] at h
  split at h
  · cases h
  · rename_i msg hmsg
    split at h
    · rename_i hdue
      cases h
      exact ⟨msg, hmsg, hdue.1, hdue.2.1, hdue.2.2, rfl⟩
    · cases h

/-! ## Conservation -/

/-- Every call has been counted, and the ids run on from the first one after the reset. -/
structure CountInv (s : Simulation) : Prop where
  kept : Kept s.sent (s.popped.map Delivery.msg) s.net.messageQueue
  calls : ∃ dropped : ℕ, s.calls = dropped + s.sent.length ∧
    s.net.droppedCount = UInt64.ofNat dropped
  delivered : s.net.deliveredCount = UInt64.ofNat (s.popped.countP Delivery.handled)
  nextId : s.net.nextMessageId = s.firstId + UInt64.ofNat s.sent.length
  ids : s.sent.map SimulatedMessage.id =
    (List.range s.sent.length).map fun i => s.firstId + UInt64.ofNat i

theorem init_countInv (config : NetworkConfig) : (init config).CountInv where
  kept := List.Perm.nil
  calls := ⟨0, rfl, rfl⟩
  delivered := rfl
  nextId := rfl
  ids := rfl

theorem CountInv.frame (h : s.CountInv) {net : NetworkSimulator} {inTurn : Bool}
    (hqueue : net.messageQueue = s.net.messageQueue)
    (hnext : net.nextMessageId = s.net.nextMessageId)
    (hdropped : net.droppedCount = s.net.droppedCount)
    (hdelivered : net.deliveredCount = s.net.deliveredCount) :
    CountInv { s with net := net, inTurn := inTurn } := by
  refine ⟨?_, ?_, ?_, ?_, h.ids⟩
  · show Kept s.sent (s.popped.map Delivery.msg) net.messageQueue
    rw [hqueue]
    exact h.kept
  · show ∃ dropped : ℕ, _ ∧ net.droppedCount = UInt64.ofNat dropped
    rw [hdropped]
    exact h.calls
  · show net.deliveredCount = UInt64.ofNat (s.popped.countP Delivery.handled)
    rw [hdelivered]
    exact h.delivered
  · show net.nextMessageId = s.firstId + UInt64.ofNat s.sent.length
    rw [hnext]
    exact h.nextId

theorem step_countInv {a : Action} (h : s.CountInv) (hs : s.step a = some s') : s'.CountInv := by
  cases a with
  | sendMessage fromNode toNode data type draw delay =>
    obtain ⟨_, rfl | ⟨_, rfl⟩⟩ := step_sendMessage hs
    · refine ⟨h.kept, ?_, h.delivered, h.nextId, h.ids⟩
      obtain ⟨dropped, hcalls, hcount⟩ := h.calls
      refine ⟨dropped + 1, by simp only; omega, ?_⟩
      simp only [drop, hcount, UInt64.ofNat_add]
      rfl
    · have hid : (s.net.message fromNode toNode data type delay).id =
          s.firstId + UInt64.ofNat s.sent.length := h.nextId
      refine ⟨h.kept.add _, ?_, h.delivered, ?_, ?_⟩
      · obtain ⟨dropped, hcalls, hcount⟩ := h.calls
        refine ⟨dropped, ?_, hcount⟩
        simp only [List.length_append, List.length_singleton]
        omega
      · simp only [push, h.nextId, List.length_append, List.length_singleton, UInt64.ofNat_add,
          UInt64.add_assoc]
        rfl
      · simp only [List.map_append, h.ids, List.map_singleton, hid, List.length_append,
          List.length_singleton, List.range_succ]
  | set c =>
    obtain ⟨_, heq⟩ := Option.ite_none_left_eq_some.mp hs
    cases heq
    have hsame := set_same s.net c
    exact h.frame hsame.queue hsame.nextId hsame.dropped hsame.delivered
  | reset =>
    obtain ⟨_, heq⟩ := Option.ite_none_left_eq_some.mp hs
    cases heq
    exact ⟨List.Perm.nil, ⟨0, rfl, rfl⟩, rfl, (UInt64.add_zero _).symm, rfl⟩
  | advanceTime ms =>
    obtain ⟨_, heq⟩ := Option.ite_none_left_eq_some.mp hs
    cases heq
    exact h.frame rfl rfl rfl rfl
  | beginTurn =>
    obtain ⟨_, heq⟩ := Option.ite_none_left_eq_some.mp hs
    cases heq
    exact h.frame rfl rfl rfl rfl
  | pop k =>
    obtain ⟨msg, hmsg, _, _, _, rfl⟩ := step_pop hs
    refine ⟨?_, h.calls, ?_, h.nextId, h.ids⟩
    · rw [List.map_append]
      exact h.kept.take hmsg
    · simp only [NetworkSimulator.pop, List.countP_append, List.countP_singleton,
        decide_eq_true_eq, h.delivered]
      split
      · rw [UInt64.ofNat_add]
        rfl
      · rfl
  | endTurn =>
    obtain ⟨_, heq⟩ := Option.ite_none_right_eq_some.mp hs
    cases heq
    exact h.frame rfl rfl rfl rfl

theorem nodup_ids (firstId : UInt64) {n : Nat} (hn : n ≤ 2 ^ 64) :
    ((List.range n).map fun i => firstId + UInt64.ofNat i).Nodup := by
  refine List.Nodup.map_on ?_ List.nodup_range
  intro i hi j hj heq
  rw [List.mem_range] at hi hj
  have hsame : UInt64.ofNat i = UInt64.ofNat j := by
    rwa [UInt64.add_right_inj] at heq
  have hnat := congrArg UInt64.toNat hsame
  rwa [UInt64.toNat_ofNat', UInt64.toNat_ofNat', Nat.mod_eq_of_lt (by omega),
    Nat.mod_eq_of_lt (by omega)] at hnat

/-- **No message is lost or doubled.** Since the last reset, every message that was accepted has
been taken or waits, once, and every call is among the dropped, the delivered, the waiting, or those
that no handler wanted, which nothing counts, as long as the counters do not wrap. -/
theorem simulator_conserves (h : Reaches step (init config) s) :
    s.sent.Perm (s.popped.map Delivery.msg ++ s.net.messageQueue) ∧
    (s.calls < 2 ^ 64 →
      s.calls = s.net.droppedCount.toNat + s.net.deliveredCount.toNat +
        s.popped.countP (!Delivery.handled ·) + s.net.messageQueue.length) ∧
    (s.sent.length ≤ 2 ^ 64 →
      ((s.popped.map Delivery.msg ++ s.net.messageQueue).map SimulatedMessage.id).Nodup) := by
  have hinv : s.CountInv := h.inv (fun _ _ _ => step_countInv) (init_countInv config)
  refine ⟨hinv.kept, fun hfew => ?_, fun hlen => ?_⟩
  · have hlen := hinv.kept.length_eq
    rw [List.length_append, List.length_map] at hlen
    have hcount : s.popped.length = s.popped.countP Delivery.handled +
        s.popped.countP (!Delivery.handled ·) := by
      simpa using List.length_eq_countP_add_countP Delivery.handled
    obtain ⟨dropped, hcalls, hdropped⟩ := hinv.calls
    rw [hdropped, hinv.delivered, UInt64.toNat_ofNat', UInt64.toNat_ofNat',
      Nat.mod_eq_of_lt (by omega), Nat.mod_eq_of_lt (by omega)]
    omega
  · rw [← (hinv.kept.map SimulatedMessage.id).nodup_iff, hinv.ids]
    exact nodup_ids s.firstId hlen

/-- Every kind of message has come by: one dropped, one delivered, one unwanted, one waiting. -/
theorem simulator_conserves_four :
    ∃ s, Reaches step (init {}) s ∧ s.calls = 4 ∧ s.net.droppedCount = 1 ∧
      s.net.deliveredCount = 1 ∧ s.net.messageQueue.length = 1 ∧
      s.popped.countP (!Delivery.handled ·) = 1 := by
  have hrun : ((runs step [.set (.registerHandler 2), .set (.isolateNode 4),
      .sendMessage 1 2 [] "" 0 1, .sendMessage 1 3 [] "" 0 1, .sendMessage 1 4 [] "" 0 1,
      .sendMessage 1 2 [] "" 0 5, .beginTurn, .pop 0, .pop 0, .endTurn] (init {})).any fun s =>
        decide (s.calls = 4 ∧ s.net.droppedCount = 1 ∧ s.net.deliveredCount = 1 ∧
          s.net.messageQueue.length = 1)) = true := by decide +kernel
  obtain ⟨s, hs, hp⟩ := exists_of_runs hrun
  obtain ⟨hcalls, hdropped, hdelivered, hqueue⟩ := decide_eq_true_eq.mp hp
  have hsum := (simulator_conserves hs).2.1 (by omega)
  rw [hdropped, hdelivered] at hsum
  exact ⟨s, hs, hcalls, hdropped, hdelivered, hqueue, by simp at hsum; omega⟩

/-! ## Order -/

/-- The clock and the times to deliver stay below `2 ^ 64`. -/
def NoWrap (s : Simulation) : Action → Prop
  | .sendMessage _ _ _ _ _ delay => s.net.currentTime.toNat + delay.toNat < 2 ^ 64
  | .advanceTime ms => s.net.currentTime.toNat + ms.toNat < 2 ^ 64
  | .beginTurn => s.net.currentTime.toNat + 1 < 2 ^ 64
  | _ => True

instance (s : Simulation) : (a : Action) → Decidable (s.NoWrap a)
  | .sendMessage .. => inferInstanceAs (Decidable (_ < _))
  | .advanceTime _ => inferInstanceAs (Decidable (_ < _))
  | .beginTurn => inferInstanceAs (Decidable (_ < _))
  | .set _ | .reset | .pop _ | .endTurn => inferInstanceAs (Decidable True)

structure OrderInv (s : Simulation) : Prop where
  order : InOrder (fun m : SimulatedMessage => m.deliverTime.toNat) (s.popped.map Delivery.msg)
    s.net.messageQueue
  times : s.popped.Pairwise fun p q => p.time.toNat ≤ q.time.toNat
  due : ∀ p ∈ s.popped,
    p.msg.deliverTime.toNat ≤ p.time.toNat ∧ p.time.toNat ≤ s.net.currentTime.toNat

theorem init_orderInv (config : NetworkConfig) : (init config).OrderInv where
  order := .nil _
  times := List.Pairwise.nil
  due := fun _ hp => by cases hp

theorem toNat_add_of_lt {a b : UInt64} (h : a.toNat + b.toNat < 2 ^ 64) :
    (a + b).toNat = a.toNat + b.toNat := by
  rw [UInt64.toNat_add, Nat.mod_eq_of_lt h]

theorem OrderInv.later (h : s.OrderInv) {net : NetworkSimulator} {inTurn : Bool}
    (hqueue : net.messageQueue = s.net.messageQueue)
    (htime : s.net.currentTime.toNat ≤ net.currentTime.toNat) :
    OrderInv { s with net := net, inTurn := inTurn } where
  order := by
    show InOrder _ _ net.messageQueue
    rw [hqueue]
    exact h.order
  times := h.times
  due := fun p hp => ⟨(h.due p hp).1, Nat.le_trans (h.due p hp).2 htime⟩

theorem step_orderInv {a : Action} (h : s.OrderInv) (hok : s.NoWrap a) (hs : s.step a = some s') :
    s'.OrderInv := by
  cases a with
  | sendMessage fromNode toNode data type draw delay =>
    obtain ⟨_, rfl | ⟨_, rfl⟩⟩ := step_sendMessage hs
    · exact ⟨h.order, h.times, h.due⟩
    · refine ⟨h.order.add ?_, h.times, h.due⟩
      intro m hm
      obtain ⟨p, hp, rfl⟩ := List.mem_map.mp hm
      have hdue := h.due p hp
      simp only [message, toNat_add_of_lt hok]
      omega
  | set c =>
    obtain ⟨_, heq⟩ := Option.ite_none_left_eq_some.mp hs
    cases heq
    have hsame := set_same s.net c
    exact h.later hsame.queue (by rw [hsame.time])
  | reset =>
    obtain ⟨_, heq⟩ := Option.ite_none_left_eq_some.mp hs
    cases heq
    exact ⟨.nil _, List.Pairwise.nil, fun _ hp => by cases hp⟩
  | advanceTime ms =>
    obtain ⟨_, heq⟩ := Option.ite_none_left_eq_some.mp hs
    cases heq
    exact h.later rfl (by rw [advanceTime, toNat_add_of_lt hok]; omega)
  | beginTurn =>
    obtain ⟨_, heq⟩ := Option.ite_none_left_eq_some.mp hs
    cases heq
    have hok : s.net.currentTime.toNat + (1 : UInt64).toNat < 2 ^ 64 := hok
    exact h.later rfl (by rw [advanceTime, toNat_add_of_lt hok]; omega)
  | pop k =>
    obtain ⟨msg, hmsg, _, hmin, hnow, rfl⟩ := step_pop hs
    refine ⟨?_, ?_, ?_⟩
    · rw [List.map_append]
      exact h.order.take hmsg fun m hm => UInt64.le_iff_toNat_le.mp (hmin m hm)
    · rw [List.pairwise_append]
      refine ⟨h.times, List.pairwise_singleton _ _, ?_⟩
      intro p hp q hq
      rw [List.mem_singleton.mp hq]
      exact (h.due p hp).2
    · intro p hp
      rcases List.mem_append.mp hp with hp | hp
      · exact h.due p hp
      · rw [List.mem_singleton.mp hp]
        exact ⟨UInt64.le_iff_toNat_le.mp hnow, Nat.le_refl _⟩
  | endTurn =>
    obtain ⟨_, heq⟩ := Option.ite_none_right_eq_some.mp hs
    cases heq
    exact h.later rfl (Nat.le_refl _)

/-- **Messages come in the order of their times to deliver**, over any number of turns and whatever
the handlers, the delays and the partitions do in between, and none comes before its time. -/
theorem simulator_in_order (h : ReachesIf NoWrap step (init config) s) :
    (s.popped.Pairwise fun p q =>
      p.msg.deliverTime.toNat ≤ q.msg.deliverTime.toNat ∧ p.time.toNat ≤ q.time.toNat) ∧
    ∀ p ∈ s.popped, p.msg.deliverTime.toNat ≤ p.time.toNat := by
  have hinv : s.OrderInv := h.inv (fun _ _ _ => step_orderInv) (init_orderInv config)
  have hsorted := List.pairwise_map.mp hinv.order.sorted
  exact ⟨hsorted.and hinv.times, fun p hp => (hinv.due p hp).1⟩

/-- The second message overtakes the first. -/
theorem simulator_in_order_two :
    ∃ s, ReachesIf NoWrap step (init {}) s ∧
      s.popped.map (fun p => (p.msg.id, p.msg.deliverTime, p.time)) = [(2, 2, 5), (1, 4, 5)] ∧
      ∀ p ∈ s.popped, p.msg.deliverTime.toNat ≤ p.time.toNat := by
  obtain ⟨s, hs, hp⟩ := exists_of_runsIf (s := init {}) step
    (fun (s : Simulation) a (h : decide (s.NoWrap a) = true) => of_decide_eq_true h)
    [.sendMessage 1 2 [] "" 0 4, .sendMessage 1 2 [] "" 0 2, .advanceTime 4, .beginTurn, .pop 1,
      .pop 0, .endTurn]
    (fun s => decide (s.popped.map (fun p => (p.msg.id, p.msg.deliverTime, p.time)) =
      [(2, 2, 5), (1, 4, 5)])) (by decide +kernel)
  exact ⟨s, hs, decide_eq_true_eq.mp hp, (simulator_in_order hs).2⟩

/-! ## Time -/

/-- When the first turn comes that finds the message due. -/
def arrival (m : SimulatedMessage) : Nat := max m.deliverTime.toNat (m.sendTime.toNat + 1)

/-- Nobody but the worker moves the clock, or only by calls of `reset`, and it does not wrap. -/
def Ticks (s : Simulation) : Action → Prop
  | .advanceTime _ => False
  | .beginTurn => s.net.currentTime.toNat + 1 < 2 ^ 64
  | _ => True

instance (s : Simulation) : (a : Action) → Decidable (s.Ticks a)
  | .advanceTime _ => inferInstanceAs (Decidable False)
  | .beginTurn => inferInstanceAs (Decidable (_ < _))
  | .sendMessage .. | .set _ | .reset | .pop _ | .endTurn => inferInstanceAs (Decidable True)

/-- In a turn a message was sent before it, and has not missed it. -/
def InTime (s : Simulation) (m : SimulatedMessage) : Prop :=
  if s.inTurn then m.sendTime.toNat < s.net.currentTime.toNat ∧
    s.net.currentTime.toNat ≤ arrival m
  else m.sendTime.toNat ≤ s.net.currentTime.toNat ∧ s.net.currentTime.toNat < arrival m

structure TimeInv (s : Simulation) : Prop where
  waiting : ∀ m ∈ s.net.messageQueue, s.InTime m
  taken : ∀ p ∈ s.popped, p.time.toNat = arrival p.msg

theorem init_timeInv (config : NetworkConfig) : (init config).TimeInv where
  waiting := fun _ hm => by cases hm
  taken := fun _ hp => by cases hp

theorem step_timeInv {a : Action} (h : s.TimeInv) (hok : s.Ticks a) (hs : s.step a = some s') :
    s'.TimeInv := by
  cases a with
  | sendMessage fromNode toNode data type draw delay =>
    obtain ⟨hfree, rfl | ⟨_, rfl⟩⟩ := step_sendMessage hs
    · exact ⟨h.waiting, h.taken⟩
    · refine ⟨?_, h.taken⟩
      intro m hm
      rcases List.mem_append.mp hm with hm | hm
      · exact h.waiting m hm
      · rw [List.mem_singleton.mp hm, InTime, if_neg (by simp [hfree])]
        simp only [arrival, message, push]
        omega
  | set c =>
    obtain ⟨_, heq⟩ := Option.ite_none_left_eq_some.mp hs
    cases heq
    have hsame := set_same s.net c
    refine ⟨?_, h.taken⟩
    simp only [InTime, hsame.queue, hsame.time]
    exact h.waiting
  | reset =>
    obtain ⟨_, heq⟩ := Option.ite_none_left_eq_some.mp hs
    cases heq
    exact ⟨fun _ hm => (by cases hm), fun _ hp => (by cases hp)⟩
  | advanceTime ms => exact absurd hok id
  | beginTurn =>
    obtain ⟨hfree, heq⟩ := Option.ite_none_left_eq_some.mp hs
    cases heq
    rw [Bool.not_eq_true] at hfree
    have hok : s.net.currentTime.toNat + (1 : UInt64).toNat < 2 ^ 64 := hok
    refine ⟨?_, h.taken⟩
    intro m hm
    have hwait := h.waiting m hm
    rw [InTime, if_neg (by simp [hfree])] at hwait
    rw [InTime, if_pos rfl]
    simp only [advanceTime, toNat_add_of_lt hok]
    have hone : (1 : UInt64).toNat = 1 := rfl
    omega
  | pop k =>
    obtain ⟨msg, hmsg, hturn, _, hnow, rfl⟩ := step_pop hs
    refine ⟨fun m hm => h.waiting m (List.mem_of_mem_eraseIdx hm), ?_⟩
    intro p hp
    rcases List.mem_append.mp hp with hp | hp
    · exact h.taken p hp
    · rw [List.mem_singleton.mp hp]
      have hwait := h.waiting msg (List.mem_of_getElem? hmsg)
      have hnow := UInt64.le_iff_toNat_le.mp hnow
      rw [InTime, if_pos hturn] at hwait
      simp only [arrival] at hwait ⊢
      omega
  | endTurn =>
    obtain ⟨⟨hturn, hlater⟩, heq⟩ := Option.ite_none_right_eq_some.mp hs
    cases heq
    refine ⟨?_, h.taken⟩
    intro m hm
    have hwait := h.waiting m hm
    have hlater := UInt64.lt_iff_toNat_lt.mp (hlater m hm)
    rw [InTime, if_pos hturn] at hwait
    rw [InTime, if_neg Bool.false_ne_true]
    simp only [arrival] at hwait ⊢
    omega

/-- **Messages come on time.** As long as only the worker moves the clock, each is taken at its time
to deliver, or in the turn after it was sent if that is later; between turns none is late. -/
theorem simulator_on_time (h : ReachesIf Ticks step (init config) s) :
    (∀ p ∈ s.popped, p.time.toNat = max p.msg.deliverTime.toNat (p.msg.sendTime.toNat + 1)) ∧
    (s.inTurn = false → ∀ m ∈ s.net.messageQueue,
      s.net.currentTime.toNat < max m.deliverTime.toNat (m.sendTime.toNat + 1)) := by
  have hinv : s.TimeInv := h.inv (fun _ _ _ => step_timeInv) (init_timeInv config)
  refine ⟨hinv.taken, fun hfree m hm => ?_⟩
  have hwait := hinv.waiting m hm
  rw [InTime, hfree, if_neg Bool.false_ne_true] at hwait
  exact hwait.2

/-- A link without delay takes a turn, like one with a delay of 1. -/
theorem simulator_on_time_two :
    ∃ s, ReachesIf Ticks step (init {}) s ∧
      s.popped.map (fun p => (p.msg.deliverTime, p.time)) = [(0, 1), (2, 2)] ∧
      ∀ p ∈ s.popped, p.time.toNat = max p.msg.deliverTime.toNat (p.msg.sendTime.toNat + 1) := by
  obtain ⟨s, hs, hp⟩ := exists_of_runsIf (s := init {}) step
    (fun (s : Simulation) a (h : decide (s.Ticks a) = true) => of_decide_eq_true h)
    [.set (.setDelay 1 2 0 0), .sendMessage 1 2 [] "" 0 0, .sendMessage 2 1 [] "" 0 2, .beginTurn,
      .pop 0, .endTurn, .beginTurn, .pop 0, .endTurn]
    (fun s => decide (s.popped.map (fun p => (p.msg.deliverTime, p.time)) = [(0, 1), (2, 2)]))
    (by decide +kernel)
  exact ⟨s, hs, decide_eq_true_eq.mp hp, (simulator_on_time hs).1⟩

/-! ## Cuts -/

/-- The calls after which a link may work again. -/
def Repairs (fromNode toNode : UInt64) (a : Action) : Prop :=
  a = .reset ∨ a = .set .heal ∨ a = .set (.reconnectNode fromNode) ∨
    a = .set (.reconnectNode toNode)

def OnLink (fromNode toNode : UInt64) (m : SimulatedMessage) : Prop :=
  m.fromNode = fromNode ∧ m.toNode = toNode

instance (fromNode toNode : UInt64) (m : SimulatedMessage) : Decidable (OnLink fromNode toNode m) :=
  inferInstanceAs (Decidable (_ ∧ _))

theorem canDeliver_iff {net : NetworkSimulator} {fromNode toNode : UInt64} :
    net.canDeliver fromNode toNode = true ↔
      fromNode ∉ net.isolatedNodes ∧ toNode ∉ net.isolatedNodes ∧
      ∀ p ∈ net.partitions,
        ¬(fromNode ∈ p.1 ∧ toNode ∈ p.2) ∧ ¬(fromNode ∈ p.2 ∧ toNode ∈ p.1) := by
  rw [canDeliver]
  split
  · rename_i hcut
    constructor
    · intro h
      cases h
    · rintro ⟨hfrom, hto, _⟩
      exact absurd hcut (not_or.mpr ⟨hfrom, hto⟩)
  · rename_i hopen
    rw [not_or] at hopen
    simp [hopen.1, hopen.2, imp_iff_not_or]

theorem set_cut {net : NetworkSimulator} {c : Setting} {fromNode toNode : UInt64}
    (hr : ¬Repairs fromNode toNode (.set c)) (h : (net.set c).canDeliver fromNode toNode = true) :
    net.canDeliver fromNode toNode = true := by
  rw [canDeliver_iff] at h ⊢
  obtain ⟨hfrom, hto, hparts⟩ := h
  cases c with
  | registerHandler => exact ⟨hfrom, hto, hparts⟩
  | setDelay => exact ⟨hfrom, hto, hparts⟩
  | setPacketLossRate => exact ⟨hfrom, hto, hparts⟩
  | partition group1 group2 =>
    exact ⟨hfrom, hto, fun p hp => hparts p (List.mem_append_left _ hp)⟩
  | heal => exact absurd (.inr (.inl rfl)) hr
  | isolateNode nodeId =>
    exact ⟨fun hmem => hfrom (Finset.mem_insert_of_mem hmem),
      fun hmem => hto (Finset.mem_insert_of_mem hmem), hparts⟩
  | reconnectNode nodeId =>
    have hnfrom : fromNode ≠ nodeId := fun heq => hr (.inr (.inr (.inl (heq ▸ rfl))))
    have hnto : toNode ≠ nodeId := fun heq => hr (.inr (.inr (.inr (heq ▸ rfl))))
    exact ⟨fun hmem => hfrom (Finset.mem_erase.mpr ⟨hnfrom, hmem⟩),
      fun hmem => hto (Finset.mem_erase.mpr ⟨hnto, hmem⟩), hparts⟩

/-- What has happened on a link since it was cut in `s₀`. -/
structure CutInv (s₀ : Simulation) (fromNode toNode : UInt64) (s : Simulation) : Prop where
  cut : s.net.canDeliver fromNode toNode = false
  arrives : ∃ later, s.popped = s₀.popped ++ later ∧
    (s₀.net.messageQueue.filter (OnLink fromNode toNode ·)).Perm
      ((later.map Delivery.msg ++ s.net.messageQueue).filter (OnLink fromNode toNode ·))

theorem step_cutInv {s₀ : Simulation} {fromNode toNode : UInt64} {a : Action}
    (h : CutInv s₀ fromNode toNode s) (hok : ¬Repairs fromNode toNode a)
    (hs : s.step a = some s') : CutInv s₀ fromNode toNode s' := by
  cases a with
  | sendMessage fromNode' toNode' data type draw delay =>
    obtain ⟨_, rfl | ⟨hopen, rfl⟩⟩ := step_sendMessage hs
    · exact ⟨h.cut, h.arrives⟩
    · refine ⟨h.cut, ?_⟩
      obtain ⟨later, hpopped, hperm⟩ := h.arrives
      have hoff : ¬OnLink fromNode toNode (s.net.message fromNode' toNode' data type delay) := by
        rintro ⟨hfrom, hto⟩
        have hfrom : fromNode' = fromNode := hfrom
        have hto : toNode' = toNode := hto
        have hcut := h.cut
        rw [← hfrom, ← hto, hopen] at hcut
        cases hcut
      refine ⟨later, hpopped, ?_⟩
      simpa [push, List.filter_append, hoff] using hperm
  | set c =>
    obtain ⟨_, heq⟩ := Option.ite_none_left_eq_some.mp hs
    cases heq
    refine ⟨?_, ?_⟩
    · rw [← Bool.not_eq_true]
      intro hopen
      have hcut := h.cut
      rw [set_cut hok hopen] at hcut
      cases hcut
    · rw [(set_same s.net c).queue]
      exact h.arrives
  | reset => exact absurd (.inl rfl) hok
  | advanceTime ms =>
    obtain ⟨_, heq⟩ := Option.ite_none_left_eq_some.mp hs
    cases heq
    exact ⟨h.cut, h.arrives⟩
  | beginTurn =>
    obtain ⟨_, heq⟩ := Option.ite_none_left_eq_some.mp hs
    cases heq
    exact ⟨h.cut, h.arrives⟩
  | pop k =>
    obtain ⟨msg, hmsg, _, _, _, rfl⟩ := step_pop hs
    refine ⟨h.cut, ?_⟩
    obtain ⟨later, hpopped, hperm⟩ := h.arrives
    refine ⟨later ++ [⟨msg, s.net.currentTime, decide (msg.toNode ∈ s.net.handlers)⟩], ?_, ?_⟩
    · rw [hpopped, List.append_assoc]
    · have hkept : Kept (later.map Delivery.msg ++ s.net.messageQueue) (later.map Delivery.msg)
          s.net.messageQueue := List.Perm.refl _
      rw [List.map_append]
      exact hperm.trans ((hkept.take hmsg).filter _)
  | endTurn =>
    obtain ⟨_, heq⟩ := Option.ite_none_right_eq_some.mp hs
    cases heq
    exact ⟨h.cut, h.arrives⟩

/-- **A cut holds until it is repaired.** As long as a link that cannot deliver is not repaired, it
stays so; of its messages exactly those on the way at the cut are taken or still wait, partition or
not. -/
theorem simulator_cut_holds {fromNode toNode : UInt64}
    (hcut : s.net.canDeliver fromNode toNode = false)
    (h : ReachesIf (fun _ a => ¬Repairs fromNode toNode a) step s s') :
    s'.net.canDeliver fromNode toNode = false ∧
    ∃ later, s'.popped = s.popped ++ later ∧
      (s.net.messageQueue.filter (OnLink fromNode toNode ·)).Perm
        ((later.map Delivery.msg ++ s'.net.messageQueue).filter (OnLink fromNode toNode ·)) := by
  have hinv : CutInv s fromNode toNode s' :=
    h.inv (fun _ _ _ => step_cutInv) ⟨hcut, [], (List.append_nil _).symm, List.Perm.refl _⟩
  exact ⟨hinv.cut, hinv.arrives⟩

/-- One message is on the way from node 1 to node 2 when they are separated, and comes in; one sent
after that does not. -/
theorem simulator_cut_holds_one :
    ∃ s, Reaches step (init {}) s ∧ s.net.messageQueue.length = 1 ∧
      ∃ s', ReachesIf (fun _ a => ¬Repairs 1 2 a) step s s' ∧ s'.net.droppedCount = 1 ∧
        s'.net.canDeliver 1 2 = false ∧ s'.popped.map (·.msg.id) = [1] := by
  let check (_ : Simulation) : Action → Bool
    | .reset => false
    | .set .heal => false
    | .set (.reconnectNode nodeId) => nodeId ≠ 1 && nodeId ≠ 2
    | _ => true
  have hcheck : ∀ s a, check s a = true → ¬Repairs 1 2 a := by
    rintro s a h (rfl | rfl | rfl | rfl) <;> cases h
  have hrun : ((runs step [.sendMessage 1 2 [] "" 0 1, .set (.partition [1, 3] [2])]
      (init {})).any fun s => decide (s.net.messageQueue.length = 1 ∧ s.popped = [] ∧
        s.net.canDeliver 1 2 = false) && (runs (fun s a => if check s a then step s a else none)
          [.sendMessage 1 2 [] "" 0 1, .set (.reconnectNode 3), .beginTurn, .pop 0, .endTurn] s).any
            fun s' : Simulation =>
              decide (s'.net.droppedCount = 1 ∧ s'.popped.map (·.msg.id) = [1])) = true := by
    decide +kernel
  obtain ⟨s, hs, hp⟩ := exists_of_runs hrun
  obtain ⟨hstate, hlater⟩ := (Bool.and_eq_true _ _).mp hp
  obtain ⟨hqueue, _, hcut⟩ := decide_eq_true_eq.mp hstate
  obtain ⟨s', hs', hp'⟩ := exists_of_runsIf step hcheck _ _ hlater
  obtain ⟨hdropped, hpopped⟩ := decide_eq_true_eq.mp hp'
  exact ⟨s, hs, hqueue, s', hs', hdropped, (simulator_cut_holds hcut hs').1, hpopped⟩

end Simulation

end TinyKv
