import Mathlib.Data.List.Basic

/-!
# A bounded broadcast channel

Every message sent is kept in `sent`, and a receiver is the number of messages
that are behind it. Only the last `capacity` messages can still be delivered: a
receiver further behind than that is told how many messages it lost and is moved
to the oldest retained one. A fresh receiver starts behind everything sent so
far. Delivery is in order and never blocks the sender.

The history is longer than what an implementation stores, but a receiver
observes only the retained window, so nothing is observed that was overwritten.
-/

namespace Lumencast.Foundation

universe u

/-- A broadcast channel, with the complete history of its messages. -/
structure Broadcast (α : Type u) where
  capacity : Nat
  sent : List α
  deriving DecidableEq, Repr

/-- What one receive attempt observes. -/
inductive Received (α : Type u) where
  | message (a : α) (next : Nat)
  | lagged (missed next : Nat)
  | empty
  deriving DecidableEq, Repr

namespace Broadcast

variable {α : Type u}

def new (capacity : Nat) : Broadcast α := ⟨capacity, []⟩

def send (ch : Broadcast α) (a : α) : Broadcast α := { ch with sent := ch.sent ++ [a] }

/-- The position of a receiver that subscribes now. -/
def subscribe (ch : Broadcast α) : Nat := ch.sent.length

/-- One receive attempt at position `next`. -/
def recv (ch : Broadcast α) (next : Nat) : Received α :=
  if next + ch.capacity < ch.sent.length then
    .lagged (ch.sent.length - ch.capacity - next) (ch.sent.length - ch.capacity)
  else
    match ch.sent[next]? with
    | some a => .message a (next + 1)
    | none => .empty

@[simp] theorem new_sent (capacity : Nat) : (new capacity : Broadcast α).sent = [] := rfl

@[simp] theorem send_sent (ch : Broadcast α) (a : α) : (ch.send a).sent = ch.sent ++ [a] := rfl

@[simp] theorem send_capacity (ch : Broadcast α) (a : α) :
    (ch.send a).capacity = ch.capacity := rfl

/-- A delivered message is the one at the receiver's position. -/
theorem recv_eq_message {ch : Broadcast α} {next next' : Nat} {a : α} :
    ch.recv next = .message a next' ↔
      ch.sent.length ≤ next + ch.capacity ∧ ch.sent[next]? = some a ∧ next' = next + 1 := by
  unfold recv
  split
  · next behind => simp [Nat.not_le.mpr behind]
  · next within =>
    cases found : ch.sent[next]? with
    | none => simp
    | some b => simp [Nat.not_lt.mp within, eq_comm]

theorem recv_eq_lagged {ch : Broadcast α} {next missed next' : Nat} :
    ch.recv next = .lagged missed next' ↔
      next + ch.capacity < ch.sent.length ∧
        missed = ch.sent.length - ch.capacity - next ∧ next' = ch.sent.length - ch.capacity := by
  unfold recv
  split
  · next behind => simp [behind, eq_comm]
  · next within => cases ch.sent[next]? <;> simp [within]

/-- The receiver has seen everything sent exactly when nothing is left to deliver. -/
theorem recv_eq_empty {ch : Broadcast α} {next : Nat} :
    ch.recv next = .empty ↔
      ch.sent.length ≤ next + ch.capacity ∧ ch.sent.length ≤ next := by
  unfold recv
  split
  · next behind => simp [Nat.not_le.mpr behind]
  · next within =>
    cases found : ch.sent[next]? with
    | none => simpa [Nat.not_lt.mp within] using found
    | some b =>
        have := (List.getElem?_eq_some_iff.mp found).1
        simp; omega

/-- Delivering the message at a position extends the delivered prefix by it. -/
theorem take_succ_of_recv {ch : Broadcast α} {next next' : Nat} {a : α}
    (h : ch.recv next = .message a next') :
    ch.sent.take next' = ch.sent.take next ++ [a] := by
  obtain ⟨_, found, rfl⟩ := recv_eq_message.mp h
  rw [List.take_add_one, found, Option.toList_some]

/-- What a receiver at position `next` has not received. -/
def pending (ch : Broadcast α) (next : Nat) : List α := ch.sent.drop next

@[simp] theorem pending_subscribe (ch : Broadcast α) : ch.pending ch.subscribe = [] :=
  List.drop_length

theorem pending_send {ch : Broadcast α} {next : Nat} (a : α) (within : next ≤ ch.sent.length) :
    (ch.send a).pending next = ch.pending next ++ [a] :=
  List.drop_append_of_le_length within

theorem pending_of_recv {ch : Broadcast α} {next next' : Nat} {a : α}
    (h : ch.recv next = .message a next') : ch.pending next = a :: ch.pending next' := by
  obtain ⟨_, found, rfl⟩ := recv_eq_message.mp h
  obtain ⟨inside, rfl⟩ := List.getElem?_eq_some_iff.mp found
  exact List.drop_eq_getElem_cons inside

theorem pending_of_empty {ch : Broadcast α} {next : Nat} (h : ch.recv next = .empty) :
    ch.pending next = [] :=
  List.drop_eq_nil_of_le (recv_eq_empty.mp h).2

end Broadcast
end Lumencast.Foundation
