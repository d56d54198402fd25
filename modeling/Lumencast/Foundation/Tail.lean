import Lumencast.Foundation.Broadcast
import Lumencast.Foundation.Run

/-!
# Receivers that skip what they lost

A receiver of a bounded broadcast channel that passes over the report of a lag and goes on at
the oldest message the channel still holds. Its polls and the sends of the channel interleave
in any order.

`Heard` is the invariant. What the receiver has yielded, followed by what it can still yield, is
a part of what was sent since it subscribed, in order, and ends in the last messages that the
channel holds. A receiver that is never further behind than the capacity loses nothing.
-/

namespace Lumencast.Foundation

universe u

variable {α : Type u}

namespace Broadcast

/-- Receive until there is a message or nothing to receive, with `fuel` attempts at most. -/
def recvSkipping (ch : Broadcast α) : Nat → Nat → Option α × Nat
  | 0, next => (none, next)
  | fuel + 1, next =>
      match ch.recv next with
      | .message a next => (some a, next)
      | .lagged _ next => recvSkipping ch fuel next
      | .empty => (none, next)

/-- The position of the next message that is not lost. -/
def oldest (ch : Broadcast α) (next : Nat) : Nat := max next (ch.sent.length - ch.capacity)

theorem oldest_of_within {ch : Broadcast α} {next : Nat}
    (within : ch.sent.length ≤ next + ch.capacity) : ch.oldest next = next :=
  Nat.max_eq_left (by omega)

/-- After one lag the receiver is not behind, and two attempts are enough. -/
theorem recvSkipping_add_two (ch : Broadcast α) (fuel next : Nat) :
    ch.recvSkipping (fuel + 2) next =
      match ch.recv (ch.oldest next) with
      | .message a after => (some a, after)
      | .lagged .. | .empty => (none, ch.oldest next) := by
  have settles (next : Nat) (within : ch.sent.length ≤ next + ch.capacity) (fuel : Nat) :
      ch.recvSkipping (fuel + 1) next =
        match ch.recv next with
        | .message a after => (some a, after)
        | .lagged .. | .empty => (none, next) := by
    rw [recvSkipping]
    cases received : ch.recv next with
    | message a after => rfl
    | empty => rfl
    | lagged missed after =>
        exact absurd (recv_eq_lagged.mp received).1 (Nat.not_lt.mpr within)
  by_cases within : ch.sent.length ≤ next + ch.capacity
  · rw [settles next within, oldest_of_within within]
  · have behind : next + ch.capacity < ch.sent.length := Nat.not_le.mp within
    have lags : ch.recv next = .lagged (ch.sent.length - ch.capacity - next)
        (ch.sent.length - ch.capacity) := recv_eq_lagged.mpr ⟨behind, rfl, rfl⟩
    have skips : ch.oldest next = ch.sent.length - ch.capacity := Nat.max_eq_right (by omega)
    rw [recvSkipping, lags, skips]
    exact settles _ (by omega) fuel

end Broadcast

/-- A receiver with the position of its subscription and of its next message, and with what
it has yielded. -/
structure Tail (α : Type u) where
  since : Nat
  next : Nat
  yielded : List α := []

namespace Tail

def subscribe (ch : Broadcast α) : Tail α where
  since := ch.subscribe
  next := ch.subscribe

/-- One poll of the receiver. -/
def poll (ch : Broadcast α) (tail : Tail α) : Tail α :=
  let (message, next) := ch.recvSkipping 2 tail.next
  { tail with next, yielded := tail.yielded ++ message.toList }

/-- What the receiver yields if nothing else is lost. -/
def reach (ch : Broadcast α) (tail : Tail α) : List α := tail.yielded ++ ch.pending tail.next

/-- What the channel holds of the messages since a position. -/
def held (ch : Broadcast α) (since : Nat) : List α :=
  ch.sent.drop (max since (ch.sent.length - ch.capacity))

structure Heard (ch : Broadcast α) (tail : Tail α) : Prop where
  since_le : tail.since ≤ tail.next
  next_le : tail.next ≤ ch.sent.length
  part : (tail.reach ch).Sublist (ch.pending tail.since)
  last : held ch tail.since <:+ tail.reach ch

theorem heard_subscribe (ch : Broadcast α) : Heard ch (subscribe ch) where
  since_le := Nat.le_refl _
  next_le := Nat.le_refl _
  part := List.Sublist.refl _
  last := List.drop_suffix_drop_left _ (Nat.le_max_left ..)

variable {ch : Broadcast α} {tail : Tail α}

/-- What is sent can be yielded. -/
theorem Heard.reach_sends (heard : Heard ch tail) (messages : List α) :
    tail.reach { ch with sent := ch.sent ++ messages } = tail.reach ch ++ messages := by
  simp only [reach, Broadcast.pending]
  rw [List.drop_append_of_le_length heard.next_le, List.append_assoc]

theorem Heard.pending_sends (heard : Heard ch tail) (messages : List α) :
    Broadcast.pending { ch with sent := ch.sent ++ messages } tail.since =
      ch.pending tail.since ++ messages :=
  List.drop_append_of_le_length (Nat.le_trans heard.since_le heard.next_le)

/-- Messages are sent. -/
theorem Heard.sends (heard : Heard ch tail) (messages : List α) :
    Heard { ch with sent := ch.sent ++ messages } tail := by
  have since_le : tail.since ≤ ch.sent.length := Nat.le_trans heard.since_le heard.next_le
  refine ⟨heard.since_le, ?_, ?_, ?_⟩
  · rw [List.length_append]
    exact Nat.le_add_right_of_le heard.next_le
  · rw [heard.reach_sends, heard.pending_sends]
    exact heard.part.append (List.Sublist.refl _)
  · have fewer : held { ch with sent := ch.sent ++ messages } tail.since <:+
        held ch tail.since ++ messages := by
      simp only [held]
      rw [← List.drop_append_of_le_length (by omega)]
      refine List.drop_suffix_drop_left _ ?_
      rw [List.length_append]
      omega
    rw [heard.reach_sends]
    obtain ⟨front, last⟩ := heard.last
    refine fewer.trans ⟨front, ?_⟩
    rw [← List.append_assoc, last]

/-- The receiver passes over what it has lost. -/
theorem Heard.skips (heard : Heard ch tail) :
    Heard ch { tail with next := ch.oldest tail.next } := by
  have later : tail.next ≤ ch.oldest tail.next := Nat.le_max_left ..
  refine ⟨Nat.le_trans heard.since_le later, Nat.max_le.mpr ⟨heard.next_le, Nat.sub_le ..⟩, ?_, ?_⟩
  · refine List.Sublist.trans ?_ heard.part
    exact (List.Sublist.refl _).append (List.drop_sublist_drop_left _ later)
  · by_cases within : ch.sent.length ≤ tail.next + ch.capacity
    · rw [Broadcast.oldest_of_within within]
      exact heard.last
    · have skips : ch.oldest tail.next = ch.sent.length - ch.capacity :=
        Nat.max_eq_right (by omega)
      rw [skips]
      exact (List.drop_suffix_drop_left _ (Nat.le_max_right ..)).trans (List.suffix_append ..)

/-- The receiver yields the next message. -/
theorem Heard.takes (heard : Heard ch tail) {a : α} {next : Nat}
    (received : ch.recv tail.next = .message a next) :
    Heard ch { tail with next, yielded := tail.yielded ++ [a] } := by
  have same : reach ch { tail with next, yielded := tail.yielded ++ [a] } = tail.reach ch := by
    rw [reach, reach, Broadcast.pending_of_recv received, List.append_assoc]
    rfl
  obtain ⟨_, found, rfl⟩ := Broadcast.recv_eq_message.mp received
  have inside := (List.getElem?_eq_some_iff.mp found).1
  refine ⟨Nat.le_succ_of_le heard.since_le, inside, ?_, ?_⟩
  · rw [same]
    exact heard.part
  · rw [same]
    exact heard.last

/-- A poll yields the next message that is not lost, if there is one. -/
theorem poll_cases (ch : Broadcast α) (tail : Tail α) :
    (∃ a next, ch.recv (ch.oldest tail.next) = .message a next ∧
        tail.poll ch = { tail with next, yielded := tail.yielded ++ [a] }) ∨
      tail.poll ch = { tail with next := ch.oldest tail.next } := by
  rw [poll, Broadcast.recvSkipping_add_two ch 0]
  cases received : ch.recv (ch.oldest tail.next) with
  | message a next => exact .inl ⟨a, next, rfl, rfl⟩
  | lagged | empty => exact .inr (by simp)

@[simp] theorem poll_since (ch : Broadcast α) (tail : Tail α) :
    (tail.poll ch).since = tail.since := by
  rcases poll_cases ch tail with ⟨a, next, _, polled⟩ | polled <;> rw [polled]

theorem Heard.polls (heard : Heard ch tail) : Heard ch (tail.poll ch) := by
  rcases poll_cases ch tail with ⟨a, next, received, polled⟩ | polled
  · rw [polled]
    exact heard.skips.takes received
  · rw [polled]
    exact heard.skips

/-- Nothing is lost in a poll that is not behind. -/
theorem reach_poll (within : ch.sent.length ≤ tail.next + ch.capacity) :
    (tail.poll ch).reach ch = tail.reach ch := by
  have stays := Broadcast.oldest_of_within within
  rcases poll_cases ch tail with ⟨a, next, received, polled⟩ | polled
  · rw [stays] at received
    rw [polled, reach, reach, Broadcast.pending_of_recv received, List.append_assoc]
    rfl
  · rw [polled, stays]

end Tail
end Lumencast.Foundation
