import Mathlib.Tactic.Common

/-!
# A watched value

A channel that keeps the last value sent, counts the values and knows when the
last sender is gone. A receiver remembers the number of the value it saw last; it
is answered while something newer is there and from the end of the senders on.
-/

namespace Lumencast.Foundation

universe u

structure Watch (α : Type u) where
  value : α
  version : Nat
  closed : Bool

namespace Watch

/-- What the side of the senders does. -/
inductive Signal (α : Type u) where
  | send (value : α)
  | close
deriving DecidableEq

variable {α : Type u}

/-- Nothing is sent once the last sender is gone. -/
def after (w : Watch α) : Signal α → Watch α
  | .send value => if w.closed then w else { w with value, version := w.version + 1 }
  | .close => { w with closed := true }

def afterAll (w : Watch α) (signals : List (Signal α)) : Watch α := signals.foldl after w

/-- The answer to a receiver that saw the value `seen` last: the number of a newer value, an
error once no sender is left, `none` while the receiver waits. -/
def changed (w : Watch α) (seen : Nat) : Option (Except Unit Nat) :=
  if w.version ≠ seen then some (.ok w.version)
  else if w.closed then some (.error ())
  else none

theorem changed_eq_none_iff {w : Watch α} {seen : Nat} :
    w.changed seen = none ↔ w.version = seen ∧ w.closed = false := by
  unfold changed
  split
  · next newer => simp [newer]
  · next same =>
      have eq : w.version = seen := not_not.mp same
      split
      · next closed => simp [closed]
      · next alive => simp [eq, alive]

/-- Something that `changed` reports stays to be reported. -/
private theorem stirred_after {w : Watch α} {seen : Nat}
    (stirred : seen < w.version ∨ w.closed = true) (signal : Signal α) :
    seen < (w.after signal).version ∨ (w.after signal).closed = true := by
  cases signal with
  | close => exact .inr rfl
  | send value =>
      by_cases closed : w.closed = true
      · rw [after, if_pos closed]
        exact stirred
      · rw [after, if_neg closed]
        exact stirred.imp_left Nat.lt_succ_of_lt

private theorem stirred_afterAll {w : Watch α} {seen : Nat}
    (stirred : seen < w.version ∨ w.closed = true) (signals : List (Signal α)) :
    seen < (w.afterAll signals).version ∨ (w.afterAll signals).closed = true := by
  induction signals generalizing w with
  | nil => exact stirred
  | cons signal signals ih => exact ih (stirred_after stirred signal)

/-- A receiver that waits is answered after any signal and only then. -/
theorem changed_afterAll_eq_none_iff {w : Watch α} {seen : Nat} (waits : w.changed seen = none)
    (signals : List (Signal α)) : (w.afterAll signals).changed seen = none ↔ signals = [] := by
  obtain ⟨same, alive⟩ := changed_eq_none_iff.mp waits
  cases signals with
  | nil => exact iff_of_true waits rfl
  | cons signal signals =>
      have first : seen < (w.after signal).version ∨ (w.after signal).closed = true := by
        cases signal with
        | close => exact .inr rfl
        | send value =>
            left
            rw [after, alive, if_neg Bool.false_ne_true, same]
            exact Nat.lt_succ_self seen
      have later := stirred_afterAll first signals
      refine iff_of_false (fun none => ?_) (List.cons_ne_nil _ _)
      obtain ⟨eq, still⟩ := changed_eq_none_iff.mp none
      rcases later with newer | closed
      · exact absurd eq (Nat.ne_of_gt newer)
      · exact absurd (still.symm.trans closed) Bool.false_ne_true

end Watch

end Lumencast.Foundation
