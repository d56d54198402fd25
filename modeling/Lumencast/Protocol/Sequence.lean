import Lumencast.Foundation.Machine
import Lumencast.Protocol.Frames

/-!
# Sequence tracking

The client-side tracker of frame sequence numbers. `last = 0` means that no
frame was observed yet: the first number then becomes the baseline.
-/

namespace Lumencast.Protocol

open Foundation

structure SequenceTracker where
  last : Nat
  deriving DecidableEq, Repr

inductive Observation where
  | accepted
  | duplicate
  | heartbeat
  deriving DecidableEq, Repr

namespace SequenceTracker

def new : SequenceTracker := ⟨0⟩

def observeSeq (t : SequenceTracker) (seq : Nat) :
    Except LumencastError (Observation × SequenceTracker) :=
  if t.last = 0 ∧ seq < 1 then .error (.sequenceGap 1 seq)
  else if t.last = 0 then .ok (.accepted, ⟨seq⟩)
  else if seq ≤ t.last then .ok (.duplicate, t)
  else
    let expected := t.last + 1
    if seq ≠ expected then .error (.sequenceGap expected seq)
    else .ok (.accepted, ⟨seq⟩)

/-- `observeSeq` with the successor of the last number checked against the range of its type. -/
def observeSeqChecked (t : SequenceTracker) (seq : Nat) :
    Option (Except LumencastError (Observation × SequenceTracker)) :=
  if t.last = 0 ∧ seq < 1 then some (.error (.sequenceGap 1 seq))
  else if t.last = 0 then some (.ok (.accepted, ⟨seq⟩))
  else if seq ≤ t.last then some (.ok (.duplicate, t))
  else do
    let expected ← unsigned 64 (t.last + 1)
    if seq ≠ expected then some (.error (.sequenceGap expected seq))
    else some (.ok (.accepted, ⟨seq⟩))

/-- Feed a whole frame; a `pong` leaves the tracker untouched. -/
def observe (t : SequenceTracker) (frame : ServerFrame) :
    Except LumencastError (Observation × SequenceTracker) :=
  match frame.seq with
  | none => .ok (.heartbeat, t)
  | some seq => t.observeSeq seq

def reset (_ : SequenceTracker) : SequenceTracker := ⟨0⟩

/-- A fresh tracker takes any positive number as its baseline. -/
theorem observeSeq_fresh {seq : Nat} (positive : 1 ≤ seq) :
    observeSeq ⟨0⟩ seq = .ok (.accepted, ⟨seq⟩) := by
  have : ¬seq < 1 := Nat.not_lt.mpr positive
  simp [observeSeq, this]

theorem observeSeq_duplicate {t : SequenceTracker} {seq : Nat} (seen : 1 ≤ t.last)
    (old : seq ≤ t.last) : t.observeSeq seq = .ok (.duplicate, t) := by
  have : t.last ≠ 0 := Nat.ne_of_gt seen
  simp [observeSeq, this, old]

theorem observeSeq_next (t : SequenceTracker) :
    t.observeSeq (t.last + 1) = .ok (.accepted, ⟨t.last + 1⟩) := by
  simp [observeSeq]

theorem observeSeq_gap {t : SequenceTracker} {seq : Nat} (seen : 1 ≤ t.last)
    (skipped : t.last + 1 < seq) :
    t.observeSeq seq = .error (.sequenceGap (t.last + 1) seq) := by
  have nonzero : t.last ≠ 0 := Nat.ne_of_gt seen
  have above : ¬seq ≤ t.last := by omega
  have apart : seq ≠ t.last + 1 := by omega
  simp [observeSeq, nonzero, above, apart]

/-- The successor is only formed below a larger number, so it exists. -/
theorem observeSeqChecked_eq (t : SequenceTracker) {seq : Nat} (fits : seq < 2 ^ 64) :
    t.observeSeqChecked seq = some (t.observeSeq seq) := by
  unfold observeSeqChecked observeSeq
  split
  · rfl
  · split
    · rfl
    · split
      · rfl
      · next above =>
        refine unsigned_bind_eq (t.last + 1) rfl (by omega) ?_
        exact (apply_ite some ..).symm

/-- What one number can do to a tracker. -/
theorem observeSeq_cases (t : SequenceTracker) (seq : Nat) :
    (t.last = 0 ∧ seq = 0 ∧ t.observeSeq seq = .error (.sequenceGap 1 0)) ∨
      (t.last = 0 ∧ 1 ≤ seq ∧ t.observeSeq seq = .ok (.accepted, ⟨seq⟩)) ∨
      (1 ≤ t.last ∧ seq ≤ t.last ∧ t.observeSeq seq = .ok (.duplicate, t)) ∨
      (1 ≤ t.last ∧ seq = t.last + 1 ∧ t.observeSeq seq = .ok (.accepted, ⟨seq⟩)) ∨
      (1 ≤ t.last ∧ t.last + 1 < seq ∧
        t.observeSeq seq = .error (.sequenceGap (t.last + 1) seq)) := by
  rcases Nat.eq_zero_or_pos t.last with fresh | seen
  · obtain rfl : t = ⟨0⟩ := by rw [← fresh]
    rcases Nat.eq_zero_or_pos seq with rfl | positive
    · exact .inl ⟨rfl, rfl, rfl⟩
    · exact .inr (.inl ⟨rfl, positive, observeSeq_fresh positive⟩)
  · refine .inr (.inr ?_)
    rcases Nat.lt_trichotomy seq (t.last + 1) with old | rfl | skipped
    · have old := Nat.le_of_lt_succ old
      exact .inl ⟨seen, old, observeSeq_duplicate seen old⟩
    · exact .inr (.inl ⟨seen, rfl, observeSeq_next t⟩)
    · exact .inr (.inr ⟨seen, skipped, observeSeq_gap seen skipped⟩)

end SequenceTracker
end Lumencast.Protocol
