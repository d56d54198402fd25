import Lumencast.Foundation.Numbers
import Lumencast.Protocol.Sequence
import Lumencast.Server.SceneOp

/-!
# Resuming from the replay ring

The counter of a scene is advanced by emissions, which leave a record in the
ring, and by scene changes, which leave none. The ring decides from its oldest
record alone whether it covers a resume point, so a number taken by a change is
missing from an answer that claims to be complete.

`Logged` ties the ring to the complete log of emissions and to the numbers that
changes took: together they are the numbers from 2 up to the counter.
-/

namespace Lumencast.Server

open Foundation Protocol

variable {Text : Type}

namespace Scene

variable {T : TextLayer Text}

/-- The numbers that the scene changes among the operations take. -/
def changeSeqs (T : TextLayer Text) (s : Scene Text) : List (SceneOp Text) → List Nat
  | [] => []
  | .advanceSeqForChange :: ops => s.nextSeq :: (s.apply T .advanceSeqForChange).changeSeqs T ops
  | op :: ops => (s.apply T op).changeSeqs T ops

/-- A tracker accepts all the numbers in turn. -/
def acceptsAll : SequenceTracker → List Nat → Bool
  | _, [] => true
  | t, n :: ns =>
      match t.observeSeq n with
      | .ok (.accepted, t) => acceptsAll t ns
      | _ => false

/-- What a client that stopped at `since` needs from the answer to its resume. -/
def ResumesFrom (s : Scene Text) (since : Nat) : Prop :=
  let slice := s.replaySince since
  if slice.covered then
    slice.records.map (·.seq) = numbersAbove since s.currentSeq ∧
      acceptsAll ⟨since⟩ (slice.records.map (·.seq) ++ [s.nextSeq])
  else slice.records = []

instance (s : Scene Text) (since : Nat) : Decidable (s.ResumesFrom since) :=
  inferInstanceAs (Decidable (if (s.replaySince since).covered then
    (s.replaySince since).records.map (·.seq) = numbersAbove since s.currentSeq ∧
      acceptsAll ⟨since⟩ ((s.replaySince since).records.map (·.seq) ++ [s.nextSeq])
  else (s.replaySince since).records = []))

/-- The ring holds the latest records of the log, and the log and the scene
changes share the numbers up to the counter. -/
structure Logged (s : Scene Text) (log : List ReplayRecord) (changes : List Nat) : Prop where
  started : 1 ≤ s.seq
  positive : 0 < s.replay.cap
  window : s.replay.IsWindow log
  numbers : log.map (·.seq) = (numbersAbove 1 s.seq).filter fun n => n ∉ changes
  bounded : ∀ n ∈ changes, n ≤ s.seq

namespace Logged

variable {s : Scene Text} {log : List ReplayRecord} {changes : List Nat}

theorem fresh (id : SceneId) (version : SceneVersion) (defaults : List (String × Value)) :
    Logged ((Scene.new id version : Scene Text).seed defaults) [] [] where
  started := Nat.le_refl 1
  positive := ReplayBuffer.cap_new_pos _
  window := ReplayBuffer.isWindow_new _
  numbers := rfl
  bounded := by simp

theorem change (logged : Logged s log changes) :
    Logged s.advanceSeq log (changes ++ [s.nextSeq]) where
  started := Nat.le_succ_of_le logged.started
  positive := logged.positive
  window := logged.window
  numbers := by
    have below : ∀ n ∈ numbersAbove 1 s.seq, n ≠ s.nextSeq := fun n hn =>
      Nat.ne_of_lt (Nat.lt_succ_of_le (mem_numbersAbove.mp hn).2)
    have step : numbersAbove 1 s.advanceSeq.seq = numbersAbove 1 s.seq ++ [s.nextSeq] :=
      numbersAbove_succ logged.started
    rw [logged.numbers, step, List.filter_append, List.filter_cons_of_neg (by simp),
      List.filter_nil, List.append_nil]
    exact List.filter_congr fun n hn => by simp [below n hn]
  bounded := by
    intro n hn
    rcases List.mem_append.mp hn with old | new
    · exact Nat.le_succ_of_le (logged.bounded n old)
    · rw [List.mem_singleton.mp new]
      exact Nat.le_refl _

theorem publish (logged : Logged s log changes) (patches : List Patch) (cause : Option Cause) :
    Logged (s.publish patches cause) (log ++ [⟨s.nextSeq, patches, cause⟩]) changes where
  started := Nat.le_succ_of_le logged.started
  positive := logged.positive
  window := logged.window.push logged.positive _
  numbers := by
    have unused : s.nextSeq ∉ changes := fun hn =>
      Nat.not_succ_le_self _ (logged.bounded _ hn)
    have step : numbersAbove 1 (s.publish patches cause).seq =
        numbersAbove 1 s.seq ++ [s.nextSeq] := numbersAbove_succ logged.started
    rw [step, List.map_append, logged.numbers, List.filter_append,
      List.filter_cons_of_pos (by simpa using unused)]
    rfl
  bounded := fun n hn => Nat.le_succ_of_le (logged.bounded n hn)

theorem apply (logged : Logged s log changes) (op : SceneOp Text) :
    ∃ log, Logged (s.apply T op) log (changes ++ s.changeSeqs T [op]) := by
  rcases s.apply_cases (T := T) op with ⟨rfl, eq⟩ | ⟨kept, same | ⟨_, patches, cause, _, eq⟩⟩
  · exact ⟨log, by simpa [changeSeqs, eq] using logged.change⟩
  · have none_taken : s.changeSeqs T [op] = [] := by cases op <;> simp_all [changeSeqs]
    exact ⟨log, by rwa [same, none_taken, List.append_nil]⟩
  · have none_taken : s.changeSeqs T [op] = [] := by cases op <;> simp_all [changeSeqs]
    exact ⟨_, by rw [eq, none_taken, List.append_nil]; exact logged.publish patches cause⟩

theorem applyAll (logged : Logged s log changes) (ops : List (SceneOp Text)) :
    ∃ log, Logged (s.applyAll T ops) log (changes ++ s.changeSeqs T ops) := by
  induction ops generalizing s log changes with
  | nil => exact ⟨log, by simpa [changeSeqs, Scene.applyAll] using logged⟩
  | cons op ops ih =>
      obtain ⟨log', next⟩ := logged.apply (T := T) op
      have split : s.changeSeqs T (op :: ops) =
          s.changeSeqs T [op] ++ (s.apply T op).changeSeqs T ops := by
        cases op <;> simp [changeSeqs]
      rw [split, ← List.append_assoc]
      exact ih next

/-- A covered resume point is answered with all emissions above it. -/
theorem records_of_covered (logged : Logged s log changes) {since : Nat}
    (covered : (s.replaySince since).covered = true) :
    (s.replaySince since).records = log.filter fun r => since < r.seq := by
  have increasing : log.Pairwise fun a b => a.seq < b.seq := by
    have sorted := (pairwise_numbersAbove 1 s.seq).filter fun n => n ∉ changes
    rw [← logged.numbers] at sorted
    exact List.pairwise_map.mp sorted
  exact logged.window.records_of_covered logged.positive increasing covered

/-- The numbers of the log above a point that no scene change took. -/
theorem numbers_above (logged : Logged s log changes) {since : Nat} (positive : 1 ≤ since)
    (unchanged : ∀ n ∈ changes, n ≤ since) :
    (log.filter fun r => since < r.seq).map (·.seq) = numbersAbove since s.seq := by
  have above : (log.filter fun r => since < r.seq).map (·.seq) =
      (log.map (·.seq)).filter fun n => since < n := by
    rw [List.filter_map]
    rfl
  rw [above, logged.numbers, List.filter_filter, ← filter_numbersAbove positive]
  refine List.filter_congr fun n _ => ?_
  by_cases later : since < n
  · have untaken : n ∉ changes := fun hn => Nat.not_lt.mpr (unchanged n hn) later
    simp [later, untaken]
  · simp [later]

end Logged

theorem acceptsAll_numbersAbove (since : Nat) {seq : Nat} (le : since ≤ seq) :
    acceptsAll ⟨since⟩ (numbersAbove since seq) = true := by
  induction h : seq - since generalizing since with
  | zero =>
      rw [numbersAbove_eq_nil (by omega)]
      rfl
  | succ k ih =>
      rw [numbersAbove_eq_cons (by omega), acceptsAll,
        show SequenceTracker.observeSeq ⟨since⟩ (since + 1) = _ from
          SequenceTracker.observeSeq_next ⟨since⟩]
      exact ih (since + 1) (by omega) (by omega)

/-- For every sequence of operations on a new scene, and every resume point up to
its counter: the resume is free of gaps exactly when no scene change took a
number above that point, or the ring no longer reaches down to it. -/
theorem resumesFrom_iff (T : TextLayer Text) (id : SceneId) (version : SceneVersion)
    (defaults : List (String × Value)) (ops : List (SceneOp Text)) (since : Nat) :
    let start : Scene Text := (Scene.new id version).seed defaults
    let s := start.applyAll T ops
    1 ≤ since → since ≤ s.currentSeq →
      (s.ResumesFrom since ↔
        (∀ n ∈ start.changeSeqs T ops, n ≤ since) ∨
          ∃ earliest ∈ s.replay.records.head?, since + 1 < earliest.seq) := by
  intro start s positive le
  obtain ⟨log, logged⟩ :=
    (Logged.fresh id version defaults : Logged start [] []).applyAll (T := T) ops
  rw [List.nil_append] at logged
  change Logged s log (start.changeSeqs T ops) at logged
  simp only [ResumesFrom]
  cases covered : (s.replaySince since).covered with
  | false =>
      have reach : ∃ earliest ∈ s.replay.records.head?, since + 1 < earliest.seq := by
        by_contra none_above
        have : (s.replaySince since).covered = true := ReplayBuffer.since_covered_iff.mpr
          fun earliest h => Nat.not_lt.mp fun lt => none_above ⟨earliest, h, lt⟩
        rw [covered] at this
        cases this
      have refused : (s.replaySince since).records = [] :=
        ReplayBuffer.since_records_of_not_covered covered
      simp only [Bool.false_eq_true, if_false, refused, reach, or_true]
  | true =>
      have short : ¬∃ earliest ∈ s.replay.records.head?, since + 1 < earliest.seq := by
        rintro ⟨earliest, h, lt⟩
        exact Nat.not_lt.mpr (ReplayBuffer.since_covered_iff.mp covered earliest h) lt
      simp only [if_true, short, or_false, logged.records_of_covered covered]
      constructor
      · rintro ⟨numbers, _⟩ n taken
        by_contra above
        have member : n ∈ numbersAbove since s.currentSeq :=
          mem_numbersAbove.mpr ⟨Nat.not_le.mp above, logged.bounded n taken⟩
        rw [← numbers] at member
        obtain ⟨r, hr, rfl⟩ := List.mem_map.mp member
        have recorded : r.seq ∈ log.map (·.seq) :=
          List.mem_map_of_mem (List.mem_of_mem_filter hr)
        rw [logged.numbers] at recorded
        simpa [taken] using List.of_mem_filter recorded
      · intro unchanged
        have numbers := logged.numbers_above positive unchanged
        refine ⟨numbers, ?_⟩
        have next : numbersAbove since s.seq ++ [s.nextSeq] = numbersAbove since s.nextSeq :=
          (numbersAbove_succ le).symm
        rw [numbers, next]
        exact acceptsAll_numbersAbove since (Nat.le_succ_of_le le)

private def values : TextLayer Value := valuePlatform.toTextLayer

private def studio : Scene Value := (Scene.new "studio" "v1").seed []

private def lampOn : SceneOp Value := .emit [("lamp", .bool true)] none

theorem resumesFrom_iff_two_emissions :
    1 ≤ 2 ∧ 2 ≤ (studio.applyAll values [lampOn, lampOn]).currentSeq ∧
      (studio.applyAll values [lampOn, lampOn]).ResumesFrom 2 :=
  ⟨by decide, by decide, (resumesFrom_iff values "studio" "v1" [] [lampOn, lampOn] 2
    (by decide) (by decide)).mpr (.inl (by decide))⟩

/-- The ring reports the point before a scene change as covered and leaves out the
number that the change took. -/
theorem not_resumesFrom_before_change :
    1 ≤ 2 ∧ 2 ≤ (studio.applyAll values [lampOn, .advanceSeqForChange]).currentSeq ∧
      ¬(studio.applyAll values [lampOn, .advanceSeqForChange]).ResumesFrom 2 := by
  decide

end Scene
end Lumencast.Server
