import Mathlib.Algebra.Order.Monoid.Unbundled.MinMax
import Mathlib.Algebra.Order.Monoid.Unbundled.Pow
import Mathlib.Data.List.Induction
import Lumencast.Foundation.Spacing

/-!
# Periodic turns

Turns that come at deadlines: the next deadline is a period after the last one, or the
end of the turn if that is later. A turn that takes too long delays the later ones, and
no more than one of them is made up for. So however long the turns take, `k` periods
have at most `k + 1` turns in them.
-/

namespace Lumencast.Foundation

variable {α : Type} [AddCommMonoid α] [LinearOrder α]

/-- The deadline after turns with the given ends. -/
def cadence (period first : α) (ends : List α) : α :=
  ends.foldl (fun due e => max (due + period) e) first

section

variable {period first t : α} {ends : List α}

@[simp] theorem cadence_nil : cadence period first [] = first := rfl

theorem cadence_concat (ends : List α) (e : α) :
    cadence period first (ends ++ [e]) = max (cadence period first ends + period) e :=
  List.foldl_concat ..

/-- A deadline is not before the end of the turn before it. -/
theorem le_cadence_take {i : Nat} {e : α} (found : ends[i]? = some e) :
    e ≤ cadence period first (ends.take (i + 1)) := by
  obtain ⟨bound, rfl⟩ := List.getElem?_eq_some_iff.mp found
  rw [List.take_succ_eq_append_getElem bound, cadence_concat]
  exact le_max_right ..

variable [IsOrderedAddMonoid α]

theorem cadence_add_le_iff (k : Nat) :
    cadence period first ends + k • period ≤ t ↔ first + (ends.length + k) • period ≤ t ∧
      ∀ i e, ends[i]? = some e → e + (ends.length - 1 - i + k) • period ≤ t := by
  induction ends using List.reverseRecOn generalizing k with
  | nil => simp
  | append_singleton ends e ih =>
      have again : cadence period first ends + period + k • period =
          cadence period first ends + (k + 1) • period := by
        rw [add_assoc, add_comm period, succ_nsmul]
      rw [cadence_concat, ← max_add_add_right, max_le_iff, again, ih]
      have grown : (ends ++ [e]).length = ends.length + 1 := List.length_append
      have count : (ends ++ [e]).length + k = ends.length + (k + 1) := by omega
      rw [count, and_assoc]
      refine and_congr_right fun _ => ⟨?_, fun all => ⟨fun i e' found => ?_, ?_⟩⟩
      · rintro ⟨earlier, last⟩ i e' found
        obtain ⟨bound, rfl⟩ := List.getElem?_eq_some_iff.mp found
        by_cases inside : i < ends.length
        · have periods : (ends ++ [e]).length - 1 - i + k = ends.length - 1 - i + (k + 1) := by
            omega
          rw [List.getElem_append_left inside, periods]
          exact earlier i ends[i] (List.getElem?_eq_getElem inside)
        · have same : i = ends.length := by omega
          subst same
          have periods : (ends ++ [e]).length - 1 - ends.length + k = k := by omega
          rw [List.getElem_concat_length rfl, periods]
          exact last
      · have bound := (List.getElem?_eq_some_iff.mp found).1
        have periods : (ends ++ [e]).length - 1 - i + k = ends.length - 1 - i + (k + 1) := by omega
        rw [← periods]
        exact all i e' ((List.getElem?_append_left bound).trans found)
      · have last := all ends.length e List.getElem?_concat_length
        have periods : (ends ++ [e]).length - 1 - ends.length + k = k := by omega
        rwa [periods] at last

/-- The least deadline that the first one and the ends allow. -/
theorem cadence_le_iff :
    cadence period first ends ≤ t ↔ first + ends.length • period ≤ t ∧
      ∀ i e, ends[i]? = some e → e + (ends.length - 1 - i) • period ≤ t := by
  have shifted : cadence period first ends + 0 • period ≤ t ↔ _ := cadence_add_le_iff 0
  simpa using shifted

/-- A deadline is a period after the one before at least. -/
theorem cadence_take_add_le (i k : Nat) (enough : i + k ≤ ends.length) :
    cadence period first (ends.take i) + k • period ≤ cadence period first (ends.take (i + k)) := by
  induction k with
  | zero => simp
  | succ k ih =>
      have bound : i + k < ends.length := by omega
      rw [← Nat.add_assoc, List.take_succ_eq_append_getElem bound, cadence_concat, succ_nsmul,
        ← add_assoc]
      exact le_max_of_le_left (add_le_add_left (ih (Nat.le_of_lt bound)) period)

end

/-- Turns that begin at their deadlines or later and do not overlap. The last one may go on. -/
structure Turns (period first : α) (begun ends : List α) : Prop where
  due : ∀ (i : Nat) (b : α), begun[i]? = some b → cadence period first (ends.take i) ≤ b
  ordered : ∀ (i : Nat) (b e : α), begun[i]? = some b → ends[i]? = some e → b ≤ e
  counted : begun.length = ends.length ∨ begun.length = ends.length + 1

namespace Turns

variable {period first : α} {begun ends : List α}

theorem nil : Turns period first [] [] where
  due := by simp
  ordered := by simp
  counted := .inl rfl

theorem start (turns : Turns period first begun ends) (idle : begun.length = ends.length) {b : α}
    (due : cadence period first ends ≤ b) : Turns period first (begun ++ [b]) ends where
  due := by
    intro i b' found
    by_cases inside : i < begun.length
    · rw [List.getElem?_append_left inside] at found
      exact turns.due i b' found
    · obtain ⟨bound, rfl⟩ := List.getElem?_eq_some_iff.mp found
      have same : i = begun.length := by simp at bound; omega
      subst same
      rw [List.getElem_concat_length rfl, idle, List.take_length]
      exact due
  ordered := by
    intro i b' e found ended
    have inside : i < begun.length := idle ▸ (List.getElem?_eq_some_iff.mp ended).1
    rw [List.getElem?_append_left inside] at found
    exact turns.ordered i b' e found ended
  counted := .inr (by rw [List.length_append, List.length_singleton, idle])

theorem finish (turns : Turns period first begun ends) (busy : begun.length = ends.length + 1)
    {e : α} (later : ∀ b ∈ begun.getLast?, b ≤ e) : Turns period first begun (ends ++ [e]) where
  due := by
    intro i b found
    have bound := (List.getElem?_eq_some_iff.mp found).1
    rw [List.take_append_of_le_length (by omega)]
    exact turns.due i b found
  ordered := by
    intro i b e' found ended
    by_cases inside : i < ends.length
    · rw [List.getElem?_append_left inside] at ended
      exact turns.ordered i b e' found ended
    · obtain ⟨bound, rfl⟩ := List.getElem?_eq_some_iff.mp ended
      have same : i = ends.length := by simp at bound; omega
      subst same
      rw [List.getElem_concat_length rfl]
      refine later b ?_
      rw [Option.mem_def, List.getLast?_eq_getElem?, busy]
      exact found
  counted := .inl (by rw [List.length_append, List.length_singleton, busy])

/-- A turn begins when the one before has ended. -/
theorem end_le (turns : Turns period first begun ends) {i : Nat} {e b : α}
    (ended : ends[i]? = some e) (next : begun[i + 1]? = some b) : e ≤ b :=
  (le_cadence_take ended).trans (turns.due (i + 1) b next)

theorem exists_end (turns : Turns period first begun ends) {i j : Nat} {b : α} (before : i < j)
    (found : begun[j]? = some b) : ∃ e, ends[i]? = some e := by
  have bound := (List.getElem?_eq_some_iff.mp found).1
  have counted := turns.counted
  exact ⟨ends[i], List.getElem?_eq_getElem (by omega)⟩

theorem sorted (turns : Turns period first begun ends) : begun.Pairwise (· ≤ ·) := by
  rw [← List.isChain_iff_pairwise, List.isChain_iff_getElem]
  intro i bound
  have next := List.getElem?_eq_getElem bound
  obtain ⟨e, ended⟩ := turns.exists_end (Nat.lt_succ_self i) next
  exact (turns.ordered i _ e (List.getElem?_eq_getElem _) ended).trans (turns.end_le ended next)

variable [IsOrderedAddMonoid α]

/-- In any half-open interval of `k` periods at most `k + 1` turns begin. -/
theorem spaced (turns : Turns period first begun ends) (k : Nat) :
    Spaced (k + 1) (k • period) begun := by
  intro i b b' early late
  obtain ⟨e, ended⟩ := turns.exists_end (by omega : i < i + (k + 1)) late
  have bound := (List.getElem?_eq_some_iff.mp late).1
  have counted := turns.counted
  calc
    b + k • period ≤ e + k • period := add_le_add_left (turns.ordered i b e early ended) _
    _ ≤ cadence period first (ends.take (i + 1)) + k • period :=
      add_le_add_left (le_cadence_take ended) _
    _ ≤ cadence period first (ends.take (i + 1 + k)) :=
      cadence_take_add_le (i + 1) k (by omega)
    _ ≤ b' := by
      refine turns.due (i + 1 + k) b' ?_
      rwa [Nat.add_right_comm, Nat.add_assoc]

end Turns
end Lumencast.Foundation
