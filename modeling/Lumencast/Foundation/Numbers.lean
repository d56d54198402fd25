import Mathlib.Data.List.Basic

/-!
# Consecutive numbers

`numbersAbove low high` lists `low + 1, …, high`. Sequence numbers are handed out
one above the last, so a history without holes is such a list and its part above
a resume point is one as well.
-/

namespace Lumencast.Foundation

/-- The numbers above `low`, up to `high`. -/
def numbersAbove (low high : Nat) : List Nat := List.range' (low + 1) (high - low)

@[simp] theorem mem_numbersAbove {low high n : Nat} :
    n ∈ numbersAbove low high ↔ low < n ∧ n ≤ high := by
  rw [numbersAbove, List.mem_range'_1]
  omega

theorem numbersAbove_eq_nil {low high : Nat} (h : high ≤ low) : numbersAbove low high = [] := by
  rw [numbersAbove, Nat.sub_eq_zero_of_le h, List.range'_zero]

theorem numbersAbove_succ {low high : Nat} (h : low ≤ high) :
    numbersAbove low (high + 1) = numbersAbove low high ++ [high + 1] := by
  rw [numbersAbove, Nat.succ_sub h, List.range'_1_concat, ← numbersAbove]
  congr 2
  omega

theorem numbersAbove_eq_cons {low high : Nat} (h : low < high) :
    numbersAbove low high = (low + 1) :: numbersAbove (low + 1) high := by
  rw [numbersAbove, numbersAbove, List.range'_eq_cons_iff.mpr ⟨rfl, by omega, rfl⟩]
  congr 2

theorem pairwise_numbersAbove (low high : Nat) : (numbersAbove low high).Pairwise (· < ·) :=
  List.pairwise_lt_range'

/-- The numbers above a later point. -/
theorem filter_numbersAbove {low since high : Nat} (h : low ≤ since) :
    (numbersAbove low high).filter (fun n => since < n) = numbersAbove since high := by
  induction high with
  | zero => simp [numbersAbove]
  | succ high ih =>
      by_cases below : low ≤ high
      · rw [numbersAbove_succ below, List.filter_append, ih]
        by_cases reached : since ≤ high
        · rw [numbersAbove_succ reached, List.filter_cons_of_pos (by simpa using by omega),
            List.filter_nil]
        · have none_above : numbersAbove since high = [] := numbersAbove_eq_nil (by omega)
          have none_reached : numbersAbove since (high + 1) = [] := numbersAbove_eq_nil (by omega)
          rw [none_above, none_reached, List.filter_cons_of_neg (by simpa using by omega)]
          rfl
      · rw [numbersAbove_eq_nil (by omega), numbersAbove_eq_nil (by omega), List.filter_nil]

/-- A front part of consecutive numbers is determined by its length. -/
theorem eq_numbersAbove_of_prefix {low high : Nat} {l : List Nat}
    (h : l <+: numbersAbove low high) : l = numbersAbove low (low + l.length) := by
  have le : l.length ≤ high - low := by simpa [numbersAbove] using h.length_le
  rw [List.prefix_iff_eq_take.mp h, numbersAbove, numbersAbove, List.length_take,
    List.length_range', Nat.min_eq_left le, Nat.add_sub_cancel_left]
  exact List.take_range'_of_length_ge le

/-- An increasing list that contains everything between its members. -/
theorem exists_eq_numbersAbove {l : List Nat} (increasing : l.Pairwise (· < ·))
    (positive : ∀ n ∈ l, 1 ≤ n)
    (convex : ∀ m ∈ l, ∀ k ∈ l, ∀ n, m < n → n ≤ k → n ∈ l) :
    ∃ low high, low ≤ high ∧ l = numbersAbove low high := by
  induction l with
  | nil => exact ⟨0, 0, Nat.le_refl 0, rfl⟩
  | cons a rest ih =>
      obtain ⟨least, increasing⟩ := List.pairwise_cons.mp increasing
      have inner : ∀ m ∈ rest, ∀ k ∈ rest, ∀ n, m < n → n ≤ k → n ∈ rest := by
        intro m hm k hk n lt le
        have member := convex m (List.mem_cons_of_mem a hm) k (List.mem_cons_of_mem a hk) n lt le
        exact (List.mem_cons.mp member).resolve_left (Nat.ne_of_gt (Nat.lt_trans (least m hm) lt))
      obtain ⟨low, high, le, eq⟩ := ih increasing
        (fun n hn => positive n (List.mem_cons_of_mem a hn)) inner
      have one : 1 ≤ a := positive a List.mem_cons_self
      rcases Nat.lt_or_eq_of_le le with lt | rfl
      · have first : low + 1 ∈ rest := by
          rw [eq]
          exact mem_numbersAbove.mpr ⟨Nat.lt_succ_self low, lt⟩
        have next : a + 1 ∈ rest := by
          have member := convex a List.mem_cons_self (low + 1) (List.mem_cons_of_mem a first)
            (a + 1) (Nat.lt_succ_self a) (least _ first)
          exact (List.mem_cons.mp member).resolve_left (Nat.succ_ne_self a)
        have after : low < a + 1 ∧ a + 1 ≤ high := mem_numbersAbove.mp (eq ▸ next)
        obtain rfl : low = a := by
          have := least _ first
          omega
        refine ⟨low - 1, high, by omega, ?_⟩
        rw [numbersAbove_eq_cons (by omega), Nat.sub_add_cancel one, eq]
      · refine ⟨a - 1, a, by omega, ?_⟩
        rw [numbersAbove_eq_nil (Nat.le_refl low)] at eq
        rw [numbersAbove_eq_cons (by omega), Nat.sub_add_cancel one,
          numbersAbove_eq_nil (Nat.le_refl a), eq]

end Lumencast.Foundation
