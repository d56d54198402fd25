import Mathlib.Algebra.Order.Monoid.Defs
import Mathlib.Data.List.Chain
import Mathlib.Tactic.Common

/-!
# Spaced sequences

A sorted sequence has at most `n` entries in every half-open interval of length
`w` exactly if entries `n` places apart are at least `w` apart. For a sequence
made of blocks, where blocks that are not neighbours are far from each other,
this is a question about neighbouring blocks only.
-/

namespace Lumencast.Foundation

variable {α : Type} [Add α] [LinearOrder α]

/-- Entries `n` places apart are at least `w` apart. -/
def Spaced (n : Nat) (w : α) (l : List α) : Prop :=
  ∀ i x y, l[i]? = some x → l[i + n]? = some y → x + w ≤ y

instance (n : Nat) (w : α) (l : List α) : Decidable (Spaced n w l) :=
  decidable_of_iff (∀ i < l.length, ∀ x ∈ l[i]?, ∀ y ∈ l[i + n]?, x + w ≤ y)
    ⟨fun spaced i x y early late =>
      spaced i (List.getElem?_eq_some_iff.mp early).1 x early y late,
      fun spaced i _ x early y late => spaced i x y early late⟩

namespace Spaced

variable {n : Nat} {w : α} {l : List α}

theorem of_length_le (short : l.length ≤ n) : Spaced n w l := by
  intro i x y _ later
  rw [List.getElem?_eq_none (Nat.le_trans short (Nat.le_add_left n i))] at later
  cases later

theorem tail {x : α} (spaced : Spaced n w (x :: l)) : Spaced n w l := by
  intro i y z early late
  refine spaced (i + 1) y z early ?_
  rw [Nat.add_right_comm, List.getElem?_cons_succ]
  exact late

/-- Three parts whose outer ones are far apart are spaced if both overlaps are. -/
theorem append_append_iff {a b c : List α} (far : ∀ x ∈ a, ∀ y ∈ c, x + w ≤ y) :
    Spaced n w (a ++ b ++ c) ↔ Spaced n w (a ++ b) ∧ Spaced n w (b ++ c) := by
  constructor
  · intro spaced
    refine ⟨fun i x y early late => ?_, fun i x y early late => ?_⟩
    · refine spaced i x y ?_ ?_
      · rw [List.getElem?_append_left (List.getElem?_eq_some_iff.mp early).1, early]
      · rw [List.getElem?_append_left (List.getElem?_eq_some_iff.mp late).1, late]
    · refine spaced (a.length + i) x y ?_ ?_
      · rw [List.append_assoc, List.getElem?_append_right (Nat.le_add_right ..),
          Nat.add_sub_cancel_left, early]
      · rw [List.append_assoc, Nat.add_assoc, List.getElem?_append_right (Nat.le_add_right ..),
          Nat.add_sub_cancel_left, late]
  · rintro ⟨front, back⟩ i x y early late
    by_cases inside : i < a.length
    · by_cases reaches : i + n < (a ++ b).length
      · refine front i x y ?_ ?_
        · rw [List.append_assoc, List.getElem?_append_left inside] at early
          rw [List.getElem?_append_left inside, early]
        · rw [List.getElem?_append_left reaches] at late
          exact late
      · -- the later entry lies behind the middle part
        rw [List.append_assoc, List.getElem?_append_left inside] at early
        rw [List.getElem?_append_right (Nat.not_lt.mp reaches)] at late
        exact far x (List.mem_of_getElem? early) y (List.mem_of_getElem? late)
    · have start := Nat.not_lt.mp inside
      refine back (i - a.length) x y ?_ ?_
      · rw [List.append_assoc, List.getElem?_append_right start] at early
        exact early
      · rw [List.append_assoc, List.getElem?_append_right (by omega)] at late
        rw [← late]
        congr 1
        omega

/-- A spaced sorted sequence is sparse in every half-open interval. -/
theorem countP_le [AddRightMono α] (sorted : l.Pairwise (· ≤ ·)) (spaced : Spaced n w l) (t : α) :
    l.countP (fun x => t ≤ x ∧ x < t + w) ≤ n := by
  induction l with
  | nil => exact Nat.zero_le n
  | cons x l ih =>
      by_cases early : t ≤ x
      · have above : ((x :: l).drop n).countP (fun x => t ≤ x ∧ x < t + w) = 0 := by
          refine List.countP_eq_zero.mpr fun y member => ?_
          obtain ⟨i, found⟩ := List.mem_iff_getElem?.mp member
          rw [List.getElem?_drop] at found
          have first : ∃ z, (x :: l)[n]? = some z ∧ z ≤ y := by
            have bound : n < (x :: l).length :=
              Nat.lt_of_le_of_lt (Nat.le_add_right n i) (List.getElem?_eq_some_iff.mp found).1
            refine ⟨(x :: l)[n], List.getElem?_eq_getElem bound, ?_⟩
            obtain ⟨bound', rfl⟩ := List.getElem?_eq_some_iff.mp found
            rcases Nat.eq_zero_or_pos i with rfl | later
            · exact le_rfl
            · exact List.pairwise_iff_getElem.mp sorted n (n + i) bound bound' (by omega)
          obtain ⟨z, reached, le⟩ := first
          have apart := spaced 0 x z rfl (by rwa [Nat.zero_add])
          have behind : t + w ≤ y := (add_le_add_left early w).trans (apart.trans le)
          simp [not_lt.mpr behind]
        rw [← List.take_append_drop n (x :: l), List.countP_append, above, Nat.add_zero]
        exact Nat.le_trans List.countP_le_length (List.length_take_le ..)
      · rw [List.countP_cons_of_neg (by simp [early])]
        exact ih (List.pairwise_cons.mp sorted).2 spaced.tail

/-- A sorted sequence that is sparse in every half-open interval is spaced. -/
theorem of_countP_le (sorted : l.Pairwise (· ≤ ·))
    (sparse : ∀ t, l.countP (fun x => t ≤ x ∧ x < t + w) ≤ n) : Spaced n w l := by
  intro i x y early late
  by_contra close
  obtain ⟨first, rfl⟩ := List.getElem?_eq_some_iff.mp early
  obtain ⟨last, rfl⟩ := List.getElem?_eq_some_iff.mp late
  -- all entries from the one to the other lie in the interval that starts at the first
  have all : ((l.drop i).take (n + 1)).countP (fun x => l[i] ≤ x ∧ x < l[i] + w) = n + 1 := by
    have length : ((l.drop i).take (n + 1)).length = n + 1 := by
      rw [List.length_take, List.length_drop]
      omega
    rw [List.countP_eq_length.mpr, length]
    intro z member
    obtain ⟨j, bound, rfl⟩ := List.mem_iff_getElem.mp member
    rw [List.getElem_take, List.getElem_drop]
    rw [length] at bound
    have below : l[i] ≤ l[i + j] := by
      rcases Nat.eq_zero_or_pos j with rfl | later
      · exact le_rfl
      · exact List.pairwise_iff_getElem.mp sorted i (i + j) first (by omega) (by omega)
    have above : l[i + j] ≤ l[i + n] := by
      rcases Nat.eq_or_lt_of_le (Nat.le_of_lt_succ bound) with rfl | earlier
      · exact le_rfl
      · exact List.pairwise_iff_getElem.mp sorted (i + j) (i + n) (by omega) last (by omega)
    simpa using ⟨below, above.trans_lt (not_le.mp close)⟩
  have part : ((l.drop i).take (n + 1)).Sublist l :=
    (List.take_sublist ..).trans (List.drop_sublist ..)
  have most := Nat.le_trans (part.countP_le) (sparse l[i])
  omega

end Spaced

theorem countP_le_iff_spaced [AddRightMono α] {n : Nat} {w : α} {l : List α}
    (sorted : l.Pairwise (· ≤ ·)) :
    (∀ t, l.countP (fun x => t ≤ x ∧ x < t + w) ≤ n) ↔ Spaced n w l :=
  ⟨Spaced.of_countP_le sorted, Spaced.countP_le sorted⟩

/-- Blocks that are not neighbours are at least `w` apart. -/
inductive Blocks (w : α) : List (List α) → Prop where
  | nil : Blocks w []
  | single (b : List α) : Blocks w [b]
  | cons {a b : List α} {rest : List (List α)} (far : ∀ x ∈ a, ∀ y ∈ rest.flatten, x + w ≤ y)
      (blocks : Blocks w (b :: rest)) : Blocks w (a :: b :: rest)

/-- Blocks of at most `n` entries are spaced if every two neighbours are. -/
theorem Blocks.spaced_flatten_iff {n : Nat} {w : α} {bs : List (List α)} (blocks : Blocks w bs)
    (short : ∀ b ∈ bs, b.length ≤ n) :
    Spaced n w bs.flatten ↔ bs.IsChain fun a b => Spaced n w (a ++ b) := by
  induction blocks with
  | nil => exact iff_of_true (Spaced.of_length_le (Nat.zero_le n)) List.IsChain.nil
  | single b =>
      rw [List.flatten_cons, List.flatten_nil, List.append_nil]
      have few : Spaced n w b := Spaced.of_length_le (short b List.mem_cons_self)
      exact iff_of_true few (List.IsChain.singleton b)
  | @cons a b rest far blocks ih =>
      have parts : (a :: b :: rest).flatten = a ++ b ++ rest.flatten := by
        simp only [List.flatten_cons, List.append_assoc]
      rw [parts, Spaced.append_append_iff far, List.isChain_cons_cons,
        ← ih fun b member => short b (List.mem_cons_of_mem a member), List.flatten_cons]

end Lumencast.Foundation
