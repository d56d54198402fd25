import Mathlib.Data.List.Perm.Basic

/-!
# Numbers handed out and shown later

A counter hands out numbers in increasing order, and each holder shows its number
some time after it took it. `Tickets shown waiting counter` is the state of such a
place as long as the numbers were shown in the order in which they were handed
out. Only a holder that shows its number in front of a smaller one breaks it.
-/

namespace Lumencast.Foundation

/-- The numbers shown so far, oldest first, and the numbers that are still held. -/
structure Tickets (shown waiting : List Nat) (counter : Nat) : Prop where
  increasing : shown.Pairwise (· < ·)
  apart : waiting.Nodup
  before : ∀ n ∈ shown, ∀ m ∈ waiting, n < m
  handed : ∀ n ∈ shown ++ waiting, n ≤ counter

namespace Tickets

variable {shown shown' waiting waiting' : List Nat} {counter n : Nat}

theorem nil (counter : Nat) : Tickets [] [] counter :=
  ⟨List.Pairwise.nil, List.nodup_nil, by simp, by simp⟩

/-- A number that nobody will show. -/
theorem skip (tickets : Tickets shown waiting counter) : Tickets shown waiting (counter + 1) :=
  { tickets with handed := fun n hn => Nat.le_succ_of_le (tickets.handed n hn) }

theorem issue (tickets : Tickets shown waiting counter) :
    Tickets shown (waiting ++ [counter + 1]) (counter + 1) := by
  have held : ∀ m ∈ waiting, m ≤ counter := fun m hm =>
    tickets.handed m (List.mem_append_right _ hm)
  have seen : ∀ m ∈ shown, m ≤ counter := fun m hm =>
    tickets.handed m (List.mem_append_left _ hm)
  refine ⟨tickets.increasing, ?_, ?_, ?_⟩
  · rw [List.nodup_append]
    refine ⟨tickets.apart, by simp, fun m hm k hk => ?_⟩
    have := held m hm
    have := List.mem_singleton.mp hk
    omega
  · intro m hm k hk
    rcases List.mem_append.mp hk with old | new
    · exact tickets.before m hm k old
    · rw [List.mem_singleton.mp new]
      exact Nat.lt_succ_of_le (seen m hm)
  · intro m hm
    simp only [List.mem_append, List.mem_singleton] at hm
    rcases hm with old | old | rfl
    · exact Nat.le_succ_of_le (seen m old)
    · exact Nat.le_succ_of_le (held m old)
    · exact Nat.le_refl _

/-- The holder of the least number shows it. -/
theorem reveal (tickets : Tickets shown (n :: waiting) counter) (least : ∀ m ∈ waiting, n ≤ m) :
    Tickets (shown ++ [n]) waiting counter := by
  obtain ⟨fresh, apart⟩ := List.nodup_cons.mp tickets.apart
  refine ⟨?_, apart, ?_, ?_⟩
  · rw [List.pairwise_append]
    refine ⟨tickets.increasing, List.pairwise_singleton _ _, fun m hm k hk => ?_⟩
    rw [List.mem_singleton.mp hk]
    exact tickets.before m hm n List.mem_cons_self
  · intro m hm k hk
    rcases List.mem_append.mp hm with old | new
    · exact tickets.before m old k (List.mem_cons_of_mem n hk)
    · rw [List.mem_singleton.mp new]
      exact Nat.lt_of_le_of_ne (least k hk) fun same => fresh (same ▸ hk)
  · intro m hm
    exact tickets.handed m (by simpa [or_assoc, or_left_comm] using hm)

/-- Numbers shown long ago may be forgotten. -/
theorem forget (tickets : Tickets shown waiting counter) (kept : shown'.Sublist shown) :
    Tickets shown' waiting counter where
  increasing := tickets.increasing.sublist kept
  apart := tickets.apart
  before := fun n hn => tickets.before n (kept.subset hn)
  handed := fun n hn => tickets.handed n ((kept.append_right waiting).subset hn)

/-- The holders stand in no order. -/
theorem perm (tickets : Tickets shown waiting counter) (same : waiting.Perm waiting') :
    Tickets shown waiting' counter where
  increasing := tickets.increasing
  apart := same.nodup_iff.mp tickets.apart
  before := fun n hn m hm => tickets.before n hn m (same.mem_iff.mpr hm)
  handed := fun n hn => tickets.handed n ((same.append_left shown).mem_iff.mpr hn)

end Tickets
end Lumencast.Foundation
