import Mathlib.Data.List.Basic

/-!
# Conditions on the entries of a trace

A trace is a list, and a condition on one of its entries may look at everything
before it. `EachAfter` asks for such a condition at every entry; it is read off
a trace that grows at its end. `EachBefore` is the condition that looks at
everything behind an entry.
-/

namespace Lumencast.Foundation

universe u

variable {α : Type u}

/-- An entry of a trace in two parts stands in one of them. -/
theorem append_eq_append_cons_iff {entries more front rest : List α} {a : α} :
    entries ++ more = front ++ a :: rest ↔
      (∃ mid, entries = front ++ a :: mid ∧ rest = mid ++ more) ∨
        ∃ mid, front = entries ++ mid ∧ more = mid ++ a :: rest := by
  constructor
  · intro split
    rcases List.append_eq_append_iff.mp split with ⟨mid, before, behind⟩ | ⟨mid, before, behind⟩
    · exact .inr ⟨mid, before, behind⟩
    · cases mid with
      | nil => exact .inr ⟨[], by simpa using before.symm, behind.symm⟩
      | cons b mid =>
          rw [List.cons_append] at behind
          obtain ⟨rfl, tail⟩ := List.cons.inj behind
          exact .inl ⟨mid, before, tail⟩
  · rintro (⟨mid, rfl, rfl⟩ | ⟨mid, rfl, rfl⟩)
    · rw [List.append_assoc, List.cons_append]
    · rw [List.append_assoc]

/-- Every entry meets the condition, given the entries before it. -/
def EachAfter (P : List α → α → Prop) (entries : List α) : Prop :=
  ∀ front a rest, entries = front ++ a :: rest → P front a

namespace EachAfter

variable {P : List α → α → Prop} {entries : List α} {a : α}

theorem nil : EachAfter P [] := by
  intro front a rest split
  simp at split

theorem concat_iff : EachAfter P (entries ++ [a]) ↔ EachAfter P entries ∧ P entries a := by
  constructor
  · intro each
    refine ⟨fun front b rest split => ?_, each entries a [] rfl⟩
    exact each front b (rest ++ [a]) (by simp [split])
  · rintro ⟨each, last⟩ front b rest split
    rcases List.eq_nil_or_concat rest with rfl | ⟨rest, c, rfl⟩
    · obtain ⟨rfl, same⟩ := List.append_inj' split rfl
      cases same
      exact last
    · rw [List.concat_eq_append, ← List.cons_append, ← List.append_assoc] at split
      exact each front b rest (List.append_inj' split rfl).1

theorem append {more : List α} (each : EachAfter P entries)
    (others : EachAfter (fun front a => P (entries ++ front) a) more) :
    EachAfter P (entries ++ more) := by
  intro front a rest split
  rcases append_eq_append_cons_iff.mp split with ⟨mid, here, _⟩ | ⟨mid, rfl, there⟩
  · exact each front a mid here
  · exact others mid a rest there

theorem append_left {more : List α} (each : EachAfter P (entries ++ more)) : EachAfter P entries :=
  fun front a rest split => each front a (rest ++ more) (by simp [split])

/-- The condition is checked position by position. -/
theorem iff_take :
    EachAfter P entries ↔ ∀ i : Fin entries.length, P (entries.take i) entries[i] := by
  constructor
  · intro each i
    refine each (entries.take i) entries[i] (entries.drop (i + 1)) ?_
    refine (List.take_append_drop i entries).symm.trans ?_
    rw [List.drop_eq_getElem_cons i.isLt]
    rfl
  · rintro each front a rest rfl
    simpa using each ⟨front.length, by simp⟩

instance [∀ front a, Decidable (P front a)] : Decidable (EachAfter P entries) :=
  decidable_of_iff _ iff_take.symm

end EachAfter

/-- Every entry meets the condition, given the entries behind it. -/
def EachBefore (P : α → List α → Prop) (entries : List α) : Prop :=
  ∀ front a rest, entries = front ++ a :: rest → P a rest

namespace EachBefore

variable {P Q : α → List α → Prop} {entries : List α}

/-- Entries of which none can break the condition. -/
theorem of_forall (h : ∀ a ∈ entries, ∀ rest, P a rest) : EachBefore P entries := by
  rintro front a rest rfl
  exact h a (List.mem_append_right front List.mem_cons_self) rest

theorem append {more : List α} (each : EachBefore Q entries)
    (extends_ : ∀ a rest, Q a rest → P a (rest ++ more)) (others : EachBefore P more) :
    EachBefore P (entries ++ more) := by
  intro front a rest split
  rcases append_eq_append_cons_iff.mp split with ⟨mid, here, rfl⟩ | ⟨mid, _, there⟩
  · exact extends_ a mid (each front a mid here)
  · exact others mid a rest there

end EachBefore
end Lumencast.Foundation
