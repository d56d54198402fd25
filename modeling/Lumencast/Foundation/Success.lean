import Mathlib.Data.List.Forall2

/-!
# What a successful fallible computation establishes

Inversion rules for `Except`: a sequence succeeds exactly when its steps do, a
guard that throws succeeds exactly when its condition holds, and a traversal
succeeds exactly when it succeeds on every element.
-/

namespace Lumencast.Foundation

universe u v

variable {ε : Type u} {α β : Type v}

theorem bind_eq_ok {x : Except ε α} {f : α → Except ε β} {b : β} :
    (x >>= f) = .ok b ↔ ∃ a, x = .ok a ∧ f a = .ok b := by
  cases x <;> simp [bind, Except.bind]

/-- A check in front of a computation. -/
theorem check_bind_eq_ok {γ : Type} {check : Except ε Unit} {x : Except ε γ} {b : γ} :
    (check >>= fun _ => x) = .ok b ↔ check = .ok () ∧ x = .ok b := by
  cases check <;> simp [bind, Except.bind]

theorem map_eq_ok {x : Except ε α} {f : α → β} {b : β} :
    x.map f = .ok b ↔ ∃ a, x = .ok a ∧ f a = b := by
  cases x <;> simp [Except.map]

theorem mapError_eq_ok {ε' : Type u} {x : Except ε α} {f : ε → ε'} {a : α} :
    x.mapError f = .ok a ↔ x = .ok a := by
  cases x <;> simp [Except.mapError]

theorem pure_eq_ok {a b : α} : (pure a : Except ε α) = .ok b ↔ a = b := by
  simp [pure, Except.pure]

@[simp] theorem throw_ne_ok {e : ε} {a : α} : (throw e : Except ε α) ≠ .ok a := by
  rintro ⟨⟩

theorem ite_error_eq_ok {p : Prop} [Decidable p] {e : ε} {x : Except ε α} {b : α} :
    (if p then .error e else x) = .ok b ↔ ¬p ∧ x = .ok b := by
  by_cases h : p <;> simp [h]

/-- A traversal returns one result for each element, in order. -/
theorem mapM_eq_ok {f : α → Except ε β} {as : List α} {bs : List β} :
    as.mapM f = .ok bs ↔ List.Forall₂ (fun a b => f a = .ok b) as bs := by
  induction as generalizing bs with
  | nil =>
      rw [List.mapM_nil, pure_eq_ok, List.forall₂_nil_left_iff]
      exact eq_comm
  | cons a as ih =>
      simp only [List.mapM_cons, bind_eq_ok, pure_eq_ok, ih, List.forall₂_cons_left_iff]
      constructor
      · rintro ⟨b, head, bs', tail, rfl⟩
        exact ⟨b, bs', head, tail, rfl⟩
      · rintro ⟨b, bs', head, tail, rfl⟩
        exact ⟨b, head, bs', tail, rfl⟩

/-- Every result of a traversal comes from some element. -/
theorem exists_of_mem_mapM {f : α → Except ε β} {as : List α} {bs : List β}
    (h : as.mapM f = .ok bs) : ∀ b ∈ bs, ∃ a ∈ as, f a = .ok b := by
  intro b member
  have pairs := mapM_eq_ok.mp h
  induction pairs with
  | nil => cases member
  | cons head _ ih =>
      rcases List.mem_cons.mp member with rfl | later
      · exact ⟨_, List.mem_cons_self, head⟩
      · obtain ⟨a, ha, hb⟩ := ih (mapM_eq_ok.mpr ‹_›) later
        exact ⟨a, List.mem_cons_of_mem _ ha, hb⟩

/-- Every element of a traversal that succeeds has a result. -/
theorem exists_result_of_mem {f : α → Except ε β} {as : List α} {bs : List β}
    (h : as.mapM f = .ok bs) : ∀ a ∈ as, ∃ b, f a = .ok b := by
  intro a member
  have pairs := mapM_eq_ok.mp h
  induction pairs with
  | nil => cases member
  | cons head _ ih =>
      rcases List.mem_cons.mp member with rfl | later
      · exact ⟨_, head⟩
      · exact ih (mapM_eq_ok.mpr ‹_›) later

/-- A traversal fails as it fails on some element. -/
theorem exists_error_of_mapM {f : α → Except ε β} {as : List α} {e : ε}
    (h : as.mapM f = .error e) : ∃ a ∈ as, f a = .error e := by
  induction as with
  | nil => cases h
  | cons a as ih =>
      rw [List.mapM_cons] at h
      cases head : f a with
      | error e' =>
          rw [head] at h
          cases h
          exact ⟨a, List.mem_cons_self, head⟩
      | ok b =>
          cases tail : as.mapM f with
          | error e' =>
              rw [head, tail] at h
              cases h
              obtain ⟨c, member, failed⟩ := ih tail
              exact ⟨c, List.mem_cons_of_mem a member, failed⟩
          | ok bs =>
              rw [head, tail] at h
              cases h

/-- A traversal succeeds when it succeeds on every element. -/
theorem exists_mapM_eq_ok {f : α → Except ε β} {as : List α} :
    (∃ bs, as.mapM f = .ok bs) ↔ ∀ a ∈ as, ∃ b, f a = .ok b := by
  constructor
  · rintro ⟨bs, h⟩
    exact exists_result_of_mem h
  · intro each
    induction as with
    | nil => exact ⟨[], rfl⟩
    | cons a as ih =>
        obtain ⟨b, head⟩ := each a List.mem_cons_self
        obtain ⟨bs, tail⟩ := ih fun c member => each c (List.mem_cons_of_mem a member)
        exact ⟨b :: bs, mapM_eq_ok.mpr (.cons head (mapM_eq_ok.mp tail))⟩

/-- A decidable property of a successful result. -/
theorem exists_ok_of_any {x : Except ε α} {Q : α → Prop} [DecidablePred Q]
    (h : x.toOption.any (fun a => Q a) = true) : ∃ a, x = .ok a ∧ Q a := by
  cases x with
  | error e => simp [Except.toOption] at h
  | ok a => exact ⟨a, rfl, by simpa [Except.toOption] using h⟩

end Lumencast.Foundation
