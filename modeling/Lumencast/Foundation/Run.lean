import Mathlib.Data.List.Basic

/-!
# Finite runs of a deterministic labelled machine

A machine is its transition function `step : σ → α → Option σ`; a label that is
not enabled gives `none`. Schedules are ordinary lists of labels, so a property
of all interleavings is a property of all lists, and the prefixes of a schedule
are its visited states.

`Along` asks for a condition before every executed step and `Always` for a
condition at every visited state, the last one included. `Along.invariant` is
the induction that every run-level theorem goes through: an invariant needs one
step lemma, which may use the condition granted at that step.
-/

namespace Lumencast.Foundation

universe u v

variable {σ : Type u} {α : Type v} {step : σ → α → Option σ}

/-- Execute a schedule; `none` as soon as one label is not enabled. -/
def run (step : σ → α → Option σ) : σ → List α → Option σ
  | s, [] => some s
  | s, a :: as => (step s a).bind fun m => run step m as

/-- The condition `P` holds before each step that the schedule executes. -/
def Along (step : σ → α → Option σ) (P : σ → α → Prop) : σ → List α → Prop
  | _, [] => True
  | s, a :: as => P s a ∧ ∀ m, step s a = some m → Along step P m as

/-- The state predicate `G` holds at each state the schedule visits. -/
def Always (step : σ → α → Option σ) (G : σ → Prop) : σ → List α → Prop
  | s, [] => G s
  | s, a :: as => G s ∧ ∀ m, step s a = some m → Always step G m as

@[simp] theorem run_nil (s : σ) : run step s [] = some s := rfl

@[simp] theorem run_cons (s : σ) (a : α) (as : List α) :
    run step s (a :: as) = (step s a).bind fun m => run step m as := rfl

/-- A schedule that runs to the end splits at any of its steps. -/
theorem run_append (s : σ) (as bs : List α) :
    run step s (as ++ bs) = (run step s as).bind fun m => run step m bs := by
  induction as generalizing s with
  | nil => rfl
  | cons a as ih =>
      simp only [List.cons_append, run_cons]
      cases step s a with
      | none => rfl
      | some m => exact ih m

theorem run_cons_eq_some {s t : σ} {a : α} {as : List α} :
    run step s (a :: as) = some t ↔ ∃ m, step s a = some m ∧ run step m as = some t := by
  simp only [run_cons, Option.bind_eq_some_iff]

theorem run_append_eq_some {s t : σ} {as bs : List α} :
    run step s (as ++ bs) = some t ↔ ∃ m, run step s as = some m ∧ run step m bs = some t := by
  simp only [run_append, Option.bind_eq_some_iff]

/-- The condition of a schedule is decided by executing it. -/
instance Along.decidable {P : σ → α → Prop} [∀ s a, Decidable (P s a)] :
    (s : σ) → (as : List α) → Decidable (Along step P s as)
  | _, [] => isTrue trivial
  | s, a :: as =>
      match h : step s a with
      | none => decidable_of_iff (P s a) ⟨fun p => ⟨p, fun _ hm => by simp [h] at hm⟩, And.left⟩
      | some m =>
          have := Along.decidable (P := P) m as
          decidable_of_iff (P s a ∧ Along step P m as)
            ⟨fun p => ⟨p.1, fun _ hm => Option.some.inj (h.symm.trans hm) ▸ p.2⟩,
              fun p => ⟨p.1, p.2 m h⟩⟩

instance Always.decidable {G : σ → Prop} [DecidablePred G] :
    (s : σ) → (as : List α) → Decidable (Always step G s as)
  | s, [] => inferInstanceAs (Decidable (G s))
  | s, a :: as =>
      match h : step s a with
      | none => decidable_of_iff (G s) ⟨fun g => ⟨g, fun _ hm => by simp [h] at hm⟩, And.left⟩
      | some m =>
          have := Always.decidable (G := G) m as
          decidable_of_iff (G s ∧ Always step G m as)
            ⟨fun g => ⟨g.1, fun _ hm => Option.some.inj (h.symm.trans hm) ▸ g.2⟩,
              fun g => ⟨g.1, g.2 m h⟩⟩

/-- A decidable property of the state that a schedule ends in. -/
theorem exists_run_of_any {Q : σ → Prop} [DecidablePred Q] {s : σ} {as : List α}
    (h : (run step s as).any (fun t => Q t) = true) : ∃ t, run step s as = some t ∧ Q t := by
  cases reach : run step s as with
  | none => simp [reach] at h
  | some t => exact ⟨t, rfl, by simpa [reach] using h⟩

namespace Along

variable {P Q : σ → α → Prop} {I : σ → Prop}

theorem mono (h : ∀ s a, P s a → Q s a) {s : σ} {as : List α} (along : Along step P s as) :
    Along step Q s as := by
  induction as generalizing s with
  | nil => trivial
  | cons a as ih => exact ⟨h s a along.1, fun m hm => ih (along.2 m hm)⟩

theorem and {s : σ} {as : List α} (hP : Along step P s as) (hQ : Along step Q s as) :
    Along step (fun s a => P s a ∧ Q s a) s as := by
  induction as generalizing s with
  | nil => trivial
  | cons a as ih => exact ⟨⟨hP.1, hQ.1⟩, fun m hm => ih (hP.2 m hm) (hQ.2 m hm)⟩

theorem of_forall_mem {s : σ} {as : List α} (h : ∀ a ∈ as, ∀ s, P s a) : Along step P s as := by
  induction as generalizing s with
  | nil => trivial
  | cons a as ih =>
      exact ⟨h a List.mem_cons_self s, fun _ _ =>
        ih fun b member => h b (List.mem_cons_of_mem a member)⟩

theorem append {s m : σ} {as bs : List α} (reach : run step s as = some m)
    (along : Along step P s (as ++ bs)) : Along step P s as ∧ Along step P m bs := by
  induction as generalizing s with
  | nil =>
      cases reach
      exact ⟨trivial, along⟩
  | cons a as ih =>
      obtain ⟨m', first, rest⟩ := run_cons_eq_some.mp reach
      have tail := ih rest (along.2 m' first)
      refine ⟨⟨along.1, fun n hn => ?_⟩, tail.2⟩
      rw [first] at hn
      cases hn
      exact tail.1

/-- An invariant preserved by every step that meets the condition holds at the
end of every run whose steps all meet it. -/
theorem invariant (preserve : ∀ s a t, I s → P s a → step s a = some t → I t)
    {s t : σ} {as : List α} (start : I s) (along : Along step P s as)
    (reach : run step s as = some t) : I t := by
  induction as generalizing s with
  | nil =>
      cases reach
      exact start
  | cons a as ih =>
      obtain ⟨m, first, rest⟩ := run_cons_eq_some.mp reach
      exact ih (preserve s a m start along.1 first) (along.2 m first) rest

/-- An invariant may be used to weaken the condition at every step. -/
theorem with_invariant (preserve : ∀ s a t, I s → P s a → step s a = some t → I t)
    {s : σ} {as : List α} (start : I s) (along : Along step P s as) :
    Along step (fun s a => I s ∧ P s a) s as := by
  induction as generalizing s with
  | nil => trivial
  | cons a as ih =>
      exact ⟨⟨start, along.1⟩, fun m hm => ih (preserve s a m start along.1 hm) (along.2 m hm)⟩

end Along

/-- The unconditional form of `Along.invariant`. -/
theorem run_invariant {I : σ → Prop} (preserve : ∀ s a t, I s → step s a = some t → I t)
    {s t : σ} {as : List α} (start : I s) (reach : run step s as = some t) : I t := by
  induction as generalizing s with
  | nil =>
      cases reach
      exact start
  | cons a as ih =>
      obtain ⟨m, first, rest⟩ := run_cons_eq_some.mp reach
      exact ih (preserve s a m start first) rest

namespace Always

variable {G H I : σ → Prop}

theorem head {s : σ} {as : List α} (always : Always step G s as) : G s := by
  cases as with
  | nil => exact always
  | cons a as => exact always.1

theorem last {s t : σ} {as : List α} (always : Always step G s as)
    (reach : run step s as = some t) : G t := by
  induction as generalizing s with
  | nil =>
      cases reach
      exact always
  | cons a as ih =>
      obtain ⟨m, first, rest⟩ := run_cons_eq_some.mp reach
      exact ih (always.2 m first) rest

/-- What holds at every visited state holds at both ends of every step. -/
theorem along {s : σ} {as : List α} (always : Always step G s as) :
    Along step (fun s a => G s ∧ ∀ t, step s a = some t → G t) s as := by
  induction as generalizing s with
  | nil => trivial
  | cons a as ih =>
      exact ⟨⟨always.1, fun t ht => (always.2 t ht).head⟩, fun m hm => ih (always.2 m hm)⟩

/-- A predicate that holds at both ends of every step may be used by the step
lemma of an invariant. -/
theorem invariant (preserve : ∀ s a t, I s → G s → G t → step s a = some t → I t)
    {s t : σ} {as : List α} (start : I s) (always : Always step G s as)
    (reach : run step s as = some t) : I t := by
  induction as generalizing s with
  | nil =>
      cases reach
      exact start
  | cons a as ih =>
      obtain ⟨m, first, rest⟩ := run_cons_eq_some.mp reach
      have next := always.2 m first
      exact ih (preserve s a m start always.1 next.head first) next rest

end Always
end Lumencast.Foundation
