import Lumencast.Foundation.Run

/-!
# What goes in comes out, in order

Each step of a machine may show some items, for example the requests that it
takes in or the results that it puts out. `observed` is the list of what the
steps of a schedule show. A machine that holds its items in a queue conserves
them at each step: what it held and what came in is what went out and what it
holds. `conserved` carries this to whole schedules, and `observed_invariant` is the
induction for everything else that is said about a run and what it has shown.
-/

namespace Lumencast.Foundation

universe u v w

variable {σ : Type u} {α : Type v} {β γ : Type w} {step : σ → α → Option σ}

/-- What the executed steps of a schedule show, oldest first. -/
def observed (step : σ → α → Option σ) (obs : σ → α → List β) : σ → List α → List β
  | _, [] => []
  | s, a :: as => obs s a ++ (step s a).elim [] fun m => observed step obs m as

variable {obs : σ → α → List β} {s t m : σ} {a : α} {as : List α}

theorem observed_cons (h : step s a = some m) :
    observed step obs s (a :: as) = obs s a ++ observed step obs m as := by
  rw [observed, h, Option.elim_some]

/-- What is made of each item that is shown. -/
theorem flatMap_observed (f : β → List γ) :
    (observed step obs s as).flatMap f = observed step (fun s a => (obs s a).flatMap f) s as := by
  induction as generalizing s with
  | nil => rfl
  | cons a as ih =>
      rw [observed, observed, List.flatMap_append]
      cases step s a with
      | none => rfl
      | some m => exact congrArg _ ih

theorem filterMap_observed (f : β → Option γ) :
    (observed step obs s as).filterMap f =
      observed step (fun s a => (obs s a).filterMap f) s as := by
  simp only [List.filterMap_eq_flatMap_toList, flatMap_observed]

/-- What a step shows may be bounded by its label. -/
theorem observed_sublist {label : α → List β} (shown : ∀ s a, (obs s a).Sublist (label a)) :
    (observed step obs s as).Sublist (as.flatMap label) := by
  induction as generalizing s with
  | nil => exact .slnil
  | cons a as ih =>
      rw [observed, List.flatMap_cons]
      cases step s a with
      | none => exact (shown s a).append (List.nil_sublist _)
      | some m => exact (shown s a).append ih

/-- Nothing is lost, nothing is doubled and nothing is overtaken between what a run takes in
and what it puts out, if each step that meets the invariant conserves its items. -/
theorem conserved {I : σ → Prop} {ins outs : σ → α → List β} {held : σ → List β}
    (preserve : ∀ s a t, I s → step s a = some t → I t)
    (conserve : ∀ s a t, I s → step s a = some t → held s ++ ins s a = outs s a ++ held t)
    (start : I s) (reach : run step s as = some t) :
    held s ++ observed step ins s as = observed step outs s as ++ held t := by
  induction as generalizing s with
  | nil =>
      cases reach
      exact List.append_nil _
  | cons a as ih =>
      obtain ⟨m, first, rest⟩ := run_cons_eq_some.mp reach
      have here := conserve s a m start first
      have behind := ih (preserve s a m start first) rest
      rw [observed_cons first, observed_cons first]
      calc held s ++ (ins s a ++ observed step ins m as)
          = (outs s a ++ held m) ++ observed step ins m as := by rw [← List.append_assoc, here]
        _ = outs s a ++ (held m ++ observed step ins m as) := List.append_assoc ..
        _ = outs s a ++ (observed step outs m as ++ held t) := by rw [behind]
        _ = outs s a ++ observed step outs m as ++ held t := (List.append_assoc ..).symm

/-- An invariant of the state and of what has been shown so far. -/
theorem observed_invariant {I : σ → List β → Prop} {Q : σ → α → Prop} {log : List β}
    (preserve : ∀ s a t log, I s log → Q s a → step s a = some t → I t (log ++ obs s a))
    (start : I s log) (along : Along step Q s as) (reach : run step s as = some t) :
    I t (log ++ observed step obs s as) := by
  induction as generalizing s log with
  | nil =>
      cases reach
      rwa [observed, List.append_nil]
  | cons a as ih =>
      obtain ⟨m, first, rest⟩ := run_cons_eq_some.mp reach
      have behind := ih (preserve s a m log start along.1 first) (along.2 m first) rest
      rwa [observed_cons first, ← List.append_assoc]

end Lumencast.Foundation
