import Mathlib.Algebra.BigOperators.Group.List.Basic
import Mathlib.Algebra.Order.Ring.Nat
import Mathlib.Logic.Relation

/-!
# Traversals with an explicit stack

A traversal pops a node, checks it, stops at the first failure, and pushes what
the node leads to. `Traverses` relates a stack to the result of the loop, so a
derivation is a terminating run. The result does not depend on the order in
which successors are pushed, except for which of several failures is reported:
the traversal succeeds exactly when every reachable node passes the check.
-/

namespace Lumencast.Foundation

universe u v

variable {ε : Type u} {α : Type v}

/-- A node that a traversal gets to from another one. -/
abbrev Reaches (next : α → List α) : α → α → Prop :=
  Relation.ReflTransGen fun a b => b ∈ next a

/-- The loop ends on this stack, its top first, with this result. -/
inductive Traverses (check : α → Except ε Unit) (next : α → List α) :
    List α → Except ε Unit → Prop
  | done : Traverses check next [] (.ok ())
  | stop {node : α} {stack : List α} {e : ε} (failed : check node = .error e) :
      Traverses check next (node :: stack) (.error e)
  | step {node : α} {stack : List α} {result : Except ε Unit} (passed : check node = .ok ())
      (rest : Traverses check next (next node ++ stack) result) :
      Traverses check next (node :: stack) result

namespace Traverses

variable {check : α → Except ε Unit} {next : α → List α} {stack : List α}
  {result : Except ε Unit}

/-- The loop ends with a success or with the failure of a reachable node. -/
theorem of_error {e : ε} (h : Traverses check next stack (.error e)) :
    ∃ a ∈ stack, ∃ b, Reaches next a b ∧ check b = .error e := by
  generalize same : Except.error e = result at h
  induction h with
  | done => cases same
  | stop failed =>
      cases same
      exact ⟨_, List.mem_cons_self, _, .refl, failed⟩
  | step _ _ ih =>
      obtain ⟨a, member, b, reaches, failed⟩ := ih same
      rcases List.mem_append.mp member with pushed | waiting
      · exact ⟨_, List.mem_cons_self, b, reaches.head pushed, failed⟩
      · exact ⟨a, List.mem_cons_of_mem _ waiting, b, reaches, failed⟩

/-- After a success every reachable node has passed. -/
theorem of_ok (h : Traverses check next stack result) (succeeds : result = .ok ()) :
    ∀ a ∈ stack, ∀ b, Reaches next a b → check b = .ok () := by
  induction h with
  | done => exact fun a member => absurd member List.not_mem_nil
  | stop => cases succeeds
  | step passed _ ih =>
      intro a member b reaches
      rcases List.mem_cons.mp member with rfl | waiting
      · rcases reaches.cases_head with rfl | ⟨c, pushed, reaches⟩
        · exact passed
        · exact ih succeeds c (List.mem_append_left _ pushed) b reaches
      · exact ih succeeds a (List.mem_append_right _ waiting) b reaches

/-- A traversal succeeds exactly when every reachable node passes. -/
theorem ok_iff (h : Traverses check next stack result) :
    result = .ok () ↔ ∀ a ∈ stack, ∀ b, Reaches next a b → check b = .ok () := by
  constructor
  · exact h.of_ok
  · intro passes
    cases result with
    | ok u => rfl
    | error e =>
        obtain ⟨a, member, b, reaches, failed⟩ := h.of_error
        rw [passes a member b reaches] at failed
        cases failed

end Traverses

/-- The loop with a bound on its steps; `none` when the bound is reached. -/
def traverseStack (check : α → Except ε Unit) (next : α → List α) :
    Nat → List α → Option (Except ε Unit)
  | _, [] => some (.ok ())
  | 0, _ :: _ => none
  | n + 1, node :: stack =>
      match check node with
      | .ok () => traverseStack check next n (next node ++ stack)
      | .error e => some (.error e)

section

variable {check : α → Except ε Unit} {next : α → List α}

theorem Traverses.of_traverse {n : Nat} {stack : List α} {result : Except ε Unit}
    (h : traverseStack check next n stack = some result) : Traverses check next stack result := by
  induction n generalizing stack with
  | zero =>
      cases stack with
      | nil =>
          cases h
          exact .done
      | cons node stack => cases h
  | succ n ih =>
      cases stack with
      | nil =>
          cases h
          exact .done
      | cons node stack =>
          rw [traverseStack] at h
          cases checked : check node with
          | ok u =>
              rw [checked] at h
              exact .step checked (ih h)
          | error e =>
              rw [checked] at h
              cases h
              exact .stop checked

/-- If the nodes below a node weigh less than the node, the loop ends within the weight of
its stack. -/
theorem exists_traverse {weight : α → Nat}
    (lighter : ∀ a, ((next a).map weight).sum < weight a) {n : Nat} {stack : List α}
    (bound : (stack.map weight).sum ≤ n) :
    ∃ result, traverseStack check next n stack = some result := by
  induction n generalizing stack with
  | zero =>
      cases stack with
      | nil => exact ⟨_, rfl⟩
      | cons node stack =>
          have below := lighter node
          rw [List.map_cons, List.sum_cons] at bound
          omega
  | succ n ih =>
      cases stack with
      | nil => exact ⟨_, rfl⟩
      | cons node stack =>
          rw [traverseStack]
          cases check node with
          | error e => exact ⟨_, rfl⟩
          | ok u =>
              refine ih ?_
              have below := lighter node
              rw [List.map_cons, List.sum_cons] at bound
              rw [List.map_append, List.sum_append]
              omega

end
end Lumencast.Foundation
