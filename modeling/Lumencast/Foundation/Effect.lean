import Mathlib.Init

/-!
# Fallible computations on a state

A computation may fail, and what it did to the state before stays done. `exec`
runs it. Two computations on two state types `Agree` along a relation when, from
related states, they give the same result and lead to related states again; the
rules for composing them are those of a relational program logic.
-/

namespace Lumencast.Foundation

universe u

/-- A computation on the state `σ` that may fail with an `ε`. -/
abbrev Effect (σ ε α : Type u) : Type u := ExceptT ε (StateM σ) α

namespace Effect

variable {σ τ ε ε' α β : Type u}

/-- A computation given by its transition function. -/
def mk (f : σ → Except ε α × σ) : Effect σ ε α := fun s => f s

/-- The result of a computation, and the state it leaves. -/
def exec (m : Effect σ ε α) (s : σ) : Except ε α × σ := m s

/-- A computation that cannot fail. -/
def total (f : σ → α × σ) : Effect σ ε α := mk fun s => (.ok (f s).1, (f s).2)

/-- Another error in place of each error. -/
def mapError (f : ε → ε') (m : Effect σ ε α) : Effect σ ε' α :=
  mk fun s => ((exec m s).1.mapError f, (exec m s).2)

/-- Run a computation, then another one whether or not the first one failed. -/
def finally_ (m : Effect σ ε α) (after : σ → σ) : Effect σ ε α :=
  mk fun s => ((exec m s).1, after (exec m s).2)

@[simp] theorem exec_mk (f : σ → Except ε α × σ) (s : σ) : exec (mk f) s = f s := rfl

@[simp] theorem exec_pure (a : α) (s : σ) : exec (pure a : Effect σ ε α) s = (.ok a, s) := rfl

@[simp] theorem exec_throw (e : ε) (s : σ) : exec (throw e : Effect σ ε α) s = (.error e, s) := rfl

theorem exec_bind (m : Effect σ ε α) (f : α → Effect σ ε β) (s : σ) :
    exec (m >>= f) s = match exec m s with
      | (.ok a, t) => exec (f a) t
      | (.error e, t) => (.error e, t) := by
  change (ExceptT.bindCont f (exec m s).1) (exec m s).2 = _
  obtain ⟨result, t⟩ := exec m s
  cases result <;> rfl

theorem exec_bind_of_ok {m : Effect σ ε α} {f : α → Effect σ ε β} {s t : σ} {a : α}
    (first : exec m s = (.ok a, t)) : exec (m >>= f) s = exec (f a) t := by
  rw [exec_bind, first]

theorem exec_bind_of_error {m : Effect σ ε α} {f : α → Effect σ ε β} {s t : σ} {e : ε}
    (first : exec m s = (.error e, t)) : exec (m >>= f) s = (.error e, t) := by
  rw [exec_bind, first]

/-- A sequence succeeds when both parts do. -/
theorem exec_bind_eq_ok {m : Effect σ ε α} {f : α → Effect σ ε β} {s t : σ} {b : β} :
    exec (m >>= f) s = (.ok b, t) ↔ ∃ a r, exec m s = (.ok a, r) ∧ exec (f a) r = (.ok b, t) := by
  rw [exec_bind]
  obtain ⟨result, r⟩ := exec m s
  constructor
  · intro done
    cases result with
    | error e => cases done
    | ok a => exact ⟨a, r, rfl, done⟩
  · rintro ⟨a, r, ⟨⟩, done⟩
    exact done

theorem exec_pure_eq_ok {a b : α} {s t : σ} :
    exec (pure a : Effect σ ε α) s = (.ok b, t) ↔ a = b ∧ s = t := by
  simp

@[simp] theorem exec_throw_ne_ok {e : ε} {a : α} {s t : σ} :
    exec (throw e : Effect σ ε α) s ≠ (.ok a, t) := by
  simp

@[simp] theorem exec_mapError_eq_ok {f : ε → ε'} {m : Effect σ ε α} {s t : σ} {a : α} :
    exec (m.mapError f) s = (.ok a, t) ↔ exec m s = (.ok a, t) := by
  rw [mapError, exec_mk]
  obtain ⟨result, r⟩ := exec m s
  cases result with
  | error e => constructor <;> intro done <;> cases done
  | ok b =>
      change (Except.ok b, r) = (Except.ok a, t) ↔ _
      simp only [Prod.mk.injEq, Except.ok.injEq]

theorem exec_finally_eq_ok {m : Effect σ ε α} {after : σ → σ} {s t : σ} {a : α} :
    exec (m.finally_ after) s = (.ok a, t) ↔ ∃ r, exec m s = (.ok a, r) ∧ after r = t := by
  rw [finally_, exec_mk]
  obtain ⟨result, r⟩ := exec m s
  constructor
  · rintro ⟨⟩
    exact ⟨r, rfl, rfl⟩
  · rintro ⟨r, ⟨⟩, rfl⟩
    rfl

theorem exec_total_eq_ok {f : σ → α × σ} {s t : σ} {a : α} :
    exec (total f : Effect σ ε α) s = (.ok a, t) ↔ f s = (a, t) := by
  rw [total, exec_mk, Prod.mk.injEq, Except.ok.injEq, Prod.ext_iff]

/-! ## Agreement -/

/-- From related states the same result and related states. -/
def Agree (R : σ → τ → Prop) (m : Effect σ ε α) (n : Effect τ ε α) : Prop :=
  ∀ s t, R s t → (exec m s).1 = (exec n t).1 ∧ R (exec m s).2 (exec n t).2

namespace Agree

variable {R : σ → τ → Prop} {m : Effect σ ε α} {n : Effect τ ε α}

theorem pure (a : α) : Agree R (Pure.pure a : Effect σ ε α) (Pure.pure a) :=
  fun _ _ related => ⟨rfl, related⟩

theorem throw (e : ε) : Agree R (throw e : Effect σ ε α) (throw e) :=
  fun _ _ related => ⟨rfl, related⟩

/-- The rule for a sequence whose first part agrees from the states `s` and `t` only. -/
theorem bind_from {s : σ} {t : τ} {f : α → Effect σ ε β} {g : α → Effect τ ε β}
    (first : (exec m s).1 = (exec n t).1 ∧ R (exec m s).2 (exec n t).2)
    (rest : ∀ a, Agree R (f a) (g a)) :
    (exec (m >>= f) s).1 = (exec (n >>= g) t).1 ∧
      R (exec (m >>= f) s).2 (exec (n >>= g) t).2 := by
  obtain ⟨same, after⟩ := first
  rw [exec_bind, exec_bind]
  generalize exec m s = x at same after
  generalize exec n t = y at same after
  obtain ⟨x, s'⟩ := x
  obtain ⟨y, t'⟩ := y
  cases same
  cases x with
  | error e => exact ⟨rfl, after⟩
  | ok a => exact rest a s' t' after

theorem bind {f : α → Effect σ ε β} {g : α → Effect τ ε β} (first : Agree R m n)
    (rest : ∀ a, Agree R (f a) (g a)) : Agree R (m >>= f) (n >>= g) :=
  fun s t related => bind_from (first s t related) rest

theorem total {f : σ → α × σ} {g : τ → α × τ}
    (agree : ∀ s t, R s t → (f s).1 = (g t).1 ∧ R (f s).2 (g t).2) :
    Agree R (Effect.total f : Effect σ ε α) (Effect.total g) :=
  fun s t related => ⟨congrArg Except.ok (agree s t related).1, (agree s t related).2⟩

theorem mapError (f : ε → ε') (agree : Agree R m n) : Agree R (m.mapError f) (n.mapError f) :=
  fun s t related => ⟨congrArg (Except.mapError f) (agree s t related).1,
    (agree s t related).2⟩

theorem finally_ {after : σ → σ} {after' : τ → τ} (agree : Agree R m n)
    (cleanup : ∀ s t, R s t → R (after s) (after' t)) :
    Agree R (m.finally_ after) (n.finally_ after') :=
  fun s t related => ⟨(agree s t related).1, cleanup _ _ (agree s t related).2⟩

theorem ite {p : Prop} [Decidable p] {m' : Effect σ ε α} {n' : Effect τ ε α}
    (yes : Agree R m n) (no : Agree R m' n') :
    Agree R (if p then m else m') (if p then n else n') := by
  by_cases holds : p
  · rwa [if_pos holds, if_pos holds]
  · rwa [if_neg holds, if_neg holds]

end Agree

end Effect
end Lumencast.Foundation
