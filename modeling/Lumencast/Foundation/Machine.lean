import Mathlib.Algebra.Order.Ring.Int

/-!
# Machine integers with checked results

The exact result of an operation, if the fixed-width type of the operation
holds it. A computation in which every result is checked has a value exactly
when nothing underflows, overflows or is cut off by a conversion.
-/

namespace Lumencast.Foundation

/-- A result of an unsigned type of `w` bits. -/
def unsigned (w : Nat) (i : Int) : Option Nat := if 0 ≤ i ∧ i < 2 ^ w then some i.toNat else none

/-- A result of a signed type of `w + 1` bits. -/
def signed (w : Nat) (i : Int) : Option Int := if -2 ^ w ≤ i ∧ i < 2 ^ w then some i else none

theorem unsigned_eq_some {w n : Nat} {i : Int} (eq : i = n) (lt : n < 2 ^ w) :
    unsigned w i = some n := by
  have bounds : 0 ≤ i ∧ i < 2 ^ w := by
    rw [eq]
    exact ⟨Int.natCast_nonneg n, mod_cast lt⟩
  rw [unsigned, if_pos bounds, eq, Int.toNat_natCast]

theorem signed_eq_some {w n : Nat} {i : Int} (eq : i = n) (lt : n < 2 ^ w) :
    signed w i = some (n : Int) := by
  have positive : (0 : Int) ≤ 2 ^ w := Int.pow_nonneg (by decide)
  have bounds : -2 ^ w ≤ i ∧ i < 2 ^ w := by
    rw [eq]
    exact ⟨by omega, mod_cast lt⟩
  rw [signed, if_pos bounds, eq]

variable {α β : Type} {y : Option β} {w : Nat} {i : Int}

/-- A checked computation goes on with the result of its first step. -/
theorem bind_eq_of_eq_some {x : Option α} {a : α} {f : α → Option β} (first : x = some a)
    (rest : f a = y) : x >>= f = y := by
  rw [first]
  exact rest

theorem unsigned_bind_eq {f : Nat → Option β} (n : Nat) (eq : i = n) (lt : n < 2 ^ w)
    (rest : f n = y) : unsigned w i >>= f = y :=
  bind_eq_of_eq_some (unsigned_eq_some eq lt) rest

theorem signed_bind_eq {f : Int → Option β} (n : Nat) (eq : i = n) (lt : n < 2 ^ w)
    (rest : f n = y) : signed w i >>= f = y :=
  bind_eq_of_eq_some (signed_eq_some eq lt) rest

end Lumencast.Foundation
