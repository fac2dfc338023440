import Mathlib.Algebra.Field.Rat
import Mathlib.Algebra.Order.Monoid.Unbundled.WithTop
import Mathlib.Algebra.Order.Ring.Rat

/-!
# Numbers and not a number

A floating-point number as far as comparisons see it: the zeros are one, and `nan` is neither less
nor greater than anything, itself included.

## Main definitions

* `Number` — a number, an infinity, or not a number.
* `Number.lt`, `Number.same` — `<` and `==`.
* `Number.InUnit` — between zero and one.
-/

namespace Telemetry.Lib

/-- A number, an infinity, or not a number. -/
inductive Number
  | nan
  | num (x : WithBot (WithTop ℚ))
  deriving DecidableEq

namespace Number

/-- `<`. -/
def lt : Number → Number → Bool
  | num x, num y => x < y
  | _, _ => false

/-- `==`. -/
def same : Number → Number → Bool
  | num x, num y => x = y
  | _, _ => false

/-- Neither `nan` nor an infinity. -/
def isFinite : Number → Bool
  | nan => false
  | num x => x ≠ ⊥ && x ≠ ⊤

/-- A rational number. -/
def ofRat (q : ℚ) : Number := num ((q : WithTop ℚ) : WithBot (WithTop ℚ))

def zero : Number := num 0

def one : Number := num 1

/-- A number between zero and one. -/
def InUnit : Number → Prop
  | nan => False
  | num x => 0 ≤ x ∧ x ≤ 1

instance : DecidablePred InUnit
  | nan => inferInstanceAs (Decidable False)
  | num x => inferInstanceAs (Decidable (0 ≤ x ∧ x ≤ 1))

@[simp] theorem lt_num (x y : WithBot (WithTop ℚ)) : (num x).lt (num y) = decide (x < y) := rfl

@[simp] theorem nan_lt (r : Number) : nan.lt r = false := rfl

@[simp] theorem lt_nan (r : Number) : r.lt nan = false := by cases r <;> rfl

end Number

end Telemetry.Lib
