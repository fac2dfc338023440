import Mathlib.Algebra.Order.Ring.Int

/-!
# Arithmetic that notices an overflow

A signed machine integer that was computed, as the integer that it should be, with a flag whether
every step on the way stayed in the range of the machine. Division truncates.

## Main definitions

* `Checked` — an integer of a width, with the flag.
* `Checked.Holds` — the integer is a value, and nothing overflowed.

## Main results

* `Checked.Holds.add`, `sub`, `mul`, `div` — what the operations hold.
-/

namespace Telemetry.Lib

/-- A signed integer of a width. -/
structure Checked (width : ℕ) where
  value : ℤ
  fits : Bool

namespace Checked

variable {width : ℕ}

/-- The value is one of the width. -/
def InRange (width : ℕ) (v : ℤ) : Prop := -2 ^ (width - 1) ≤ v ∧ v < 2 ^ (width - 1)

instance (v : ℤ) : Decidable (InRange width v) := inferInstanceAs (Decidable (_ ∧ _))

/-- The result of an operation on two integers. -/
def result (x y : Checked width) (v : ℤ) : Checked width :=
  ⟨v, x.fits && y.fits && decide (InRange width v)⟩

instance (n : ℕ) : OfNat (Checked width) n := ⟨⟨n, decide (InRange width n)⟩⟩

instance : Add (Checked width) := ⟨fun x y => result x y (x.value + y.value)⟩

instance : Sub (Checked width) := ⟨fun x y => result x y (x.value - y.value)⟩

instance : Mul (Checked width) := ⟨fun x y => result x y (x.value * y.value)⟩

instance : Div (Checked width) := ⟨fun x y => result x y (x.value.tdiv y.value)⟩

/-- A cast of an unsigned integer: the value is taken modulo the range. -/
def ofNat (n : ℕ) : Checked width := ⟨(n : ℤ).bmod (2 ^ width), true⟩

/-- The integer is the value, and nothing overflowed on the way to it. -/
structure Holds (x : Checked width) (v : ℤ) : Prop where
  value_eq : x.value = v
  fits_eq : x.fits = true

namespace Holds

variable {x y : Checked width} {a b : ℤ}

theorem lit {n : ℕ} (h : InRange width n) : Holds (OfNat.ofNat n : Checked width) n :=
  ⟨rfl, decide_eq_true h⟩

theorem result (hx : Holds x a) (hy : Holds y b) {v : ℤ} (h : InRange width v) :
    Holds (Checked.result x y v) v :=
  ⟨rfl, by simp [Checked.result, hx.fits_eq, hy.fits_eq, h]⟩

theorem add (hx : Holds x a) (hy : Holds y b) (h : InRange width (a + b)) :
    Holds (x + y) (a + b) := by
  have hresult := hx.result hy h
  rw [← hx.value_eq, ← hy.value_eq] at hresult ⊢
  exact hresult

theorem sub (hx : Holds x a) (hy : Holds y b) (h : InRange width (a - b)) :
    Holds (x - y) (a - b) := by
  have hresult := hx.result hy h
  rw [← hx.value_eq, ← hy.value_eq] at hresult ⊢
  exact hresult

theorem mul (hx : Holds x a) (hy : Holds y b) (h : InRange width (a * b)) :
    Holds (x * y) (a * b) := by
  have hresult := hx.result hy h
  rw [← hx.value_eq, ← hy.value_eq] at hresult ⊢
  exact hresult

/-- Of a dividend that is not negative. -/
theorem div (hx : Holds x a) (hy : Holds y b) (ha : 0 ≤ a) (h : InRange width (a / b)) :
    Holds (x / y) (a / b) := by
  rw [← Int.tdiv_eq_ediv_of_nonneg ha] at h ⊢
  have hresult := hx.result hy h
  rw [← hx.value_eq, ← hy.value_eq] at hresult ⊢
  exact hresult

/-- The value may be written in another way. -/
theorem of_eq (hx : Holds x a) (h : a = b) : Holds x b := h ▸ hx

theorem ofNat {n : ℕ} (h : 2 * n < 2 ^ width) : Holds (Checked.ofNat n : Checked width) n := by
  refine ⟨Int.bmod_eq_of_le_mul_two ?_ ?_, rfl⟩
  · have hpos : (0 : ℤ) ≤ n := Int.natCast_nonneg n
    have hpow : (0 : ℤ) ≤ (2 ^ width : ℕ) := Int.natCast_nonneg _
    omega
  · have hlt : (2 * n : ℤ) < (2 ^ width : ℕ) := by exact_mod_cast h
    omega

end Holds

end Checked

end Telemetry.Lib
