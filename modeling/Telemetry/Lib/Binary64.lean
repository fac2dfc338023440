import Mathlib.Algebra.Order.Field.Power
import Mathlib.Data.Rat.Floor
import Mathlib.Algebra.Order.Floor.Ring

/-!
# Doubles by their values

The finite values of IEEE-754 binary64, as rational numbers: a rational is rounded to 53
significant bits, or to a multiple of the least subnormal, and a tie goes to the even side.

## Main definitions

* `nearest` — the nearest double, if the exponent had no upper bound.
* `Double`, `Double.ofRat` — the finite doubles, with both zeros.
-/

namespace Telemetry.Lib

/-- Round to an integer, a tie to the even one. -/
def roundHalfEven (q : ℚ) : ℤ :=
  let n := ⌊q⌋
  if q - n < 1 / 2 ∨ q - n = 1 / 2 ∧ n % 2 = 0 then n else n + 1

/-- The exponent of the leading bit. -/
def binade (q : ℚ) : ℤ :=
  let e : ℤ := q.num.natAbs.log2 - q.den.log2
  if (2 : ℚ) ^ e ≤ |q| then e else e - 1

/-- The exponent of the last bit that a double near `q` has. -/
def lastBit (q : ℚ) : ℤ := max (binade q - 52) (-1074)

/-- The value of the nearest double, if the exponent had no upper bound. -/
def nearest (q : ℚ) : ℚ := roundHalfEven (q / 2 ^ lastBit q) * 2 ^ lastBit q

/-- A finite double. -/
inductive Double
  | zero (negative : Bool)
  | nonzero (value : ℚ)
  deriving DecidableEq, Repr

/-- The double that a number is read as, unless it is too large. -/
def Double.ofRat (q : ℚ) : Option Double :=
  if nearest q = 0 then some (.zero (q < 0))
  else if |nearest q| < 2 ^ 1024 then some (.nonzero (nearest q))
  else none

/-- `==` of doubles: the zeros are equal. -/
def Double.Equal : Double → Double → Prop
  | .zero _, .zero _ => True
  | .nonzero q, .nonzero r => q = r
  | _, _ => False

theorem Double.Equal.refl (d : Double) : d.Equal d := by
  cases d with
  | zero negative => trivial
  | nonzero value => rfl

theorem Double.Equal.symm {d d' : Double} (h : d.Equal d') : d'.Equal d := by
  cases d with
  | zero negative =>
      cases d' with
      | zero negative' => trivial
      | nonzero r => exact h.elim
  | nonzero q =>
      cases d' with
      | zero negative' => exact h.elim
      | nonzero r => exact Eq.symm h

theorem Double.Equal.trans {d d' d'' : Double} (h : d.Equal d') (h' : d'.Equal d'') :
    d.Equal d'' := by
  cases d with
  | zero negative =>
      cases d' with
      | zero negative' => cases d'' with
        | zero negative'' => trivial
        | nonzero r => exact h'.elim
      | nonzero r => exact h.elim
  | nonzero q =>
      cases d' with
      | zero negative' => exact h.elim
      | nonzero r =>
          have hqr : q = r := h
          rw [hqr]
          exact h'

theorem Double.ofRat_zero : Double.ofRat 0 = some (.zero false) := by decide +kernel

/-- An integer is rounded to itself. -/
theorem roundHalfEven_intCast (n : ℤ) : roundHalfEven n = n := by
  simp [roundHalfEven]

/-- What has no bits behind the last one is a double. -/
theorem nearest_of_multiple {q : ℚ} {m : ℤ} (h : q = m * 2 ^ lastBit q) : nearest q = q := by
  have hpow : (2 : ℚ) ^ lastBit q ≠ 0 := zpow_ne_zero _ two_ne_zero
  have hdiv : q / 2 ^ lastBit q = m := by rw [div_eq_iff hpow, ← h]
  rw [nearest, hdiv, roundHalfEven_intCast, ← h]

/-- A bound of the leading bit. -/
theorem binade_le {q : ℚ} {m : ℤ} (hne : q ≠ 0) (h : |q| < 2 ^ (m + 1)) : binade q ≤ m := by
  have hbelow : ∀ e : ℤ, (2 : ℚ) ^ e ≤ |q| → e ≤ m := by
    intro e he
    have hlt : e < m + 1 := (zpow_lt_zpow_iff_right₀ one_lt_two).mp (lt_of_le_of_lt he h)
    omega
  rw [binade]
  split
  · exact hbelow _ ‹_›
  · apply hbelow
    -- the leading bits of the two parts bound the fraction from below
    have hnum : (2 : ℚ) ^ q.num.natAbs.log2 ≤ q.num.natAbs := by
      exact_mod_cast Nat.log2_self_le (Int.natAbs_ne_zero.mpr (Rat.num_ne_zero.mpr hne))
    have hden : (q.den : ℚ) ≤ 2 ^ (q.den.log2 + 1) := by
      exact_mod_cast (Nat.lt_log2_self).le
    have hpos : (0 : ℚ) < q.den := by exact_mod_cast q.den_pos
    have habs : |q| = q.num.natAbs / q.den := by
      rw [Nat.cast_natAbs, Int.cast_abs, ← Nat.abs_cast q.den, ← abs_div, Rat.num_div_den]
    have hsplit : (q.num.natAbs.log2 : ℤ) - q.den.log2 - 1 =
        (q.num.natAbs.log2 : ℤ) - (q.den.log2 + 1 : ℕ) := by
      push_cast
      ring
    rw [habs, hsplit, zpow_sub₀ two_ne_zero, zpow_natCast, zpow_natCast]
    exact div_le_div₀ (by positivity) hnum hpos hden

/-- **53 bits anywhere above the least subnormal are a double.** -/
theorem nearest_mul_zpow {n : ℕ} {e : ℤ} (h : n < 2 ^ 53) (he : -1074 ≤ e) :
    nearest (n * 2 ^ e) = n * 2 ^ e := by
  have htwo : (0 : ℚ) < 2 ^ e := by positivity
  rcases Nat.eq_zero_or_pos n with rfl | hpos
  · have hzero : nearest 0 = 0 := by decide +kernel
    simpa using hzero
  · have hbit : lastBit (n * 2 ^ e) ≤ e := by
      have hlt : |(n : ℚ) * 2 ^ e| < 2 ^ (52 + e + 1) := by
        have hn : (n : ℚ) < 2 ^ 53 := by exact_mod_cast h
        rw [abs_of_pos (by positivity), show 52 + e + 1 = 53 + e by ring, zpow_add₀ two_ne_zero]
        exact mul_lt_mul_of_pos_right hn htwo
      have hbinade := binade_le (by positivity) hlt
      rw [lastBit]
      omega
    rcases Int.eq_ofNat_of_zero_le (sub_nonneg.mpr hbit) with ⟨k, hk⟩
    apply nearest_of_multiple (m := n * 2 ^ k)
    have hsum : (k : ℤ) + lastBit (n * 2 ^ e) = e := by omega
    push_cast
    rw [mul_assoc, ← zpow_natCast (2 : ℚ) k, ← zpow_add₀ two_ne_zero, hsum]

/-! ## Integers -/

theorem binade_natCast {n : ℕ} (h : 0 < n) : binade n = n.log2 := by
  have hle : (2 : ℚ) ^ (n.log2 : ℤ) ≤ |(n : ℚ)| := by
    rw [Nat.abs_cast, zpow_natCast]
    exact_mod_cast Nat.log2_self_le h.ne'
  have hone : Nat.log2 1 = 0 := by decide
  rw [binade]
  simp only [Rat.num_natCast, Rat.den_natCast, Int.natAbs_natCast, hone, Nat.cast_zero, sub_zero]
  rw [if_pos hle]

/-- **An integer of at most 53 bits is a double.** -/
theorem nearest_natCast_of_lt {n : ℕ} (h : n < 2 ^ 53) : nearest n = n := by
  simpa using nearest_mul_zpow (e := 0) h (by omega)

/-- An integer of more bits is not rounded down to one of at most 53 bits. -/
theorem le_nearest_natCast {n : ℕ} (h : 2 ^ 53 ≤ n) : 2 ^ 53 ≤ nearest n := by
  have hpos : 0 < n := lt_of_lt_of_le (by positivity) h
  have hlog : 53 ≤ n.log2 := (Nat.le_log2 hpos.ne').mpr h
  have hbit : lastBit n = (n.log2 - 52 : ℕ) := by
    rw [lastBit, binade_natCast hpos]
    omega
  have htwo : (0 : ℚ) < 2 ^ lastBit n := by positivity
  have hscaled : (2 : ℚ) ^ 52 ≤ n / 2 ^ lastBit n := by
    have hpow : 2 ^ 52 * 2 ^ (n.log2 - 52) ≤ n := by
      rw [← pow_add, Nat.add_sub_cancel' (by omega)]
      exact Nat.log2_self_le hpos.ne'
    rw [le_div_iff₀ htwo, hbit, zpow_natCast]
    exact_mod_cast hpow
  have hround : (2 : ℤ) ^ 52 ≤ roundHalfEven (n / 2 ^ lastBit n) := by
    have hfloor : (2 : ℤ) ^ 52 ≤ ⌊(n : ℚ) / 2 ^ lastBit n⌋ := by
      rw [Int.le_floor]
      exact_mod_cast hscaled
    rw [roundHalfEven]
    split <;> omega
  have hone : (2 : ℚ) ≤ 2 ^ lastBit n := by
    rw [hbit, zpow_natCast]
    exact_mod_cast Nat.le_self_pow (by omega) 2
  have hround' : (2 : ℚ) ^ 52 ≤ roundHalfEven (n / 2 ^ lastBit n) := by exact_mod_cast hround
  have hmul := mul_le_mul hround' hone (by norm_num) (le_trans (by norm_num) hround')
  rw [nearest]
  exact le_trans (by norm_num) hmul

example : Double.ofRat (10 ^ 20) = some (.nonzero (10 ^ 20)) := by decide +kernel

example : Double.ofRat 9007199254740993 = some (.nonzero 9007199254740992) := by decide +kernel

end Telemetry.Lib
