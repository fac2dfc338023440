import Mathlib.Data.BitVec
import Mathlib.Data.Rat.Floor
import Telemetry.Lib.Binary64

/-!
# The numbers of ECMAScript and their 32-bit operators

A Number that is finite is a rational. `+`, `-`, `*` and `/` round to the nearest double; the
bitwise operators go through 32-bit words: `ToInt32` and `ToUint32` take the same bits of a Number
and read them with and without a sign. So a word is all that an operator sees of its operands,
and what an expression comes to can be said of words.

## Main definitions

* `add`, `sub`, `mul`, `div` — arithmetic with its rounding.
* `toWord` — the bits that `ToInt32` and `ToUint32` read.
* `bitAnd`, `bitOr`, `bitXor`, `bitNot`, `shiftLeft`, `shiftRight` — the operators; the last
  is `>>>`.
-/

namespace Telemetry.Lib.Ecma

/-! ## Arithmetic -/

def add (x y : ℚ) : ℚ := nearest (x + y)

def sub (x y : ℚ) : ℚ := nearest (x - y)

def mul (x y : ℚ) : ℚ := nearest (x * y)

def div (x y : ℚ) : ℚ := nearest (x / y)

/-- `Math.floor`. -/
def floor (x : ℚ) : ℚ := ⌊x⌋

/-- `Math.ceil`. -/
def ceil (x : ℚ) : ℚ := ⌈x⌉

/-! ## Words -/

/-- The integer that is left when the fraction is dropped. -/
def truncate (x : ℚ) : ℤ := if 0 ≤ x then ⌊x⌋ else ⌈x⌉

/-- The bits of `ToInt32` and of `ToUint32`. -/
def toWord (x : ℚ) : BitVec 32 := BitVec.ofInt 32 (truncate x)

/-- What `ToUint32` makes of the bits. -/
def unsigned (w : BitVec 32) : ℚ := w.toNat

/-- What `ToInt32` makes of the bits. -/
def signed (w : BitVec 32) : ℚ := w.toInt

/-- `x & y`. -/
def bitAnd (x y : ℚ) : ℚ := signed (toWord x &&& toWord y)

/-- `x | y`. -/
def bitOr (x y : ℚ) : ℚ := signed (toWord x ||| toWord y)

/-- `x ^ y`. -/
def bitXor (x y : ℚ) : ℚ := signed (toWord x ^^^ toWord y)

/-- `~x`. -/
def bitNot (x : ℚ) : ℚ := signed (~~~toWord x)

/-- `x << y`. -/
def shiftLeft (x y : ℚ) : ℚ := signed (toWord x <<< ((toWord y).toNat % 32))

/-- `x >>> y`. -/
def shiftRight (x y : ℚ) : ℚ := unsigned (toWord x >>> ((toWord y).toNat % 32))

theorem toWord_natCast (n : ℕ) : toWord n = BitVec.ofNat 32 n := by
  rw [toWord, truncate, if_pos (Nat.cast_nonneg n), Int.floor_natCast, BitVec.ofInt_natCast]

theorem toWord_intCast (n : ℤ) : toWord n = BitVec.ofInt 32 n := by
  rw [toWord, truncate, Int.floor_intCast, Int.ceil_intCast, ite_self]

@[simp] theorem toWord_unsigned (w : BitVec 32) : toWord (unsigned w) = w := by
  rw [unsigned, toWord_natCast, BitVec.ofNat_toNat, BitVec.setWidth_eq]

@[simp] theorem toWord_signed (w : BitVec 32) : toWord (signed w) = w := by
  rw [signed, toWord_intCast, BitVec.ofInt_toInt]

/-- `x >>> 0`. -/
theorem shiftRight_zero (x : ℚ) : shiftRight x 0 = unsigned (toWord x) := by
  have hzero : toWord 0 = 0 := toWord_natCast 0
  simp [shiftRight, hzero]

/-! ## Where nothing is rounded -/

theorem add_natCast {m n : ℕ} (h : m + n < 2 ^ 53) : add m n = (m + n : ℕ) := by
  rw [add, ← Nat.cast_add, nearest_natCast_of_lt h]

theorem sub_natCast {m n : ℕ} (hle : n ≤ m) (h : m < 2 ^ 53) : sub m n = (m - n : ℕ) := by
  rw [sub, ← Nat.cast_sub hle, nearest_natCast_of_lt (by omega)]

/-- A multiplication by a power of two only moves the bits. -/
theorem mul_two_pow {m : ℕ} (e : ℕ) (h : m < 2 ^ 53) : mul m (2 ^ e : ℕ) = (m * 2 ^ e : ℕ) := by
  have hnearest := nearest_mul_zpow (e := e) h (by omega)
  rw [mul]
  push_cast
  rwa [zpow_natCast] at hnearest

/-- And so does a division. -/
theorem div_two_pow {m e : ℕ} (h : m < 2 ^ 53) (he : e ≤ 1074) :
    div m (2 ^ e : ℕ) = (m : ℚ) / (2 ^ e : ℕ) := by
  have hnearest := nearest_mul_zpow (e := -e) h (by omega)
  rw [div]
  push_cast
  rwa [zpow_neg, zpow_natCast, ← div_eq_mul_inv] at hnearest

/-- **The sum of two words, as `+` and `>>> 0` make it.** -/
theorem toWord_add_unsigned (v w : BitVec 32) :
    toWord (add (unsigned v) (unsigned w)) = v + w := by
  have hv := v.isLt
  have hw := w.isLt
  rw [unsigned, unsigned, add_natCast (by omega), toWord_natCast]
  apply BitVec.eq_of_toNat_eq
  rw [BitVec.toNat_ofNat, BitVec.toNat_add]

end Telemetry.Lib.Ecma
