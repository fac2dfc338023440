import Telemetry.Receipts.PythonRust

/-!
# The layout of a number in four SDKs

ECMAScript lays the digits of a number out around its decimal point, and with an exponent where the
point is far away. `receipts.py`, `canonicaljson.go`, `jcs.rs` and `CanonicalJson.cs` do so with
branches of their own. Python's integers have no bounds, but Python prints no exponent of more than
4300 digits; the others subtract one from an integer of their machine, and C# takes an absolute
value of the difference, which the least integer has not.

## Main definitions

* `numberToString` — the layout as ECMAScript has it.
* `Go.canonicalDigits`, `Rust.renderDigitsI32`, `CSharp.formatSignificand` — the layouts.

## Main results

* `layouts_alike` — **the four layouts are that of ECMAScript**, and it is read back.
-/

namespace Telemetry.Receipts

open Telemetry.Lib
open Python (Significand digitChar)

/-- An integer of a machine with so many bits. -/
def wrap (bits : ℕ) (n : ℤ) : ℤ := n.bmod (2 ^ bits)

/-- `Number::toString` of ECMAScript, for the digits of `s` and the point at `n`. -/
def numberToString (digits : List Char) (n : ℤ) : List Char :=
  let k := digits.length
  let sign := if n - 1 < 0 then '-' else '+'
  if k ≤ n ∧ n ≤ 21 then digits ++ List.replicate (n - k).toNat '0'
  else if 0 < n ∧ n ≤ 21 then digits.take n.toNat ++ '.' :: digits.drop n.toNat
  else if -6 < n ∧ n ≤ 0 then '0' :: '.' :: List.replicate (-n).toNat '0' ++ digits
  else if k = 1 then digits ++ 'e' :: sign :: Nat.toDigits 10 (n - 1).natAbs
  else digits.take 1 ++ '.' :: digits.drop 1 ++ 'e' :: sign :: Nat.toDigits 10 (n - 1).natAbs

namespace Go

/-- `strconv.Itoa`. -/
def itoa (n : ℤ) : List Char :=
  if n < 0 then '-' :: Nat.toDigits 10 n.natAbs else Nat.toDigits 10 n.natAbs

/-- `canonicalExponent`. -/
def canonicalExponent (e : ℤ) : List Char := if 0 ≤ e then '+' :: itoa e else itoa e

/-- `canonicalDigits`. -/
def canonicalDigits (digits : List Char) (n : ℤ) : List Char :=
  let k := digits.length
  if k ≤ n ∧ n ≤ 21 then digits ++ List.replicate (n - k).toNat '0'
  else if 0 < n ∧ n ≤ 21 then digits.take n.toNat ++ '.' :: digits.drop n.toNat
  else if -6 < n ∧ n ≤ 0 then '0' :: '.' :: List.replicate (-n).toNat '0' ++ digits
  else if k = 1 then digits ++ 'e' :: canonicalExponent (wrap 64 (n - 1))
  else digits.take 1 ++ '.' :: digits.drop 1 ++ 'e' :: canonicalExponent (wrap 64 (n - 1))

end Go

namespace Rust

/-- `render_digits`, with an `i32` that wraps around. -/
def renderDigitsI32 (digits : List Char) (significant point : ℤ) : List Char :=
  if significant ≤ point ∧ point ≤ 21 then
    digits ++ List.replicate (point - significant).toNat '0'
  else if 0 < point ∧ point ≤ 21 then
    digits.take point.toNat ++ '.' :: digits.drop point.toNat
  else if -6 < point ∧ point ≤ 0 then
    '0' :: '.' :: List.replicate (-point).toNat '0' ++ digits
  else
    let exponent := wrap 32 (point - 1)
    let sign := if exponent < 0 then [] else ['+']
    if significant = 1 then digits ++ 'e' :: sign ++ decimal exponent
    else digits.take 1 ++ '.' :: digits.drop 1 ++ 'e' :: sign ++ decimal exponent

end Rust

namespace CSharp

/-- `Math.Abs`, which throws an `OverflowException` on the least integer. -/
def abs? (n : ℤ) : Option ℕ := if n = -2 ^ 31 then none else some n.natAbs

/-- `FormatSignificand`. -/
def formatSignificand (digits : List Char) (n : ℤ) : Option (List Char) :=
  let k := digits.length
  if 21 < n ∨ n ≤ -6 then
    let exponent := wrap 32 (n - 1)
    let mantissa := if k = 1 then digits else digits.take 1 ++ '.' :: digits.drop 1
    let sign := if exponent < 0 then '-' else '+'
    (abs? exponent).map fun e => mantissa ++ 'e' :: sign :: Nat.toDigits 10 e
  else if k ≤ n then some (digits ++ List.replicate (n - k).toNat '0')
  else if 0 < n then some (digits.take n.toNat ++ '.' :: digits.drop n.toNat)
  else some ('0' :: '.' :: List.replicate (-n).toNat '0' ++ digits)

end CSharp

/-! ## The layouts compared -/

variable {digits : List Char} {n : ℤ}

theorem wrap_eq {bits : ℕ} (hlow : -2 ^ bits ≤ n) (hhigh : n < 2 ^ bits) :
    wrap (bits + 1) n = n := by
  have hpow : (2 : ℤ) ^ (bits + 1) = 2 * 2 ^ bits := by ring
  rw [wrap]
  apply Int.bmod_eq_of_le <;> push_cast <;> rw [hpow] <;> omega

/-- `render_digits` as ECMAScript has it. -/
theorem renderDigits_eq (digits : List Char) (n : ℤ) :
    Rust.renderDigits digits digits.length n = numberToString digits n := by
  have hone : ((digits.length : ℤ) = 1) ↔ digits.length = 1 := by omega
  simp only [Rust.renderDigits, numberToString, Rust.decimal, hone]
  split_ifs <;> simp

theorem renderDigitsI32_eq (hlow : -2 ^ 31 < n) (hhigh : n < 2 ^ 31) :
    Rust.renderDigitsI32 digits digits.length n = numberToString digits n := by
  rw [← renderDigits_eq, Rust.renderDigitsI32, Rust.renderDigits, wrap_eq (by omega) (by omega)]

theorem canonicalDigits_eq (hlow : -2 ^ 63 < n) (hhigh : n < 2 ^ 63) :
    Go.canonicalDigits digits n = numberToString digits n := by
  have hexponent : Go.canonicalExponent (n - 1) =
      (if n - 1 < 0 then '-' else '+') :: Nat.toDigits 10 (n - 1).natAbs := by
    rw [Go.canonicalExponent, Go.itoa]
    by_cases hneg : n - 1 < 0
    · rw [if_neg (by omega), if_pos hneg, if_pos hneg]
    · rw [if_pos (by omega), if_neg hneg, if_neg hneg]
  rw [Go.canonicalDigits, numberToString, wrap_eq (by omega) (by omega), hexponent]

/-- One bound in front is as good as two bounds on each branch. -/
theorem formatSignificand_csharp_eq (hne : digits ≠ []) (hlow : -2 ^ 31 + 1 < n)
    (hhigh : n < 2 ^ 31) :
    CSharp.formatSignificand digits n = some (numberToString digits n) := by
  have hlength := List.length_pos_iff.mpr hne
  have habs : CSharp.abs? (n - 1) = some (n - 1).natAbs := if_neg (by omega)
  simp only [CSharp.formatSignificand, numberToString]
  rw [wrap_eq (by omega) (by omega), habs]
  by_cases hexponent : 21 < n ∨ n ≤ -6
  · have hinteger : ¬ (digits.length ≤ n ∧ n ≤ 21) := by omega
    have hpoint : ¬ (0 < n ∧ n ≤ 21) := by omega
    have hzeros : ¬ (-6 < n ∧ n ≤ 0) := by omega
    rw [if_pos hexponent, if_neg hinteger, if_neg hpoint, if_neg hzeros, Option.map_some]
    by_cases hone : digits.length = 1
    · rw [if_pos hone, if_pos hone]
    · rw [if_neg hone, if_neg hone]
  · have hsmall : n ≤ 21 := by omega
    have hlarge : -6 < n := by omega
    simp only [if_neg hexponent, hsmall, hlarge, and_true, true_and]
    by_cases hinteger : (digits.length : ℤ) ≤ n
    · rw [if_pos hinteger, if_pos hinteger]
    · rw [if_neg hinteger, if_neg hinteger]
      by_cases hpoint : 0 < n
      · rw [if_pos hpoint, if_pos hpoint]
      · rw [if_neg hpoint, if_neg hpoint, if_pos (Int.not_lt.mp hpoint)]

theorem formatSignificand_python_eq (hne : digits ≠ []) (hn : Python.Printed n) :
    Python.formatSignificand digits n = .ok (numberToString digits n) := by
  rw [formatSignificand_eq hne hn, renderDigits_eq]

/-- Far from the digits, the layout has an exponent. -/
theorem numberToString_scientific {d : Char} {rest : List Char} (hn : 21 < n ∨ n ≤ -6) :
    numberToString (d :: rest) n =
      Python.mantissa d rest ++ 'e' :: Python.signed (n - 1) (Nat.toDigits 10) := by
  rw [numberToString, if_neg (by omega), if_neg (by omega), if_neg (by omega)]
  cases rest with
  | nil => rfl
  | cons d' rest =>
      rw [if_neg (by simp)]
      rfl

/-- Few digits are enough for an exponent near the digits. -/
theorem printed_of_near (hn : ¬ (21 < n ∨ n ≤ -6)) : Python.Printed n := by
  have htwo : (Nat.toDigits 10 (n - 1).natAbs).length ≤ 2 :=
    (Nat.length_toDigits_le_iff (by decide) (by decide)).mpr (by omega)
  exact htwo.trans (by decide)

/-- **The layout of ECMAScript is read back.** -/
theorem readUnsigned_numberToString (x : Significand) :
    Python.readUnsigned (numberToString (x.digits.map digitChar) x.point) = x.value := by
  by_cases hn : 21 < x.point ∨ x.point ≤ -6
  · obtain ⟨d, rest, hdigits⟩ := List.exists_cons_of_ne_nil x.ne_nil
    have hall : ∀ c ∈ digitChar d :: rest.map digitChar, c.isDigit = true := by
      rw [← List.map_cons, ← hdigits]
      exact Python.isDigit_of_mem_map
    rw [hdigits, List.map_cons, numberToString_scientific hn, Python.readUnsigned_scientific hall,
      Significand.value, hdigits, Python.ofDigits, List.map_cons, List.length_cons,
      List.length_cons, List.length_map]
  · have hne : x.digits.map digitChar ≠ [] := by simpa using x.ne_nil
    exact Python.readUnsigned_formatSignificand
      (formatSignificand_python_eq hne (printed_of_near hn))

/-- **The four layouts are that of ECMAScript**, on every integer that the language can take one
from, C# for every integer whose predecessor has an absolute value, and Python for every integer
whose predecessor it prints; and it is read back as what the digits and the point stand for. -/
theorem layouts_alike (x : Significand) :
    let digits := x.digits.map digitChar
    (Python.Printed x.point →
      Python.formatSignificand digits x.point = .ok (numberToString digits x.point)) ∧
    (-2 ^ 63 < x.point → x.point < 2 ^ 63 →
      Go.canonicalDigits digits x.point = numberToString digits x.point) ∧
    (-2 ^ 31 < x.point → x.point < 2 ^ 31 →
      Rust.renderDigitsI32 digits digits.length x.point = numberToString digits x.point) ∧
    (-2 ^ 31 + 1 < x.point → x.point < 2 ^ 31 →
      CSharp.formatSignificand digits x.point = some (numberToString digits x.point)) ∧
    Python.readUnsigned (numberToString digits x.point) = x.value := by
  intro digits
  have hne : digits ≠ [] := by simpa [digits] using x.ne_nil
  exact ⟨formatSignificand_python_eq hne, canonicalDigits_eq, renderDigitsI32_eq,
    formatSignificand_csharp_eq hne, readUnsigned_numberToString x⟩

/-- `1e22` has an exponent in every layout. -/
theorem layouts_alike_at_tenZetta :
    Python.formatSignificand ['1'] 23 = .ok "1e+22".toList ∧
      Go.canonicalDigits ['1'] 23 = "1e+22".toList ∧
      Rust.renderDigitsI32 ['1'] 1 23 = "1e+22".toList ∧
      CSharp.formatSignificand ['1'] 23 = some "1e+22".toList ∧
      Python.readUnsigned "1e+22".toList = (10 ^ 22 : ℕ) := by
  obtain ⟨hpython, hgo, hrust, hcsharp, hread⟩ := layouts_alike
    ⟨[1], 23, List.cons_ne_nil _ _, Python.digit_one_ne_zero, Python.digit_one_ne_zero⟩
  have hone : Python.ofDigits [1] = 1 := by decide
  have hvalue : (Python.ofDigits [1] : ℚ) * 10 ^ ((23 : ℤ) - 1) = (10 ^ 22 : ℕ) := by
    rw [hone]
    norm_num
  exact ⟨hpython (by decide), hgo (by decide) (by decide), hrust (by decide) (by decide),
    hcsharp (by decide) (by decide), hread.trans hvalue⟩

/-- Python refuses an exponent that it does not print. -/
theorem formatSignificand_of_not_printed (hne : digits ≠ []) (hn : ¬ Python.Printed n) :
    Python.formatSignificand digits n = .error .valueError := by
  obtain ⟨d, rest, rfl⟩ := List.exists_cons_of_ne_nil hne
  have hfar : 21 < n ∨ n ≤ -6 := by
    by_contra hnear
    exact hn (printed_of_near hnear)
  rw [Python.formatSignificand, if_pos hfar, Python.exponential, Python.plusInt,
    if_pos (Nat.lt_of_not_le hn)]
  rfl

/-- A power of ten has one more digit than its exponent says. -/
theorem printed_pow_iff (k : ℕ) : Python.Printed (10 ^ k + 1) ↔ k < Python.intMaxStrDigits := by
  rw [Python.Printed, Int.add_sub_cancel, Int.natAbs_pow]
  have hpos : 0 < Python.intMaxStrDigits := by decide
  generalize Python.intMaxStrDigits = limit at hpos
  rw [Nat.length_toDigits_le_iff (by decide) hpos]
  exact Nat.pow_lt_pow_iff_right (by decide)

/-- One below the least point that C# can lay out; and a power of ten with a digit too many for
Python. -/
theorem csharp_throws :
    (CSharp.formatSignificand ['1'] (-2 ^ 31 + 1) = none ∧
      Python.formatSignificand ['1'] (-2 ^ 31 + 1) = .ok "1e-2147483648".toList) ∧
    Python.formatSignificand ['1'] (10 ^ Python.intMaxStrDigits + 1) = .error .valueError := by
  refine ⟨by decide, formatSignificand_of_not_printed (List.cons_ne_nil _ _) ?_⟩
  rw [printed_pow_iff]
  exact lt_irrefl _

end Telemetry.Receipts
