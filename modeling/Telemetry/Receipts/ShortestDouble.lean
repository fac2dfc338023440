import Telemetry.Receipts.Doubles
import Mathlib.Data.List.DropRight

/-!
# The shortest decimal of a double

What `repr` and `{:e}` print of a double: the decimal with the fewest digits that is read back as
it, and of those the nearest one. It is found by trying one count of digits after another.

An integer that is converted to a double is rounded, so the decimal may be another integer.

## Main definitions

* `shortest` — the shortest decimal of a positive double.
* `PyFloat.ofInt` — an integer, converted.

## Main results

* `value_ofNat` — a decimal without its trailing zeros has the same value.
* `digitsOf_ofDigits` — digits without a leading zero are those of the number they write.
* `formatSignificand_of_value` — a decimal that is an integer is written as the integer is.
-/

namespace Telemetry.Receipts.Python

open Telemetry.Lib

/-! ## Digits -/

/-- The digit that a character is. -/
def digitOfChar (c : Char) : Digit := Fin.ofNat 10 (c.toNat - 48)

/-- The digits of a number. -/
def digitsOf (n : ℕ) : List Digit := (Nat.toDigits 10 n).map digitOfChar

/-- The digits of a number without the zeros at the end. -/
def significantDigits (n : ℕ) : List Digit := (digitsOf n).rdropWhile (· = 0)

theorem digitChar_digitOfChar {c : Char} (h : c.isDigit = true) :
    digitChar (digitOfChar c) = c := by
  rw [Char.isDigit, Bool.and_eq_true, decide_eq_true_eq, decide_eq_true_eq] at h
  have hlow : 48 ≤ c.toNat := h.1
  have hhigh : c.toNat ≤ 57 := h.2
  have hall : ∀ d : Fin 10, digitChar (Fin.ofNat 10 d) = Char.ofNat (48 + d) := by decide
  have hc := hall ⟨c.toNat - 48, by omega⟩
  rw [digitOfChar, hc, Nat.add_sub_cancel' hlow, Char.ofNat_toNat]

theorem map_digitChar_digitsOf (n : ℕ) : (digitsOf n).map digitChar = Nat.toDigits 10 n := by
  rw [digitsOf, List.map_map]
  conv_rhs => rw [← List.map_id (Nat.toDigits 10 n)]
  apply List.map_congr_left
  intro c hc
  exact digitChar_digitOfChar (Nat.isDigit_of_mem_toDigits (by decide) (by decide) hc)

theorem digitsOf_ne_nil (n : ℕ) : digitsOf n ≠ [] := by
  simp [digitsOf]

theorem ofDigits_digitsOf (n : ℕ) : ofDigits (digitsOf n) = n := by
  rw [ofDigits, map_digitChar_digitsOf, Nat.ofDigitChars_ten_toDigits]

theorem ofDigits_append (s t : List Digit) :
    ofDigits (s ++ t) = 10 ^ t.length * ofDigits s + ofDigits t := by
  rw [ofDigits, List.map_append, Nat.ofDigitChars_append, Nat.ofDigitChars_eq_ofDigitChars_zero,
    List.length_map]
  rfl

theorem ofDigits_replicate_zero (n : ℕ) : ofDigits (List.replicate n 0) = 0 := by
  have hzero : digitChar 0 = '0' := rfl
  rw [ofDigits, List.map_replicate, hzero, Nat.ofDigitChars_replicate_zero, Nat.mul_zero]

/-- Digits are those before the last zeros, and zeros. -/
theorem exists_replicate_zero (digits : List Digit) :
    ∃ k, digits = digits.rdropWhile (· = 0) ++ List.replicate k 0 := by
  induction digits using List.reverseRecOn with
  | nil => exact ⟨0, rfl⟩
  | append_singleton digits d ih =>
      rw [List.rdropWhile_concat]
      by_cases hd : d = 0
      · rcases ih with ⟨k, hk⟩
        refine ⟨k + 1, ?_⟩
        rw [if_pos (by simpa using hd), List.replicate_succ', ← List.append_assoc, ← hk, hd]
      · exact ⟨0, by rw [if_neg (by simpa using hd)]; simp⟩

theorem digitOfChar_digitChar (d : Digit) : digitOfChar (digitChar d) = d := by
  revert d
  decide

/-- A positive number does not start with a zero. -/
theorem digitsOf_eq_cons {n : ℕ} (h : 0 < n) : ∃ d rest, digitsOf n = d :: rest ∧ d ≠ 0 := by
  induction n using Nat.strong_induction_on with
  | _ n ih =>
      rw [digitsOf, Nat.toDigits_eq_if (by decide)]
      split
      · rename_i hlt
        refine ⟨⟨n, hlt⟩, [], ?_, ?_⟩
        · exact congrArg (· :: []) (digitOfChar_digitChar ⟨n, hlt⟩)
        · exact fun h0 => h.ne' (congrArg Fin.val h0)
      · rename_i hge
        rcases ih (n / 10) (by omega) (by omega) with ⟨d, rest, hdigits, hd⟩
        rw [digitsOf] at hdigits
        rw [List.map_append, hdigits]
        exact ⟨d, _, rfl, hd⟩

theorem ofDigits_cons (d : Digit) (digits : List Digit) :
    ofDigits (d :: digits) = 10 ^ digits.length * d + ofDigits digits := by
  have hsingle : ofDigits [d] = d := by
    revert d
    decide
  rw [← List.singleton_append, ofDigits_append, hsingle]

/-- Digits without a leading zero write a large number. -/
theorem pow_le_ofDigits {digits : List Digit} (hne : digits ≠ []) (hhead : digits.head hne ≠ 0) :
    10 ^ (digits.length - 1) ≤ ofDigits digits := by
  cases digits with
  | nil => exact absurd rfl hne
  | cons d digits =>
      rw [List.head_cons] at hhead
      have hd : 1 ≤ (d : ℕ) := Nat.one_le_iff_ne_zero.mpr fun h => hhead (Fin.ext h)
      have hmul := Nat.mul_le_mul_left (10 ^ digits.length) hd
      rw [ofDigits_cons, List.length_cons, Nat.add_sub_cancel]
      omega

/-- **Digits without a leading zero** are those of the number that they write. -/
theorem digitsOf_ofDigits {digits : List Digit} (hne : digits ≠ [])
    (hhead : digits.head hne ≠ 0) : digitsOf (ofDigits digits) = digits := by
  induction digits using List.reverseRecOn with
  | nil => exact absurd rfl hne
  | append_singleton digits d ih =>
      have hlast : ofDigits (digits ++ [d]) = 10 * ofDigits digits + d := by
        rw [ofDigits_append, ofDigits_cons]
        simp [ofDigits]
      have hd : digitsOf d = [d] := by
        revert d
        intro d _ _ _
        exact (by decide : ∀ d : Digit, digitsOf d = [d]) d
      cases hdigits : digits with
      | nil =>
          rw [List.nil_append, ofDigits_cons]
          simpa [ofDigits] using hd
      | cons d' rest =>
          rw [← hdigits]
          have hne' : digits ≠ [] := by simp [hdigits]
          have hhead' : digits.head hne' ≠ 0 := by
            rwa [List.head_append_of_ne_nil hne'] at hhead
          have hpos : 0 < ofDigits digits :=
            lt_of_lt_of_le (by positivity) (pow_le_ofDigits hne' hhead')
          have hten : (d : ℕ) < 10 := d.isLt
          rw [hlast, digitsOf, ← Nat.toDigits_append_toDigits (by decide) hpos hten,
            List.map_append, ← digitsOf, ← digitsOf, ih hne' hhead', hd]

/-- Significant digits of a positive number start with the first digit of the number. -/
theorem significantDigits_eq_cons {n : ℕ} (h : 0 < n) :
    ∃ d rest, significantDigits n = d :: rest ∧ d ≠ 0 := by
  rcases digitsOf_eq_cons h with ⟨d, rest, hdigits, hd⟩
  rcases exists_replicate_zero (digitsOf n) with ⟨k, hk⟩
  cases hsig : significantDigits n with
  | nil =>
      rw [← significantDigits, hsig, List.nil_append, hdigits] at hk
      exact absurd (List.eq_of_mem_replicate (hk ▸ List.mem_cons_self)) hd
  | cons d' rest' =>
      rw [← significantDigits, hsig, hdigits, List.cons_append, List.cons.injEq] at hk
      exact ⟨d', rest', rfl, hk.1 ▸ hd⟩

theorem significantDigits_ne_nil {n : ℕ} (h : 0 < n) : significantDigits n ≠ [] := by
  rcases significantDigits_eq_cons h with ⟨d, rest, hsig, -⟩
  simp [hsig]

theorem head_significantDigits {n : ℕ} (h : 0 < n) :
    (significantDigits n).head (significantDigits_ne_nil h) ≠ 0 := by
  rcases significantDigits_eq_cons h with ⟨d, rest, hsig, hd⟩
  simp only [hsig, List.head_cons]
  exact hd

theorem getLast_significantDigits {n : ℕ} (h : 0 < n) :
    (significantDigits n).getLast (significantDigits_ne_nil h) ≠ 0 := by
  have hlast := List.rdropWhile_last_not (fun d : Digit => decide (d = 0)) (digitsOf n)
    (significantDigits_ne_nil h)
  rwa [decide_eq_true_eq] at hlast

/-- The decimal `n · 10 ^ exponent`. -/
def Significand.ofNat (n : ℕ) (h : 0 < n) (exponent : ℤ) : Significand where
  digits := significantDigits n
  point := (digitsOf n).length + exponent
  ne_nil := significantDigits_ne_nil h
  head_ne := head_significantDigits h
  getLast_ne := getLast_significantDigits h

/-- **A decimal without its trailing zeros has the same value.** -/
theorem value_ofNat (n : ℕ) (h : 0 < n) (exponent : ℤ) :
    (Significand.ofNat n h exponent).value = n * 10 ^ exponent := by
  rcases exists_replicate_zero (digitsOf n) with ⟨k, hk⟩
  rw [← significantDigits] at hk
  have hvalue : (n : ℚ) = ofDigits (significantDigits n) * 10 ^ (k : ℤ) := by
    have hdigits := congrArg ofDigits hk
    rw [ofDigits_digitsOf, ofDigits_append, ofDigits_replicate_zero, List.length_replicate,
      Nat.add_zero, mul_comm] at hdigits
    rw [zpow_natCast]
    exact_mod_cast hdigits
  have hlength := congrArg List.length hk
  rw [List.length_append, List.length_replicate] at hlength
  rw [Significand.value, hvalue, mul_assoc, ← zpow_add₀ (by norm_num : (10 : ℚ) ≠ 0)]
  change _ * (10 : ℚ) ^ (((digitsOf n).length : ℤ) + exponent - (significantDigits n).length) = _
  congr 2
  omega

/-- Digits write a number that is not too large. -/
theorem ofDigits_lt_pow (digits : List Digit) : ofDigits digits < 10 ^ digits.length := by
  induction digits with
  | nil => decide
  | cons d digits ih =>
      have hmul := Nat.mul_le_mul_left (10 ^ digits.length) (Nat.le_of_lt_succ d.isLt)
      rw [ofDigits_cons, List.length_cons, pow_succ]
      omega

/-- **The point of a decimal** is where its value has its first digit. -/
theorem point_bounds (x : Significand) : 10 ^ (x.point - 1) ≤ x.value ∧ x.value < 10 ^ x.point := by
  have hten : (10 : ℚ) ≠ 0 := by norm_num
  have hscale : (0 : ℚ) < 10 ^ (x.point - x.digits.length) := by positivity
  have hlength : 0 < x.digits.length := List.length_pos_iff.mpr x.ne_nil
  have hlow : ((10 ^ (x.digits.length - 1) : ℕ) : ℚ) ≤ ofDigits x.digits :=
    Nat.cast_le.mpr (pow_le_ofDigits x.ne_nil x.head_ne)
  have hhigh : (ofDigits x.digits : ℚ) < ((10 ^ x.digits.length : ℕ) : ℚ) :=
    Nat.cast_lt.mpr (ofDigits_lt_pow x.digits)
  have hsplit : ∀ k : ℕ, ((10 ^ k : ℕ) : ℚ) * 10 ^ (x.point - x.digits.length) =
      10 ^ (k + (x.point - x.digits.length)) := by
    intro k
    rw [Nat.cast_pow, Nat.cast_ofNat, ← zpow_natCast, ← zpow_add₀ hten]
  constructor
  · calc (10 : ℚ) ^ (x.point - 1)
        = ((10 ^ (x.digits.length - 1) : ℕ) : ℚ) * 10 ^ (x.point - x.digits.length) := by
          rw [hsplit]
          congr 1
          omega
      _ ≤ x.value := mul_le_mul_of_nonneg_right hlow hscale.le
  · calc x.value < ((10 ^ x.digits.length : ℕ) : ℚ) * 10 ^ (x.point - x.digits.length) :=
          mul_lt_mul_of_pos_right hhigh hscale
      _ = 10 ^ x.point := by
          rw [hsplit]
          congr 1
          omega

/-- A decimal that is at least one and not too large has the exponent of a double. -/
theorem inRange_of_value {x : Significand} {k : ℕ} (hk : k ≤ 308) (hlow : 1 ≤ x.value)
    (hhigh : x.value < 10 ^ k) : x.InRange := by
  obtain ⟨hfirst, hlast⟩ := point_bounds x
  have hten : (1 : ℚ) < 10 := by norm_num
  have hpos : (10 : ℚ) ^ (0 : ℤ) < 10 ^ x.point := lt_of_le_of_lt (by simpa using hlow) hlast
  have hsmall : (10 : ℚ) ^ (x.point - 1) < 10 ^ (k : ℤ) :=
    lt_of_le_of_lt hfirst (by exact_mod_cast hhigh)
  have hpoint := (zpow_lt_zpow_iff_right₀ hten).mp hpos
  have hpoint' := (zpow_lt_zpow_iff_right₀ hten).mp hsmall
  exact ⟨by omega, by omega⟩

/-! ## Decimals that are integers -/

/-- The last digit is what is left of a division by ten. -/
theorem not_ten_dvd_ofDigits (x : Significand) : ¬ 10 ∣ ofDigits x.digits := by
  have hsplit := List.dropLast_append_getLast x.ne_nil
  have hlast := x.getLast_ne
  generalize x.digits.getLast x.ne_nil = d at hsplit hlast
  intro hdvd
  rw [← hsplit, ofDigits_append, ofDigits_cons] at hdvd
  have hd : (d : ℕ) % 10 = 0 := by
    have hmod := Nat.mod_eq_zero_of_dvd hdvd
    simp only [List.length_singleton, List.length_nil, pow_one, pow_zero, one_mul] at hmod
    have hnil : ofDigits [] = 0 := rfl
    rw [hnil, Nat.add_zero, Nat.mul_add_mod] at hmod
    exact hmod
  have hlt := d.isLt
  exact hlast (Fin.ext (by change (d : ℕ) = 0; omega))

/-- **A decimal that is an integer**, and not too large, is written as the integer is. -/
theorem formatSignificand_of_value {x : Significand} {n : ℕ} (hvalue : x.value = n)
    (hn : n < 10 ^ 21) :
    formatSignificand (x.digits.map digitChar) x.point = .ok (Nat.toDigits 10 n) := by
  have hten : (10 : ℚ) ≠ 0 := by norm_num
  have hlength : 0 < x.digits.length := List.length_pos_iff.mpr x.ne_nil
  -- no digits are behind the point
  have hpoint : (x.digits.length : ℤ) ≤ x.point := by
    by_contra hlt
    rcases Int.eq_ofNat_of_zero_le (show 0 ≤ (x.digits.length : ℤ) - x.point by omega) with ⟨k, hk⟩
    have hpow : (ofDigits x.digits : ℚ) = n * 10 ^ k := by
      rw [← hvalue, Significand.value, mul_assoc, ← zpow_natCast, ← zpow_add₀ hten]
      have hzero : x.point - x.digits.length + (k : ℤ) = 0 := by omega
      rw [hzero, zpow_zero, mul_one]
    have hnat : ofDigits x.digits = n * 10 ^ k := by exact_mod_cast hpow
    apply not_ten_dvd_ofDigits x
    rw [hnat]
    exact Dvd.dvd.mul_left (dvd_pow_self 10 (by omega)) n
  rcases Int.eq_ofNat_of_zero_le (show 0 ≤ x.point - (x.digits.length : ℤ) by omega) with ⟨k, hk⟩
  have hnat : ofDigits (x.digits ++ List.replicate k 0) = n := by
    have hcast : ((ofDigits x.digits * 10 ^ k : ℕ) : ℚ) = n := by
      rw [← hvalue, Significand.value, hk, zpow_natCast]
      push_cast
      rfl
    rw [ofDigits_append, ofDigits_replicate_zero, List.length_replicate, Nat.add_zero, mul_comm]
    exact_mod_cast hcast
  have hne : x.digits ++ List.replicate k 0 ≠ [] := by simp [x.ne_nil]
  have hhead : (x.digits ++ List.replicate k 0).head hne ≠ 0 := by
    rw [List.head_append_of_ne_nil x.ne_nil]
    exact x.head_ne
  -- and there are at most twenty-one
  have hle : x.point ≤ 21 := by
    have hpow := pow_le_ofDigits hne hhead
    rw [hnat, List.length_append, List.length_replicate] at hpow
    have hlt := (Nat.pow_lt_pow_iff_right (by decide : 1 < 10)).mp (lt_of_le_of_lt hpow hn)
    omega
  have hdigits := digitsOf_ofDigits hne hhead
  have htext : Nat.toDigits 10 n = x.digits.map digitChar ++ List.replicate k '0' := by
    rw [← map_digitChar_digitsOf, ← hnat, hdigits, List.map_append, List.map_replicate]
    rfl
  rw [formatSignificand, htext]
  simp only [List.length_map]
  rw [if_neg (by omega), if_pos hpoint, hk]
  rfl

/-! ## The search -/

/-- One more than the exponent of the leading decimal digit. -/
def decade (x : ℚ) : ℤ :=
  let e : ℤ := (digitsOf x.num.natAbs).length - (digitsOf x.den).length
  if x < 10 ^ e then e else e + 1

/-- The exponent of the last of `k` digits. -/
def lastDigit (x : ℚ) (k : ℕ) : ℤ := decade x - k

/-- The two decimals with `k` digits next to a number, the nearer one first. -/
def neighbours (x : ℚ) (k : ℕ) : List ℕ :=
  let scaled := x / 10 ^ lastDigit x k
  let n := ⌊scaled⌋₊
  if scaled - n < 1 / 2 ∨ scaled - n = 1 / 2 ∧ n % 2 = 0 then [n, n + 1] else [n + 1, n]

/-- The first count of digits, from `k` on, with a decimal that is read back. -/
def searchDigits (x : ℚ) : ℕ → ℕ → Option (ℕ × ℤ)
  | 0, _ => none
  | fuel + 1, k =>
      match (neighbours x k).find? fun n : ℕ => nearest (n * 10 ^ lastDigit x k) = x with
      | some n => some (n, lastDigit x k)
      | none => searchDigits x fuel (k + 1)

/-- `1.0`. -/
def Shortest.one : Shortest := ⟨.ofNat 1 Nat.one_pos 0, by decide⟩

/-- The shortest decimal of a positive double. Seventeen digits are enough for every double, and no
double has another exponent. -/
def shortest (x : ℚ) : Shortest :=
  let found := (searchDigits x 17 1).getD (1, 0)
  if h : 0 < found.1 then
    if hrange : (Significand.ofNat found.1 h found.2).InRange then
      ⟨.ofNat found.1 h found.2, hrange⟩
    else .one
  else .one

/-- An integer, converted to a float. -/
def PyFloat.ofInt (n : ℤ) : PyFloat :=
  if n = 0 then .zero false else .nonzero (n < 0) (shortest (nearest |n|))

example : (PyFloat.ofInt 9007199254740993).value = 9007199254740992 := by decide +kernel

example : (PyFloat.ofInt (2 ^ 60)).value = 1152921504606847000 := by decide +kernel

end Telemetry.Receipts.Python
