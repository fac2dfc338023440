import Telemetry.Lib.Returns
import Mathlib.Data.Int.Notation
import Mathlib.Tactic.Cases

/-!
# The numbers of the canonical form

`_format_number` of `receipts.py` takes a float's `repr` apart with `Decimal` and puts its
digits together again as ECMAScript would. A nonzero float is the shortest decimal that reads
back as it, which is what `repr` prints; which decimals these are does not matter here, as long as
the exponent is one of a double.

## Main definitions

* `Significand`, `Shortest`, `PyFloat` — decimals and floats.
* `Shortest.parts`, `PyFloat.repr` — `repr`.
* `formatSignificand`, `formatNumber` — the rendering.

## Main results

* `formatNumber_nonzero` — the detour over `repr` and `Decimal` ends where it began.
* `returns_formatNumber` — a finite float has a rendering.
-/

namespace Telemetry.Receipts.Python

open Telemetry.Lib

/-- What the code can raise. -/
inductive PyError
  | valueError
  | indexError
  | unicodeEncodeError
  /-- An exception of the caller's own code. -/
  | raised
  deriving DecidableEq, Repr

/-! ## Floats -/

/-- A decimal digit. -/
abbrev Digit := Fin 10

/-- `str` of a digit. -/
def digitChar (d : Digit) : Char := Nat.digitChar d

/-- `0.d₁d₂…dₖ · 10 ^ point`, with no zeros around the digits. -/
structure Significand where
  digits : List Digit
  point : ℤ
  ne_nil : digits ≠ []
  head_ne : digits.head ne_nil ≠ 0
  getLast_ne : digits.getLast ne_nil ≠ 0

/-- The exponent is one that a double has. -/
def Significand.InRange (x : Significand) : Prop := -323 ≤ x.point ∧ x.point ≤ 309

instance : DecidablePred Significand.InRange :=
  fun x => inferInstanceAs (Decidable (-323 ≤ x.point ∧ x.point ≤ 309))

/-- The shortest decimal of a double. -/
structure Shortest extends Significand where
  inRange : toSignificand.InRange

/-- A Python float. -/
inductive PyFloat
  | zero (negative : Bool)
  | nonzero (negative : Bool) (x : Shortest)
  | inf (negative : Bool)
  | nan

/-- `math.isfinite`. -/
def PyFloat.isFinite : PyFloat → Bool
  | .zero _ | .nonzero _ _ => true
  | _ => false

/-- What `repr` writes before the point, after it, and behind the `e`. -/
structure ReprParts where
  whole : List Digit
  fraction : List Digit
  exponent : Option ℤ
  deriving DecidableEq, Repr

/-- The layout of `repr`: it has an exponent below `1e-4` and from `1e16` on, and a fraction
wherever it has none. -/
def Shortest.parts (x : Shortest) : ReprParts :=
  if x.point ≤ -4 ∨ 16 < x.point then
    { whole := x.digits.take 1, fraction := x.digits.drop 1, exponent := some (x.point - 1) }
  else if x.point ≤ 0 then
    { whole := [0], fraction := List.replicate (-x.point).toNat 0 ++ x.digits, exponent := none }
  else if x.digits.length ≤ x.point then
    { whole := x.digits ++ List.replicate (x.point - x.digits.length).toNat 0
      fraction := [0]
      exponent := none }
  else
    { whole := x.digits.take x.point.toNat
      fraction := x.digits.drop x.point.toNat
      exponent := none }

/-- `-`, where there is one. -/
def minus (negative : Bool) : List Char := if negative then ['-'] else []

/-- The sign and the absolute value of an exponent. -/
def signed (exponent : ℤ) (digits : ℕ → List Char) : List Char :=
  (if exponent < 0 then '-' else '+') :: digits exponent.natAbs

/-- At least two digits. -/
def twoDigits (n : ℕ) : List Char :=
  if n < 10 then '0' :: Nat.toDigits 10 n else Nat.toDigits 10 n

/-- The parts put together. -/
def ReprParts.text (parts : ReprParts) : List Char :=
  parts.whole.map digitChar ++
    (if parts.fraction = [] then [] else '.' :: parts.fraction.map digitChar) ++
    match parts.exponent with
    | none => []
    | some e => 'e' :: signed e twoDigits

/-- `repr`. -/
def PyFloat.repr : PyFloat → List Char
  | .zero negative => minus negative ++ "0.0".toList
  | .nonzero negative x => minus negative ++ x.parts.text
  | .inf negative => minus negative ++ "inf".toList
  | .nan => "nan".toList

/-! ## The rendering -/

/-- The digits and the exponent of `Decimal(repr(value)).as_tuple()`, for a value that is not
zero. -/
def ReprParts.asTuple (parts : ReprParts) : List Digit × ℤ :=
  ((parts.whole ++ parts.fraction).dropWhile (· = 0),
    parts.exponent.getD 0 - parts.fraction.length)

/-- The loop that pops trailing zeros, on the digits from the last to the first. -/
def popZeros : List Digit → ℤ → Except PyError (List Digit × ℤ)
  | [], _ => .error .indexError
  | d :: rest, exponent =>
      if d = 0 then popZeros rest (exponent + 1) else .ok ((d :: rest).reverse, exponent)

/-- `sys.get_int_max_str_digits()`. -/
def intMaxStrDigits : ℕ := 4300

/-- `f"{n:+d}"`. -/
def plusInt (n : ℤ) : Except PyError (List Char) :=
  if intMaxStrDigits < (Nat.toDigits 10 n.natAbs).length then .error .valueError
  else .ok (signed n (Nat.toDigits 10))

/-- A digit, a point behind it if there are others, and the others. -/
def mantissa (d : Char) (rest : List Char) : List Char :=
  if rest = [] then [d] else d :: '.' :: rest

/-- `f"{mantissa}e{exponent:+d}"`. -/
def exponential : List Char → ℤ → Except PyError (List Char)
  | [], _ => .error .indexError
  | d :: rest, n => (plusInt (n - 1)).map fun exponent => mantissa d rest ++ 'e' :: exponent

/-- `_format_significand`. -/
def formatSignificand (digits : List Char) (n : ℤ) : Except PyError (List Char) :=
  let k := digits.length
  if 21 < n ∨ n ≤ -6 then exponential digits n
  else if k ≤ n then .ok (digits ++ List.replicate (n - k).toNat '0')
  else if 0 < n then .ok (digits.take n.toNat ++ '.' :: digits.drop n.toNat)
  else .ok ('0' :: '.' :: List.replicate (-n).toNat '0' ++ digits)

/-- `_format_number`. The exponent of what is not finite is a letter, which `int` refuses. -/
def formatNumber : PyFloat → Except PyError (List Char)
  | .zero _ => .ok ['0']
  | .nonzero negative x => do
      let parts := x.parts.asTuple
      let (digits, exponent) ← popZeros parts.1.reverse parts.2
      let text := digits.map digitChar
      let significand ← formatSignificand text (exponent + text.length)
      pure (minus negative ++ significand)
  | _ => .error .valueError

/-! ## From the digits and back -/

variable {x : Shortest}

/-- A list that starts with another digit has no leading zeros. -/
theorem dropWhile_zeros_append (n : ℕ) (x : Shortest) (rest : List Digit) :
    (List.replicate n 0 ++ x.digits ++ rest).dropWhile (· = 0) = x.digits ++ rest := by
  rw [List.append_assoc, List.dropWhile_append_of_pos (by simp)]
  cases hx : x.digits with
  | nil => exact absurd hx x.ne_nil
  | cons d digits =>
      have hd : d ≠ 0 := by
        have hhead := x.head_ne
        simp only [hx, List.head_cons] at hhead
        exact hhead
      rw [List.cons_append, List.dropWhile_cons_of_neg (by simpa using hd)]

/-- The loop pops the zeros and stops at the last digit. -/
theorem popZeros_reverse (x : Shortest) (n : ℕ) (exponent : ℤ) :
    popZeros (x.digits ++ List.replicate n 0).reverse exponent =
      .ok (x.digits, exponent + n) := by
  rw [List.reverse_append, List.reverse_replicate]
  induction n generalizing exponent with
  | zero =>
      have hrev : x.digits.reverse =
          x.digits.getLast x.ne_nil :: x.digits.dropLast.reverse := by
        rw [← List.reverse_concat, List.dropLast_concat_getLast]
      rw [List.replicate_zero, List.nil_append, hrev, popZeros, if_neg x.getLast_ne, ← hrev]
      simp
  | succ n ih =>
      rw [List.replicate_succ, List.cons_append, popZeros, if_pos rfl, ih]
      congr 2
      omega

/-- What `Decimal` reads is the digits, with some zeros that belong to the layout. -/
theorem asTuple_parts (x : Shortest) :
    ∃ n : ℕ, x.parts.asTuple =
      (x.digits ++ List.replicate n 0, x.point - x.digits.length - n) := by
  have hdrop := dropWhile_zeros_append 0 x []
  rw [List.replicate_zero, List.nil_append, List.append_nil] at hdrop
  have hlength : 0 < x.digits.length := List.length_pos_iff.mpr x.ne_nil
  rw [Shortest.parts]
  split
  · refine ⟨0, ?_⟩
    simp only [ReprParts.asTuple, List.take_append_drop, hdrop, Option.getD_some,
      List.length_drop, List.replicate_zero, List.append_nil]
    congr 1
    omega
  · split
    · refine ⟨0, ?_⟩
      have hzeros := dropWhile_zeros_append ((-x.point).toNat + 1) x []
      rw [List.append_nil, List.append_nil, List.replicate_succ, List.cons_append] at hzeros
      simp only [ReprParts.asTuple, List.cons_append, List.nil_append, hzeros, Option.getD_none,
        List.length_append, List.length_replicate, List.replicate_zero, List.append_nil]
      congr 1
      omega
    · split
      · refine ⟨(x.point - x.digits.length).toNat + 1, ?_⟩
        have hzeros := dropWhile_zeros_append 0 x
          (List.replicate ((x.point - x.digits.length).toNat + 1) 0)
        rw [List.replicate_zero, List.nil_append, List.replicate_succ',
          ← List.append_assoc] at hzeros
        rw [List.replicate_succ', ← List.append_assoc]
        simp only [ReprParts.asTuple, hzeros, Option.getD_none, List.length_singleton]
        congr 1
        omega
      · refine ⟨0, ?_⟩
        simp only [ReprParts.asTuple, List.take_append_drop, hdrop, Option.getD_none,
          List.length_drop, List.replicate_zero, List.append_nil]
        congr 1
        omega

/-- The detour over `repr` and `Decimal` ends where it began. -/
theorem formatNumber_nonzero (negative : Bool) (x : Shortest) :
    formatNumber (.nonzero negative x) =
      (formatSignificand (x.digits.map digitChar) x.point).map (minus negative ++ ·) := by
  rcases asTuple_parts x with ⟨n, hn⟩
  simp only [formatNumber, hn, popZeros_reverse, bind, Except.bind]
  rw [List.length_map, Int.sub_add_cancel, Int.sub_add_cancel]
  cases formatSignificand (x.digits.map digitChar) x.point <;> rfl

/-- The text of a float that is not zero: its sign, and its significand. -/
theorem exists_significand {negative : Bool} {text : List Char}
    (h : formatNumber (.nonzero negative x) = .ok text) :
    ∃ significand, formatSignificand (x.digits.map digitChar) x.point = .ok significand ∧
      text = minus negative ++ significand := by
  rw [formatNumber_nonzero] at h
  cases hsignificand : formatSignificand (x.digits.map digitChar) x.point with
  | error e =>
      rw [hsignificand] at h
      cases h
  | ok significand =>
      rw [hsignificand] at h
      exact ⟨significand, rfl, (Except.ok.inj h).symm⟩

/-! ## What returns -/

/-- The exponent has so few digits that it is printed. -/
def Printed (n : ℤ) : Prop := (Nat.toDigits 10 (n - 1).natAbs).length ≤ intMaxStrDigits

instance : DecidablePred Printed :=
  fun n => inferInstanceAs (Decidable ((Nat.toDigits 10 (n - 1).natAbs).length ≤ intMaxStrDigits))

/-- The exponent of a double is printed. -/
theorem Shortest.printed (x : Shortest) : Printed x.point := by
  obtain ⟨hlow, hhigh⟩ := x.inRange
  have hthree : (Nat.toDigits 10 (x.point - 1).natAbs).length ≤ 3 :=
    (Nat.length_toDigits_le_iff (by decide) (by decide)).mpr (by omega)
  exact Nat.le_trans hthree (by decide)

/-- The exponential form, with an exponent that is printed. -/
theorem exponential_of_printed {d : Char} {rest : List Char} {n : ℤ} (h : Printed n) :
    exponential (d :: rest) n =
      .ok (mantissa d rest ++ 'e' :: signed (n - 1) (Nat.toDigits 10)) := by
  rw [exponential, plusInt, if_neg (Nat.not_lt.mpr h)]
  rfl

/-- An exponential form that there is. -/
theorem exists_of_exponential {digits text : List Char} {n : ℤ}
    (h : exponential digits n = .ok text) : ∃ d rest, digits = d :: rest ∧
      text = mantissa d rest ++ 'e' :: signed (n - 1) (Nat.toDigits 10) := by
  cases digits with
  | nil => cases h
  | cons d rest =>
      refine ⟨d, rest, rfl, ?_⟩
      rw [exponential, plusInt] at h
      split at h
      · cases h
      · exact (Except.ok.inj h).symm

/-- Some digits have a rendering with every exponent that is printed. -/
theorem returns_formatSignificand {digits : List Char} (h : digits ≠ []) {n : ℤ}
    (hn : Printed n) : Returns (formatSignificand digits n) := by
  rw [formatSignificand]
  split
  · obtain ⟨d, rest, rfl⟩ := List.exists_cons_of_ne_nil h
    rw [exponential_of_printed hn]
    exact returns_ok _
  · split
    · simp
    · split <;> simp

/-- A finite float has a rendering. -/
theorem returns_formatNumber {x : PyFloat} (h : x.isFinite = true) :
    Returns (formatNumber x) := by
  cases x with
  | zero negative => exact returns_ok _
  | nonzero negative x =>
      have hdigits : x.digits.map digitChar ≠ [] := by simpa using x.ne_nil
      rcases returns_formatSignificand hdigits x.printed with ⟨text, htext⟩
      rw [formatNumber_nonzero, htext]
      exact returns_ok _
  | inf negative => cases h
  | nan => cases h

end Telemetry.Receipts.Python
