import Telemetry.Lib.Binary64
import Telemetry.Receipts.Python
import Mathlib.Data.List.TakeWhile
import Mathlib.Tactic.NormNum

/-!
# The doubles that the numbers of the canonical form denote

A number of the canonical form is a decimal, and can be read back. What is read is the integer
that was written, or the shortest decimal of the float that was; so two numbers with one text have
one value, and denote one double.

## Main definitions

* `Significand.value`, `PyFloat.value` — the decimal that `repr` writes.
* `Scalar.double` — the double that a number denotes.
* `readNumber` — what a reader of decimals makes of a text.

## Main results

* `readNumber_formatNumber`, `readNumber_of_strInt` — **what is written is read back**.
* `sameNumber_of_value_eq` — two numbers with one value denote equal doubles.
-/

namespace Telemetry.Receipts.Python

open Telemetry.Lib

/-! ## Values -/

/-- A digit is below ten. -/
instance neZero_ten : NeZero 10 := ⟨by decide⟩

/-- The number that digits write. -/
def ofDigits (digits : List Digit) : ℕ := Nat.ofDigitChars 10 (digits.map digitChar) 0

/-- The value of a decimal. -/
def Significand.value (x : Significand) : ℚ := ofDigits x.digits * 10 ^ (x.point - x.digits.length)

/-- A value with a sign. -/
def withSign (negative : Bool) (q : ℚ) : ℚ := if negative then -q else q

/-- The decimal that `repr` writes of a finite float. -/
def PyFloat.value : PyFloat → ℚ
  | .nonzero negative x => withSign negative x.value
  | _ => 0

/-- The double that a number denotes. An integer denotes the nearest one, if it is not too large,
and a finite float the one that its `repr` is read back as, which is the float itself. -/
def Scalar.double : Scalar → Option Double
  | .int n => Double.ofRat n
  | .float (.zero negative) => some (.zero negative)
  | .float (.nonzero negative x) => Double.ofRat (withSign negative x.value)
  | _ => Option.none

/-- The numbers denote the same double. -/
def SameDouble (a b : Scalar) : Prop := ∃ d, a.double = some d ∧ b.double = some d

/-- The numbers denote doubles that are equal, as the two zeros are. -/
def EqualDoubles (a b : Scalar) : Prop :=
  ∃ d d', a.double = some d ∧ b.double = some d' ∧ d.Equal d'

/-- The same number, or numbers that denote equal doubles. -/
def SameNumber (a b : Scalar) : Prop := a = b ∨ EqualDoubles a b

/-- A float is a finite double. -/
def Scalar.Finite : Scalar → Prop
  | .float x => (Scalar.float x).double.isSome = true
  | _ => True

/-! ## Reading -/

/-- Read an integer with a sign. -/
def readInt : List Char → ℤ
  | '-' :: digits => -(Nat.ofDigitChars 10 digits 0 : ℤ)
  | '+' :: digits => Nat.ofDigitChars 10 digits 0
  | digits => Nat.ofDigitChars 10 digits 0

/-- Read digits with a point between them. -/
def readMantissa (text : List Char) : ℚ :=
  let whole := text.takeWhile (· ≠ '.')
  let fraction := (text.dropWhile (· ≠ '.')).drop 1
  Nat.ofDigitChars 10 (whole ++ fraction) 0 * 10 ^ (-fraction.length : ℤ)

/-- Read a number without a sign. -/
def readUnsigned (text : List Char) : ℚ :=
  readMantissa (text.takeWhile (· ≠ 'e')) * 10 ^ readInt ((text.dropWhile (· ≠ 'e')).drop 1)

/-- Read a number. -/
def readNumber : List Char → ℚ
  | '-' :: text => -readUnsigned text
  | text => readUnsigned text

/-- A list up to the first of a character. -/
theorem takeWhile_dropWhile_of_not_mem {c : Char} {text : List Char} (h : c ∉ text)
    (rest : List Char) :
    (text ++ c :: rest).takeWhile (· ≠ c) = text ∧
      ((text ++ c :: rest).dropWhile (· ≠ c)).drop 1 = rest := by
  have hpos : ∀ d ∈ text, decide (d ≠ c) = true := by
    intro d hd
    simpa using ne_of_mem_of_not_mem hd h
  rw [List.takeWhile_append_of_pos hpos, List.dropWhile_append_of_pos hpos]
  simp

/-- A list without the character. -/
theorem takeWhile_dropWhile_of_absent {c : Char} {text : List Char} (h : c ∉ text) :
    text.takeWhile (· ≠ c) = text ∧ text.dropWhile (· ≠ c) = [] := by
  have hpos : ∀ d ∈ text, decide (d ≠ c) = true := by
    intro d hd
    simpa using ne_of_mem_of_not_mem hd h
  exact ⟨List.takeWhile_eq_self_iff.mpr hpos, List.dropWhile_eq_nil_iff.mpr hpos⟩

theorem readMantissa_point {whole : List Char} (h : '.' ∉ whole) (fraction : List Char) :
    readMantissa (whole ++ '.' :: fraction) =
      Nat.ofDigitChars 10 (whole ++ fraction) 0 * 10 ^ (-fraction.length : ℤ) := by
  rcases takeWhile_dropWhile_of_not_mem h fraction with ⟨htake, hdrop⟩
  rw [readMantissa, htake, hdrop]

theorem readMantissa_whole {whole : List Char} (h : '.' ∉ whole) :
    readMantissa whole = Nat.ofDigitChars 10 whole 0 := by
  rcases takeWhile_dropWhile_of_absent h with ⟨htake, hdrop⟩
  rw [readMantissa, htake, hdrop]
  simp

theorem readUnsigned_exponent {mantissa : List Char} (h : 'e' ∉ mantissa) (exponent : List Char) :
    readUnsigned (mantissa ++ 'e' :: exponent) =
      readMantissa mantissa * 10 ^ readInt exponent := by
  rcases takeWhile_dropWhile_of_not_mem h exponent with ⟨htake, hdrop⟩
  rw [readUnsigned, htake, hdrop]

theorem readUnsigned_mantissa {mantissa : List Char} (h : 'e' ∉ mantissa) :
    readUnsigned mantissa = readMantissa mantissa := by
  rcases takeWhile_dropWhile_of_absent h with ⟨htake, hdrop⟩
  rw [readUnsigned, htake, hdrop]
  simp [readInt]

/-! ## Digits -/

/-- A character of a number that is a digit. -/
theorem isDigit_digitChar (d : Digit) : (digitChar d).isDigit = true := by
  revert d
  decide

theorem not_mem_of_isDigit {c : Char} {text : List Char} (hc : c.isDigit = false)
    (h : ∀ d ∈ text, d.isDigit = true) : c ∉ text := by
  intro hmem
  rw [h c hmem] at hc
  cases hc

theorem isDigit_of_mem_map {digits : List Digit} :
    ∀ c ∈ digits.map digitChar, c.isDigit = true := by
  intro c hc
  rcases List.mem_map.mp hc with ⟨d, -, rfl⟩
  exact isDigit_digitChar d

theorem isDigit_of_mem_zeros {n : ℕ} : ∀ c ∈ List.replicate n '0', c.isDigit = true := by
  intro c hc
  rw [List.eq_of_mem_replicate hc]
  rfl

theorem isDigit_of_mem_append {s t : List Char} (hs : ∀ c ∈ s, c.isDigit = true)
    (ht : ∀ c ∈ t, c.isDigit = true) : ∀ c ∈ s ++ t, c.isDigit = true :=
  List.forall_mem_append.mpr ⟨hs, ht⟩

theorem readInt_signed (n : ℤ) : readInt (signed n (Nat.toDigits 10)) = n := by
  rw [signed]
  split
  · rw [readInt, Nat.ofDigitChars_ten_toDigits]
    omega
  · rw [readInt, Nat.ofDigitChars_ten_toDigits]
    omega

/-! ## Floats -/

section

variable {s t : List Char}

theorem point_notMem (hs : ∀ c ∈ s, c.isDigit = true) : '.' ∉ s := not_mem_of_isDigit rfl hs

theorem e_notMem (hs : ∀ c ∈ s, c.isDigit = true) : 'e' ∉ s := not_mem_of_isDigit rfl hs

theorem e_notMem_point (hs : ∀ c ∈ s, c.isDigit = true) (ht : ∀ c ∈ t, c.isDigit = true) :
    'e' ∉ s ++ '.' :: t := by
  intro hmem
  rcases List.mem_append.mp hmem with hmem | hmem
  · exact e_notMem hs hmem
  · rcases List.mem_cons.mp hmem with hmem | hmem
    · exact absurd hmem (by decide)
    · exact e_notMem ht hmem

end

/-- Digits with an exponent are read back, one of them or more. -/
theorem readUnsigned_scientific {d : Char} {rest : List Char}
    (hdigits : ∀ c ∈ d :: rest, c.isDigit = true) (n : ℤ) :
    readUnsigned (mantissa d rest ++ 'e' :: signed (n - 1) (Nat.toDigits 10)) =
      Nat.ofDigitChars 10 (d :: rest) 0 * 10 ^ (n - (d :: rest).length) := by
  have hten : (10 : ℚ) ≠ 0 := by norm_num
  cases rest with
  | nil =>
      rw [mantissa, if_pos rfl, readUnsigned_exponent (e_notMem hdigits),
        readMantissa_whole (point_notMem hdigits), readInt_signed]
      simp
  | cons d' rest =>
      have hd : ∀ c ∈ [d], c.isDigit = true :=
        List.forall_mem_singleton.mpr (hdigits d List.mem_cons_self)
      have hrest : ∀ c ∈ d' :: rest, c.isDigit = true :=
        fun c hc => hdigits c (List.mem_cons_of_mem d hc)
      have hsplit : d :: '.' :: d' :: rest = [d] ++ '.' :: (d' :: rest) := rfl
      rw [mantissa, if_neg (List.cons_ne_nil d' rest), hsplit,
        readUnsigned_exponent (e_notMem_point hd hrest), readMantissa_point (point_notMem hd),
        readInt_signed, List.singleton_append, mul_assoc, ← zpow_add₀ hten]
      congr 2
      simp only [List.length_cons]
      omega

/-- **The significand is read back.** -/
theorem readUnsigned_formatSignificand {x : Significand} {text : List Char}
    (h : formatSignificand (x.digits.map digitChar) x.point = .ok text) :
    readUnsigned text = x.value := by
  have hdigits : ∀ c ∈ x.digits.map digitChar, c.isDigit = true := isDigit_of_mem_map
  have hlength : (x.digits.map digitChar).length = x.digits.length := List.length_map _
  rw [Significand.value, ofDigits, ← hlength]
  generalize hcs : x.digits.map digitChar = cs at *
  generalize x.point = n at *
  rw [formatSignificand] at h
  split at h
  · -- with an exponent
    obtain ⟨d, rest, rfl, rfl⟩ := exists_of_exponential h
    exact readUnsigned_scientific hdigits n
  · split at h
    · -- an integer
      cases h
      have hall := isDigit_of_mem_append hdigits (isDigit_of_mem_zeros (n := (n - cs.length).toNat))
      rw [readUnsigned_mantissa (e_notMem hall), readMantissa_whole (point_notMem hall),
        Nat.ofDigitChars_append, Nat.ofDigitChars_replicate_zero, Nat.cast_mul, mul_comm]
      congr 1
      rw [Nat.cast_pow, Nat.cast_ofNat, ← zpow_natCast]
      congr 1
      omega
    · split at h
      · -- a point between the digits
        cases h
        have htake : ∀ c ∈ cs.take n.toNat, c.isDigit = true :=
          fun c hc => hdigits c (List.mem_of_mem_take hc)
        have hdrop : ∀ c ∈ cs.drop n.toNat, c.isDigit = true :=
          fun c hc => hdigits c (List.mem_of_mem_drop hc)
        rw [readUnsigned_mantissa (e_notMem_point htake hdrop),
          readMantissa_point (point_notMem htake), List.take_append_drop]
        congr 2
        rw [List.length_drop]
        omega
      · -- zeros between the point and the digits
        cases h
        have hzero : ∀ c ∈ ['0'], c.isDigit = true := List.forall_mem_singleton.mpr rfl
        have hall := isDigit_of_mem_append (isDigit_of_mem_zeros (n := (-n).toNat)) hdigits
        have hsplit : '0' :: '.' :: List.replicate (-n).toNat '0' ++ cs =
            ['0'] ++ '.' :: (List.replicate (-n).toNat '0' ++ cs) := rfl
        rw [hsplit, readUnsigned_mantissa (e_notMem_point hzero hall),
          readMantissa_point (point_notMem hzero),
          ← List.append_assoc, Nat.ofDigitChars_append,
          show ['0'] ++ List.replicate (-n).toNat '0' = List.replicate ((-n).toNat + 1) '0'
            from rfl,
          Nat.ofDigitChars_replicate_zero, Nat.mul_zero]
        congr 2
        simp only [List.length_append, List.length_replicate]
        omega

/-- A text that starts with a digit has no sign. -/
theorem readNumber_of_isDigit {c : Char} (hc : c.isDigit = true) (text : List Char) :
    readNumber (c :: text) = readUnsigned (c :: text) := by
  rw [readNumber]
  rintro text' heq
  rw [(List.cons.inj heq).1] at hc
  exact absurd hc (by decide)

/-- A significand starts with a digit. -/
theorem head_formatSignificand {digits text : List Char} {n : ℤ}
    (hdigits : ∀ c ∈ digits, c.isDigit = true) (hne : digits ≠ [])
    (h : formatSignificand digits n = .ok text) :
    ∃ c rest, text = c :: rest ∧ c.isDigit = true := by
  cases digits with
  | nil => exact absurd rfl hne
  | cons d digits =>
      have hd := hdigits d List.mem_cons_self
      rw [formatSignificand] at h
      split at h
      · obtain ⟨d, rest, ⟨rfl, rfl⟩, rfl⟩ := exists_of_exponential h
        cases digits with
        | nil => exact ⟨d, _, rfl, hd⟩
        | cons d' digits => exact ⟨d, _, rfl, hd⟩
      · split at h
        · exact ⟨d, _, (Except.ok.inj h).symm, hd⟩
        · split at h
          · rename_i hpos
            have hsucc : n.toNat = (n.toNat - 1) + 1 := by omega
            rw [hsucc, List.take_succ_cons] at h
            exact ⟨d, _, (Except.ok.inj h).symm, hd⟩
          · exact ⟨'0', _, (Except.ok.inj h).symm, rfl⟩

/-- **A float's text is read as the decimal that its `repr` writes.** -/
theorem readNumber_formatNumber {x : PyFloat} {text : List Char}
    (h : formatNumber x = .ok text) : readNumber text = x.value := by
  cases x with
  | zero negative =>
      cases h
      rw [readNumber_of_isDigit rfl, readUnsigned_mantissa (by decide),
        readMantissa_whole (by decide)]
      rfl
  | nonzero negative x =>
      obtain ⟨significand, hsignificand, rfl⟩ := exists_significand h
      rcases head_formatSignificand isDigit_of_mem_map (by simpa using x.ne_nil) hsignificand
        with ⟨c, rest, rfl, hc⟩
      have hread := readUnsigned_formatSignificand hsignificand
      change readNumber (minus negative ++ c :: rest) = withSign negative x.value
      cases negative with
      | false =>
          rw [minus, if_neg Bool.false_ne_true, List.nil_append, readNumber_of_isDigit hc, hread]
          rfl
      | true =>
          rw [minus, if_pos rfl, List.singleton_append, readNumber, hread]
          rfl
  | inf negative => cases h
  | nan => cases h

/-! ## Integers -/

/-- **An integer's text is read as the integer.** -/
theorem readNumber_of_strInt {n : ℤ} {text : CodePoints} (h : strInt n = .ok text) :
    ∃ cs, text = CodePoints.ofChars cs ∧ readNumber cs = n := by
  rw [strInt] at h
  split at h
  · cases h
  · cases h
    have hdigits : ∀ c ∈ Nat.toDigits 10 n.natAbs, c.isDigit = true :=
      fun c hc => Nat.isDigit_of_mem_toDigits (by decide) (by decide) hc
    have he : 'e' ∉ Nat.toDigits 10 n.natAbs := not_mem_of_isDigit rfl hdigits
    have hpoint : '.' ∉ Nat.toDigits 10 n.natAbs := not_mem_of_isDigit rfl hdigits
    have hread : readUnsigned (Nat.toDigits 10 n.natAbs) = n.natAbs := by
      rw [readUnsigned_mantissa he, readMantissa_whole hpoint, Nat.ofDigitChars_ten_toDigits]
    refine ⟨_, rfl, ?_⟩
    split
    · rename_i hneg
      rw [readNumber, hread, Nat.cast_natAbs, abs_of_neg hneg]
      simp
    · rename_i hneg
      cases hcs : Nat.toDigits 10 n.natAbs with
      | nil => exact absurd hcs Nat.toDigits_ne_nil
      | cons c cs =>
          rw [readNumber_of_isDigit (hdigits c (by simp [hcs])), ← hcs, hread, Nat.cast_natAbs,
            abs_of_nonneg (not_lt.mp hneg)]

/-! ## Equal texts -/

theorem ofChars_injective {s t : List Char} (h : CodePoints.ofChars s = CodePoints.ofChars t) :
    s = t :=
  List.map_injective_iff.mpr (fun _ _ => CodePoint.scalar.inj) h

/-- The decimal that the text of a number writes. -/
def Scalar.value? : Scalar → Option ℚ
  | .int n => some n
  | .float x => if x.isFinite then some x.value else Option.none
  | _ => Option.none

/-- What is written of a number is read as its value. -/
theorem readNumber_of_canonicalScalar {a : Scalar} {text : CodePoints} {q : ℚ}
    (htext : canonicalScalar a = .ok text) (hq : a.value? = some q) :
    ∃ cs, text = CodePoints.ofChars cs ∧ readNumber cs = q := by
  cases a with
  | int n =>
      cases hq
      exact readNumber_of_strInt htext
  | float x =>
      rw [Scalar.value?] at hq
      split at hq
      · rename_i hfinite
        cases hq
        rw [canonicalScalar, if_pos hfinite] at htext
        cases hcs : formatNumber x with
        | error e => simp [hcs, Except.map] at htext
        | ok cs =>
            rw [hcs] at htext
            cases htext
            exact ⟨cs, rfl, readNumber_formatNumber hcs⟩
      · cases hq
  | _ => cases hq

/-- A float denotes the double that its value is read as, up to the sign of zero. -/
theorem double_float {x : PyFloat} {d : Double} (h : (Scalar.float x).double = some d) :
    x.isFinite = true ∧ ∃ d', Double.ofRat x.value = some d' ∧ d.Equal d' := by
  cases x with
  | zero negative =>
      cases h
      exact ⟨rfl, _, Double.ofRat_zero, trivial⟩
  | nonzero negative x => exact ⟨rfl, d, h, .refl d⟩
  | _ => cases h

/-- **Two numbers with one value** are the same integer or denote equal doubles. -/
theorem sameNumber_of_value_eq {a b : Scalar} {q : ℚ} (ha : a.value? = some q)
    (hb : b.value? = some q) (hda : a.Finite) (hdb : b.Finite) : SameNumber a b := by
  cases a with
  | int n =>
      cases ha
      cases b with
      | int m =>
          left
          rw [Scalar.value?, Option.some.injEq, Int.cast_inj] at hb
          rw [hb]
      | float y =>
          right
          rcases Option.isSome_iff_exists.mp hdb with ⟨d, hd⟩
          rcases double_float hd with ⟨hfinite, d', hd', heq⟩
          rw [Scalar.value?, if_pos hfinite, Option.some.injEq] at hb
          rw [hb] at hd'
          exact ⟨d', d, hd', hd, heq.symm⟩
      | _ => cases hb
  | float x =>
      rcases Option.isSome_iff_exists.mp hda with ⟨d, hd⟩
      rcases double_float hd with ⟨hfinite, d', hd', heq⟩
      rw [Scalar.value?, if_pos hfinite, Option.some.injEq] at ha
      subst ha
      cases b with
      | int m =>
          rw [Scalar.value?, Option.some.injEq] at hb
          rw [← hb] at hd'
          exact .inr ⟨d, d', hd, hd', heq⟩
      | float y =>
          right
          rcases Option.isSome_iff_exists.mp hdb with ⟨e, he⟩
          rcases double_float he with ⟨hfinite', e', he', heq'⟩
          rw [Scalar.value?, if_pos hfinite', Option.some.injEq] at hb
          rw [hb, hd', Option.some.injEq] at he'
          rw [← he'] at heq'
          exact ⟨d, e, hd, he, heq.trans heq'.symm⟩
      | _ => cases hb
  | _ => cases ha

end Telemetry.Receipts.Python
