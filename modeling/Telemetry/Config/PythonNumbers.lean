import Telemetry.Config.PythonText
import Telemetry.Lib.Binary64
import Telemetry.Lib.Number

/-!
# Numbers in the environment of the Python SDK

`int(text)` and `float(text)`. Both take white space around the number and single underscores
between its digits, and digits of other scripts for those of ASCII; `float` takes an exponent, the
infinities and `nan`, and rounds what is left to a double, to an infinity if it is too large.

## Main definitions

* `int` — `int(text)`, if it returns.
* `float` — `float(text)`, if it returns.
-/

namespace Telemetry.Config.Python

open Telemetry.Lib
open Telemetry.Propagation.Python (Unicode transformDecimalAndSpaceToAscii)

/-- A decimal digit. -/
def isDigit (c : Char) : Bool := '0' ≤ c && c ≤ '9'

/-- The number that digits stand for. -/
def digitsValue (digits : List Char) : ℕ :=
  digits.foldl (fun n c => 10 * n + (c.toNat - '0'.toNat)) 0

/-- A text without its underscores, each of which is between two digits. -/
def dropUnderscores (prev : Char) : List Char → Option (List Char)
  | [] => if prev = '_' then none else some []
  | c :: text =>
      if c = '_' then if isDigit prev then dropUnderscores c text else none
      else if prev = '_' ∧ isDigit c = false then none
      else (dropUnderscores c text).map (c :: ·)

/-- A text behind its sign, and whether that is a minus sign. -/
def splitSign : List Char → Bool × List Char
  | '+' :: text => (false, text)
  | '-' :: text => (true, text)
  | text => (false, text)

/-- `sys.int_info.default_max_str_digits` -/
def maxStrDigits : ℕ := 4300

/-- `PyLong_FromString` with base 10. -/
def intOfAscii (text : List Char) : Option ℤ :=
  let (negative, text) := splitSign (Hex.skipSpaces text)
  let body := text.takeWhile fun c => isDigit c || c = '_'
  let rest := text.dropWhile fun c => isDigit c || c = '_'
  match dropUnderscores '\u0000' body with
  | none => none
  | some digits =>
      if digits = [] ∨ maxStrDigits < digits.length ∨ Hex.skipSpaces rest ≠ [] then none
      else some (if negative then -(digitsValue digits : ℤ) else digitsValue digits)

/-- `int(text)` -/
def int (U : Unicode) (text : CodePoints) : Option ℤ :=
  intOfAscii (transformDecimalAndSpaceToAscii U text)

/-- An exponent, the whole text. -/
def exponent : List Char → Option ℤ
  | [] => some 0
  | c :: text =>
      if c = 'e' ∨ c = 'E' then
        let (negative, digits) := splitSign text
        if digits = [] ∨ digits.all isDigit = false then none
        else some (if negative then -(digitsValue digits : ℤ) else digitsValue digits)
      else none

/-- The digits behind a point, and what comes behind them. -/
def fraction : List Char → List Char × List Char
  | '.' :: text => (text.takeWhile isDigit, text.dropWhile isDigit)
  | text => ([], text)

/-- A decimal number without a sign, the whole text. -/
def decimal (text : List Char) : Option ℚ :=
  let whole := text.takeWhile isDigit
  let (behind, rest) := fraction (text.dropWhile isDigit)
  if whole = [] ∧ behind = [] then none
  else
    (exponent rest).map fun e =>
      (digitsValue (whole ++ behind) : ℚ) * 10 ^ (e - (behind.length : ℤ))

/-- The double that is nearest, or an infinity. -/
def ofDecimal (negative : Bool) (q : ℚ) : Number :=
  if nearest q < 2 ^ 1024 then .ofRat (if negative then -nearest q else nearest q)
  else .num (if negative then ⊥ else ⊤)

/-- `PyOS_string_to_double`, for the whole text. -/
def stringToDouble (text : List Char) : Option Number :=
  let (negative, text) := splitSign text
  match decimal text with
  | some q => some (ofDecimal negative q)
  | none =>
      let lowered := text.map Char.toLower
      if lowered = "inf".toList ∨ lowered = "infinity".toList then
        some (.num (if negative then ⊥ else ⊤))
      else if lowered = "nan".toList then some .nan
      else none

/-- `PyFloat_FromString`. -/
def floatOfAscii (text : List Char) : Option Number :=
  let text := strip Hex.isSpace text
  if '_' ∈ text then (dropUnderscores '\u0000' text).bind stringToDouble else stringToDouble text

/-- `float(text)` -/
def float (U : Unicode) (text : CodePoints) : Option Number :=
  floatOfAscii (transformDecimalAndSpaceToAscii U text)

end Telemetry.Config.Python
