import Telemetry.Lib.Utf16
import Telemetry.Receipts.ShortestDouble

/-!
# Canonical JSON in the Rust SDK

`jcs.rs`: a value of `serde_json`, written with the keys of an object in the order of their UTF-16
units, and every number as the double that `as_f64` makes of it.

A finite double is given by its shortest decimal, which is what `{:e}` writes.

## Main definitions

* `Number`, `Value` — the values of `serde_json`.
* `canonicalNumber` — a double.
* `canonicalJson` — the canonical form.
-/

namespace Telemetry.Receipts.Rust

open Telemetry.Lib
open Telemetry.Receipts.Python (Shortest PyFloat digitChar hex4)

/-- `f64`: the doubles, as in Python. -/
abbrev F64 := PyFloat

/-- `serde_json::Number`. -/
inductive Number
  | posInt (n : ℕ) (h : n < 2 ^ 64)
  | negInt (n : ℤ) (h : -2 ^ 63 ≤ n ∧ n < 0)
  | float (x : F64) (h : x.isFinite = true)

/-- A value that is no array and no object. -/
inductive Scalar
  | null
  | bool (flag : Bool)
  | number (number : Number)
  | string (text : String)

/-- `serde_json::Value`. -/
abbrev Value := Tree String Unit Scalar

/-- `Number::as_f64`. -/
def Number.asF64 : Number → F64
  | .posInt n _ => .ofInt n
  | .negInt n _ => .ofInt n
  | .float x _ => x

/-! ## Numbers -/

/-- An `i32` in decimal. -/
def decimal (n : ℤ) : List Char :=
  if n < 0 then '-' :: Nat.toDigits 10 n.natAbs else Nat.toDigits 10 n.natAbs

/-- `{:e}`, taken apart at its `e`: the mantissa and the exponent. -/
def lowerExp (x : Shortest) : List Char × ℤ :=
  (match x.digits with
    | d :: d' :: rest => digitChar d :: '.' :: (d' :: rest).map digitChar
    | digits => digits.map digitChar,
    x.point - 1)

/-- `render_digits`. -/
def renderDigits (digits : List Char) (significant point : ℤ) : List Char :=
  if significant ≤ point ∧ point ≤ 21 then
    digits ++ List.replicate (point - significant).toNat '0'
  else if 0 < point ∧ point ≤ 21 then
    let split := point.toNat
    digits.take split ++ '.' :: digits.drop split
  else if -6 < point ∧ point ≤ 0 then
    '0' :: '.' :: List.replicate (-point).toNat '0' ++ digits
  else
    let exponent := point - 1
    let sign := if exponent < 0 then [] else ['+']
    if significant = 1 then digits ++ 'e' :: sign ++ decimal exponent
    else digits.take 1 ++ '.' :: digits.drop 1 ++ 'e' :: sign ++ decimal exponent

/-- `canonical_number` on a positive double. -/
def canonicalPositive (x : Shortest) : List Char :=
  let scientific := lowerExp x
  let digits := scientific.1.filter (· ≠ '.')
  let significant : ℤ := digits.length
  let point := scientific.2 + 1
  renderDigits digits significant point

/-- `canonical_number`. -/
def canonicalNumber : F64 → List Char
  | .inf _ | .nan => "null".toList
  | .zero _ => "0".toList
  | .nonzero true x => '-' :: canonicalPositive x
  | .nonzero false x => canonicalPositive x

/-! ## Strings -/

/-- What `write_string` pushes for a character. -/
def writeChar (ch : Char) : List Char :=
  match ch with
  | '"' => ['\\', '"']
  | '\\' => ['\\', '\\']
  | '\x08' => ['\\', 'b']
  | '\x0c' => ['\\', 'f']
  | '\n' => ['\\', 'n']
  | '\r' => ['\\', 'r']
  | '\t' => ['\\', 't']
  | control =>
      if control < '\x20' then '\\' :: 'u' :: hex4 control.toNat
      else [control]

/-- `write_string`. -/
def writeString (text : String) : List Char :=
  '"' :: text.toList.flatMap writeChar ++ ['"']

/-- `str::encode_utf16`. -/
def encodeUtf16 (text : String) : List ℕ := text.toList.flatMap CodePoints.utf16Units

/-! ## Values -/

/-- `write_value` on a value that is no array and no object. -/
def writeScalar : Scalar → List Char
  | .null => "null".toList
  | .bool flag => (if flag then "true" else "false").toList
  | .number number => canonicalNumber number.asF64
  | .string text => writeString text

/-- Parts with commas between them. -/
def commaJoined (parts : List (List Char)) : List Char := [','].intercalate parts

/-- The members of an object, from their values' texts, in the order of their keys. -/
def sortedMembers (members : List (String × List Char)) : List (String × List Char) :=
  members.insertionSort fun left right => encodeUtf16 left.1 ≤ encodeUtf16 right.1

mutual
/-- `write_value`. -/
def writeValue : Value → List Char
  | .scalar a => writeScalar a
  | .list _ items => '[' :: commaJoined (writeItems items) ++ [']']
  | .dict _ entries =>
      '\x7b' :: commaJoined ((sortedMembers (writeEntries entries)).map fun e =>
        writeString e.1 ++ ':' :: e.2) ++ ['\x7d']
/-- The texts of the items of an array. -/
def writeItems : List Value → List (List Char)
  | [] => []
  | item :: items => writeValue item :: writeItems items
/-- The texts of the values of an object, under their keys. -/
def writeEntries : List (String × Value) → List (String × List Char)
  | [] => []
  | (key, value) :: entries => (key, writeValue value) :: writeEntries entries
end

/-- `canonical_json`. -/
def canonicalJson (value : Value) : List Char := writeValue value

end Telemetry.Receipts.Rust
