import Telemetry.Lib.Hex
import Telemetry.Lib.Utf8

/-!
# Percent-encoding

An escape is a percent sign with two hexadecimal digits. A lenient decoder leaves a percent sign
alone that starts none, a strict one refuses it.

## Main definitions

* `Percent.unescape` — the bytes, leniently.
* `Percent.malformed` — whether a percent sign starts no escape.
* `Percent.unescape?` — the bytes, strictly.
-/

namespace Telemetry.Lib.Percent

/-- The value of a hexadecimal digit. -/
def hexValue? (c : Char) : Option ℕ :=
  if '0' ≤ c ∧ c ≤ '9' then some (c.toNat - '0'.toNat)
  else if 'a' ≤ c ∧ c ≤ 'f' then some (c.toNat - 'a'.toNat + 10)
  else if 'A' ≤ c ∧ c ≤ 'F' then some (c.toNat - 'A'.toNat + 10)
  else none

/-- The byte of an escape. -/
def escape? (a b : Char) : Option UInt8 :=
  (hexValue? a).bind fun x => (hexValue? b).map fun y => UInt8.ofNat (16 * x + y)

/-- The bytes of a text of ASCII, where a percent sign that starts no escape is one of them. -/
def unescape : List Char → List UInt8
  | [] => []
  | '%' :: a :: b :: text =>
      match escape? a b with
      | some byte => byte :: unescape text
      | none => UInt8.ofNat '%'.toNat :: unescape (a :: b :: text)
  | c :: text => UInt8.ofNat c.toNat :: unescape text

/-- Whether a percent sign starts no escape. -/
def malformed : List Char → Bool
  | [] => false
  | '%' :: a :: b :: text => !isHexDigit a || !isHexDigit b || malformed text
  | '%' :: _ => true
  | _ :: text => malformed text

/-- The bytes of a text in which every percent sign starts an escape. -/
def unescape? (text : List Char) : Option (List UInt8) :=
  if malformed text then none else some (unescape text)

/-- Nothing is escaped where there is no percent sign. -/
theorem unescape_of_notMem {text : List Char} (h : '%' ∉ text) :
    unescape text = text.map fun c => UInt8.ofNat c.toNat := by
  induction text with
  | nil => rfl
  | cons c text ih =>
      rw [List.mem_cons, not_or] at h
      rw [unescape, ih h.2, List.map_cons]
      intro a b rest hc
      exact absurd hc.symm h.1

theorem malformed_cons {c : Char} (h : c ≠ '%') (text : List Char) :
    malformed (c :: text) = malformed text := by
  rw [malformed]
  · intro a b rest hc
    exact absurd hc h
  · exact h

/-- What is well-formed is read alike by both. -/
theorem unescape?_of_not_malformed {text : List Char} (h : malformed text = false) :
    unescape? text = some (unescape text) := by
  rw [unescape?, h, if_neg Bool.false_ne_true]

end Telemetry.Lib.Percent
