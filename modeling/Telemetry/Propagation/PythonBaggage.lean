import Telemetry.Propagation.Baggage

/-!
# Parsing `baggage` in the Python SDK

`parse_baggage` of `propagation.py`. Whether a name is a token is asked by stripping the characters
of tokens from it, and control characters are looked for only in a value that is not printable.

## Main definitions

* `isSpace`, `Printable` — what Python knows about characters.
* `parseBaggage` — the parser.

## Main results

* `parseBaggage_eq` — it reads the members one by one.
-/

namespace Telemetry.Propagation.Python

open Telemetry.Lib

/-- The information separators, U+001C to U+001F. -/
def isSeparator (c : Char) : Bool := '\u001c' ≤ c && c ≤ '\u001f'

/-- `str.isspace` of a scalar value. -/
def isSpaceChar (c : Char) : Bool := isWhiteSpace c || isSeparator c

/-- `str.isspace` of a character. -/
def isSpace : CodePoint → Bool
  | .scalar c => isSpaceChar c
  | .surrogate _ => false

/-- `_BAGGAGE_TOKEN_CHARS`. -/
def baggageTokenChars : String :=
  "!#$%&'*+-.^_`|~0123456789ABCDEFGHIJKLMNOPQRSTUVWXYZabcdefghijklmnopqrstuvwxyz"

def isTokenChar (c : CodePoint) : Bool := c ∈ CodePoints.ofString baggageTokenChars

/-- The class of `_CONTROL_CHARS_RE`. -/
def isControlChar (c : Char) : Bool :=
  c ≤ '\u0008' || ('\u000a' ≤ c && c ≤ '\u001f') || c == '\u007f'

def isControl : CodePoint → Bool
  | .scalar c => isControlChar c
  | .surrogate _ => false

/-- The characters that `str.isprintable` accepts. No control character is one of them. -/
structure Printable where
  isPrintable : CodePoint → Bool
  control : ∀ c, isControl c = true → isPrintable c = false

/-- The characters of `parse_baggage`. -/
def alphabet : Alphabet CodePoint where
  comma := .scalar ','
  semicolon := .scalar ';'
  equals := .scalar '='
  isToken := isTokenChar
  isControl := isControl

/-- `_CONTROL_CHARS_RE.sub("", value)`. -/
def subControlChars (value : CodePoints) : CodePoints := value.filter fun c => !isControl c

/-- One round of the loop in `parse_baggage`. -/
def parseMember (T : Printable) (result : Dict CodePoints CodePoints) (member : CodePoints) :
    Dict CodePoints CodePoints :=
  let kv := (partition (.scalar ';') member).1
  if .scalar '=' ∉ kv then result
  else
    let (key, value) := partition (.scalar '=') kv
    let key := strip isSpace key
    if key ≠ [] ∧ strip isTokenChar key = [] then
      let stripped := strip isSpace value
      let stripped := if stripped.all T.isPrintable then stripped else subControlChars stripped
      result.set key stripped
    else result

/-- `parse_baggage`. -/
def parseBaggage (T : Printable) (raw : CodePoints) : Dict CodePoints CodePoints :=
  (raw.splitOn (.scalar ',')).foldl (parseMember T) Dict.empty

/-- What is read of the members, in order. -/
def readMembers (raw : CodePoints) : List (CodePoints × CodePoints) :=
  (raw.splitOn (.scalar ',')).filterMap (alphabet.read isSpace)

variable {T : Printable}

/-- **A printable value has no control characters**, so the way around the pattern changes
nothing. -/
theorem visible_of_printable (value : CodePoints) :
    (if value.all T.isPrintable then value else subControlChars value) =
      alphabet.visible value := by
  split
  · rename_i hall
    rw [List.all_eq_true] at hall
    refine (List.filter_eq_self.mpr fun c hc => ?_).symm
    cases hcontrol : isControl c with
    | false => simp [alphabet, hcontrol]
    | true =>
        have hprintable := hall c hc
        rw [T.control c hcontrol] at hprintable
        cases hprintable
  · rfl

theorem parseMember_eq (result : Dict CodePoints CodePoints) (member : CodePoints) :
    parseMember T result member =
      match alphabet.read isSpace member with
      | some e => result.set e.1 e.2
      | none => result := by
  have htoken : ∀ key : CodePoints,
      (key ≠ [] ∧ strip isTokenChar key = []) ↔ alphabet.IsToken key := by
    intro key
    rw [strip_eq_nil_iff]
    rfl
  have hmem : (CodePoint.scalar '=' ∈ (partition (.scalar ';') member).1) ↔
      alphabet.equals ∈ alphabet.pair member := Iff.rfl
  rw [parseMember]
  simp only [visible_of_printable, htoken, hmem]
  by_cases hequals : alphabet.equals ∈ alphabet.pair member
  · rw [if_neg (not_not.mpr hequals)]
    by_cases hkey : alphabet.IsToken (strip isSpace (alphabet.name member))
    · rw [Alphabet.read_eq_some_iff.mpr ⟨⟨hequals, hkey⟩, rfl⟩]
      exact if_pos hkey
    · have hnone : alphabet.read isSpace member = none := if_neg fun h => hkey h.2
      rw [hnone]
      exact if_neg hkey
  · rw [if_pos hequals, Alphabet.read, if_neg fun h => hequals h.1]

/-- **The parser reads the members one by one.** -/
theorem parseBaggage_eq (raw : CodePoints) :
    parseBaggage T raw = Dict.empty.update (readMembers raw) := by
  rw [parseBaggage, readMembers]
  generalize Dict.empty = result
  induction raw.splitOn (.scalar ',') generalizing result with
  | nil => rfl
  | cons member members ih =>
      rw [List.foldl_cons, ih, parseMember_eq]
      cases hread : alphabet.read isSpace member with
      | none => rw [List.filterMap_cons_none hread]
      | some e =>
          rw [List.filterMap_cons_some hread]
          rfl

end Telemetry.Propagation.Python
