import Telemetry.Lib.Glob

/-!
# Classification rules in four SDKs

`classification.py`, `classification.rs`, `classification.go` and `classification.ts`: a key gets
the label of the first rule whose pattern matches it. Python asks `fnmatch`, Go `filepath.Match`,
whose wildcards do not stand for a separator; Rust has a matcher of its own on bytes, and TypeScript
writes a regular expression, in which the mark of a pattern is left as it is.

## Main definitions

* `Pattern`, `ClassificationRule` — patterns without classes and escapes.
* `expected` — the label of the first rule whose pattern matches as a glob.
* `Python.classifyField`, `Rust.classifyKey`, `Go.classifyField`, `TypeScript.classifyField`.
-/

namespace Telemetry.Classification

open Telemetry.Lib Telemetry.Glob

/-- `DataClass`. -/
inductive DataClass
  | PUBLIC
  | INTERNAL
  | PII
  | PHI
  | PCI
  | SECRET
  deriving DecidableEq, Repr

/-- The label of a class. -/
def DataClass.value : DataClass → String
  | .PUBLIC => "PUBLIC"
  | .INTERNAL => "INTERNAL"
  | .PII => "PII"
  | .PHI => "PHI"
  | .PCI => "PCI"
  | .SECRET => "SECRET"

theorem DataClass.value_injective : Function.Injective DataClass.value := by
  intro c d h
  cases c <;> cases d <;> first | rfl | exact absurd h (by decide)

/-- A pattern of wildcards and literal characters. -/
structure Pattern where
  text : List Char
  plain : ∀ c ∈ text, c ∉ ['[', ']', '\\']

/-- A character of a pattern as a part of it. -/
def token : Char → Token Char
  | '*' => .star
  | '?' => .one
  | c => .lit c

/-- The parts of a pattern. -/
def Pattern.tokens (p : Pattern) : List (Token Char) := p.text.map token

/-- `ClassificationRule`. -/
structure ClassificationRule where
  pattern : Pattern
  classification : DataClass

/-- **What the rules say of a key**: the label of the first one whose pattern matches the whole key,
a star standing for any run of characters and a mark for one. -/
def expected (rules : List ClassificationRule) (key : List Char) : Option DataClass :=
  (rules.find? fun rule => decide (Matches (fun _ => true) rule.pattern.tokens key)).map
    (·.classification)

/-! ## Python -/

namespace Python

/-- `fnmatch.fnmatch` where the case of a name matters. -/
def fnmatch (name : List Char) (pattern : Pattern) : Bool :=
  test (fun _ => true) pattern.tokens name

/-- `_classify_field`. -/
def classifyField (rules : List ClassificationRule) (key : List Char) : Option String :=
  (rules.find? fun rule => fnmatch key rule.pattern).map (·.classification.value)

end Python

/-! ## Rust -/

namespace Rust

/-- `b'*'`. -/
def star : UInt8 := 42

/-- `b'?'`. -/
def mark : UInt8 := 63

/-- The matcher within `match_glob`. -/
def globMatch : List UInt8 → List UInt8 → Bool
  | [], [] => true
  | [], _ :: _ => false
  | pc :: rest, s =>
      if pc = star then
        (List.range (s.length + 1)).any fun offset => globMatch rest (s.drop offset)
      else
        match s with
        | [] => false
        | sc :: s => (pc = mark || pc == sc) && globMatch rest s

/-- `match_glob`. -/
def matchGlob (pattern key : List Char) : Bool :=
  -- Fast path: no wildcards
  if ¬ pattern.any (['*', '?'].contains ·) then pattern == key
  else globMatch (Utf8.encode pattern) (Utf8.encode key)

/-- `classify_key`. -/
def classifyKey (rules : List ClassificationRule) (key : List Char) : Option String :=
  (rules.find? fun rule => matchGlob rule.pattern.text key).map (·.classification.value)

end Rust

/-! ## Go -/

namespace Go

/-- `filepath.Separator`. -/
def separator : Char := '/'

/-- `filepath.Match`, whose wildcards stand for characters other than the separator. A pattern
without a class and without an escape is not malformed. -/
def filepathMatch (pattern : Pattern) (name : List Char) : Bool :=
  test (fun c => c != separator) pattern.tokens name

/-- `_classifyField`; without a label the answer is empty. -/
def classifyField (rules : List ClassificationRule) (key : List Char) : String :=
  ((rules.find? fun rule => filepathMatch rule.pattern key).map (·.classification.value)).getD ""

end Go

/-! ## TypeScript -/

namespace TypeScript

/-- The code units of a text. -/
def units (s : List Char) : List ℕ := s.flatMap CodePoints.utf16Units

/-- `[.+^${}()|[\]\\]`. -/
def specials : List ℕ := ".+^$\x7b\x7d()|[]\\".toList.map Char.toNat

def backslash : ℕ := '\\'.toNat

def dot : ℕ := '.'.toNat

def star : ℕ := '*'.toNat

def mark : ℕ := '?'.toNat

/-- The source that `_compileGlob` writes between the two anchors. -/
def escaped (pattern : List ℕ) : List ℕ :=
  (pattern.flatMap fun u => if u ∈ specials then [backslash, u] else [u]).flatMap
    fun u => if u = star then [dot, star] else [u]

/-- What such a source consists of. -/
inductive Lexeme
  | char (u : ℕ)
  | dot
  | star
  | mark
  deriving DecidableEq, Repr

/-- A unit that no backslash stands before. -/
def lexeme (u : ℕ) : Lexeme :=
  if u = dot then .dot else if u = star then .star else if u = mark then .mark else .char u

/-- The source in its parts: a backslash is followed by the character it escapes. -/
def lex : List ℕ → List Lexeme
  | [] => []
  | [u] => [lexeme u]
  | u :: v :: rest => if u = backslash then .char v :: lex rest else lexeme u :: lex (v :: rest)

/-- What ends a line. -/
def lineTerminators : List ℕ := [0x0A, 0x0D, 0x2028, 0x2029]

/-- `.` of an expression without the flag `s`. -/
def isAnyChar (u : ℕ) : Bool := decide (u ∉ lineTerminators)

/-- What an atom of the expression matches. A quantifier is no atom. -/
def atom : Lexeme → Option (ℕ → Bool)
  | .char u => some (· == u)
  | .dot => some isAnyChar
  | .star => none
  | .mark => none

/-- The expression `new RegExp` reads, unless it throws a `SyntaxError`. A mark behind a quantifier
makes it lazy, which does not change what is matched. -/
def terms : List Lexeme → Option (List (Regex.Piece ℕ))
  | [] => some []
  | a :: .star :: .mark :: rest =>
      (atom a).bind fun f => (terms rest).map (⟨f, 0, none⟩ :: ·)
  | a :: .star :: rest => (atom a).bind fun f => (terms rest).map (⟨f, 0, none⟩ :: ·)
  | a :: .mark :: .mark :: rest =>
      (atom a).bind fun f => (terms rest).map (⟨f, 0, some 1⟩ :: ·)
  | a :: .mark :: rest => (atom a).bind fun f => (terms rest).map (⟨f, 0, some 1⟩ :: ·)
  | a :: rest => (atom a).bind fun f => (terms rest).map (⟨f, 1, some 1⟩ :: ·)

/-- `_compileGlob`; `none` where the constructor throws. -/
def compileGlob (pattern : List Char) : Option (List (Regex.Piece ℕ)) :=
  terms (lex (escaped (units pattern)))

/-- `_CompiledRule`. -/
structure CompiledRule where
  compiled : List (Regex.Piece ℕ)
  classification : DataClass

/-- `_rules` after `registerClassificationRules`: a pattern that cannot be compiled ends the
call. -/
def registerClassificationRules : List ClassificationRule → List CompiledRule
  | [] => []
  | rule :: rules =>
      match compileGlob rule.pattern.text with
      | none => []
      | some compiled => ⟨compiled, rule.classification⟩ :: registerClassificationRules rules

/-- `RegExp.prototype.test` between the two anchors. -/
def regExpTest (compiled : List (Regex.Piece ℕ)) (s : List ℕ) : Bool :=
  Regex.accepts List.isEmpty compiled s

/-- `_classifyField`. -/
def classifyField (rules : List ClassificationRule) (key : List Char) : Option String :=
  ((registerClassificationRules rules).find? fun rule => regExpTest rule.compiled (units key)).map
    (·.classification.value)

end TypeScript

end Telemetry.Classification
