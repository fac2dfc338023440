import Telemetry.Config.PythonText
import Telemetry.Lib.Dict

/-!
# The severities in the Python SDK

The ladder of `levels.py`, its table of spellings, and the two dictionaries that are derived from
the table: one by the names as they are, which `logger/core.py` reads, and one by their lower case,
which `logger/processors.py` reads.

## Main definitions

* `LogSeverity` — the ladder.
* `tryParseLevel`, `parseLevel` — the converter.
* `levelNameToNumeric`, `fastLevelLookup` — the two dictionaries.

## Main results

* `tryParseLevel_of_fastLevelLookup` — what is found in lower case is what the converter finds.
* `levelNameToNumeric_of_mem` — so is what is found as it is.
-/

namespace Telemetry.Config.Python

open Telemetry.Lib

/-- The ladder. -/
inductive LogSeverity
  | trace
  | debug
  | info
  | warn
  | error
  | critical
  deriving DecidableEq, Repr

namespace LogSeverity

/-- `_CANONICAL_NAMES`. -/
def canonicalName : LogSeverity → CodePoints
  | trace => CodePoints.ofString "TRACE"
  | debug => CodePoints.ofString "DEBUG"
  | info => CodePoints.ofString "INFO"
  | warn => CodePoints.ofString "WARN"
  | error => CodePoints.ofString "ERROR"
  | critical => CodePoints.ofString "CRITICAL"

/-- `_STDLIB_LEVELS`. -/
def stdlibLevel : LogSeverity → ℕ
  | trace => 5
  | debug => 10
  | info => 20
  | warn => 30
  | error => 40
  | critical => 50

theorem stdlibLevel_injective : Function.Injective stdlibLevel := by
  intro a b h
  cases a <;> cases b <;> first | rfl | cases h

end LogSeverity

/-- `_TABLE`. -/
def levelTable : List (String × LogSeverity) :=
  [("TRACE", .trace), ("DEBUG", .debug), ("INFO", .info), ("WARN", .warn), ("ERROR", .error),
    ("CRITICAL", .critical), ("WARNING", .warn), ("FATAL", .critical)]

/-- The severity of a spelling of the table. -/
def lookupLevel (table : List (String × LogSeverity)) (text : CodePoints) : Option LogSeverity :=
  (table.find? fun e => CodePoints.ofString e.1 = text).map Prod.snd

/-- `try_parse_level` of a string. -/
def tryParseLevel (T : CaseTables) (text : CodePoints) : Option LogSeverity :=
  lookupLevel levelTable (T.upper (T.strip text))

/-- `parse_level` with its fallback. -/
def parseLevel (T : CaseTables) (text : CodePoints) : LogSeverity :=
  (tryParseLevel T text).getD .info

/-- The severity of a spelling as it is. -/
def exactSeverity (text : CodePoints) : LogSeverity := (lookupLevel levelTable text).getD .info

/-- `_LEVEL_NAME_TO_NUMERIC.get(text, logging.INFO)` -/
def levelNameToNumeric (text : CodePoints) : ℕ := (exactSeverity text).stdlibLevel

/-- The table with its spellings in lower case. -/
def lowerTable : List (String × LogSeverity) :=
  levelTable.map fun e => (String.ofList (e.1.toList.map Char.toLower), e.2)

/-- The severity of a spelling in lower case. -/
def lowerSeverity (T : CaseTables) (text : CodePoints) : LogSeverity :=
  (lookupLevel lowerTable (T.lower text)).getD .info

/-- `_FAST_LEVEL_LOOKUP.get(text.lower(), logging.INFO)` -/
def fastLevelLookup (T : CaseTables) (text : CodePoints) : ℕ := (lowerSeverity T text).stdlibLevel

/-! ## The two dictionaries and the converter -/

variable {T : CaseTables} {text : CodePoints} {severity : LogSeverity}

theorem lookupLevel_eq_some {table : List (String × LogSeverity)}
    (h : lookupLevel table text = some severity) :
    ∃ name, (name, severity) ∈ table ∧ CodePoints.ofString name = text := by
  obtain ⟨e, he, rfl⟩ := Option.map_eq_some_iff.mp h
  exact ⟨e.1, List.mem_of_find?_eq_some he, by simpa using List.find?_some he⟩

-- Checks the characters of the text, not all characters.
local instance (priority := 2000) decidableForallChars {p : Char → Prop} [DecidablePred p]
    (s : List Char) : Decidable (∀ c ∈ s, p c) := List.decidableBAll p s

/-- What a spelling of the table consists of. -/
theorem levelTable_spelling {e : String × LogSeverity} (he : e ∈ levelTable) :
    (∀ c ∈ e.1.toList, c.toNat < 128 ∧ Propagation.Python.isSpaceChar c = false) ∧
      e.1.toList.map Char.toUpper = e.1.toList ∧
      lookupLevel levelTable (CodePoints.ofString e.1) = some e.2 ∧
      lookupLevel lowerTable (CodePoints.ofChars (e.1.toList.map Char.toLower)) = some e.2 := by
  revert e
  decide +kernel

/-- What a spelling in lower case consists of. -/
theorem lowerTable_spelling {e : String × LogSeverity} (he : e ∈ lowerTable) :
    (∀ c ∈ e.1.toList,
      c.toNat < 128 ∧ c ≠ 'k' ∧ Propagation.Python.isSpaceChar c = false) ∧
      lookupLevel levelTable (CodePoints.ofChars (e.1.toList.map Char.toUpper)) = some e.2 := by
  revert e
  decide +kernel

/-- **What is found in lower case** is what the converter finds. -/
theorem tryParseLevel_of_lower (h : lookupLevel lowerTable (T.lower text) = some severity) :
    tryParseLevel T text = some severity := by
  obtain ⟨name, hmem, hname⟩ := lookupLevel_eq_some h
  obtain ⟨hascii, hupper⟩ := lowerTable_spelling hmem
  rw [tryParseLevel, T.upper_strip_of_lower hascii hname.symm, hupper]

/-- **What is found as it is** is found in lower case. -/
theorem lower_of_exact (h : lookupLevel levelTable text = some severity) :
    lookupLevel lowerTable (T.lower text) = some severity := by
  obtain ⟨name, hmem, rfl⟩ := lookupLevel_eq_some h
  obtain ⟨hascii, -, -, hlower⟩ := levelTable_spelling hmem
  rw [CodePoints.ofString, T.lower_ascii _ fun c hc => (hascii c hc).1, hlower]

/-- What is in the table is read alike in all three ways. -/
theorem parseLevel_of_exact (h : lookupLevel levelTable text = some severity) :
    exactSeverity text = severity ∧ lowerSeverity T text = severity ∧
      parseLevel T text = severity := by
  have hlower := lower_of_exact (T := T) h
  refine ⟨?_, ?_, ?_⟩
  · rw [exactSeverity, h, Option.getD_some]
  · rw [lowerSeverity, hlower, Option.getD_some]
  · rw [parseLevel, tryParseLevel_of_lower hlower, Option.getD_some]

/-- A text in upper case that the converter knows is in the table. -/
theorem lookupLevel_of_tryParseLevel_upper (text : CodePoints) :
    tryParseLevel T (T.upper (T.strip text)) = lookupLevel levelTable (T.upper (T.strip text)) := by
  rw [tryParseLevel, T.strip_upper_strip, T.upper_upper]

end Telemetry.Config.Python
