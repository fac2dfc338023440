import Telemetry.Config.PythonLevels
import Telemetry.Lib.Number
import Telemetry.Lib.Returns

/-!
# Logging configs of the Python SDK

A `LoggingConfig` normalizes its level and refuses a format or a colour that it does not know. The
levels of its modules it takes as they are.

## Main definitions

* `ConfigurationError` — what a validator raises.
* `LoggingConfig`, `LoggingConfig.postInit` — a config, and what its constructor does.

## Main results

* `lookupLevel_of_normalizeLevel` — a normalized level is in the table.
* `LoggingConfig.level_of_postInit` — the level of a config has been normalized.
-/

namespace Telemetry.Config.Python

open Telemetry.Lib

/-- A part of a message: `f"{value}"` or `f"{value!r}"` between constant texts. -/
inductive Piece
  | text (s : String)
  | str (value : CodePoints)
  | repr (value : CodePoints)
  | reprs (values : List CodePoints)
  | int (value : ℤ)
  | float (value : Number)
  deriving DecidableEq

/-- A `ConfigurationError` with its message. -/
structure ConfigurationError where
  message : List Piece
  deriving DecidableEq

/-- `LoggingConfig`. -/
structure LoggingConfig where
  level : CodePoints := CodePoints.ofString "INFO"
  fmt : CodePoints := CodePoints.ofString "console"
  includeTimestamp : Bool := true
  includeCaller : Bool := true
  sanitize : Bool := true
  otlpEndpoint : Option CodePoints := none
  otlpEnabled : Bool := true
  otlpHeaders : Dict CodePoints CodePoints := .empty
  logCodeAttributes : Bool := false
  prettyKeyColor : CodePoints := CodePoints.ofString "dim"
  prettyValueColor : CodePoints := []
  prettyFields : List CodePoints := []
  moduleLevels : Dict CodePoints CodePoints := .empty
  deriving DecidableEq

/-- `_normalize_level`. -/
def normalizeLevel (T : CaseTables) (value : CodePoints) : Except ConfigurationError CodePoints :=
  let normalized := T.upper (T.strip value)
  if tryParseLevel T normalized = none then
    throw ⟨[.text "invalid log level: ", .str value]⟩
  else pure normalized

/-- `_validate_fmt`. -/
def validateFmt (value : CodePoints) : Except ConfigurationError Unit :=
  if value ∈ ["console", "json", "pretty"].map CodePoints.ofString then pure ()
  else throw ⟨[.text "invalid log format: ", .str value]⟩

/-- `_VALID_COLORS`. -/
def validColors : List String :=
  ["dim", "bold", "red", "green", "yellow", "blue", "cyan", "white", "none"]

/-- `_validate_color`. -/
def validateColor (value : CodePoints) (field : String) : Except ConfigurationError Unit :=
  if value = [] then pure ()
  else if value ∉ validColors.map CodePoints.ofString then
    throw ⟨[.text "invalid color name for ", .text field, .text ": ", .repr value]⟩
  else pure ()

/-- The config with another level. -/
def LoggingConfig.withLevel (config : LoggingConfig) (level : CodePoints) : LoggingConfig :=
  { config with level := level }

/-- `LoggingConfig.__post_init__`. -/
def LoggingConfig.postInit (T : CaseTables) (config : LoggingConfig) :
    Except ConfigurationError LoggingConfig := do
  let level ← normalizeLevel T config.level
  validateFmt config.fmt
  validateColor config.prettyKeyColor "pretty_key_color"
  validateColor config.prettyValueColor "pretty_value_color"
  pure (config.withLevel level)

variable {T : CaseTables} {value level : CodePoints} {given config : LoggingConfig}

/-- **A normalized level is in the table.** -/
theorem lookupLevel_of_normalizeLevel (h : normalizeLevel T value = .ok level) :
    ∃ severity, lookupLevel levelTable level = some severity := by
  rw [normalizeLevel] at h
  split at h
  · cases h
  · rename_i hne
    obtain rfl := Except.ok.inj h
    obtain ⟨severity, hseverity⟩ := Option.ne_none_iff_exists'.mp hne
    rw [lookupLevel_of_tryParseLevel_upper] at hseverity
    exact ⟨severity, hseverity⟩

/-- **What the constructor makes of its arguments.** -/
theorem LoggingConfig.postInit_eq_ok (h : given.postInit T = .ok config) :
    ∃ level, normalizeLevel T given.level = .ok level ∧ config = given.withLevel level := by
  obtain ⟨level, hlevel, hrest⟩ := bind_eq_ok_iff.mp h
  obtain ⟨_, -, hrest⟩ := bind_eq_ok_iff.mp hrest
  obtain ⟨_, -, hrest⟩ := bind_eq_ok_iff.mp hrest
  obtain ⟨_, -, hrest⟩ := bind_eq_ok_iff.mp hrest
  exact ⟨level, hlevel, (Except.ok.inj hrest).symm⟩

/-- **The level of a config** is one of the table. -/
theorem LoggingConfig.level_of_postInit (h : given.postInit T = .ok config) :
    ∃ severity, lookupLevel levelTable config.level = some severity := by
  obtain ⟨level, hlevel, rfl⟩ := postInit_eq_ok h
  exact lookupLevel_of_normalizeLevel hlevel

end Telemetry.Config.Python
