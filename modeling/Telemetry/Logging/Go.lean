import Telemetry.Lib.Occurrences
import Telemetry.Logging.GoHarden

/-!
# Log records in the Go SDK

`logger.go` and `logger_pii_order.go`: the handler folds the bound attributes and the
context fields into a record, stamps the service identity and the trace, checks the schema,
adds an error fingerprint, and takes the record through the PII stage in rounds, so that
neither the order of the attributes nor a repeated key is lost.

What the handler and the process hold when a record arrives is `Handler`. The gates before
the PII stage are left out: they decide whether the record goes on.

## Main definitions

* `stampRootFields` — the SDK's own root fields replace the caller's.
* `applyPII` — the PII stage.
* `handle` — the record that the next handler gets.
-/

namespace Telemetry.Logging.Go

open Telemetry.Lib Telemetry.Pii

variable {α σ γ : Type} [Scalars α]

/-- A list of `slog.Attr`. -/
abbrev Attrs (γ : Type) := List (String × AttrValue γ)

/-- `Value.isEmptyGroup`. -/
def isEmptyGroup : AttrValue γ → Bool
  | .group [] => true
  | _ => false

/-- `slog.GroupValue`. -/
def groupValue (attrs : Attrs γ) : AttrValue γ :=
  .group (attrs.filter fun a => !isEmptyGroup a.2)

/-- `Record.AddAttrs`, which leaves out empty groups. -/
def addAttrs (record attrs : Attrs γ) : Attrs γ :=
  record ++ attrs.filter fun a => !isEmptyGroup a.2

/-- `slog.String`. -/
def slogString (key value : String) : String × AttrValue γ := (key, .str value)

/-- `_boundStep`. -/
structure BoundStep (γ : Type) where
  group : String := ""
  attrs : Attrs γ := []

/-- `TelemetryConfig`, as far as the handler reads it. -/
structure TelemetryConfig where
  serviceName : String
  environment : String
  version : String
  security : SecurityConfig
  sanitize : Bool
  includeCaller : Bool
  requiredKeys : List String

/-- What the handler and the process hold when a record arrives. -/
structure Handler (σ γ α : Type) where
  cfg : TelemetryConfig
  name : String
  bound : List (BoundStep γ)
  /-- `GetBoundFields`, in the order in which `range` visits them. -/
  contextFields : Attrs γ
  /-- `_getTraceSpanFromContext`. -/
  traceID : String
  spanID : String
  /-- `_readStrictSchema`. -/
  strictSchema : Bool
  rules : List Pii.Go.PIIRule
  hooks : Pii.Go.Hooks α
  /-- What the sanitizer takes from elsewhere. -/
  env : Pii.Go.Env α
  reflection : Reflection σ γ α
  /-- `fmt.Sprint(value.Any())`. -/
  sprint : AttrValue γ → String
  /-- `fmt.Sprintf("%q", s)`. -/
  sprintQuoted : String → String
  /-- `_callsiteFrame`: the file and the line of the caller. -/
  frame : Option (String × Value α)

variable (h : Handler σ γ α)

/-! ## Building the record -/

/-- One round of the loop of `applyBoundAttrs`, which goes from the last step to the first. -/
def applyStep (step : BoundStep γ) (cur : Attrs γ) : Attrs γ :=
  if step.group = "" then step.attrs ++ cur
  else if cur.isEmpty then cur
  else [(step.group, groupValue cur)]

/-- `applyBoundAttrs`. -/
def applyBoundAttrs (record : Attrs γ) : Attrs γ :=
  if h.bound.isEmpty then record else addAttrs [] (h.bound.foldr applyStep record)

/-- `applyContextFields`. -/
def applyContextFields (record : Attrs γ) : Attrs γ :=
  if h.contextFields.isEmpty then record else addAttrs (addAttrs [] record) h.contextFields

/-- `applyLoggerName`. -/
def applyLoggerName (record : Attrs γ) : Attrs γ :=
  if h.name = "" then record
  else addAttrs (addAttrs [] record) [slogString "logger_name" h.name]

/-- `_reservedWireNames`. -/
def reservedWireNames : String → String
  | "service.name" => "service"
  | "service.env" => "env"
  | "service.version" => "version"
  | "trace.id" => "trace_id"
  | "span.id" => "span_id"
  | _ => ""

/-- `_stampRootFields`. -/
def stampRootFields (record : Attrs γ) (stamped : List (String × String)) : Attrs γ :=
  if stamped.isEmpty then record
  else
    let others := record.filter fun a =>
      !stamped.any fun s => s.1 == a.1 || reservedWireNames s.1 == a.1
    addAttrs (addAttrs [] others) (stamped.map fun s => slogString s.1 s.2)

/-- The fields that `applyStandardFields` stamps. -/
def standardFields : List (String × String) :=
  [("service.name", h.cfg.serviceName), ("service.env", h.cfg.environment),
    ("service.version", h.cfg.version)].filter fun s => s.2 ≠ ""

/-- The fields that `applyTraceFields` stamps. -/
def traceFields : List (String × String) :=
  [("trace.id", h.traceID), ("span.id", h.spanID)].filter fun s => s.2 ≠ ""

/-- `applyStandardFields`. -/
def applyStandardFields (record : Attrs γ) : Attrs γ := stampRootFields record (standardFields h)

/-- `applyTraceFields`. -/
def applyTraceFields (record : Attrs γ) : Attrs γ := stampRootFields record (traceFields h)

/-! ## Schema and fingerprint -/

/-- `^[a-z][a-z0-9_]*$`. -/
def validateSegmentFormat (segment : String) : Bool :=
  match segment.toList with
  | [] => false
  | r :: rs => ('a' ≤ r && r ≤ 'z') &&
      rs.all fun r => ('a' ≤ r && r ≤ 'z') || ('0' ≤ r && r ≤ '9') || r == '_'

/-- `ValidateEventSegments`: the text of the error, if there is one. -/
def validateEventSegments (segments : List String) : Option String :=
  if segments = [] then some "event name requires at least 1 segment, got 0"
  else if segments.any fun seg => seg == "" then some "event name segments must be non-empty"
  else if ¬ h.strictSchema then none
  else if segments.length < 3 ∨ 5 < segments.length then
    some ("event name must have 3–5 segments, got " ++ toString segments.length)
  else
    (segments.find? fun seg => !validateSegmentFormat seg).map fun seg =>
      "invalid event name segment " ++ h.sprintQuoted seg ++ ": must match ^[a-z][a-z0-9_]*$"

/-- `ValidateRequiredKeys`: the text of the error, if there is one. -/
def validateRequiredKeys (record : Attrs γ) : Option String :=
  (h.cfg.requiredKeys.find? fun key => !(record.map Prod.fst).contains key).map fun key =>
    "missing required key: " ++ key

/-- `applySchema`: the text of the error, if there is one. -/
def applySchema (message : String) (record : Attrs γ) : Option String :=
  match validateRequiredKeys h record with
  | some error => some error
  | none =>
      if h.strictSchema then
        validateEventSegments h ((message.toList.splitOn '.').map String.ofList)
      else none

/-- The annotation that `Handle` adds to a record that fails the schema. -/
def annotateSchema (message : String) (record : Attrs γ) : Attrs γ :=
  match applySchema h message record with
  | some error => addAttrs record [slogString "_schema_error" error]
  | none => record

/-- `ComputeErrorFingerprintFromParts` without frames. -/
def computeErrorFingerprint (excType : String) : String :=
  String.ofList ((h.env.sha256Hex (excType.map h.env.toLower)).toList.take 12)

/-- `applyErrorFingerprint`. -/
def applyErrorFingerprint (record : Attrs γ) : Attrs γ :=
  let excName := ((record.find? fun a =>
    ["exc_info", "exc_name", "exception"].contains a.1).map fun a => h.sprint a.2).getD ""
  if excName = "" then record
  else addAttrs (addAttrs [] record)
    [slogString "error_fingerprint" (computeErrorFingerprint h excName)]

/-! ## The PII stage -/

/-- `_cleanedRecordAttrs`. -/
def cleanedRecordAttrs (record : Attrs γ) : Attrs γ :=
  record.map fun a => (cleanKey a.1, a.2)

/-- `_hardenAttrs` on the payload of a round. -/
def hardenedRound (attrs : Attrs γ) (i : ℕ) : SortedMap String (Json α) :=
  hardenAttrs h.reflection (round attrs (roundsOf attrs) i) (limitsFromConfig h.cfg.security)

/-- `SanitizePayload` on the payload of a round. -/
def sanitizedRound (attrs : Attrs γ) (i : ℕ) (key : String) : Option (Value α) :=
  (Pii.Go.sanitizePayload h.env h.hooks h.rules (toPayload (hardenedRound h attrs i))
    h.cfg.sanitize 0).val.lookup key

/-- `_rebuildInOrder`. -/
def rebuildInOrder (attrs : Attrs γ) : List (String × Value α) :=
  rebuilt attrs (roundsOf attrs) (sanitizedRound h attrs)

mutual
/-- The group that `_attrFromValue` makes of a value is empty: groups that come out empty are
left out of the groups around them. -/
def isHollow : Value α → Bool
  | .dict _ entries => areHollow entries
  | _ => false
/-- All the entries come out as empty groups. -/
def areHollow : Entries α → Bool
  | [] => true
  | (_, value) :: entries => isHollow value && areHollow entries
end

/-- `applyPII` on the attributes, each as `_attrFromValue` makes it. -/
def applyPII (record : Attrs γ) : List (String × Value α) :=
  (rebuildInOrder h (cleanedRecordAttrs record)).filter fun a => !isHollow a.2

/-- `applyPII` on the message. -/
def applyPIIMessage (message : String) : String :=
  if h.cfg.sanitize then (h.env.replaceSecretSpans message).getD message else message

/-- `_callsiteBaseName`. -/
def callsiteBaseName (file : String) : String :=
  let normalized := file.toList.map fun r => if r = '\\' then '/' else r
  String.ofList (((normalized.splitOn '/').getLast?).getD normalized)

/-- `applyCallsite`. -/
def applyCallsite (record : List (String × Value α)) : List (String × Value α) :=
  if ¬ h.cfg.includeCaller then record
  else
    match h.frame with
    | none => record
    | some (file, line) =>
        record.filter (fun a => !(["filename", "lineno"].contains a.1)) ++
          [("filename", text (callsiteBaseName file)), ("lineno", line)]

/-! ## The handler -/

/-- A `slog.Record`. -/
structure Record (γ : Type) where
  message : String
  attrs : Attrs γ

/-- The record before the gates. -/
def stampedRecord (r : Record γ) : Attrs γ :=
  let record := applyBoundAttrs h r.attrs
  let record := applyContextFields h record
  let record := applyLoggerName h record
  let record := applyStandardFields h record
  applyTraceFields h record

/-- The record before the PII stage. -/
def prepared (r : Record γ) : Attrs γ :=
  applyErrorFingerprint h (annotateSchema h r.message (stampedRecord h r))

/-- The record that the next handler gets. -/
structure Forwarded (α : Type) where
  message : String
  attrs : List (String × Value α)

/-- `Handle`, from the record to what the next handler gets. -/
def handle (r : Record γ) : Forwarded α where
  message := applyPIIMessage h r.message
  attrs := applyCallsite h (applyPII h (prepared h r))

end Telemetry.Logging.Go
