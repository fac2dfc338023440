import Telemetry.Logging.RustHarden
import Telemetry.Pii.RustEntry

/-!
# Log records in the Rust SDK

`logger/mod.rs` and `logger/processors.rs`: a record is built from the bound context, the
caller's fields and the fields that the SDK stamps, and goes through the processors: DARS
fields, logger name, hardening, error fingerprint, PII, schema.

A `BTreeMap` is a `SortedMap`: Rust compares strings by their bytes, which is by code point.
What the process holds when a call is made is `Process`. The gates before a record is built
are left out: they decide whether there is one.

## Main definitions

* `buildEvent`, `newEvent` — a record with its stamped fields.
* `processEvent` — the processors.
* `logged` — the record that a log call leaves.
-/

namespace Telemetry.Logging.Rust

open Telemetry.Lib Telemetry.Pii
open Telemetry.Pii.Rust (nodupKeys_sanitizePayload)

variable {α : Type} [Scalars α]

/-- A `BTreeMap<String, Value>`. -/
abbrev Context (α : Type) := SortedMap String (Json α)

/-- `EventMetadata`. -/
structure EventMetadata where
  domain : String
  action : String
  resource : Option String
  status : String
  deriving DecidableEq, Repr

/-- `schema::Event`. -/
structure Event where
  event : String
  domain : String
  action : String
  resource : Option String
  status : String
  deriving DecidableEq, Repr

/-- `LogEvent`. -/
structure LogEvent (α : Type) where
  level : String
  target : String
  message : String
  context : Context α
  traceId : Option String
  spanId : Option String
  eventMetadata : Option EventMetadata

/-- `TelemetryConfig`, as far as the logger reads it. -/
structure TelemetryConfig where
  serviceName : String
  environment : String
  version : String
  piiMaxDepth : ℕ
  maxAttrValueLength : ℕ
  maxAttrCount : ℕ
  maxNestingDepth : ℕ
  requiredKeys : List String
  deriving DecidableEq, Repr

/-- What the process holds when a call is made. -/
structure Process (α : Type) where
  /-- `get_runtime_config`. -/
  runtimeConfig : Option TelemetryConfig
  /-- `TelemetryConfig::from_env().ok()`. -/
  envConfig : Option TelemetryConfig
  /-- `get_context`. -/
  boundContext : Context α
  /-- The `trace_id` of `get_trace_context`. -/
  traceId : Option String
  /-- The `span_id` of `get_trace_context`. -/
  spanId : Option String
  /-- `get_strict_schema`. -/
  strictSchema : Bool
  /-- The PII rules. -/
  rules : List Pii.Rust.PIIRule
  /-- What the sanitizer takes from elsewhere. -/
  env : Pii.Rust.Env α
  /-- `format!("{:?}", s)`. -/
  formatDebug : String → String

variable (P : Process α)

/-- `runtime_config_or_env`, which is also `runtime_identity_config`. -/
def runtimeConfigOrEnv : Option TelemetryConfig :=
  match P.runtimeConfig with
  | some cfg => some cfg
  | none => P.envConfig

/-! ## Building a record -/

/-- The fields of `inject_identity_fields`. -/
def identityFields (cfg : TelemetryConfig) : List (String × String) :=
  [("service", cfg.serviceName), ("env", cfg.environment), ("version", cfg.version)]

/-- `inject_identity_fields`. -/
def injectIdentityFields (context : Context α) (cfg : TelemetryConfig) : Context α :=
  (identityFields cfg).foldl (fun context field =>
    if field.2 ≠ "" then context.insert field.1 (jsonText field.2) else context) context

/-- `inject_runtime_identity_fields`. -/
def injectRuntimeIdentityFields (context : Context α) : Context α :=
  match runtimeConfigOrEnv P with
  | some cfg => injectIdentityFields context cfg
  | none => context

/-- `build_event`. -/
def buildEvent (target level message : String) (extra : Context α) : LogEvent α :=
  let context := injectRuntimeIdentityFields P (P.boundContext.extend extra.entries)
  let context := if P.traceId.isSome then context.erase "trace_id" else context
  let context := if P.spanId.isSome then context.erase "span_id" else context
  { level, target, message, context
    traceId := P.traceId
    spanId := P.spanId
    eventMetadata := none }

/-- `new_event`. -/
def newEvent (target level message : String) : LogEvent α :=
  buildEvent P target level message .empty

/-! ## Processors -/

/-- `is_priority_key`. -/
def isPriorityKey (key : String) : Bool :=
  ["service", "env", "version", "trace_id", "span_id", "session_id", "logger_name", "domain",
    "action", "resource", "status", "error_fingerprint"].contains key

/-- `extract_dars_fields`. -/
def extractDarsFields (event : LogEvent α) : LogEvent α :=
  match event.eventMetadata with
  | none => event
  | some metadata =>
      let context := event.context.insert "domain" (jsonText metadata.domain)
      let context := context.insert "action" (jsonText metadata.action)
      let context :=
        match metadata.resource with
        | some resource => context.insert "resource" (jsonText resource)
        | none => context
      { event with context := context.insert "status" (jsonText metadata.status) }

/-- `inject_logger_name`. -/
def injectLoggerName (event : LogEvent α) : LogEvent α :=
  if event.target = "" then event
  else if event.context.contains "logger_name" then event
  else { event with context := event.context.insert "logger_name" (jsonText event.target) }

/-- The second loop of `cap_attr_count`: keys join what is kept while there is room. -/
def keepCandidates (maxAttrCount : ℕ) (keep : List String) : List String → List String
  | [] => keep
  | key :: keys =>
      if maxAttrCount ≤ keep.length then keep
      else if isPriorityKey key then keepCandidates maxAttrCount keep keys
      else keepCandidates maxAttrCount (key :: keep) keys

/-- `cap_attr_count`. -/
def capAttrCount (context : Context α) (maxAttrCount : ℕ) : Context α :=
  if maxAttrCount = 0 then context
  else if context.entries.length ≤ maxAttrCount then context
  else
    let keep := context.keys.filter isPriorityKey
    let keep := keepCandidates maxAttrCount keep context.keys
    context.restrict fun key => keep.contains key

/-- `harden_input`. -/
def hardenInput (event : LogEvent α) (limits : HardenLimits) : LogEvent α :=
  let context := event.context.mapValues (hardenJson limits 1)
  let context := capAttrCount context limits.maxAttrCount
  { event with context := hardenKeys context.entries }

omit [Scalars α] in
/-- Rust's `char::is_whitespace`. -/
def isWhitespace (ch : Char) : Bool :=
  ('\t' ≤ ch && ch ≤ '\r') || ch == ' ' || ch == '\u0085' || ch == '\u00a0' || ch == '\u1680' ||
    ('\u2000' ≤ ch && ch ≤ '\u200a') || ch == '\u2028' || ch == '\u2029' || ch == '\u202f' ||
    ch == '\u205f' || ch == '\u3000'

/-- `str::trim`. -/
def trim (line : List Char) : List Char :=
  ((line.dropWhile isWhitespace).reverse.dropWhile isWhitespace).reverse

/-- `normalize_frames`. Trimming takes the carriage return that `str::lines` would take. -/
def normalizeFrames (stack : String) : List String :=
  let lines := (stack.toList.splitOn '\n').map trim
  let frames := (lines.filter fun line => line ≠ []).map fun line =>
    let slashed := line.map fun ch => if ch = '\\' then '/' else ch
    (((slashed.splitOn '/').getLast?).getD line).map Char.toLower
  (frames.take 3).map String.ofList

/-- `compute_error_fingerprint`. -/
def computeErrorFingerprint (errorName : String) (stack : Option String) : String :=
  let parts := (errorName.map Char.toLower) :: (stack.map normalizeFrames).getD []
  String.ofList ((P.env.sha256Hex (":".intercalate parts)).toList.take 12)

/-- `first_context_string`. -/
def firstContextString (context : Context α) (keys : List String) : Option String :=
  keys.findSome? fun key => (context.lookup key).bind fun v => text? v.val

/-- `add_error_fingerprint`. -/
def addErrorFingerprint (event : LogEvent α) : LogEvent α :=
  if ¬ ["ERROR", "CRITICAL", "FATAL"].contains event.level then event
  else
    match firstContextString event.context ["error", "error_type", "exception"] with
    | none => event
    | some errorName =>
        let stack := firstContextString event.context ["stack", "stacktrace"]
        let fingerprint := computeErrorFingerprint P errorName stack
        { event with context := event.context.insert "error_fingerprint" (jsonText fingerprint) }

/-- `sanitize_context`. -/
def sanitizeContext (event : LogEvent α) (maxDepth : ℕ) : LogEvent α :=
  let message := (P.env.redactIfSecret event.message).getD event.message
  if event.context.entries.isEmpty then { event with message }
  else
    let payload := toPayload event.context
    { event with
      message
      context := ofMap (Pii.Rust.sanitizePayload P.env P.rules payload true maxDepth).val
        (nodupKeys_sanitizePayload payload) }

/-- `validate_required_keys`. -/
def validateRequiredKeys (data : Context α) (requiredKeys : List String) :
    Except String Unit :=
  let missing := requiredKeys.filter fun key => !data.contains key
  if missing = [] then .ok ()
  else .error ("missing required keys: " ++
    ", ".intercalate (missing.mergeSort fun a b => decide (a ≤ b)))

/-- `^[a-z][a-z0-9_]*$`. -/
def isSegment (segment : String) : Bool :=
  match segment.toList with
  | [] => false
  | ch :: chars => ('a' ≤ ch && ch ≤ 'z') &&
      chars.all fun ch => ('a' ≤ ch && ch ≤ 'z') || ('0' ≤ ch && ch ≤ '9') || ch == '_'

/-- `event_name`. -/
def eventName (segments : List String) : Except String String :=
  if segments.any fun segment => segment == "" then
    .error "event name segments must be non-empty"
  else if P.strictSchema then
    if segments.length < 3 ∨ 5 < segments.length then
      .error ("expected 3-5 segments, got " ++ toString segments.length)
    else
      match segments.zipIdx.find? fun segment => !isSegment segment.1 with
      | some (segment, idx) =>
          .error ("invalid event segment: segment[" ++ toString idx ++ "]=" ++ segment)
      | none => .ok (".".intercalate segments)
  else if segments = [] then .error "event_name requires at least 1 segment"
  else .ok (".".intercalate segments)

/-- `runtime_schema_error`. -/
def runtimeSchemaError (event : LogEvent α) : Option String :=
  match P.runtimeConfig with
  | none => none
  | some cfg =>
      match validateRequiredKeys event.context cfg.requiredKeys with
      | .ok _ => none
      | .error message => some message

/-- `enforce_schema`. -/
def enforceSchema (event : LogEvent α) : LogEvent α :=
  let annotate (message : String) : LogEvent α :=
    { event with context := event.context.insert "_schema_error" (jsonText message) }
  match runtimeSchemaError P event with
  | some message => annotate message
  | none =>
      if P.strictSchema then
        match eventName P ((event.message.toList.splitOn '.').map String.ofList) with
        | .ok _ => event
        | .error _ =>
            annotate ("event name " ++ P.formatDebug event.message ++
              " does not match strict schema")
      else event

/-- The limits of `process_event`. -/
def hardenLimits : HardenLimits :=
  match runtimeConfigOrEnv P with
  | some cfg =>
      { maxValueLength := cfg.maxAttrValueLength
        maxAttrCount := cfg.maxAttrCount
        maxDepth := cfg.maxNestingDepth }
  | none => { maxValueLength := 1024, maxAttrCount := 64, maxDepth := 8 }

/-- The depth limit of `process_event` for the sanitizer. -/
def piiMaxDepth : ℕ := ((runtimeConfigOrEnv P).map (·.piiMaxDepth)).getD 8

/-- `process_event`. -/
def processEvent (event : LogEvent α) : LogEvent α :=
  let event := extractDarsFields event
  let event := injectLoggerName event
  let event := hardenInput event (hardenLimits P)
  let event := addErrorFingerprint P event
  let event := sanitizeContext P event (piiMaxDepth P)
  enforceSchema P event

/-! ## Log calls -/

/-- A log call, by the function that it reaches. -/
inductive Call (α : Type)
  /-- `log_event`. -/
  | message (level target message : String)
  /-- `log_event_with_fields`. -/
  | fields (level target message : String) (extra : Context α)
  /-- `log_event_with_event`. -/
  | event (level target : String) (ev : Event)

/-- The record that a call builds. -/
def built : Call α → LogEvent α
  | .message level target message => newEvent P target level message
  | .fields level target message extra => buildEvent P target level message extra
  | .event level target ev =>
      { newEvent P target level ev.event with
        eventMetadata := some
          { domain := ev.domain, action := ev.action, resource := ev.resource
            status := ev.status } }

/-- The record that a call leaves. -/
def logged (call : Call α) : LogEvent α := processEvent P (built P call)

end Telemetry.Logging.Rust
