import Telemetry.Config.PythonConfig
import Telemetry.Config.PythonHeaders
import Telemetry.Config.PythonNumbers
import Mathlib.Data.List.DropRight

/-!
# Configs from the environment in the Python SDK

`TelemetryConfig.from_env`: each variable goes through a parser, and each part of the config
through its constructor. The parsers and the constructors raise a `ConfigurationError`.

## Main definitions

* `parseEnvBool`, `parseEnvInt`, `parseEnvFloat`, `parseEnvRetries`, `parseDurationFloat`,
  `parseModuleLevels`, `parseMetricsExporters`, `parsePort` — the parsers.
* `loggingFromEnv` and the others — the parts.
* `fromEnv` — the whole.
-/

namespace Telemetry.Config.Python

open Telemetry.Lib
open Telemetry.Propagation (partition)

/-- The variables and their values. -/
abbrev Env := String → Option CodePoints

/-- `data.get(name, default)` -/
def Env.get (data : Env) (name default : String) : CodePoints :=
  (data name).getD (CodePoints.ofString default)

/-- A text that is a word of the list. -/
def isWord (text : CodePoints) (words : List String) : Bool :=
  text ∈ words.map CodePoints.ofString

/-! ## The parsers -/

/-- `_parse_env_bool`. -/
def parseEnvBool (T : CaseTables) (value : Option CodePoints) (default : Bool) (field : String) :
    Except ConfigurationError Bool :=
  match value with
  | none => pure default
  | some value =>
      if T.strip value = [] then pure default
      else if isWord (T.lower (T.strip value)) ["1", "true", "yes", "on"] then pure true
      else if isWord (T.lower (T.strip value)) ["0", "false", "no", "off"] then pure false
      else
        throw ⟨[.text "invalid boolean for ", .text field, .text ": ", .repr value,
          .text " (expected one of: 1,true,yes,on,0,false,no,off)"]⟩

/-- `_parse_env_int`. -/
def parseEnvInt (T : CaseTables) (value : CodePoints) (field : String) :
    Except ConfigurationError ℤ :=
  match int T.toUnicode value with
  | some parsed => pure parsed
  | none => throw ⟨[.text "invalid integer for ", .text field, .text ": ", .repr value]⟩

/-- `_parse_env_float`. -/
def parseEnvFloat (T : CaseTables) (value : CodePoints) (field : String) :
    Except ConfigurationError Number :=
  match float T.toUnicode value with
  | some parsed => pure parsed
  | none => throw ⟨[.text "invalid float for ", .text field, .text ": ", .repr value]⟩

/-- `parse_env_retries`. -/
def parseEnvRetries (T : CaseTables) (value : CodePoints) (field : String) :
    Except ConfigurationError ℤ := do
  let parsed ← parseEnvInt T value field
  validateRetriesCeiling parsed field
  pure parsed

/-- `MAX_DURATION_SECONDS`. -/
def maxDurationSeconds : Number := .ofRat 3600

/-- `parse_duration_float`. -/
def parseDurationFloat (T : CaseTables) (value : CodePoints) (field : String) :
    Except ConfigurationError Number := do
  let parsed ← parseEnvFloat T value field
  if parsed.lt .zero then
    throw ⟨[.text field, .text " must be >= 0 seconds, got ", .float parsed]⟩
  else if maxDurationSeconds.lt parsed then
    throw ⟨[.text field, .text " must be <= ", .float maxDurationSeconds,
      .text " seconds, got ", .float parsed]⟩
  else pure parsed

/-- The parts of a list that are not blank, stripped. -/
def splitList (T : CaseTables) (value : CodePoints) : List CodePoints :=
  ((value.splitOn (.scalar ',')).map T.strip).filter fun part => part ≠ []

/-- The pairs of `_parse_module_levels` that have an equals sign, without white space. -/
def modulePairs (T : CaseTables) (raw : CodePoints) : List (CodePoints × CodePoints) :=
  if T.strip raw = [] then []
  else
    (((raw.splitOn (.scalar ',')).map T.strip).filter fun pair => .scalar '=' ∈ pair).map
      fun pair =>
        (T.strip (partition (.scalar '=') pair).1, T.strip (partition (.scalar '=') pair).2)

/-- The loop of `_parse_module_levels`. -/
def addModuleLevels (T : CaseTables) :
    Dict CodePoints CodePoints → List (CodePoints × CodePoints) →
      Except ConfigurationError (Dict CodePoints CodePoints)
  | result, [] => pure result
  | result, (module, levelStr) :: pairs => do
      let levelStr ← normalizeLevel T levelStr
      addModuleLevels T (if module = [] then result else result.set module levelStr) pairs

/-- `_parse_module_levels`. -/
def parseModuleLevels (T : CaseTables) (raw : CodePoints) :
    Except ConfigurationError (Dict CodePoints CodePoints) :=
  addModuleLevels T .empty (modulePairs T raw)

/-- The warnings of `parse_metrics_exporters`. -/
def exporterWarnings (names : List CodePoints) : List (List Piece) :=
  let named := names.eraseDups.filterMap fun name =>
    if isWord name ["console", "logging"] then
      some [.text "OTEL_METRICS_EXPORTER: ", .str name,
        .text " is not supported by provide-telemetry, ignored"]
    else if isWord name ["otlp", "prometheus", "none"] then none
    else some [.text "OTEL_METRICS_EXPORTER: unknown exporter ", .str name, .text ", ignored"]
  let none' := if CodePoints.ofString "none" ∈ names then
    [[.text "OTEL_METRICS_EXPORTER: none cannot be combined with other exporters, ignored"]]
    else []
  let left := if names ≠ [] ∧ names.all (fun n => !isWord n ["otlp", "prometheus"]) = true then
    [[.text "OTEL_METRICS_EXPORTER: no supported exporter left, using otlp"]]
    else []
  named ++ none' ++ left

/-- `parse_metrics_exporters`. -/
def parseMetricsExporters (T : CaseTables) (raw : Option CodePoints) (strict : Bool) :
    Except ConfigurationError (List CodePoints × List (List Piece)) :=
  let names := (splitList T (raw.getD [])).map T.lower
  if names ≠ [] ∧ names.all (fun n => isWord n ["none"]) = true then pure ([], [])
  else
    let warnings := exporterWarnings names
    let exporters := names.filter fun n => isWord n ["otlp", "prometheus"]
    if strict = true ∧ warnings ≠ [] then
      throw ⟨.text "PROVIDE_TELEMETRY_STRICT_CONFIG: " ::
        List.intercalate [.text "; "] warnings⟩
    else pure (if exporters = [] then [CodePoints.ofString "otlp"] else exporters, warnings)

/-- `parse_port`. -/
def parsePort (T : CaseTables) (raw : Option CodePoints) : Except ConfigurationError ℤ :=
  let value := T.strip (raw.getD [])
  if value = [] then pure 9464
  else
    match int T.toUnicode value with
    | none =>
        throw ⟨[.text "OTEL_EXPORTER_PROMETHEUS_PORT: want an integer in 0-65535, got ",
          .repr value]⟩
    | some port => do
        validatePort port
        pure port

/-- `env_str`. -/
def envStr (T : CaseTables) (data : Env) (key default : String) : CodePoints :=
  let value := T.strip ((data key).getD [])
  if value = [] then CodePoints.ofString default else value

/-- `resolve_otlp_endpoint`. -/
def resolveOtlpEndpoint (data : Env) (specificVar signalPath : String) : Option CodePoints :=
  match (data specificVar).filter (· ≠ []) with
  | some specific => some specific
  | none =>
      ((data "OTEL_EXPORTER_OTLP_ENDPOINT").filter (· ≠ [])).map fun shared =>
        shared.rdropWhile (· = .scalar '/') ++ .scalar '/' :: CodePoints.ofString signalPath

/-- The headers of a signal, or those of all. -/
def resolveOtlpHeaders (data : Env) (specificVar : String) : Dict CodePoints CodePoints :=
  parseOtlpHeaders (((data specificVar).filter (· ≠ [])).or (data "OTEL_EXPORTER_OTLP_HEADERS"))

/-- One parser for the variables of the three signals. -/
def parsePerSignal {α : Type} (parse : CodePoints → String → Except ConfigurationError α)
    (data : Env) (default : String) (names : PerSignal String) :
    Except ConfigurationError (PerSignal α) := do
  let logs ← parse (data.get names.logs default) names.logs
  let traces ← parse (data.get names.traces default) names.traces
  let metrics ← parse (data.get names.metrics default) names.metrics
  pure ⟨logs, traces, metrics⟩

/-- `_parse_env_bool` for the variables of the three signals. -/
def parseBoolPerSignal (T : CaseTables) (data : Env) (default : Bool) (names : PerSignal String) :
    Except ConfigurationError (PerSignal Bool) := do
  let logs ← parseEnvBool T (data names.logs) default names.logs
  let traces ← parseEnvBool T (data names.traces) default names.traces
  let metrics ← parseEnvBool T (data names.metrics) default names.metrics
  pure ⟨logs, traces, metrics⟩

/-! ## The parts -/

/-- The logging config. -/
def loggingFromEnv (T : CaseTables) (data : Env) : Except ConfigurationError LoggingConfig := do
  let includeTimestamp ← parseEnvBool T (data "PROVIDE_LOG_INCLUDE_TIMESTAMP") true
    "PROVIDE_LOG_INCLUDE_TIMESTAMP"
  let includeCaller ← parseEnvBool T (data "PROVIDE_LOG_INCLUDE_CALLER") true
    "PROVIDE_LOG_INCLUDE_CALLER"
  let sanitize ← parseEnvBool T (data "PROVIDE_LOG_SANITIZE") true "PROVIDE_LOG_SANITIZE"
  let logCodeAttributes ← parseEnvBool T (data "PROVIDE_LOG_CODE_ATTRIBUTES") false
    "PROVIDE_LOG_CODE_ATTRIBUTES"
  let otlpEnabled ← parseEnvBool T (data "PROVIDE_LOG_OTLP_ENABLED") true
    "PROVIDE_LOG_OTLP_ENABLED"
  let moduleLevels ← parseModuleLevels T (data.get "PROVIDE_LOG_MODULE_LEVELS" "")
  LoggingConfig.postInit T
    { level := data.get "PROVIDE_LOG_LEVEL" "INFO"
      fmt := data.get "PROVIDE_LOG_FORMAT" "console"
      includeTimestamp := includeTimestamp
      includeCaller := includeCaller
      sanitize := sanitize
      logCodeAttributes := logCodeAttributes
      otlpEndpoint := resolveOtlpEndpoint data "OTEL_EXPORTER_OTLP_LOGS_ENDPOINT" "v1/logs"
      otlpEnabled := otlpEnabled
      otlpHeaders := resolveOtlpHeaders data "OTEL_EXPORTER_OTLP_LOGS_HEADERS"
      prettyKeyColor := data.get "PROVIDE_LOG_PRETTY_KEY_COLOR" "dim"
      prettyValueColor := data.get "PROVIDE_LOG_PRETTY_VALUE_COLOR" ""
      prettyFields := splitList T (data.get "PROVIDE_LOG_PRETTY_FIELDS" "")
      moduleLevels := moduleLevels }

/-- The tracing config. -/
def tracingFromEnv (T : CaseTables) (data : Env) : Except ConfigurationError TracingConfig := do
  let enabled ← parseEnvBool T (data "PROVIDE_TRACE_ENABLED") true "PROVIDE_TRACE_ENABLED"
  let sampleRate ← parseEnvFloat T (data.get "PROVIDE_TRACE_SAMPLE_RATE" "1.0")
    "PROVIDE_TRACE_SAMPLE_RATE"
  TracingConfig.postInit
    { enabled := enabled
      sampleRate := sampleRate
      otlpEndpoint := resolveOtlpEndpoint data "OTEL_EXPORTER_OTLP_TRACES_ENDPOINT" "v1/traces"
      otlpHeaders := resolveOtlpHeaders data "OTEL_EXPORTER_OTLP_TRACES_HEADERS" }

/-- The config of the pull reader. -/
def prometheusFromEnv (T : CaseTables) (data : Env) :
    Except ConfigurationError PrometheusConfig := do
  let port ← parsePort T (data "OTEL_EXPORTER_PROMETHEUS_PORT")
  let scopeLabels ← parseEnvBool T (data "PROVIDE_METRICS_PROMETHEUS_SCOPE_LABELS") false
    "PROVIDE_METRICS_PROMETHEUS_SCOPE_LABELS"
  let targetInfo ← parseEnvBool T (data "PROVIDE_METRICS_PROMETHEUS_TARGET_INFO") true
    "PROVIDE_METRICS_PROMETHEUS_TARGET_INFO"
  PrometheusConfig.postInit
    { listen := T.lower (envStr T data "PROVIDE_METRICS_PROMETHEUS_LISTEN" "false")
      host := envStr T data "OTEL_EXPORTER_PROMETHEUS_HOST" "127.0.0.1"
      port := port
      path := envStr T data "PROVIDE_METRICS_PROMETHEUS_PATH" "/metrics"
      translation := envStr T data "PROVIDE_METRICS_PROMETHEUS_TRANSLATION"
        "UnderscoreEscapingWithSuffixes"
      scopeLabels := scopeLabels
      targetInfo := targetInfo
      webConfig := envStr T data "PROVIDE_METRICS_PROMETHEUS_WEB_CONFIG" "" }

/-- The metrics config, with the exporters that have been found before. -/
def metricsFromEnv (T : CaseTables) (data : Env)
    (exporters : List CodePoints × List (List Piece)) :
    Except ConfigurationError MetricsConfig := do
  let enabled ← parseEnvBool T (data "PROVIDE_METRICS_ENABLED") true "PROVIDE_METRICS_ENABLED"
  let healthOtlp ← parseEnvBool T (data "PROVIDE_METRICS_HEALTH_OTLP") false
    "PROVIDE_METRICS_HEALTH_OTLP"
  let prometheus ← prometheusFromEnv T data
  MetricsConfig.postInit
    { enabled := enabled
      otlpEndpoint := resolveOtlpEndpoint data "OTEL_EXPORTER_OTLP_METRICS_ENDPOINT" "v1/metrics"
      otlpHeaders := resolveOtlpHeaders data "OTEL_EXPORTER_OTLP_METRICS_HEADERS"
      exporters := exporters.1
      exporterWarnings := exporters.2
      healthOtlp := healthOtlp
      prometheus := prometheus }

/-- The schema config. -/
def schemaFromEnv (T : CaseTables) (data : Env) : Except ConfigurationError SchemaConfig := do
  let strictEventName ← parseEnvBool T (data "PROVIDE_TELEMETRY_STRICT_EVENT_NAME") false
    "PROVIDE_TELEMETRY_STRICT_EVENT_NAME"
  pure
    { strictEventName := strictEventName
      requiredKeys := splitList T (data.get "PROVIDE_TELEMETRY_REQUIRED_KEYS" "") }

/-- The variables of `SamplingConfig`. -/
def samplingRateVars : PerSignal String :=
  ⟨"PROVIDE_SAMPLING_LOGS_RATE", "PROVIDE_SAMPLING_TRACES_RATE", "PROVIDE_SAMPLING_METRICS_RATE"⟩

/-- The sampling config. -/
def samplingFromEnv (T : CaseTables) (data : Env) : Except ConfigurationError SamplingConfig := do
  let rate ← parsePerSignal (parseEnvFloat T) data "1.0" samplingRateVars
  SamplingConfig.postInit ⟨rate⟩

/-- The variables of `BackpressureConfig`. -/
def maxsizeVars : PerSignal String :=
  ⟨"PROVIDE_BACKPRESSURE_LOGS_MAXSIZE", "PROVIDE_BACKPRESSURE_TRACES_MAXSIZE",
    "PROVIDE_BACKPRESSURE_METRICS_MAXSIZE"⟩

/-- The backpressure config. -/
def backpressureFromEnv (T : CaseTables) (data : Env) :
    Except ConfigurationError BackpressureConfig := do
  let maxsize ← parsePerSignal (parseEnvInt T) data "0" maxsizeVars
  BackpressureConfig.postInit ⟨maxsize⟩

/-! The variables of `ExporterPolicyConfig`. -/

def retriesVars : PerSignal String :=
  ⟨"PROVIDE_EXPORTER_LOGS_RETRIES", "PROVIDE_EXPORTER_TRACES_RETRIES",
    "PROVIDE_EXPORTER_METRICS_RETRIES"⟩

def backoffVars : PerSignal String :=
  ⟨"PROVIDE_EXPORTER_LOGS_BACKOFF_SECONDS", "PROVIDE_EXPORTER_TRACES_BACKOFF_SECONDS",
    "PROVIDE_EXPORTER_METRICS_BACKOFF_SECONDS"⟩

def timeoutVars : PerSignal String :=
  ⟨"PROVIDE_EXPORTER_LOGS_TIMEOUT_SECONDS", "PROVIDE_EXPORTER_TRACES_TIMEOUT_SECONDS",
    "PROVIDE_EXPORTER_METRICS_TIMEOUT_SECONDS"⟩

def shutdownTimeoutVar : String := "PROVIDE_EXPORTER_LOGS_SHUTDOWN_TIMEOUT_SECONDS"

def failOpenVars : PerSignal String :=
  ⟨"PROVIDE_EXPORTER_LOGS_FAIL_OPEN", "PROVIDE_EXPORTER_TRACES_FAIL_OPEN",
    "PROVIDE_EXPORTER_METRICS_FAIL_OPEN"⟩

def allowBlockingVars : PerSignal String :=
  ⟨"PROVIDE_EXPORTER_LOGS_ALLOW_BLOCKING_EVENT_LOOP",
    "PROVIDE_EXPORTER_TRACES_ALLOW_BLOCKING_EVENT_LOOP",
    "PROVIDE_EXPORTER_METRICS_ALLOW_BLOCKING_EVENT_LOOP"⟩

/-- The exporter config. -/
def exporterFromEnv (T : CaseTables) (data : Env) :
    Except ConfigurationError ExporterPolicyConfig := do
  let retries ← parsePerSignal (parseEnvRetries T) data "0" retriesVars
  let backoffSeconds ← parsePerSignal (parseDurationFloat T) data "0.0" backoffVars
  let timeoutSeconds ← parsePerSignal (parseDurationFloat T) data "10.0" timeoutVars
  let logsShutdownTimeoutSeconds ←
    parseDurationFloat T (data.get shutdownTimeoutVar "5.0") shutdownTimeoutVar
  let failOpen ← parseBoolPerSignal T data true failOpenVars
  let allowBlockingInEventLoop ← parseBoolPerSignal T data false allowBlockingVars
  ExporterPolicyConfig.postInit
    ⟨retries, backoffSeconds, timeoutSeconds, logsShutdownTimeoutSeconds, failOpen,
      allowBlockingInEventLoop⟩

/-- The SLO config. -/
def sloFromEnv (T : CaseTables) (data : Env) : Except ConfigurationError SLOConfig := do
  let enableRedMetrics ← parseEnvBool T (data "PROVIDE_SLO_ENABLE_RED_METRICS") false
    "PROVIDE_SLO_ENABLE_RED_METRICS"
  let enableUseMetrics ← parseEnvBool T (data "PROVIDE_SLO_ENABLE_USE_METRICS") false
    "PROVIDE_SLO_ENABLE_USE_METRICS"
  let includeErrorTaxonomy ← parseEnvBool T (data "PROVIDE_SLO_INCLUDE_ERROR_TAXONOMY") true
    "PROVIDE_SLO_INCLUDE_ERROR_TAXONOMY"
  pure ⟨enableRedMetrics, enableUseMetrics, includeErrorTaxonomy⟩

/-- The security config. -/
def securityFromEnv (T : CaseTables) (data : Env) : Except ConfigurationError SecurityConfig := do
  let maxAttrValueLength ← parseEnvInt T (data.get "PROVIDE_SECURITY_MAX_ATTR_VALUE_LENGTH" "1024")
    "PROVIDE_SECURITY_MAX_ATTR_VALUE_LENGTH"
  let maxAttrCount ← parseEnvInt T (data.get "PROVIDE_SECURITY_MAX_ATTR_COUNT" "64")
    "PROVIDE_SECURITY_MAX_ATTR_COUNT"
  let maxNestingDepth ← parseEnvInt T (data.get "PROVIDE_SECURITY_MAX_NESTING_DEPTH" "8")
    "PROVIDE_SECURITY_MAX_NESTING_DEPTH"
  SecurityConfig.postInit ⟨maxAttrValueLength, maxAttrCount, maxNestingDepth⟩

/-- `TelemetryConfig.from_env`. -/
def fromEnv (T : CaseTables) (data : Env) : Except ConfigurationError TelemetryConfig := do
  let strictConfig ← parseEnvBool T (data "PROVIDE_TELEMETRY_STRICT_CONFIG") false
    "PROVIDE_TELEMETRY_STRICT_CONFIG"
  let exporters ← parseMetricsExporters T (data "OTEL_METRICS_EXPORTER") strictConfig
  let strictSchema ← parseEnvBool T (data "PROVIDE_TELEMETRY_STRICT_SCHEMA") false
    "PROVIDE_TELEMETRY_STRICT_SCHEMA"
  let piiMaxDepth ← parseEnvInt T (data.get "PROVIDE_LOG_PII_MAX_DEPTH" "8")
    "PROVIDE_LOG_PII_MAX_DEPTH"
  let logging ← loggingFromEnv T data
  let tracing ← tracingFromEnv T data
  let metrics ← metricsFromEnv T data exporters
  let eventSchema ← schemaFromEnv T data
  let sampling ← samplingFromEnv T data
  let backpressure ← backpressureFromEnv T data
  let exporter ← exporterFromEnv T data
  let slo ← sloFromEnv T data
  let security ← securityFromEnv T data
  TelemetryConfig.postInit
    { serviceName := data.get "PROVIDE_TELEMETRY_SERVICE_NAME" "provide-service"
      environment := data.get "PROVIDE_TELEMETRY_ENV" "dev"
      version := data.get "PROVIDE_TELEMETRY_VERSION" "0.0.0"
      strictSchema := strictSchema
      strictConfig := strictConfig
      piiMaxDepth := piiMaxDepth
      logging := logging
      tracing := tracing
      metrics := metrics
      eventSchema := eventSchema
      sampling := sampling
      backpressure := backpressure
      exporter := exporter
      slo := slo
      security := security }

end Telemetry.Config.Python
