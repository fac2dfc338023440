import Mathlib.Data.String.Basic
import Telemetry.Backpressure.Go
import Telemetry.Lib.Number
import Telemetry.Lib.Returns
import Telemetry.Lib.SortedMap

/-!
# Configs and policies of the Go SDK

`runtime.go`, `runtime_validate.go` and the policies of `setup.go`. A config is replaced as a
whole: `UpdateRuntimeConfig` merges overrides into the config in force, `ReloadRuntimeFromEnv` and
`ReconfigureTelemetry` take what may change from a config that was read or given, and each of them
then applies every policy again, whichever field it was about.

The calls hold the setup lock throughout, so each is one function here. What `ConfigFromEnv`
answers and which providers are live are arguments. A `float64` is a `Number`, since nothing here
computes with it.

## Main definitions

* `TelemetryConfig`, `RuntimeOverrides`, `applyRuntimeOverrides`, `applyHotFields`.
* `validateRuntimeOverrides`, `validateReconfigureTarget` — which of them are refused.
* `World`, `applyRuntimePolicies` — what is in force.
* `updateRuntimeConfig`, `reloadRuntimeFromEnv`, `reconfigureTelemetry`.

## Main results

* `updateRuntimeConfig_ok`, `reloadRuntimeFromEnv_ok`, `reconfigureTelemetry_ok` — a call that
  succeeds applies one config.
-/

namespace Telemetry.Runtime.Go

open Telemetry.Lib Telemetry.Backpressure.Go

/-- A field for each of the signals, under its name with `Logs`, `Traces` and `Metrics`. -/
structure PerSignal (α : Type) where
  logs : α
  traces : α
  metrics : α
  deriving DecidableEq

/-- The same for every signal. -/
def PerSignal.all {α : Type} (a : α) : PerSignal α := ⟨a, a, a⟩

/-! ## Configs -/

/-- `LoggingConfig`. The order of a map does not matter. -/
structure LoggingConfig where
  level : String := "INFO"
  format : String := "console"
  includeTimestamp : Bool := true
  includeCaller : Bool := true
  sanitize : Bool := true
  piiMaxDepth : ℤ := 0
  otlpEndpoint : String := ""
  otlpEnabled : Bool := true
  otlpHeaders : SortedMap String String := .empty
  logCodeAttributes : Bool := false
  prettyKeyColor : String := "dim"
  prettyValueColor : String := ""
  prettyFields : List String := []
  moduleLevels : SortedMap String String := .empty

/-- `TracingConfig`. -/
structure TracingConfig where
  enabled : Bool := true
  sampleRate : Number := .one
  otlpEndpoint : String := ""
  otlpHeaders : SortedMap String String := .empty

/-- `PrometheusConfig`. -/
structure PrometheusConfig where
  listen : String := "false"
  host : String := "127.0.0.1"
  port : ℤ := 9464
  path : String := "/metrics"
  translation : String := "UnderscoreEscapingWithSuffixes"
  scopeLabels : Bool := false
  targetInfo : Bool := true
  webConfig : String := ""
  deriving DecidableEq

/-- `MetricsConfig`, as far as it is read here. -/
structure MetricsConfig where
  enabled : Bool := true
  otlpEndpoint : String := ""
  otlpHeaders : SortedMap String String := .empty
  exporters : List String := ["otlp"]
  healthOTLP : Bool := false
  prometheus : PrometheusConfig := {}

/-- `SchemaConfig`. -/
structure SchemaConfig where
  strictEventName : Bool := false
  requiredKeys : List String := []

/-- `SamplingConfig`. -/
structure SamplingConfig where
  rate : PerSignal Number := .all .one

/-- `BackpressureConfig`. -/
structure BackpressureConfig where
  maxSize : PerSignal ℤ := .all 0

/-- `ExporterPolicyConfig`. -/
structure ExporterPolicyConfig where
  retries : PerSignal ℤ := .all 0
  backoffSeconds : PerSignal Number := .all .zero
  timeoutSeconds : PerSignal Number := .all (.ofRat 10)
  logsShutdownTimeoutSeconds : Number := .ofRat 5
  failOpen : PerSignal Bool := .all true
  allowBlockingInEventLoop : PerSignal Bool := .all false

/-- `SLOConfig`. -/
structure SLOConfig where
  enableREDMetrics : Bool := false
  enableUSEMetrics : Bool := false
  includeErrorTaxonomy : Bool := true

/-- `SecurityConfig`. -/
structure SecurityConfig where
  maxAttrValueLength : ℤ := 1024
  maxAttrCount : ℤ := 64
  maxNestingDepth : ℤ := 8

/-- `RuntimeOverrides`. -/
structure RuntimeOverrides where
  sampling : Option SamplingConfig := none
  backpressure : Option BackpressureConfig := none
  exporter : Option ExporterPolicyConfig := none
  security : Option SecurityConfig := none
  slo : Option SLOConfig := none
  eventSchema : Option SchemaConfig := none
  piiMaxDepth : Option ℤ := none
  strictSchema : Option Bool := none
  logging : Option LoggingConfig := none

/-- `TelemetryConfig`, as far as it is read here. -/
structure TelemetryConfig where
  serviceName : String := "provide-service"
  environment : String := "dev"
  version : String := "0.0.0"
  strictSchema : Bool := false
  logging : LoggingConfig := {}
  tracing : TracingConfig := {}
  metrics : MetricsConfig := {}
  eventSchema : SchemaConfig := {}
  sampling : SamplingConfig := {}
  backpressure : BackpressureConfig := {}
  exporter : ExporterPolicyConfig := {}
  slo : SLOConfig := {}
  security : SecurityConfig := {}

/-- `runtimeOverridesFromConfig`. -/
def runtimeOverridesFromConfig (cfg : TelemetryConfig) : RuntimeOverrides where
  sampling := some cfg.sampling
  backpressure := some cfg.backpressure
  exporter := some cfg.exporter
  security := some cfg.security
  slo := some cfg.slo
  eventSchema := some cfg.eventSchema
  piiMaxDepth := some cfg.logging.piiMaxDepth
  strictSchema := some cfg.strictSchema
  logging := some cfg.logging

/-- `applyRuntimeOverrides`: the depth of its own comes after the logging block. -/
def applyRuntimeOverrides (cfg : TelemetryConfig) (overrides : RuntimeOverrides) :
    TelemetryConfig :=
  let logging := overrides.logging.getD cfg.logging
  { cfg with
    logging := { logging with piiMaxDepth := overrides.piiMaxDepth.getD logging.piiMaxDepth }
    sampling := overrides.sampling.getD cfg.sampling
    backpressure := overrides.backpressure.getD cfg.backpressure
    exporter := overrides.exporter.getD cfg.exporter
    security := overrides.security.getD cfg.security
    slo := overrides.slo.getD cfg.slo
    eventSchema := overrides.eventSchema.getD cfg.eventSchema
    strictSchema := overrides.strictSchema.getD cfg.strictSchema }

/-- `_applyHotFields`: the OTLP fields of the logging block keep their values. -/
def applyHotFields (current fresh : TelemetryConfig) : TelemetryConfig :=
  { current with
    sampling := fresh.sampling
    backpressure := fresh.backpressure
    exporter := fresh.exporter
    security := fresh.security
    slo := fresh.slo
    strictSchema := fresh.strictSchema
    eventSchema := fresh.eventSchema
    logging :=
      { fresh.logging with
        otlpEndpoint := current.logging.otlpEndpoint
        otlpEnabled := current.logging.otlpEnabled
        otlpHeaders := current.logging.otlpHeaders } }

/-! ## Which configs are refused -/

/-- The errors of the calls, by what their texts say. -/
inductive Error
  /-- `%s must be finite, got %g` -/
  | notFinite (field : String) (value : Number)
  /-- `%s must be in [0.0, 1.0], got %g` -/
  | notInUnit (field : String) (value : Number)
  /-- `%s must be >= 0, got %d` -/
  | negative (field : String) (value : ℤ)
  /-- `%s must be >= 0, got %g` -/
  | negativeFloat (field : String) (value : Number)
  /-- `%s must be at most %d, got %d` -/
  | tooLarge (field : String) (most value : ℤ)
  /-- `invalid log level: %s` -/
  | invalidLevel (value : String)
  /-- `invalid log format: %s` -/
  | invalidFormat (value : String)
  /-- `RuntimeOverrides.Logging.ModuleLevels[%q]: %s` -/
  | moduleLevel (module : String) (error : Error)
  /-- `telemetry not set up: call SetupTelemetry first` -/
  | notSetUp
  /-- `WithLogOutput: writer is nil` -/
  | nilWriter
  /-- `_providerConfigError()` -/
  | providerConfig
  /-- What `ConfigFromEnv` returned. -/
  | env (text : String)

/-- `_maxExportAttempts`. -/
def maxExportAttempts : ℤ := 101

/-- `validateFinite`. -/
def validateFinite (v : Number) (field : String) : Except Error Unit :=
  if v.isFinite then pure () else throw (.notFinite field v)

/-- `validateRate`. -/
def validateRate (v : Number) (field : String) : Except Error Unit :=
  if !v.isFinite || v.lt .zero || Number.one.lt v then throw (.notInUnit field v) else pure ()

/-- `validateNonNegative`. -/
def validateNonNegative (v : ℤ) (field : String) : Except Error Unit :=
  if v < 0 then throw (.negative field v) else pure ()

/-- `validateRetries`. -/
def validateRetries (v : ℤ) (field : String) : Except Error Unit := do
  validateNonNegative v field
  if maxExportAttempts - 1 < v then throw (.tooLarge field (maxExportAttempts - 1) v)

/-- `validateNonNegativeFloat`. -/
def validateNonNegativeFloat (v : Number) (field : String) : Except Error Unit :=
  if v.lt .zero then throw (.negativeFloat field v) else pure ()

/-- `validateRateFinite`. -/
def validateRateFinite (v : Number) (field : String) : Except Error Unit := do
  validateFinite v field
  validateRate v field

/-- `validateNonNegativeFloatFinite`. -/
def validateNonNegativeFloatFinite (v : Number) (field : String) : Except Error Unit := do
  validateFinite v field
  validateNonNegativeFloat v field

/-- `validateFormat`. -/
def validateFormat (value : String) : Except Error Unit :=
  if value = "console" ∨ value = "json" ∨ value = "pretty" then pure ()
  else throw (.invalidFormat value)

/-- The names in the table of `levelcore`. -/
def levelNames : List String :=
  ["TRACE", "DEBUG", "INFO", "WARN", "ERROR", "CRITICAL", "WARNING", "FATAL"]

section Validation

-- `strings.ToUpper(strings.TrimSpace(value))`.
variable (upper : String → String)

/-- `normalizeLevel`; looking it up cleans the name a second time. -/
def normalizeLevel (value : String) : Except Error String :=
  if upper (upper value) ∈ levelNames then pure (upper value) else throw (.invalidLevel value)

/-- `_validateSamplingOverride`. -/
def validateSamplingOverride (s : SamplingConfig) : Except Error Unit := do
  validateRateFinite s.rate.logs "RuntimeOverrides.Sampling.LogsRate"
  validateRateFinite s.rate.traces "RuntimeOverrides.Sampling.TracesRate"
  validateRateFinite s.rate.metrics "RuntimeOverrides.Sampling.MetricsRate"

/-- `_validateBackpressureOverride`. -/
def validateBackpressureOverride (b : BackpressureConfig) : Except Error Unit := do
  validateNonNegative b.maxSize.logs "RuntimeOverrides.Backpressure.LogsMaxSize"
  validateNonNegative b.maxSize.traces "RuntimeOverrides.Backpressure.TracesMaxSize"
  validateNonNegative b.maxSize.metrics "RuntimeOverrides.Backpressure.MetricsMaxSize"

/-- `validateExporterPolicyOverride`. The fields are in two maps, whose order is not fixed: of
several errors any may be the one returned. -/
def validateExporterPolicyOverride (policy : ExporterPolicyConfig) : Except Error Unit := do
  validateRetries policy.retries.logs "RuntimeOverrides.Exporter.LogsRetries"
  validateRetries policy.retries.traces "RuntimeOverrides.Exporter.TracesRetries"
  validateRetries policy.retries.metrics "RuntimeOverrides.Exporter.MetricsRetries"
  validateNonNegativeFloatFinite policy.backoffSeconds.logs
    "RuntimeOverrides.Exporter.LogsBackoffSeconds"
  validateNonNegativeFloatFinite policy.backoffSeconds.traces
    "RuntimeOverrides.Exporter.TracesBackoffSeconds"
  validateNonNegativeFloatFinite policy.backoffSeconds.metrics
    "RuntimeOverrides.Exporter.MetricsBackoffSeconds"
  validateNonNegativeFloatFinite policy.timeoutSeconds.logs
    "RuntimeOverrides.Exporter.LogsTimeoutSeconds"
  validateNonNegativeFloatFinite policy.timeoutSeconds.traces
    "RuntimeOverrides.Exporter.TracesTimeoutSeconds"
  validateNonNegativeFloatFinite policy.timeoutSeconds.metrics
    "RuntimeOverrides.Exporter.MetricsTimeoutSeconds"
  validateFinite policy.logsShutdownTimeoutSeconds
    "RuntimeOverrides.Exporter.LogsShutdownTimeoutSeconds"

/-- `_validateSecurityOverride`. -/
def validateSecurityOverride (s : SecurityConfig) : Except Error Unit := do
  validateNonNegative s.maxAttrValueLength "RuntimeOverrides.Security.MaxAttrValueLength"
  validateNonNegative s.maxAttrCount "RuntimeOverrides.Security.MaxAttrCount"
  validateNonNegative s.maxNestingDepth "RuntimeOverrides.Security.MaxNestingDepth"

/-- `_validateLoggingOverride`. -/
def validateLoggingOverride (l : LoggingConfig) : Except Error Unit := do
  if l.level ≠ "" then discard (normalizeLevel upper l.level)
  if l.format ≠ "" then validateFormat l.format
  for (module, levelStr) in l.moduleLevels.entries do
    discard ((normalizeLevel upper levelStr).mapError (.moduleLevel module))
  validateNonNegative l.piiMaxDepth "RuntimeOverrides.Logging.PIIMaxDepth"

/-- `validateRuntimeOverrides`. -/
def validateRuntimeOverrides (overrides : RuntimeOverrides) : Except Error Unit := do
  overrides.sampling.forM validateSamplingOverride
  overrides.backpressure.forM validateBackpressureOverride
  overrides.exporter.forM validateExporterPolicyOverride
  overrides.security.forM validateSecurityOverride
  overrides.piiMaxDepth.forM fun depth => validateNonNegative depth "RuntimeOverrides.PIIMaxDepth"
  overrides.logging.forM (validateLoggingOverride upper)

/-- `validateTelemetryConfig`. -/
def validateTelemetryConfig (cfg : TelemetryConfig) : Except Error Unit := do
  validateRate cfg.tracing.sampleRate "Tracing.SampleRate"
  validateRate cfg.sampling.rate.logs "Sampling.LogsRate"
  validateRate cfg.sampling.rate.traces "Sampling.TracesRate"
  validateRate cfg.sampling.rate.metrics "Sampling.MetricsRate"
  validateFormat cfg.logging.format
  discard (normalizeLevel upper cfg.logging.level)
  validateRetries cfg.exporter.retries.logs "Exporter.LogsRetries"
  validateRetries cfg.exporter.retries.traces "Exporter.TracesRetries"
  validateRetries cfg.exporter.retries.metrics "Exporter.MetricsRetries"

/-- `validateReconfigureTarget`. -/
def validateReconfigureTarget (cfg : TelemetryConfig) : Except Error Unit := do
  validateTelemetryConfig upper cfg
  validateRuntimeOverrides upper (runtimeOverridesFromConfig cfg)

end Validation

/-! ## Policies -/

/-- `SamplingPolicy`. -/
structure SamplingPolicy where
  defaultRate : Number
  overrides : SortedMap String Number := .empty

/-- `ExporterPolicy`. -/
structure ExporterPolicy where
  retries : ℤ
  backoffSeconds : Number
  timeoutSeconds : Number
  failOpen : Bool
  allowBlockingInEventLoop : Bool

/-- Go's `min`: `NaN` if either is. -/
def min (a b : Number) : Number :=
  match a, b with
  | .nan, _ => .nan
  | _, .nan => .nan
  | .num x, .num y => if y < x then .num y else .num x

/-- `_clampRate`. -/
def clampRate : Number → Number
  | .nan => .zero
  | .num x => if 1 < x then .one else if x < 0 then .zero else .num x

/-- `EffectiveTracesSampleRate`. -/
def TelemetryConfig.effectiveTracesSampleRate (c : TelemetryConfig) : Number :=
  min c.sampling.rate.traces c.tracing.sampleRate

/-- The queue policy that a config asks for. -/
def TelemetryConfig.queuePolicy (cfg : TelemetryConfig) : QueuePolicy where
  logsMaxSize := cfg.backpressure.maxSize.logs
  tracesMaxSize := cfg.backpressure.maxSize.traces
  metricsMaxSize := cfg.backpressure.maxSize.metrics

/-- The exporter policy that a config asks for, for one signal. -/
def ExporterPolicyConfig.policy (e : ExporterPolicyConfig)
    (signal : ∀ {α : Type}, PerSignal α → α) : ExporterPolicy where
  retries := signal e.retries
  backoffSeconds := signal e.backoffSeconds
  timeoutSeconds := signal e.timeoutSeconds
  failOpen := signal e.failOpen
  allowBlockingInEventLoop := signal e.allowBlockingInEventLoop

/-- What is in force. A writer is known by its number. -/
structure World where
  backpressure : Backpressure.Go.Runtime := {}
  samplingPolicies : PerSignal (Option SamplingPolicy) := .all none
  exporterPolicies : PerSignal (Option ExporterPolicy) := .all none
  /-- The config that the package's logger was built from. -/
  logger : Option TelemetryConfig := none
  strictSchema : Bool := false
  logSink : Option ℕ := none
  /-- `_runtimeCfg`; `_setupDone` is set together with it. -/
  runtimeCfg : Option TelemetryConfig := none
  generation : ℕ := 0

namespace World

/-- `_applyRuntimePolicies`. -/
def applyRuntimePolicies (cfg : TelemetryConfig) (w : World) : World :=
  { w with
    samplingPolicies :=
      ⟨some ⟨clampRate cfg.sampling.rate.logs, .empty⟩,
        some ⟨clampRate cfg.effectiveTracesSampleRate, .empty⟩,
        some ⟨clampRate cfg.sampling.rate.metrics, .empty⟩⟩
    backpressure := w.backpressure.setPolicy cfg.queuePolicy
    exporterPolicies :=
      ⟨some (cfg.exporter.policy PerSignal.logs), some (cfg.exporter.policy PerSignal.traces),
        some (cfg.exporter.policy PerSignal.metrics)⟩
    logger := some cfg
    strictSchema := cfg.strictSchema || cfg.eventSchema.strictEventName }

/-- `_publishGenerationLocked`. -/
def publishGeneration (cfg : TelemetryConfig) (w : World) : World :=
  { w with runtimeCfg := some cfg, generation := w.generation + 1 }

/-- A config comes into force. -/
def install (cfg : TelemetryConfig) (w : World) : World :=
  (w.applyRuntimePolicies cfg).publishGeneration cfg

end World

/-- `SignalStatus`: which providers are live. -/
structure SignalStatus where
  logs : Bool := false
  traces : Bool := false
  metrics : Bool := false

/-- `_identityFieldsChanged`. -/
def identityFieldsChanged (current target : TelemetryConfig) : Bool :=
  current.serviceName ≠ target.serviceName || current.environment ≠ target.environment ||
    current.version ≠ target.version

/-- `_tracerFieldsChanged`. -/
def tracerFieldsChanged (current target : TelemetryConfig) : Bool :=
  current.tracing.enabled ≠ target.tracing.enabled ||
    current.tracing.otlpEndpoint ≠ target.tracing.otlpEndpoint ||
    current.tracing.otlpHeaders ≠ target.tracing.otlpHeaders

/-- `_meterFieldsChanged`. -/
def meterFieldsChanged (current target : TelemetryConfig) : Bool :=
  current.metrics.enabled ≠ target.metrics.enabled ||
    current.metrics.otlpEndpoint ≠ target.metrics.otlpEndpoint ||
    current.metrics.otlpHeaders ≠ target.metrics.otlpHeaders ||
    current.metrics.exporters ≠ target.metrics.exporters ||
    current.metrics.healthOTLP ≠ target.metrics.healthOTLP ||
    current.metrics.prometheus ≠ target.metrics.prometheus

/-- `_loggerFieldsChanged`. -/
def loggerFieldsChanged (current target : TelemetryConfig) : Bool :=
  current.logging.otlpEndpoint ≠ target.logging.otlpEndpoint ||
    current.logging.otlpEnabled ≠ target.logging.otlpEnabled ||
    current.logging.otlpHeaders ≠ target.logging.otlpHeaders

/-- `_providerConfigChanged`. -/
def providerConfigChanged (current target : TelemetryConfig) (live : SignalStatus) : Bool :=
  if !live.traces && !live.metrics && !live.logs then false
  else
    identityFieldsChanged current target || (live.traces && tracerFieldsChanged current target) ||
      (live.metrics && meterFieldsChanged current target) ||
      (live.logs && loggerFieldsChanged current target)

/-- `_setupState`, as far as a reconfiguration reads it. -/
structure SetupState where
  config : Option TelemetryConfig := none
  /-- `none` where `WithLogOutput` was not passed, and `some none` where its writer is nil. -/
  logOutput : Option (Option ℕ) := none

/-! ## The calls -/

section Calls

variable (upper : String → String)

/-- `UpdateRuntimeConfig`. -/
def updateRuntimeConfig (overrides : RuntimeOverrides) (w : World) : Except Error World := do
  match w.runtimeCfg with
  | none => throw .notSetUp
  | some cfg =>
      validateRuntimeOverrides upper overrides
      pure (w.install (applyRuntimeOverrides cfg overrides))

/-- `ReloadRuntimeFromEnv`; the drift of other fields is logged and no more. -/
def reloadRuntimeFromEnv (fromEnv : Except String TelemetryConfig) (providers : SignalStatus)
    (w : World) : Except Error World := do
  match w.runtimeCfg with
  | none => throw .notSetUp
  | some current =>
      let cfg ← fromEnv.mapError .env
      if providers.logs && loggerFieldsChanged current cfg then throw .providerConfig
      else pure (w.install (applyRuntimeOverrides current (runtimeOverridesFromConfig cfg)))

/-- `_validateLogOutputOption`. -/
def validateLogOutputOption (state : SetupState) : Except Error Unit :=
  if state.logOutput = some none then throw .nilWriter else pure ()

/-- `_reconfigureTarget`. -/
def reconfigureTarget (state : SetupState) (fromEnv : Except String TelemetryConfig) :
    Except Error TelemetryConfig := do
  match state.config with
  | none => fromEnv.mapError .env
  | some cfg =>
      validateReconfigureTarget upper cfg
      pure cfg

/-- `_moveLogOutputLocked`. -/
def moveLogOutput (state : SetupState) (w : World) : World :=
  match state.logOutput with
  | none => w
  | some writer => { w with logSink := writer }

/-- `ReconfigureTelemetry`. -/
def reconfigureTelemetry (state : SetupState) (fromEnv : Except String TelemetryConfig)
    (providers : SignalStatus) (w : World) : Except Error World := do
  match w.runtimeCfg with
  | none => throw .notSetUp
  | some current =>
      validateLogOutputOption state
      let target ← reconfigureTarget upper state fromEnv
      if providerConfigChanged current target providers then throw .providerConfig
      else
        let next := applyHotFields current target
        pure ((moveLogOutput state (w.applyRuntimePolicies next)).publishGeneration next)

end Calls

/-! ## What a call that succeeds has done -/

variable {upper : String → String} {w w' : World} {fromEnv : Except String TelemetryConfig}
  {providers : SignalStatus}

/-- A call has put a config in force: its policies, its queues and its logger. -/
def World.Installed (w : World) (cfg : TelemetryConfig) (w' : World) : Prop :=
  w'.runtimeCfg = some cfg ∧ w'.logger = some cfg ∧
    w'.backpressure = w.backpressure.setPolicy cfg.queuePolicy

theorem World.installed_install (cfg : TelemetryConfig) (w : World) :
    w.Installed cfg (w.install cfg) := ⟨rfl, rfl, rfl⟩

theorem World.installed_moveLogOutput (state : SetupState) (cfg : TelemetryConfig) (w : World) :
    w.Installed cfg ((moveLogOutput state (w.applyRuntimePolicies cfg)).publishGeneration cfg) := by
  rw [moveLogOutput]
  split <;> exact ⟨rfl, rfl, rfl⟩

theorem updateRuntimeConfig_ok {overrides : RuntimeOverrides}
    (h : updateRuntimeConfig upper overrides w = .ok w') :
    ∃ current, w.runtimeCfg = some current ∧
      w.Installed (applyRuntimeOverrides current overrides) w' := by
  rw [updateRuntimeConfig] at h
  split at h
  · cases h
  · next current hcurrent =>
      obtain ⟨_, -, hw'⟩ := bind_eq_ok_iff.mp h
      cases hw'
      exact ⟨current, hcurrent, World.installed_install _ w⟩

theorem reloadRuntimeFromEnv_ok (h : reloadRuntimeFromEnv fromEnv providers w = .ok w') :
    ∃ current cfg, w.runtimeCfg = some current ∧ fromEnv.mapError Error.env = .ok cfg ∧
      w.Installed (applyRuntimeOverrides current (runtimeOverridesFromConfig cfg)) w' := by
  rw [reloadRuntimeFromEnv] at h
  split at h
  · cases h
  · next current hcurrent =>
      obtain ⟨cfg, hcfg, hrest⟩ := bind_eq_ok_iff.mp h
      split at hrest
      · cases hrest
      · cases hrest
        exact ⟨current, cfg, hcurrent, hcfg, World.installed_install _ w⟩

theorem reconfigureTelemetry_ok {state : SetupState}
    (h : reconfigureTelemetry upper state fromEnv providers w = .ok w') :
    ∃ current target, w.runtimeCfg = some current ∧
      reconfigureTarget upper state fromEnv = .ok target ∧
      w.Installed (applyHotFields current target) w' := by
  rw [reconfigureTelemetry] at h
  split at h
  · cases h
  · next current hcurrent =>
      obtain ⟨_, -, hafter⟩ := bind_eq_ok_iff.mp h
      obtain ⟨target, htarget, hrest⟩ := bind_eq_ok_iff.mp hafter
      split at hrest
      · cases hrest
      · cases hrest
        exact ⟨current, target, hcurrent, htarget, World.installed_moveLogOutput state _ w⟩

end Telemetry.Runtime.Go
