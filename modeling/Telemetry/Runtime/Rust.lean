import Mathlib.Data.String.Basic
import Mathlib.Logic.Function.Basic
import Telemetry.Lib.Number
import Telemetry.Lib.Returns
import Telemetry.Lib.SortedMap

/-!
# Configs and policies of the Rust SDK

A `TelemetryConfig` says how each signal is sampled, how long its queue may get and how its
exporter retries. `apply_policies` writes that into the modules of the signals, one setter after
another: a rate is clamped, and a number of retries loses the bits above the lowest 32.
`validate` rejects what these would change, and `from_env` checks as it parses.

## Main definitions

* `TelemetryConfig`, `RuntimeOverrides`, `applyRuntimeOverrides` — configs and how they are merged.
* `TelemetryConfig.validate`, `EnvConfig` — configs that have been checked.
* `Modules`, `Setter`, `applyPolicies` — what is in force.

## Main results

* `applyPolicies_eq` — `apply_policies` replaces all policies.
* `asConfigured_installed_iff` — **when a config gets what it asks for**.
-/

namespace Telemetry.Runtime.Rust

open Telemetry.Lib

/-- `Signal`. -/
inductive Signal
  | logs
  | traces
  | metrics
  deriving DecidableEq, Repr

/-! ## Configs -/

/-- `LoggingConfig`. The order of a `HashMap` does not matter. -/
structure LoggingConfig where
  level : String := "INFO"
  fmt : String := "console"
  includeTimestamp : Bool := true
  otlpHeaders : SortedMap String String := .empty
  otlpEndpoint : Option String := none
  otlpEnabled : Bool := true
  otlpProtocol : String := ""
  moduleLevels : SortedMap String String := .empty
  deriving DecidableEq

/-- `TracingConfig`, as far as it is read here. -/
structure TracingConfig where
  enabled : Bool := true
  sampleRate : Number := .one
  otlpHeaders : SortedMap String String := .empty

/-- `PrometheusConfig`, as far as it is read here. -/
structure PrometheusConfig where
  listen : String := "false"
  path : String := "/metrics"
  translation : String := "UnderscoreEscapingWithSuffixes"

/-- `MetricsConfig`, as far as it is read here. -/
structure MetricsConfig where
  enabled : Bool := true
  otlpHeaders : SortedMap String String := .empty
  exporters : List String := ["otlp"]
  prometheus : PrometheusConfig := {}

/-- `EventSchemaConfig`. -/
structure EventSchemaConfig where
  strictEventName : Bool := false
  requiredKeys : List String := []

/-- `SamplingConfig`: `logs_rate`, `traces_rate` and `metrics_rate`. -/
structure SamplingConfig where
  rate : Signal → Number := fun _ => .one

/-- `BackpressureConfig`: `logs_maxsize`, `traces_maxsize` and `metrics_maxsize`. -/
structure BackpressureConfig where
  maxsize : Signal → ℕ := fun _ => 0

/-- `ExporterPolicyConfig`, with a field for each signal under its name. -/
structure ExporterPolicyConfig where
  retries : Signal → ℕ := fun _ => 0
  backoffSeconds : Signal → Number := fun _ => .zero
  timeoutSeconds : Signal → Number := fun _ => .ofRat 10
  logsShutdownTimeoutSeconds : Number := .ofRat 5
  failOpen : Signal → Bool := fun _ => true

/-- `SLOConfig`. -/
structure SLOConfig where
  enableRedMetrics : Bool := false
  enableUseMetrics : Bool := false

/-- `SecurityConfig`. -/
structure SecurityConfig where
  maxAttrValueLength : ℕ := 1024
  maxAttrCount : ℕ := 64
  maxNestingDepth : ℕ := 8

/-- `TelemetryConfig`, as far as it is read here. -/
structure TelemetryConfig where
  serviceName : String := "provide-service"
  environment : String := "dev"
  version : String := "0.0.0"
  strictSchema : Bool := false
  piiMaxDepth : ℕ := 8
  logging : LoggingConfig := {}
  tracing : TracingConfig := {}
  metrics : MetricsConfig := {}
  eventSchema : EventSchemaConfig := {}
  sampling : SamplingConfig := {}
  backpressure : BackpressureConfig := {}
  exporter : ExporterPolicyConfig := {}
  slo : SLOConfig := {}
  security : SecurityConfig := {}

/-- `RuntimeOverrides`. -/
structure RuntimeOverrides where
  sampling : Option SamplingConfig := none
  backpressure : Option BackpressureConfig := none
  exporter : Option ExporterPolicyConfig := none
  security : Option SecurityConfig := none
  slo : Option SLOConfig := none
  piiMaxDepth : Option ℕ := none
  strictSchema : Option Bool := none
  eventSchema : Option EventSchemaConfig := none
  logging : Option LoggingConfig := none

/-- `apply_runtime_overrides`. -/
def applyRuntimeOverrides (current : TelemetryConfig) (overrides : RuntimeOverrides) :
    TelemetryConfig :=
  { current with
    sampling := overrides.sampling.getD current.sampling
    backpressure := overrides.backpressure.getD current.backpressure
    exporter := overrides.exporter.getD current.exporter
    security := overrides.security.getD current.security
    slo := overrides.slo.getD current.slo
    piiMaxDepth := overrides.piiMaxDepth.getD current.piiMaxDepth
    strictSchema := overrides.strictSchema.getD current.strictSchema
    eventSchema := overrides.eventSchema.getD current.eventSchema
    logging := overrides.logging.getD current.logging }

/-! ## Checks -/

/-- `ConfigurationError`, by the field that it names and what it wants. -/
structure ConfigurationError where
  field : String
  want : String
  deriving DecidableEq, Repr

/-- `require_rate`. -/
def requireRate (field : String) (value : Number) : Except ConfigurationError Unit :=
  if value.InUnit then .ok () else .error ⟨field, "in [0, 1]"⟩

/-- `require_non_negative`. -/
def requireNonNegative (field : String) (value : Number) : Except ConfigurationError Unit :=
  if !value.isFinite || value.lt .zero then .error ⟨field, ">= 0"⟩ else .ok ()

/-- `MAX_EXPORTER_RETRIES`. -/
def maxExporterRetries : ℕ := 100

/-- `require_retries`. -/
def requireRetries (field : String) (value : ℕ) : Except ConfigurationError Unit :=
  if maxExporterRetries < value then .error ⟨field, "at most 100"⟩ else .ok ()

/-- `validate_exporters`. -/
def validateExporters (exporters : List String) : Except ConfigurationError Unit :=
  if exporters.all fun name => ["otlp", "prometheus"].contains name then .ok ()
  else .error ⟨"metrics exporters", "otlp or prometheus"⟩

/-- `PrometheusConfig::validate`. -/
def PrometheusConfig.validate (config : PrometheusConfig) : Except ConfigurationError Unit := do
  if config.listen ∉ ["false", "true", "auto"] then
    throw ⟨"PROVIDE_METRICS_PROMETHEUS_LISTEN", "false, true or auto"⟩
  if config.path.toList.head? ≠ some '/' ∨ '?' ∈ config.path.toList ∨ '#' ∈ config.path.toList then
    throw ⟨"PROVIDE_METRICS_PROMETHEUS_PATH",
      "a path starting with / and no query or fragment"⟩
  if config.translation ∉ ["UnderscoreEscapingWithSuffixes", "UnderscoreEscapingWithoutSuffixes",
      "NoUTF8EscapingWithSuffixes", "NoTranslation"] then
    throw ⟨"PROVIDE_METRICS_PROMETHEUS_TRANSLATION", "a known strategy"⟩

/-- `TelemetryConfig::validate`. -/
def TelemetryConfig.validate (config : TelemetryConfig) : Except ConfigurationError Unit := do
  requireRate "PROVIDE_SAMPLING_LOGS_RATE" (config.sampling.rate .logs)
  requireRate "PROVIDE_SAMPLING_TRACES_RATE" (config.sampling.rate .traces)
  requireRate "PROVIDE_SAMPLING_METRICS_RATE" (config.sampling.rate .metrics)
  requireRate "PROVIDE_TRACE_SAMPLE_RATE" config.tracing.sampleRate
  requireNonNegative "PROVIDE_EXPORTER_LOGS_BACKOFF_SECONDS" (config.exporter.backoffSeconds .logs)
  requireNonNegative "PROVIDE_EXPORTER_TRACES_BACKOFF_SECONDS"
    (config.exporter.backoffSeconds .traces)
  requireNonNegative "PROVIDE_EXPORTER_METRICS_BACKOFF_SECONDS"
    (config.exporter.backoffSeconds .metrics)
  requireNonNegative "PROVIDE_EXPORTER_LOGS_TIMEOUT_SECONDS" (config.exporter.timeoutSeconds .logs)
  requireNonNegative "PROVIDE_EXPORTER_TRACES_TIMEOUT_SECONDS"
    (config.exporter.timeoutSeconds .traces)
  requireNonNegative "PROVIDE_EXPORTER_METRICS_TIMEOUT_SECONDS"
    (config.exporter.timeoutSeconds .metrics)
  requireNonNegative "PROVIDE_EXPORTER_LOGS_SHUTDOWN_TIMEOUT_SECONDS"
    config.exporter.logsShutdownTimeoutSeconds
  requireRetries "PROVIDE_EXPORTER_LOGS_RETRIES" (config.exporter.retries .logs)
  requireRetries "PROVIDE_EXPORTER_TRACES_RETRIES" (config.exporter.retries .traces)
  requireRetries "PROVIDE_EXPORTER_METRICS_RETRIES" (config.exporter.retries .metrics)
  validateExporters config.metrics.exporters
  config.metrics.prometheus.validate

/-- The rates are between zero and one, and the retries have their bound. -/
structure TelemetryConfig.InRange (config : TelemetryConfig) : Prop where
  rate : ∀ signal, (config.sampling.rate signal).InUnit
  sampleRate : config.tracing.sampleRate.InUnit
  retries : ∀ signal, config.exporter.retries signal ≤ maxExporterRetries

/-- A config that `from_env` returns: `parse_rate` and `parse_retries` have checked it. -/
structure EnvConfig where
  config : TelemetryConfig
  inRange : config.InRange

theorem requireRate_eq_ok {field : String} {value : Number} {u : Unit} :
    requireRate field value = .ok u ↔ value.InUnit := by
  simp [requireRate]

theorem requireRetries_eq_ok {field : String} {value : ℕ} {u : Unit} :
    requireRetries field value = .ok u ↔ value ≤ maxExporterRetries := by
  simp [requireRetries]

theorem forall_signal {P : Signal → Prop} :
    (∀ signal, P signal) ↔ P .logs ∧ P .traces ∧ P .metrics := by
  constructor
  · exact fun h => ⟨h _, h _, h _⟩
  · intro ⟨hlogs, htraces, hmetrics⟩ signal
    cases signal with
    | logs => exact hlogs
    | traces => exact htraces
    | metrics => exact hmetrics

/-- **What `validate` lets through** is in range. -/
theorem TelemetryConfig.inRange_of_validate {config : TelemetryConfig} {u : Unit}
    (h : config.validate = .ok u) : config.InRange := by
  simp only [validate, bind_eq_ok_iff, requireRate_eq_ok, requireRetries_eq_ok] at h
  obtain ⟨-, hlogs, -, htraces, -, hmetrics, -, hsample, -, -, -, -, -, -, -, -, -, -, -, -, -, -,
    -, hretries, -, hretries', -, hretries'', -⟩ := h
  exact ⟨forall_signal.mpr ⟨hlogs, htraces, hmetrics⟩, hsample,
    forall_signal.mpr ⟨hretries, hretries', hretries''⟩⟩

/-! ## Policies -/

/-- `SamplingPolicy`. -/
structure SamplingPolicy where
  defaultRate : Number := .one
  overrides : SortedMap String Number := .empty

/-- `QueuePolicy`. -/
structure QueuePolicy where
  maxsize : Signal → ℕ := fun _ => 0

/-- `ExporterPolicy`. -/
structure ExporterPolicy where
  retries : ℕ := 0
  backoffSeconds : Number := .zero
  timeoutSeconds : Number := .ofRat 10
  failOpen : Bool := true
  allowBlockingInEventLoop : Bool := false

/-- What is in force. -/
@[ext] structure Modules where
  sampling : Signal → SamplingPolicy := fun _ => {}
  queue : QueuePolicy := {}
  exporter : Signal → ExporterPolicy := fun _ => {}
  /-- `STRICT_SCHEMA` -/
  strictSchema : Bool := false

/-- `f64::clamp(0.0, 1.0)`. -/
def clamp (rate : Number) : Number :=
  let x := if rate.lt .zero then .zero else rate
  if Number.one.lt x then .one else x

/-- `f64::min`. -/
def min (a b : Number) : Number :=
  match a, b with
  | .nan, _ => b
  | _, .nan => a
  | _, _ => if b.lt a then b else a

/-- `set_sampling_policy`. -/
def setSamplingPolicy (signal : Signal) (policy : SamplingPolicy) (m : Modules) : Modules :=
  let normalized : SamplingPolicy :=
    ⟨clamp policy.defaultRate, policy.overrides.mapValues clamp⟩
  { m with sampling := Function.update m.sampling signal normalized }

/-- `set_queue_policy`. -/
def setQueuePolicy (policy : QueuePolicy) (m : Modules) : Modules := { m with queue := policy }

/-- `set_exporter_policy`. -/
def setExporterPolicy (signal : Signal) (policy : ExporterPolicy) (m : Modules) : Modules :=
  { m with exporter := Function.update m.exporter signal policy }

/-- `set_strict_schema`. -/
def setStrictSchema (enabled : Bool) (m : Modules) : Modules := { m with strictSchema := enabled }

namespace TelemetryConfig

variable (config : TelemetryConfig)

/-- The rate at which a config has a signal sampled. -/
def rate : Signal → Number
  | .logs => config.sampling.rate .logs
  | .traces => min (config.sampling.rate .traces) config.tracing.sampleRate
  | .metrics => config.sampling.rate .metrics

/-- The policy that `apply_policies` makes for a signal, where `as u32` keeps 32 bits. -/
def exporterPolicy (signal : Signal) : ExporterPolicy where
  retries := config.exporter.retries signal % 2 ^ 32
  backoffSeconds := config.exporter.backoffSeconds signal
  timeoutSeconds := config.exporter.timeoutSeconds signal
  failOpen := config.exporter.failOpen signal

/-- What the strict-schema flag is set to. -/
def strict : Bool := config.strictSchema || config.eventSchema.strictEventName

end TelemetryConfig

/-- The setters that `apply_policies` calls, each under its own lock. -/
inductive Setter
  | sampling (signal : Signal)
  | queue
  | exporter (signal : Signal)
  | strictSchema
  deriving DecidableEq, Repr

/-- One setter, with what a config has for it. -/
def Setter.set (config : TelemetryConfig) : Setter → Modules → Modules
  | .sampling signal => setSamplingPolicy signal { defaultRate := config.rate signal }
  | .queue => setQueuePolicy ⟨config.backpressure.maxsize⟩
  | .exporter signal => setExporterPolicy signal (config.exporterPolicy signal)
  | .strictSchema => setStrictSchema config.strict

/-- The setters in their order. -/
def setters : List Setter :=
  [.sampling .logs, .sampling .traces, .sampling .metrics, .queue, .exporter .logs,
    .exporter .traces, .exporter .metrics, .strictSchema]

/-- `apply_policies`. -/
def applyPolicies (config : TelemetryConfig) (m : Modules) : Modules :=
  setters.foldl (fun m setter => setter.set config m) m

/-- What comes into force of the policies of a config. -/
def TelemetryConfig.installed (config : TelemetryConfig) : Modules where
  sampling := fun signal => ⟨clamp (config.rate signal), .empty⟩
  queue := ⟨config.backpressure.maxsize⟩
  exporter := config.exporterPolicy
  strictSchema := config.strict

/-- **`apply_policies` replaces all policies.** -/
theorem applyPolicies_eq (config : TelemetryConfig) (m : Modules) :
    applyPolicies config m = config.installed := by
  ext1
  · funext signal
    cases signal <;> rfl
  · rfl
  · funext signal
    cases signal <;> rfl
  · rfl

/-- The policies in force are those of a config: the rates (of the traces the smaller one), the
sizes of the queues, the exporter policies and the flag, as every reader of the config takes it. -/
structure Modules.AsConfigured (m : Modules) (config : TelemetryConfig) : Prop where
  rate : ∀ signal, (m.sampling signal).defaultRate = config.rate signal
  overrides : ∀ signal, (m.sampling signal).overrides = .empty
  queue : m.queue.maxsize = config.backpressure.maxsize
  retries : ∀ signal, (m.exporter signal).retries = config.exporter.retries signal
  backoffSeconds : ∀ signal,
    (m.exporter signal).backoffSeconds = config.exporter.backoffSeconds signal
  timeoutSeconds : ∀ signal,
    (m.exporter signal).timeoutSeconds = config.exporter.timeoutSeconds signal
  failOpen : ∀ signal, (m.exporter signal).failOpen = config.exporter.failOpen signal
  allowBlockingInEventLoop : ∀ signal, (m.exporter signal).allowBlockingInEventLoop = false
  strictSchema : m.strictSchema = config.strict

/-- No setter changes what the config says: no rate is clamped, and no retries are cut off. -/
structure TelemetryConfig.Exact (config : TelemetryConfig) : Prop where
  rate : ∀ signal, config.rate signal = .nan ∨ (config.rate signal).InUnit
  retries : ∀ signal, config.exporter.retries signal < 2 ^ 32

theorem clamp_eq_iff {rate : Number} : clamp rate = rate ↔ rate = .nan ∨ rate.InUnit := by
  cases rate with
  | nan => simp [clamp]
  | num x =>
      simp only [clamp, Number.zero, Number.one, Number.lt_num, Number.InUnit]
      by_cases hzero : x < 0
      · have hone : ¬ (1 : WithBot (WithTop ℚ)) < 0 := by decide
        simp [hzero, hone, hzero.not_ge, hzero.ne']
      · by_cases hone : 1 < x
        · simp [hzero, hone, hone.not_ge, hone.ne]
        · simp [hzero, hone, not_lt.mp hzero, not_lt.mp hone]

/-- **When a config gets what it asks for.** -/
theorem asConfigured_installed_iff {config : TelemetryConfig} :
    config.installed.AsConfigured config ↔ config.Exact := by
  constructor
  · intro h
    constructor
    · exact fun signal => clamp_eq_iff.mp (h.rate signal)
    · intro signal
      have hmod : config.exporter.retries signal % 2 ^ 32 = config.exporter.retries signal :=
        h.retries signal
      omega
  · intro h
    constructor
    · exact fun signal => clamp_eq_iff.mpr (h.rate signal)
    · exact fun _ => rfl
    · rfl
    · exact fun signal => Nat.mod_eq_of_lt (h.retries signal)
    · exact fun _ => rfl
    · exact fun _ => rfl
    · exact fun _ => rfl
    · exact fun _ => rfl
    · rfl

theorem min_inUnit {a b : Number} (ha : a.InUnit) (hb : b.InUnit) : (min a b).InUnit := by
  cases a with
  | nan => exact hb
  | num x =>
      cases b with
      | nan => exact ha
      | num y =>
          simp only [min]
          split
          · exact hb
          · exact ha

/-- Of a rate in range and another one the smaller is in range if the other is not negative. -/
theorem min_exact_iff {a b : Number} (ha : a.InUnit) :
    (min a b = .nan ∨ (min a b).InUnit) ↔ b.lt .zero = false := by
  cases a with
  | nan => exact ha.elim
  | num x =>
      cases b with
      | nan => simp [min, ha]
      | num y =>
          obtain ⟨hzero, hone⟩ := ha
          simp only [min, Number.lt_num, Number.zero, decide_eq_true_eq, decide_eq_false_iff_not,
            not_lt]
          by_cases hlt : y < x
          · simp [hlt, Number.InUnit, hlt.le.trans hone]
          · simp [hlt, Number.InUnit, hzero, hone, hzero.trans (not_lt.mp hlt)]

/-- A config in range gets what it asks for. -/
theorem TelemetryConfig.InRange.exact {config : TelemetryConfig} (h : config.InRange) :
    config.Exact := by
  constructor
  · intro signal
    cases signal with
    | logs => exact .inr (h.rate .logs)
    | traces => exact .inr (min_inUnit (h.rate .traces) h.sampleRate)
    | metrics => exact .inr (h.rate .metrics)
  · intro signal
    have hretries := h.retries signal
    rw [maxExporterRetries] at hretries
    omega

end Telemetry.Runtime.Rust
