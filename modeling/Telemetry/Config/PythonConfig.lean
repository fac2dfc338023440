import Telemetry.Config.PythonLogging

/-!
# Configs of the Python SDK

The dataclasses of `config.py`. A constructor is a structure of arguments, and `postInit` says
whether it returns: `__post_init__` checks fields one after the other and raises at the first that
is out of range.

## Main definitions

* `TelemetryConfig` — a config, with its parts.
* `SamplingConfig.postInit` and the others — the constructors.

## Main results

* `validateRate_eq_ok_iff`, `validateNonNegative_eq_ok_iff`, `validateRetriesCeiling_eq_ok_iff`,
  `validateFiniteNonNegative_eq_ok_iff` — what the validators let pass.
-/

namespace Telemetry.Config.Python

open Telemetry.Lib

/-! ## Validators -/

/-- `_validate_rate`. -/
def validateRate (value : Number) (message : String) : Except ConfigurationError Unit :=
  if ¬ value.InUnit then throw ⟨[.text message]⟩ else pure ()

/-- `_validate_non_negative`. -/
def validateNonNegative (value : ℤ) (message : String) : Except ConfigurationError Unit :=
  if value < 0 then throw ⟨[.text message]⟩ else pure ()

/-- `MAX_EXPORT_RETRIES`. -/
def maxExportRetries : ℤ := 100

/-- `validate_retries_ceiling`. -/
def validateRetriesCeiling (value : ℤ) (field : String) : Except ConfigurationError Unit :=
  if value > maxExportRetries then
    throw ⟨[.text field, .text " must be at most ", .int maxExportRetries, .text ", got ",
      .int value]⟩
  else pure ()

/-- `validate_finite_non_negative`. -/
def validateFiniteNonNegative (value : Number) (field : String) : Except ConfigurationError Unit :=
  if value.isFinite = false then
    throw ⟨[.text field, .text " must be finite, got ", .float value]⟩
  else if value.lt .zero then throw ⟨[.text field, .text " must be >= 0, got ", .float value]⟩
  else pure ()

/-! ## The parts of a config -/

/-- One value for each signal, `"logs"`, `"traces"` and `"metrics"`. -/
structure PerSignal (α : Type) where
  logs : α
  traces : α
  metrics : α
  deriving DecidableEq

/-- Something holds of all three values. -/
structure PerSignal.All {α : Type} (P : α → Prop) (x : PerSignal α) : Prop where
  logs : P x.logs
  traces : P x.traces
  metrics : P x.metrics

/-- The same for each signal. -/
def PerSignal.const {α : Type} (value : α) : PerSignal α := ⟨value, value, value⟩

/-- Check one signal after the other. -/
def PerSignal.check {α : Type} (f : α → String → Except ConfigurationError Unit) (x : PerSignal α)
    (texts : PerSignal String) : Except ConfigurationError Unit := do
  f x.logs texts.logs
  f x.traces texts.traces
  f x.metrics texts.metrics

/-- `TracingConfig`. -/
structure TracingConfig where
  enabled : Bool := true
  sampleRate : Number := .one
  otlpEndpoint : Option CodePoints := none
  otlpHeaders : Dict CodePoints CodePoints := .empty
  deriving DecidableEq

/-- `TracingConfig.__post_init__`. -/
def TracingConfig.postInit (c : TracingConfig) : Except ConfigurationError TracingConfig := do
  validateRate c.sampleRate "sample_rate must be between 0 and 1"
  pure c

/-- `PrometheusConfig`. -/
structure PrometheusConfig where
  listen : CodePoints := CodePoints.ofString "false"
  host : CodePoints := CodePoints.ofString "127.0.0.1"
  port : ℤ := 9464
  path : CodePoints := CodePoints.ofString "/metrics"
  translation : CodePoints := CodePoints.ofString "UnderscoreEscapingWithSuffixes"
  scopeLabels : Bool := false
  targetInfo : Bool := true
  webConfig : CodePoints := []
  deriving DecidableEq

/-- `validate_listen`. -/
def validateListen (listen : CodePoints) : Except ConfigurationError Unit :=
  if listen ∉ ["false", "true", "auto"].map CodePoints.ofString then
    throw ⟨[.text "PROVIDE_METRICS_PROMETHEUS_LISTEN: want false, true or auto, got ",
      .repr listen]⟩
  else pure ()

/-- `validate_port`. -/
def validatePort (port : ℤ) : Except ConfigurationError Unit :=
  if port < 0 ∨ port > 65535 then
    throw ⟨[.text "OTEL_EXPORTER_PROMETHEUS_PORT: want an integer in 0-65535, got ", .int port]⟩
  else pure ()

/-- `validate_path`. -/
def validatePath (path : CodePoints) : Except ConfigurationError Unit :=
  if path.head? ≠ some (.scalar '/') ∨ .scalar '?' ∈ path ∨ .scalar '#' ∈ path then
    throw ⟨[.text "PROVIDE_METRICS_PROMETHEUS_PATH: want a path starting with / and no query or ",
      .text "fragment, got ", .repr path]⟩
  else pure ()

/-- `TRANSLATION_STRATEGIES`. -/
def translationStrategies : List String :=
  ["UnderscoreEscapingWithSuffixes", "UnderscoreEscapingWithoutSuffixes",
    "NoUTF8EscapingWithSuffixes", "NoTranslation"]

/-- `validate_translation`. -/
def validateTranslation (translation : CodePoints) : Except ConfigurationError Unit :=
  if translation ∉ translationStrategies.map CodePoints.ofString then
    throw ⟨[.text "PROVIDE_METRICS_PROMETHEUS_TRANSLATION: unknown strategy ", .repr translation]⟩
  else pure ()

/-- `PrometheusConfig.__post_init__`. -/
def PrometheusConfig.postInit (c : PrometheusConfig) :
    Except ConfigurationError PrometheusConfig := do
  validateListen c.listen
  validatePort c.port
  validatePath c.path
  validateTranslation c.translation
  pure c

/-- `MetricsConfig`. -/
structure MetricsConfig where
  enabled : Bool := true
  otlpEndpoint : Option CodePoints := none
  otlpHeaders : Dict CodePoints CodePoints := .empty
  exporters : List CodePoints := [CodePoints.ofString "otlp"]
  exporterWarnings : List (List Piece) := []
  healthOtlp : Bool := false
  prometheus : PrometheusConfig := {}
  deriving DecidableEq

/-- `validate_exporters`. -/
def validateExporters (exporters : List CodePoints) : Except ConfigurationError Unit :=
  let unknown := exporters.filter fun e => e ∉ ["otlp", "prometheus"].map CodePoints.ofString
  if unknown ≠ [] then throw ⟨[.text "metrics exporters: unknown ", .reprs unknown]⟩ else pure ()

/-- `MetricsConfig.__post_init__`. -/
def MetricsConfig.postInit (c : MetricsConfig) : Except ConfigurationError MetricsConfig := do
  validateExporters c.exporters
  pure c

/-- `SchemaConfig`. -/
structure SchemaConfig where
  strictEventName : Bool := false
  requiredKeys : List CodePoints := []
  deriving DecidableEq

/-- `SamplingConfig`: `logs_rate`, `traces_rate` and `metrics_rate`. -/
structure SamplingConfig where
  rate : PerSignal Number := .const .one
  deriving DecidableEq

/-- `SamplingConfig.__post_init__`. -/
def SamplingConfig.postInit (c : SamplingConfig) : Except ConfigurationError SamplingConfig := do
  c.rate.check validateRate (.const "sampling rate must be between 0 and 1")
  pure c

/-- `BackpressureConfig`: `logs_maxsize`, `traces_maxsize` and `metrics_maxsize`. -/
structure BackpressureConfig where
  maxsize : PerSignal ℤ := .const 0
  deriving DecidableEq

/-- `BackpressureConfig.__post_init__`. -/
def BackpressureConfig.postInit (c : BackpressureConfig) :
    Except ConfigurationError BackpressureConfig := do
  c.maxsize.check validateNonNegative (.const "queue maxsize must be >= 0")
  pure c

/-- `ExporterPolicyConfig`, with a field for each signal under its name. -/
structure ExporterPolicyConfig where
  retries : PerSignal ℤ := .const 0
  backoffSeconds : PerSignal Number := .const .zero
  timeoutSeconds : PerSignal Number := .const (.ofRat 10)
  logsShutdownTimeoutSeconds : Number := .ofRat 5
  failOpen : PerSignal Bool := .const true
  allowBlockingInEventLoop : PerSignal Bool := .const false
  deriving DecidableEq

/-- `validate_exporter_floats`, over `_EXPORTER_FLOAT_FIELDS`. -/
def validateExporterFloats (policy : ExporterPolicyConfig) : Except ConfigurationError Unit := do
  policy.backoffSeconds.check validateFiniteNonNegative
    ⟨"logs_backoff_seconds", "traces_backoff_seconds", "metrics_backoff_seconds"⟩
  policy.timeoutSeconds.check validateFiniteNonNegative
    ⟨"logs_timeout_seconds", "traces_timeout_seconds", "metrics_timeout_seconds"⟩

/-- `ExporterPolicyConfig.__post_init__`. -/
def ExporterPolicyConfig.postInit (c : ExporterPolicyConfig) :
    Except ConfigurationError ExporterPolicyConfig := do
  c.retries.check validateRetriesCeiling ⟨"logs_retries", "traces_retries", "metrics_retries"⟩
  validateExporterFloats c
  pure c

/-- `SLOConfig`. -/
structure SLOConfig where
  enableRedMetrics : Bool := false
  enableUseMetrics : Bool := false
  includeErrorTaxonomy : Bool := true
  deriving DecidableEq

/-- `SecurityConfig`. -/
structure SecurityConfig where
  maxAttrValueLength : ℤ := 1024
  maxAttrCount : ℤ := 64
  maxNestingDepth : ℤ := 8
  deriving DecidableEq

/-- `SecurityConfig.__post_init__`. -/
def SecurityConfig.postInit (c : SecurityConfig) : Except ConfigurationError SecurityConfig := do
  validateNonNegative c.maxAttrValueLength "max_attr_value_length must be >= 0"
  validateNonNegative c.maxAttrCount "max_attr_count must be >= 0"
  validateNonNegative c.maxNestingDepth "max_nesting_depth must be >= 0"
  pure c

/-- `TelemetryConfig`. -/
structure TelemetryConfig where
  serviceName : CodePoints := CodePoints.ofString "provide-service"
  environment : CodePoints := CodePoints.ofString "dev"
  version : CodePoints := CodePoints.ofString "0.0.0"
  strictSchema : Bool := false
  strictConfig : Bool := false
  piiMaxDepth : ℤ := 8
  logging : LoggingConfig := {}
  tracing : TracingConfig := {}
  metrics : MetricsConfig := {}
  eventSchema : SchemaConfig := {}
  sampling : SamplingConfig := {}
  backpressure : BackpressureConfig := {}
  exporter : ExporterPolicyConfig := {}
  slo : SLOConfig := {}
  security : SecurityConfig := {}
  deriving DecidableEq

/-- `TelemetryConfig.__post_init__`. -/
def TelemetryConfig.postInit (c : TelemetryConfig) : Except ConfigurationError TelemetryConfig := do
  validateNonNegative c.piiMaxDepth "pii_max_depth must be >= 0"
  pure c

/-! ## What the validators let pass -/

variable {value : Number} {n : ℤ} {text : String}

@[simp] theorem validateRate_eq_ok_iff : validateRate value text = .ok () ↔ value.InUnit := by
  rw [validateRate]
  by_cases h : value.InUnit
  · simp [h, pure, Except.pure]
  · simp [h, throw, throwThe, MonadExceptOf.throw]

@[simp] theorem validateNonNegative_eq_ok_iff : validateNonNegative n text = .ok () ↔ 0 ≤ n := by
  rw [validateNonNegative]
  by_cases h : n < 0
  · simp [h, throw, throwThe, MonadExceptOf.throw]
  · simp [h, pure, Except.pure, not_lt.mp h]

@[simp] theorem validateRetriesCeiling_eq_ok_iff :
    validateRetriesCeiling n text = .ok () ↔ n ≤ maxExportRetries := by
  rw [validateRetriesCeiling]
  by_cases h : maxExportRetries < n
  · simp [h, throw, throwThe, MonadExceptOf.throw]
  · simp [h, pure, Except.pure, not_lt.mp h]

@[simp] theorem validateFiniteNonNegative_eq_ok_iff :
    validateFiniteNonNegative value text = .ok () ↔
      value.isFinite = true ∧ value.lt .zero = false := by
  rw [validateFiniteNonNegative]
  cases value.isFinite <;> cases value.lt .zero <;>
    simp [throw, throwThe, MonadExceptOf.throw, pure, Except.pure]

/-- **All three signals are checked.** -/
theorem PerSignal.check_eq_ok_iff {α : Type} {P : α → Prop}
    {f : α → String → Except ConfigurationError Unit} (hf : ∀ v t, f v t = .ok () ↔ P v)
    {x : PerSignal α} {texts : PerSignal String} : x.check f texts = .ok () ↔ x.All P := by
  rw [check, bind_eq_ok_iff]
  constructor
  · intro ⟨_, hlogs, h⟩
    obtain ⟨_, htraces, hmetrics⟩ := bind_eq_ok_iff.mp h
    exact ⟨(hf _ _).mp hlogs, (hf _ _).mp htraces, (hf _ _).mp hmetrics⟩
  · intro h
    exact ⟨(), (hf _ _).mpr h.logs,
      bind_eq_ok_iff.mpr ⟨(), (hf _ _).mpr h.traces, (hf _ _).mpr h.metrics⟩⟩

/-- A constructor that checks once. -/
theorem check_bind_eq_ok_iff {α : Type} {P : Prop} {check : Except ConfigurationError Unit}
    {c c' : α} (h : check = .ok () ↔ P) : (do check; pure c) = .ok c' ↔ c = c' ∧ P := by
  rw [bind_eq_ok_iff, ← h]
  constructor
  · intro ⟨_, hcheck, hc⟩
    exact ⟨Except.ok.inj hc, hcheck⟩
  · intro ⟨hc, hcheck⟩
    exact ⟨(), hcheck, congrArg Except.ok hc⟩

end Telemetry.Config.Python
