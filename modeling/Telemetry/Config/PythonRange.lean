import Telemetry.Config.PythonEnv

/-!
# Ranges of configs from the environment in the Python SDK

A config that `from_env` returns has known levels, rates between zero and one, sizes and depths
that are not negative, at most a hundred retries, and durations of at most an hour. The durations
are checked twice: the parser looks at both bounds, which `nan` does not violate, and
`validate_exporter_floats` refuses what is not finite, in six fields of seven.

## Main definitions

* `InRange` — a config whose fields are in range.
* `AcceptedElsewhere` — every variable but the one of the seventh duration is accepted.

## Main results

* `returns_fromEnv_iff` — **which environments are accepted**.
* `acceptsInRange_iff` — **what is accepted is in range** iff the seventh duration is a number, or
  another variable is refused.
-/

namespace Telemetry.Config.Python

open Telemetry.Lib

/-! ## Ranges -/

/-- A level that is in the table. -/
def KnownLevel (level : CodePoints) : Prop :=
  ∃ severity, lookupLevel levelTable level = some severity

/-- A finite number from zero to an hour. -/
structure InHour (x : Number) : Prop where
  finite : x.isFinite = true
  nonneg : x.lt .zero = false
  le : maxDurationSeconds.lt x = false

/-- A config whose fields are in range. -/
structure InRange (c : TelemetryConfig) : Prop where
  level : KnownLevel c.logging.level
  moduleLevels : ∀ level ∈ c.logging.moduleLevels.values, KnownLevel level
  sampleRate : c.tracing.sampleRate.InUnit
  rate : c.sampling.rate.All Number.InUnit
  maxsize : c.backpressure.maxsize.All (0 ≤ ·)
  maxAttrValueLength : 0 ≤ c.security.maxAttrValueLength
  maxAttrCount : 0 ≤ c.security.maxAttrCount
  maxNestingDepth : 0 ≤ c.security.maxNestingDepth
  piiMaxDepth : 0 ≤ c.piiMaxDepth
  retries : c.exporter.retries.All (· ≤ maxExportRetries)
  backoffSeconds : c.exporter.backoffSeconds.All InHour
  timeoutSeconds : c.exporter.timeoutSeconds.All InHour
  logsShutdownTimeoutSeconds : InHour c.exporter.logsShutdownTimeoutSeconds

/-- What an environment is made into is in range, unless it is refused. -/
def AcceptsInRange (T : CaseTables) (data : Env) : Prop :=
  ∀ c, fromEnv T data = .ok c → InRange c

/-! ## What the parsers let pass -/

variable {T : CaseTables} {data : Env} {text : CodePoints} {field : String} {x : Number} {n : ℤ}

/-- A text that stands for a boolean, or is blank. -/
def IsBoolText (T : CaseTables) (value : Option CodePoints) : Prop :=
  ∀ text ∈ value, T.strip text = [] ∨
    isWord (T.lower (T.strip text)) ["1", "true", "yes", "on"] = true ∨
    isWord (T.lower (T.strip text)) ["0", "false", "no", "off"] = true

/-- A text for a number that is not negative. -/
def IsNatText (T : CaseTables) (text : CodePoints) : Prop :=
  ∃ n, int T.toUnicode text = some n ∧ 0 ≤ n

/-- A text for a number of retries. -/
def IsRetriesText (T : CaseTables) (text : CodePoints) : Prop :=
  ∃ n, int T.toUnicode text = some n ∧ n ≤ maxExportRetries

/-- A text for a rate. -/
def IsRateText (T : CaseTables) (text : CodePoints) : Prop :=
  ∃ x, float T.toUnicode text = some x ∧ x.InUnit

/-- A text for a duration. -/
def IsDurationText (T : CaseTables) (text : CodePoints) : Prop :=
  ∃ x, float T.toUnicode text = some x ∧ InHour x

theorem returns_parseEnvBool_iff {value : Option CodePoints} {default : Bool} :
    Returns (parseEnvBool T value default field) ↔ IsBoolText T value := by
  cases value with
  | none => simp [parseEnvBool, IsBoolText]
  | some text =>
      simp only [parseEnvBool, IsBoolText, Option.mem_def, Option.some.injEq, forall_eq']
      by_cases hblank : T.strip text = []
      · simp [hblank]
      · cases isWord (T.lower (T.strip text)) ["1", "true", "yes", "on"] <;>
          cases isWord (T.lower (T.strip text)) ["0", "false", "no", "off"] <;>
          simp [hblank, throw, throwThe, MonadExceptOf.throw]

@[simp] theorem parseEnvInt_eq_ok_iff :
    parseEnvInt T text field = .ok n ↔ int T.toUnicode text = some n := by
  rw [parseEnvInt]
  cases int T.toUnicode text <;> simp [throw, throwThe, MonadExceptOf.throw, pure, Except.pure]

@[simp] theorem parseEnvFloat_eq_ok_iff :
    parseEnvFloat T text field = .ok x ↔ float T.toUnicode text = some x := by
  rw [parseEnvFloat]
  cases float T.toUnicode text <;> simp [throw, throwThe, MonadExceptOf.throw, pure, Except.pure]

@[simp] theorem parseEnvRetries_eq_ok_iff :
    parseEnvRetries T text field = .ok n ↔
      int T.toUnicode text = some n ∧ n ≤ maxExportRetries := by
  rw [parseEnvRetries, bind_eq_ok_iff]
  constructor
  · intro ⟨m, hm, hrest⟩
    obtain ⟨_, hceiling, hpure⟩ := bind_eq_ok_iff.mp hrest
    obtain rfl := Except.ok.inj hpure
    exact ⟨parseEnvInt_eq_ok_iff.mp hm, validateRetriesCeiling_eq_ok_iff.mp hceiling⟩
  · intro ⟨hn, hle⟩
    exact ⟨n, parseEnvInt_eq_ok_iff.mpr hn,
      bind_eq_ok_iff.mpr ⟨(), validateRetriesCeiling_eq_ok_iff.mpr hle, rfl⟩⟩

/-- **The parser of durations** looks at both bounds. -/
theorem parseDurationFloat_eq_ok_iff :
    parseDurationFloat T text field = .ok x ↔
      float T.toUnicode text = some x ∧ x.lt .zero = false ∧ maxDurationSeconds.lt x = false := by
  rw [parseDurationFloat, bind_eq_ok_iff]
  simp only [parseEnvFloat_eq_ok_iff]
  constructor
  · intro ⟨y, hy, hrest⟩
    split at hrest
    · cases hrest
    · split at hrest
      · cases hrest
      · obtain rfl := Except.ok.inj hrest
        rename_i hnonneg hle
        exact ⟨hy, Bool.eq_false_iff.mpr hnonneg, Bool.eq_false_iff.mpr hle⟩
  · intro ⟨hx, hnonneg, hle⟩
    exact ⟨x, hx, by simp [hnonneg, hle, pure, Except.pure]⟩

/-- What is between the bounds is finite, or no number. -/
theorem eq_nan_or_inHour (hnonneg : x.lt .zero = false) (hle : maxDurationSeconds.lt x = false) :
    x = .nan ∨ InHour x := by
  cases x with
  | nan => exact .inl rfl
  | num y =>
      refine .inr ⟨?_, hnonneg, hle⟩
      simp only [Number.zero, maxDurationSeconds, Number.ofRat, Number.lt_num,
        decide_eq_false_iff_not, not_lt] at hnonneg hle
      have hbot : y ≠ ⊥ := by
        rintro rfl
        exact absurd hnonneg (by decide)
      have htop : y ≠ ⊤ := by
        rintro rfl
        exact absurd hle (by decide)
      simp [Number.isFinite, hbot, htop]

theorem not_inHour_nan : ¬ InHour .nan := fun h => Bool.noConfusion h.finite

/-! ## The levels of modules -/

theorem returns_addModuleLevels_iff {pairs : List (CodePoints × CodePoints)}
    {result : Dict CodePoints CodePoints} :
    Returns (addModuleLevels T result pairs) ↔
      ∀ pair ∈ pairs, Returns (normalizeLevel T pair.2) := by
  induction pairs generalizing result with
  | nil => simp [addModuleLevels]
  | cons pair pairs ih =>
      rw [addModuleLevels, List.forall_mem_cons]
      exact returns_bind_and_iff Iff.rfl fun _ _ => ih

/-- Every level that is added is known. -/
theorem knownLevel_of_addModuleLevels {pairs : List (CodePoints × CodePoints)}
    {result levels : Dict CodePoints CodePoints}
    (hresult : ∀ module level, result.get? module = some level → KnownLevel level)
    (h : addModuleLevels T result pairs = .ok levels) {module level : CodePoints}
    (hlevel : levels.get? module = some level) : KnownLevel level := by
  induction pairs generalizing result with
  | nil =>
      obtain rfl := Except.ok.inj h
      exact hresult module level hlevel
  | cons pair pairs ih =>
      rw [addModuleLevels] at h
      obtain ⟨added, hadded, hrest⟩ := bind_eq_ok_iff.mp h
      refine ih ?_ hrest
      intro j l hl
      by_cases hempty : pair.1 = []
      · rw [if_pos hempty] at hl
        exact hresult j l hl
      · rw [if_neg hempty, Dict.get?_set] at hl
        split at hl
        · obtain rfl := Option.some.inj hl
          exact lookupLevel_of_normalizeLevel hadded
        · exact hresult j l hl

/-! ## The parts -/

/-- The variables of the logging config are accepted. -/
@[mk_iff] structure LoggingAccepted (T : CaseTables) (data : Env) : Prop where
  includeTimestamp : IsBoolText T (data "PROVIDE_LOG_INCLUDE_TIMESTAMP")
  includeCaller : IsBoolText T (data "PROVIDE_LOG_INCLUDE_CALLER")
  sanitize : IsBoolText T (data "PROVIDE_LOG_SANITIZE")
  logCodeAttributes : IsBoolText T (data "PROVIDE_LOG_CODE_ATTRIBUTES")
  otlpEnabled : IsBoolText T (data "PROVIDE_LOG_OTLP_ENABLED")
  moduleLevels : ∀ pair ∈ modulePairs T (data.get "PROVIDE_LOG_MODULE_LEVELS" ""),
    Returns (normalizeLevel T pair.2)
  level : Returns (normalizeLevel T (data.get "PROVIDE_LOG_LEVEL" "INFO"))
  fmt : Returns (validateFmt (data.get "PROVIDE_LOG_FORMAT" "console"))
  prettyKeyColor : Returns
    (validateColor (data.get "PROVIDE_LOG_PRETTY_KEY_COLOR" "dim") "pretty_key_color")
  prettyValueColor : Returns
    (validateColor (data.get "PROVIDE_LOG_PRETTY_VALUE_COLOR" "") "pretty_value_color")

theorem LoggingConfig.returns_postInit_iff {c : LoggingConfig} :
    Returns (c.postInit T) ↔
      Returns (normalizeLevel T c.level) ∧ Returns (validateFmt c.fmt) ∧
        Returns (validateColor c.prettyKeyColor "pretty_key_color") ∧
        Returns (validateColor c.prettyValueColor "pretty_value_color") := by
  rw [postInit]
  refine returns_bind_and_iff Iff.rfl fun _ _ => ?_
  refine returns_bind_and_iff Iff.rfl fun _ _ => ?_
  refine returns_bind_and_iff Iff.rfl fun _ _ => ?_
  rw [returns_bind_iff_of_forall fun _ _ => returns_pure _]

theorem returns_loggingFromEnv_iff : Returns (loggingFromEnv T data) ↔ LoggingAccepted T data := by
  rw [loggingAccepted_iff, loggingFromEnv]
  refine returns_bind_and_iff returns_parseEnvBool_iff fun _ _ => ?_
  refine returns_bind_and_iff returns_parseEnvBool_iff fun _ _ => ?_
  refine returns_bind_and_iff returns_parseEnvBool_iff fun _ _ => ?_
  refine returns_bind_and_iff returns_parseEnvBool_iff fun _ _ => ?_
  refine returns_bind_and_iff returns_parseEnvBool_iff fun _ _ => ?_
  refine returns_bind_and_iff returns_addModuleLevels_iff fun _ _ => ?_
  exact LoggingConfig.returns_postInit_iff

/-- **The levels of a logging config from the environment** are known. -/
theorem knownLevel_of_loggingFromEnv {c : LoggingConfig} (h : loggingFromEnv T data = .ok c) :
    KnownLevel c.level ∧ ∀ level ∈ c.moduleLevels.values, KnownLevel level := by
  rw [loggingFromEnv] at h
  obtain ⟨_, -, h⟩ := bind_eq_ok_iff.mp h
  obtain ⟨_, -, h⟩ := bind_eq_ok_iff.mp h
  obtain ⟨_, -, h⟩ := bind_eq_ok_iff.mp h
  obtain ⟨_, -, h⟩ := bind_eq_ok_iff.mp h
  obtain ⟨_, -, h⟩ := bind_eq_ok_iff.mp h
  obtain ⟨levels, hlevels, h⟩ := bind_eq_ok_iff.mp h
  refine ⟨LoggingConfig.level_of_postInit h, ?_⟩
  obtain ⟨_, -, rfl⟩ := LoggingConfig.postInit_eq_ok h
  intro level hlevel
  obtain ⟨module, hmodule⟩ := Dict.mem_values_iff.mp hlevel
  exact knownLevel_of_addModuleLevels (by simp) hlevels hmodule

/-- A check returns, or not. -/
theorem returns_unit_iff {x : Except ConfigurationError Unit} : Returns x ↔ x = .ok () := by
  constructor
  · intro ⟨_, hx⟩
    exact hx
  · intro hx
    exact ⟨(), hx⟩

/-- The variables of the tracing config are accepted. -/
@[mk_iff] structure TracingAccepted (T : CaseTables) (data : Env) : Prop where
  enabled : IsBoolText T (data "PROVIDE_TRACE_ENABLED")
  sampleRate : IsRateText T (data.get "PROVIDE_TRACE_SAMPLE_RATE" "1.0")

theorem TracingConfig.returns_postInit_iff {c : TracingConfig} :
    Returns c.postInit ↔ c.sampleRate.InUnit := by
  rw [postInit, returns_bind_iff_of_forall fun _ _ => returns_pure _, returns_unit_iff,
    validateRate_eq_ok_iff]

theorem returns_tracingFromEnv_iff : Returns (tracingFromEnv T data) ↔ TracingAccepted T data := by
  rw [tracingAccepted_iff, tracingFromEnv]
  refine returns_bind_and_iff returns_parseEnvBool_iff fun _ _ => ?_
  simp only [returns_bind_iff, parseEnvFloat_eq_ok_iff, TracingConfig.returns_postInit_iff,
    IsRateText]

theorem inUnit_of_tracingFromEnv {c : TracingConfig} (h : tracingFromEnv T data = .ok c) :
    c.sampleRate.InUnit := by
  rw [tracingFromEnv] at h
  obtain ⟨_, -, h⟩ := bind_eq_ok_iff.mp h
  obtain ⟨_, -, h⟩ := bind_eq_ok_iff.mp h
  obtain ⟨_, hrate, h⟩ := bind_eq_ok_iff.mp h
  obtain rfl := Except.ok.inj h
  exact validateRate_eq_ok_iff.mp hrate

/-- The variables of the metrics config are accepted. -/
@[mk_iff] structure MetricsAccepted (T : CaseTables) (data : Env) : Prop where
  enabled : IsBoolText T (data "PROVIDE_METRICS_ENABLED")
  healthOtlp : IsBoolText T (data "PROVIDE_METRICS_HEALTH_OTLP")
  port : Returns (parsePort T (data "OTEL_EXPORTER_PROMETHEUS_PORT"))
  scopeLabels : IsBoolText T (data "PROVIDE_METRICS_PROMETHEUS_SCOPE_LABELS")
  targetInfo : IsBoolText T (data "PROVIDE_METRICS_PROMETHEUS_TARGET_INFO")
  listen : Returns
    (validateListen (T.lower (envStr T data "PROVIDE_METRICS_PROMETHEUS_LISTEN" "false")))
  path : Returns (validatePath (envStr T data "PROVIDE_METRICS_PROMETHEUS_PATH" "/metrics"))
  translation : Returns (validateTranslation
    (envStr T data "PROVIDE_METRICS_PROMETHEUS_TRANSLATION" "UnderscoreEscapingWithSuffixes"))

/-- A port that was parsed is valid. -/
theorem validatePort_of_parsePort {raw : Option CodePoints} (h : parsePort T raw = .ok n) :
    validatePort n = .ok () := by
  simp only [parsePort] at h
  split at h
  · obtain rfl := Except.ok.inj h
    rfl
  · split at h
    · cases h
    · obtain ⟨_, hport, hpure⟩ := bind_eq_ok_iff.mp h
      obtain rfl := Except.ok.inj hpure
      exact hport

/-- The exporters that were found are known. -/
theorem validateExporters_of_parseMetricsExporters {raw : Option CodePoints} {strict : Bool}
    {found : List CodePoints × List (List Piece)}
    (h : parseMetricsExporters T raw strict = .ok found) : validateExporters found.1 = .ok () := by
  have hknown : ∀ names : List CodePoints,
      (∀ name ∈ names, isWord name ["otlp", "prometheus"] = true) →
        validateExporters names = .ok () := by
    intro names hnames
    have hnone : (names.filter fun e => e ∉ ["otlp", "prometheus"].map CodePoints.ofString) = [] :=
      List.filter_eq_nil_iff.mpr fun e he => by
        have hword := hnames e he
        rw [isWord, decide_eq_true_eq] at hword
        simp only [hword, not_true_eq_false, decide_false, Bool.false_eq_true, not_false_eq_true]
    simp only [validateExporters]
    rw [if_neg (not_not.mpr hnone)]
    rfl
  simp only [parseMetricsExporters] at h
  split at h
  · obtain rfl := Except.ok.inj h
    rfl
  · split at h
    · cases h
    · obtain rfl := Except.ok.inj h
      split
      · exact hknown [CodePoints.ofString "otlp"] (by decide)
      · exact hknown _ fun name hname => (List.mem_filter.mp hname).2

theorem returns_prometheusPostInit_iff {c : PrometheusConfig}
    (hport : validatePort c.port = .ok ()) :
    Returns c.postInit ↔ Returns (validateListen c.listen) ∧ Returns (validatePath c.path) ∧
      Returns (validateTranslation c.translation) := by
  rw [PrometheusConfig.postInit]
  refine returns_bind_and_iff Iff.rfl fun _ _ => ?_
  rw [hport, ok_bind]
  refine returns_bind_and_iff Iff.rfl fun _ _ => ?_
  rw [returns_bind_iff_of_forall fun _ _ => returns_pure _]

theorem returns_metricsFromEnv_iff {exporters : List CodePoints × List (List Piece)}
    (hexporters : validateExporters exporters.1 = .ok ()) :
    Returns (metricsFromEnv T data exporters) ↔ MetricsAccepted T data := by
  have hprometheus : Returns (prometheusFromEnv T data) ↔
      Returns (parsePort T (data "OTEL_EXPORTER_PROMETHEUS_PORT")) ∧
      IsBoolText T (data "PROVIDE_METRICS_PROMETHEUS_SCOPE_LABELS") ∧
      IsBoolText T (data "PROVIDE_METRICS_PROMETHEUS_TARGET_INFO") ∧
      Returns (validateListen (T.lower (envStr T data "PROVIDE_METRICS_PROMETHEUS_LISTEN" "false")))
      ∧ Returns (validatePath (envStr T data "PROVIDE_METRICS_PROMETHEUS_PATH" "/metrics")) ∧
      Returns (validateTranslation (envStr T data "PROVIDE_METRICS_PROMETHEUS_TRANSLATION"
        "UnderscoreEscapingWithSuffixes")) := by
    rw [prometheusFromEnv]
    refine returns_bind_and_iff Iff.rfl fun _ hport => ?_
    refine returns_bind_and_iff returns_parseEnvBool_iff fun _ _ => ?_
    refine returns_bind_and_iff returns_parseEnvBool_iff fun _ _ => ?_
    exact returns_prometheusPostInit_iff (validatePort_of_parsePort hport)
  rw [metricsAccepted_iff, metricsFromEnv]
  refine returns_bind_and_iff returns_parseEnvBool_iff fun _ _ => ?_
  refine returns_bind_and_iff returns_parseEnvBool_iff fun _ _ => ?_
  rw [← hprometheus]
  refine returns_bind_iff_of_forall fun _ _ => ?_
  rw [MetricsConfig.postInit, hexporters]
  exact returns_pure _

theorem parsePerSignal_eq_ok_iff {α : Type}
    {parse : CodePoints → String → Except ConfigurationError α} {default : String}
    {names : PerSignal String} {values : PerSignal α} :
    parsePerSignal parse data default names = .ok values ↔
      parse (data.get names.logs default) names.logs = .ok values.logs ∧
        parse (data.get names.traces default) names.traces = .ok values.traces ∧
        parse (data.get names.metrics default) names.metrics = .ok values.metrics := by
  rw [parsePerSignal, bind_eq_ok_iff]
  constructor
  · intro ⟨logs, hlogs, h⟩
    obtain ⟨traces, htraces, h⟩ := bind_eq_ok_iff.mp h
    obtain ⟨metrics, hmetrics, h⟩ := bind_eq_ok_iff.mp h
    obtain rfl := Except.ok.inj h
    exact ⟨hlogs, htraces, hmetrics⟩
  · intro ⟨hlogs, htraces, hmetrics⟩
    refine ⟨_, hlogs, bind_eq_ok_iff.mpr ⟨_, htraces, bind_eq_ok_iff.mpr ⟨_, hmetrics, rfl⟩⟩⟩

/-- **The texts for the three signals**, each for a value of a kind. -/
theorem exists_parsePerSignal_iff {α : Type} {P : α → Prop} {R : CodePoints → α → Prop}
    {parse : CodePoints → String → Except ConfigurationError α} {default : String}
    {names : PerSignal String} (hparse : ∀ text name v, parse text name = .ok v ↔ R text v) :
    (∃ values, parsePerSignal parse data default names = .ok values ∧ values.All P) ↔
      names.All fun name => ∃ value, R (data.get name default) value ∧ P value := by
  simp only [parsePerSignal_eq_ok_iff, hparse]
  constructor
  · intro ⟨values, ⟨hlogs, htraces, hmetrics⟩, hall⟩
    exact ⟨⟨_, hlogs, hall.logs⟩, ⟨_, htraces, hall.traces⟩, ⟨_, hmetrics, hall.metrics⟩⟩
  · intro ⟨⟨logs, hlogs, hP⟩, ⟨traces, htraces, hP'⟩, ⟨metrics, hmetrics, hP''⟩⟩
    exact ⟨⟨logs, traces, metrics⟩, ⟨hlogs, htraces, hmetrics⟩, ⟨hP, hP', hP''⟩⟩

theorem SamplingConfig.postInit_eq_ok_iff {c c' : SamplingConfig} :
    c.postInit = .ok c' ↔ c = c' ∧ c.rate.All Number.InUnit :=
  check_bind_eq_ok_iff
    (PerSignal.check_eq_ok_iff (f := validateRate) fun _ _ => validateRate_eq_ok_iff)

/-- The variables of the sampling config are accepted. -/
def SamplingAccepted (T : CaseTables) (data : Env) : Prop :=
  samplingRateVars.All fun name => IsRateText T (data.get name "1.0")

theorem returns_samplingFromEnv_iff :
    Returns (samplingFromEnv T data) ↔ SamplingAccepted T data := by
  rw [samplingFromEnv, returns_bind_iff]
  simp only [Returns, SamplingConfig.postInit_eq_ok_iff, exists_eq_left']
  have hparse : ∀ text name x,
      parseEnvFloat T text name = .ok x ↔ float T.toUnicode text = some x :=
    fun _ _ _ => parseEnvFloat_eq_ok_iff
  exact exists_parsePerSignal_iff hparse

theorem inUnit_of_samplingFromEnv {c : SamplingConfig} (h : samplingFromEnv T data = .ok c) :
    c.rate.All Number.InUnit := by
  obtain ⟨_, -, hinit⟩ := bind_eq_ok_iff.mp h
  obtain ⟨rfl, hall⟩ := SamplingConfig.postInit_eq_ok_iff.mp hinit
  exact hall

theorem BackpressureConfig.postInit_eq_ok_iff {c c' : BackpressureConfig} :
    c.postInit = .ok c' ↔ c = c' ∧ c.maxsize.All (0 ≤ ·) :=
  check_bind_eq_ok_iff 
    (PerSignal.check_eq_ok_iff (f := validateNonNegative) fun _ _ => validateNonNegative_eq_ok_iff)

/-- The variables of the backpressure config are accepted. -/
def BackpressureAccepted (T : CaseTables) (data : Env) : Prop :=
  maxsizeVars.All fun name => IsNatText T (data.get name "0")

theorem returns_backpressureFromEnv_iff :
    Returns (backpressureFromEnv T data) ↔ BackpressureAccepted T data := by
  rw [backpressureFromEnv, returns_bind_iff]
  simp only [Returns, BackpressureConfig.postInit_eq_ok_iff, exists_eq_left']
  have hparse : ∀ text name n, parseEnvInt T text name = .ok n ↔ int T.toUnicode text = some n :=
    fun _ _ _ => parseEnvInt_eq_ok_iff
  exact exists_parsePerSignal_iff hparse

theorem nonneg_of_backpressureFromEnv {c : BackpressureConfig}
    (h : backpressureFromEnv T data = .ok c) : c.maxsize.All (0 ≤ ·) := by
  obtain ⟨_, -, hinit⟩ := bind_eq_ok_iff.mp h
  obtain ⟨rfl, hall⟩ := BackpressureConfig.postInit_eq_ok_iff.mp hinit
  exact hall

/-- **What the constructor of the exporter config checks**: the durations of three signals, but not
that of the shutdown. -/
theorem ExporterPolicyConfig.postInit_eq_ok_iff {c c' : ExporterPolicyConfig} :
    c.postInit = .ok c' ↔ c = c' ∧ c.retries.All (· ≤ maxExportRetries) ∧
      c.backoffSeconds.All (fun x => x.isFinite = true ∧ x.lt .zero = false) ∧
      c.timeoutSeconds.All (fun x => x.isFinite = true ∧ x.lt .zero = false) := by
  have hretries : c.retries.check validateRetriesCeiling
      ⟨"logs_retries", "traces_retries", "metrics_retries"⟩ = .ok () ↔ _ :=
    PerSignal.check_eq_ok_iff (f := validateRetriesCeiling)
      fun _ _ => validateRetriesCeiling_eq_ok_iff
  have hfloats : ∀ (x : PerSignal Number) texts,
      x.check validateFiniteNonNegative texts = .ok () ↔ _ :=
    fun _ _ => PerSignal.check_eq_ok_iff (f := validateFiniteNonNegative)
      fun _ _ => validateFiniteNonNegative_eq_ok_iff
  rw [postInit, bind_eq_ok_iff]
  constructor
  · intro ⟨_, hceiling, h⟩
    obtain ⟨_, hchecked, hc⟩ := bind_eq_ok_iff.mp h
    obtain ⟨_, hbackoff, htimeout⟩ := bind_eq_ok_iff.mp hchecked
    exact ⟨Except.ok.inj hc, hretries.mp hceiling, (hfloats _ _).mp hbackoff,
      (hfloats _ _).mp htimeout⟩
  · intro ⟨hc, hceiling, hbackoff, htimeout⟩
    refine ⟨(), hretries.mpr hceiling, bind_eq_ok_iff.mpr ⟨(), ?_, congrArg Except.ok hc⟩⟩
    exact bind_eq_ok_iff.mpr ⟨(), (hfloats _ _).mpr hbackoff, (hfloats _ _).mpr htimeout⟩

/-- The variables of the exporter config are accepted, but for that of the shutdown. -/
@[mk_iff] structure ExporterAccepted (T : CaseTables) (data : Env) : Prop where
  retries : retriesVars.All fun name => IsRetriesText T (data.get name "0")
  backoffSeconds : backoffVars.All fun name => IsDurationText T (data.get name "0.0")
  timeoutSeconds : timeoutVars.All fun name => IsDurationText T (data.get name "10.0")
  failOpen : failOpenVars.All fun name => IsBoolText T (data name)
  allowBlocking : allowBlockingVars.All fun name => IsBoolText T (data name)

theorem returns_parseBoolPerSignal_iff {default : Bool} {names : PerSignal String} :
    Returns (parseBoolPerSignal T data default names) ↔
      names.All fun name => IsBoolText T (data name) := by
  have h : Returns (parseBoolPerSignal T data default names) ↔ IsBoolText T (data names.logs) ∧
      IsBoolText T (data names.traces) ∧ IsBoolText T (data names.metrics) := by
    rw [parseBoolPerSignal]
    refine returns_bind_and_iff returns_parseEnvBool_iff fun _ _ => ?_
    refine returns_bind_and_iff returns_parseEnvBool_iff fun _ _ => ?_
    rw [returns_bind_iff_of_forall fun _ _ => returns_pure _, returns_parseEnvBool_iff]
  rw [h]
  exact ⟨fun ⟨hlogs, htraces, hmetrics⟩ => ⟨hlogs, htraces, hmetrics⟩,
    fun h => ⟨h.logs, h.traces, h.metrics⟩⟩

/-- **What the exporter config is made of.** -/
theorem exporterFromEnv_eq_ok_iff {c : ExporterPolicyConfig} :
    exporterFromEnv T data = .ok c ↔
      parsePerSignal (parseEnvRetries T) data "0" retriesVars = .ok c.retries ∧
      parsePerSignal (parseDurationFloat T) data "0.0" backoffVars = .ok c.backoffSeconds ∧
      parsePerSignal (parseDurationFloat T) data "10.0" timeoutVars = .ok c.timeoutSeconds ∧
      parseDurationFloat T (data.get shutdownTimeoutVar "5.0") shutdownTimeoutVar =
        .ok c.logsShutdownTimeoutSeconds ∧
      parseBoolPerSignal T data true failOpenVars = .ok c.failOpen ∧
      parseBoolPerSignal T data false allowBlockingVars = .ok c.allowBlockingInEventLoop ∧
      c.postInit = .ok c := by
  rw [exporterFromEnv]
  constructor
  · intro h
    obtain ⟨retries, hretries, h⟩ := bind_eq_ok_iff.mp h
    obtain ⟨backoff, hbackoff, h⟩ := bind_eq_ok_iff.mp h
    obtain ⟨timeout, htimeout, h⟩ := bind_eq_ok_iff.mp h
    obtain ⟨shutdown, hshutdown, h⟩ := bind_eq_ok_iff.mp h
    obtain ⟨failOpen, hfailOpen, h⟩ := bind_eq_ok_iff.mp h
    obtain ⟨allow, hallow, h⟩ := bind_eq_ok_iff.mp h
    obtain ⟨rfl, -⟩ := ExporterPolicyConfig.postInit_eq_ok_iff.mp h
    exact ⟨hretries, hbackoff, htimeout, hshutdown, hfailOpen, hallow, h⟩
  · intro ⟨hretries, hbackoff, htimeout, hshutdown, hfailOpen, hallow, h⟩
    rw [hretries, ok_bind, hbackoff, ok_bind, htimeout, ok_bind, hshutdown, ok_bind, hfailOpen,
      ok_bind, hallow, ok_bind]
    exact h

/-- A finite number that is not negative, as `validate_finite_non_negative` has it. -/
def FiniteNonneg (x : Number) : Prop := x.isFinite = true ∧ x.lt .zero = false

/-- The parser and the constructor together let pass what is in range. -/
theorem exists_durations_iff {default : String} {names : PerSignal String} :
    (∃ values, parsePerSignal (parseDurationFloat T) data default names = .ok values ∧
        values.All FiniteNonneg) ↔
      names.All fun name => IsDurationText T (data.get name default) := by
  have hparse : ∀ text name x, parseDurationFloat T text name = .ok x ↔
      float T.toUnicode text = some x ∧ x.lt .zero = false ∧ maxDurationSeconds.lt x = false :=
    fun _ _ _ => parseDurationFloat_eq_ok_iff
  have htext : ∀ text, (∃ x, (float T.toUnicode text = some x ∧ x.lt .zero = false ∧
      maxDurationSeconds.lt x = false) ∧ FiniteNonneg x) ↔ IsDurationText T text := by
    intro text
    constructor
    · intro ⟨x, ⟨hx, _, hle⟩, hfinite, hnonneg⟩
      exact ⟨x, hx, hfinite, hnonneg, hle⟩
    · intro ⟨x, hx, h⟩
      exact ⟨x, ⟨hx, h.nonneg, h.le⟩, h.finite, h.nonneg⟩
  simp only [exists_parsePerSignal_iff hparse, htext]

theorem exists_retries_iff {default : String} {names : PerSignal String} :
    (∃ values, parsePerSignal (parseEnvRetries T) data default names = .ok values ∧
        values.All (· ≤ maxExportRetries)) ↔
      names.All fun name => IsRetriesText T (data.get name default) := by
  have hparse : ∀ text name n, parseEnvRetries T text name = .ok n ↔
      int T.toUnicode text = some n ∧ n ≤ maxExportRetries :=
    fun _ _ _ => parseEnvRetries_eq_ok_iff
  have htext : ∀ text, (∃ n, (int T.toUnicode text = some n ∧ n ≤ maxExportRetries) ∧
      n ≤ maxExportRetries) ↔ IsRetriesText T text := by
    intro text
    constructor
    · intro ⟨n, hn, _⟩
      exact ⟨n, hn⟩
    · intro ⟨n, hn, hle⟩
      exact ⟨n, ⟨hn, hle⟩, hle⟩
  simp only [exists_parsePerSignal_iff hparse, htext]

/-- **Which exporter configs are accepted**: the duration of the shutdown is only parsed. -/
theorem returns_exporterFromEnv_iff : Returns (exporterFromEnv T data) ↔
    ExporterAccepted T data ∧
      Returns (parseDurationFloat T (data.get shutdownTimeoutVar "5.0") shutdownTimeoutVar) := by
  rw [exporterAccepted_iff, ← exists_retries_iff, ← exists_durations_iff, ← exists_durations_iff]
  constructor
  · intro ⟨c, hc⟩
    obtain ⟨hretries, hbackoff, htimeout, hshutdown, hfailOpen, hallow, hinit⟩ :=
      exporterFromEnv_eq_ok_iff.mp hc
    obtain ⟨-, hceiling, hbackoffs, htimeouts⟩ := ExporterPolicyConfig.postInit_eq_ok_iff.mp hinit
    exact ⟨⟨⟨_, hretries, hceiling⟩, ⟨_, hbackoff, hbackoffs⟩, ⟨_, htimeout, htimeouts⟩,
      returns_parseBoolPerSignal_iff.mp ⟨_, hfailOpen⟩,
      returns_parseBoolPerSignal_iff.mp ⟨_, hallow⟩⟩, ⟨_, hshutdown⟩⟩
  · intro ⟨⟨hr, hb, ht, hf, ha⟩, hs⟩
    obtain ⟨retries, hretries, hceiling⟩ := hr
    obtain ⟨backoff, hbackoff, hbackoffs⟩ := hb
    obtain ⟨timeout, htimeout, htimeouts⟩ := ht
    obtain ⟨shutdown, hshutdown⟩ := hs
    obtain ⟨failOpen, hfailOpen⟩ := returns_parseBoolPerSignal_iff.mpr hf
    obtain ⟨allow, hallow⟩ := returns_parseBoolPerSignal_iff.mpr ha
    refine ⟨⟨retries, backoff, timeout, shutdown, failOpen, allow⟩,
      exporterFromEnv_eq_ok_iff.mpr
        ⟨hretries, hbackoff, htimeout, hshutdown, hfailOpen, hallow, ?_⟩⟩
    exact ExporterPolicyConfig.postInit_eq_ok_iff.mpr ⟨rfl, hceiling, hbackoffs, htimeouts⟩

/-- Parsed and validated durations are in range. -/
theorem inHour_of_parsePerSignal {default : String} {names : PerSignal String}
    {values : PerSignal Number}
    (h : parsePerSignal (parseDurationFloat T) data default names = .ok values)
    (hall : values.All FiniteNonneg) : values.All InHour := by
  obtain ⟨hlogs, htraces, hmetrics⟩ := parsePerSignal_eq_ok_iff.mp h
  have hone : ∀ {text field x}, parseDurationFloat T text field = .ok x → FiniteNonneg x →
      InHour x := fun hx hfinite =>
    ⟨hfinite.1, hfinite.2, (parseDurationFloat_eq_ok_iff.mp hx).2.2⟩
  exact ⟨hone hlogs hall.logs, hone htraces hall.traces, hone hmetrics hall.metrics⟩

/-- The variables of the security config are accepted. -/
@[mk_iff] structure SecurityAccepted (T : CaseTables) (data : Env) : Prop where
  maxAttrValueLength : IsNatText T (data.get "PROVIDE_SECURITY_MAX_ATTR_VALUE_LENGTH" "1024")
  maxAttrCount : IsNatText T (data.get "PROVIDE_SECURITY_MAX_ATTR_COUNT" "64")
  maxNestingDepth : IsNatText T (data.get "PROVIDE_SECURITY_MAX_NESTING_DEPTH" "8")

theorem SecurityConfig.postInit_eq_ok_iff {c c' : SecurityConfig} :
    c.postInit = .ok c' ↔ c = c' ∧ 0 ≤ c.maxAttrValueLength ∧ 0 ≤ c.maxAttrCount ∧
      0 ≤ c.maxNestingDepth := by
  rw [postInit, bind_eq_ok_iff]
  constructor
  · intro ⟨_, hlength, h⟩
    obtain ⟨_, hcount, h⟩ := bind_eq_ok_iff.mp h
    obtain ⟨_, hdepth, h⟩ := bind_eq_ok_iff.mp h
    exact ⟨Except.ok.inj h, validateNonNegative_eq_ok_iff.mp hlength,
      validateNonNegative_eq_ok_iff.mp hcount, validateNonNegative_eq_ok_iff.mp hdepth⟩
  · intro ⟨hc, hlength, hcount, hdepth⟩
    refine ⟨(), validateNonNegative_eq_ok_iff.mpr hlength, ?_⟩
    rw [validateNonNegative_eq_ok_iff.mpr hcount, ok_bind,
      validateNonNegative_eq_ok_iff.mpr hdepth, ok_bind]
    exact congrArg Except.ok hc

theorem returns_securityFromEnv_iff :
    Returns (securityFromEnv T data) ↔ SecurityAccepted T data := by
  rw [securityAccepted_iff, securityFromEnv]
  simp only [returns_bind_iff, parseEnvInt_eq_ok_iff]
  simp only [Returns, SecurityConfig.postInit_eq_ok_iff, exists_eq_left', IsNatText]
  constructor
  · intro ⟨length, hlength, count, hcount, depth, hdepth, hnonneg, hnonneg', hnonneg''⟩
    exact ⟨⟨length, hlength, hnonneg⟩, ⟨count, hcount, hnonneg'⟩, ⟨depth, hdepth, hnonneg''⟩⟩
  · intro ⟨⟨length, hlength, hnonneg⟩, ⟨count, hcount, hnonneg'⟩, ⟨depth, hdepth, hnonneg''⟩⟩
    exact ⟨length, hlength, count, hcount, depth, hdepth, hnonneg, hnonneg', hnonneg''⟩

theorem nonneg_of_securityFromEnv {c : SecurityConfig} (h : securityFromEnv T data = .ok c) :
    0 ≤ c.maxAttrValueLength ∧ 0 ≤ c.maxAttrCount ∧ 0 ≤ c.maxNestingDepth := by
  obtain ⟨_, -, h⟩ := bind_eq_ok_iff.mp h
  obtain ⟨_, -, h⟩ := bind_eq_ok_iff.mp h
  obtain ⟨_, -, h⟩ := bind_eq_ok_iff.mp h
  obtain ⟨rfl, hnonneg⟩ := SecurityConfig.postInit_eq_ok_iff.mp h
  exact hnonneg

theorem returns_schemaFromEnv_iff :
    Returns (schemaFromEnv T data) ↔
      IsBoolText T (data "PROVIDE_TELEMETRY_STRICT_EVENT_NAME") := by
  rw [schemaFromEnv, returns_bind_iff_of_forall fun _ _ => returns_pure _,
    returns_parseEnvBool_iff]

/-- The variables of the SLO config are accepted. -/
@[mk_iff] structure SLOAccepted (T : CaseTables) (data : Env) : Prop where
  enableRedMetrics : IsBoolText T (data "PROVIDE_SLO_ENABLE_RED_METRICS")
  enableUseMetrics : IsBoolText T (data "PROVIDE_SLO_ENABLE_USE_METRICS")
  includeErrorTaxonomy : IsBoolText T (data "PROVIDE_SLO_INCLUDE_ERROR_TAXONOMY")

theorem returns_sloFromEnv_iff : Returns (sloFromEnv T data) ↔ SLOAccepted T data := by
  rw [sLOAccepted_iff, sloFromEnv]
  refine returns_bind_and_iff returns_parseEnvBool_iff fun _ _ => ?_
  refine returns_bind_and_iff returns_parseEnvBool_iff fun _ _ => ?_
  rw [returns_bind_iff_of_forall fun _ _ => returns_pure _, returns_parseEnvBool_iff]

/-! ## The whole -/

/-- **Every variable but that of the shutdown is accepted.** -/
@[mk_iff] structure AcceptedElsewhere (T : CaseTables) (data : Env) : Prop where
  strictConfig : IsBoolText T (data "PROVIDE_TELEMETRY_STRICT_CONFIG")
  exporters : ∀ strict, parseEnvBool T (data "PROVIDE_TELEMETRY_STRICT_CONFIG") false
      "PROVIDE_TELEMETRY_STRICT_CONFIG" = .ok strict →
    Returns (parseMetricsExporters T (data "OTEL_METRICS_EXPORTER") strict)
  strictSchema : IsBoolText T (data "PROVIDE_TELEMETRY_STRICT_SCHEMA")
  piiMaxDepth : IsNatText T (data.get "PROVIDE_LOG_PII_MAX_DEPTH" "8")
  logging : LoggingAccepted T data
  tracing : TracingAccepted T data
  metrics : MetricsAccepted T data
  strictEventName : IsBoolText T (data "PROVIDE_TELEMETRY_STRICT_EVENT_NAME")
  sampling : SamplingAccepted T data
  backpressure : BackpressureAccepted T data
  exporter : ExporterAccepted T data
  slo : SLOAccepted T data
  security : SecurityAccepted T data

theorem TelemetryConfig.postInit_eq_ok_iff {c c' : TelemetryConfig} :
    c.postInit = .ok c' ↔ c = c' ∧ 0 ≤ c.piiMaxDepth :=
  check_bind_eq_ok_iff validateNonNegative_eq_ok_iff

/-- The parts of a config from the environment. -/
structure PartsOf (T : CaseTables) (data : Env) (c : TelemetryConfig) : Prop where
  strictConfig : parseEnvBool T (data "PROVIDE_TELEMETRY_STRICT_CONFIG") false
    "PROVIDE_TELEMETRY_STRICT_CONFIG" = .ok c.strictConfig
  strictSchema : parseEnvBool T (data "PROVIDE_TELEMETRY_STRICT_SCHEMA") false
    "PROVIDE_TELEMETRY_STRICT_SCHEMA" = .ok c.strictSchema
  piiMaxDepth : int T.toUnicode (data.get "PROVIDE_LOG_PII_MAX_DEPTH" "8") = some c.piiMaxDepth
  nonneg : 0 ≤ c.piiMaxDepth
  logging : loggingFromEnv T data = .ok c.logging
  tracing : tracingFromEnv T data = .ok c.tracing
  metrics : ∃ exporters,
    parseMetricsExporters T (data "OTEL_METRICS_EXPORTER") c.strictConfig = .ok exporters ∧
      metricsFromEnv T data exporters = .ok c.metrics
  eventSchema : schemaFromEnv T data = .ok c.eventSchema
  sampling : samplingFromEnv T data = .ok c.sampling
  backpressure : backpressureFromEnv T data = .ok c.backpressure
  exporter : exporterFromEnv T data = .ok c.exporter
  slo : sloFromEnv T data = .ok c.slo
  security : securityFromEnv T data = .ok c.security

/-- **What is returned has its parts from the environment.** -/
theorem partsOf_of_fromEnv {c : TelemetryConfig} (h : fromEnv T data = .ok c) :
    PartsOf T data c := by
  rw [fromEnv] at h
  obtain ⟨strict, hstrict, h⟩ := bind_eq_ok_iff.mp h
  obtain ⟨exporters, hexporters, h⟩ := bind_eq_ok_iff.mp h
  obtain ⟨schema, hschema, h⟩ := bind_eq_ok_iff.mp h
  obtain ⟨depth, hdepth, h⟩ := bind_eq_ok_iff.mp h
  obtain ⟨logging, hlogging, h⟩ := bind_eq_ok_iff.mp h
  obtain ⟨tracing, htracing, h⟩ := bind_eq_ok_iff.mp h
  obtain ⟨metrics, hmetrics, h⟩ := bind_eq_ok_iff.mp h
  obtain ⟨eventSchema, heventSchema, h⟩ := bind_eq_ok_iff.mp h
  obtain ⟨sampling, hsampling, h⟩ := bind_eq_ok_iff.mp h
  obtain ⟨backpressure, hbackpressure, h⟩ := bind_eq_ok_iff.mp h
  obtain ⟨exporter, hexporter, h⟩ := bind_eq_ok_iff.mp h
  obtain ⟨slo, hslo, h⟩ := bind_eq_ok_iff.mp h
  obtain ⟨security, hsecurity, h⟩ := bind_eq_ok_iff.mp h
  obtain ⟨rfl, hnonneg⟩ := TelemetryConfig.postInit_eq_ok_iff.mp h
  exact ⟨hstrict, hschema, parseEnvInt_eq_ok_iff.mp hdepth, hnonneg, hlogging, htracing,
    ⟨exporters, hexporters, hmetrics⟩, heventSchema, hsampling, hbackpressure, hexporter, hslo,
    hsecurity⟩

/-- A config that is returned comes from variables that are all accepted. -/
theorem PartsOf.accepted {c : TelemetryConfig} (h : PartsOf T data c) :
    AcceptedElsewhere T data := by
  obtain ⟨exporters, hexporters, hmetrics⟩ := h.metrics
  have hknown := validateExporters_of_parseMetricsExporters hexporters
  refine
    { strictConfig := returns_parseEnvBool_iff.mp ⟨_, h.strictConfig⟩
      exporters := ?_
      strictSchema := returns_parseEnvBool_iff.mp ⟨_, h.strictSchema⟩
      piiMaxDepth := ⟨_, h.piiMaxDepth, h.nonneg⟩
      logging := returns_loggingFromEnv_iff.mp ⟨_, h.logging⟩
      tracing := returns_tracingFromEnv_iff.mp ⟨_, h.tracing⟩
      metrics := (returns_metricsFromEnv_iff hknown).mp ⟨_, hmetrics⟩
      strictEventName := returns_schemaFromEnv_iff.mp ⟨_, h.eventSchema⟩
      sampling := returns_samplingFromEnv_iff.mp ⟨_, h.sampling⟩
      backpressure := returns_backpressureFromEnv_iff.mp ⟨_, h.backpressure⟩
      exporter := (returns_exporterFromEnv_iff.mp ⟨_, h.exporter⟩).1
      slo := returns_sloFromEnv_iff.mp ⟨_, h.slo⟩
      security := returns_securityFromEnv_iff.mp ⟨_, h.security⟩ }
  intro strict hstrict
  obtain rfl := Except.ok.inj (h.strictConfig.symm.trans hstrict)
  exact ⟨exporters, hexporters⟩

/-- **Which environments are accepted.** -/
theorem returns_fromEnv_iff : Returns (fromEnv T data) ↔ AcceptedElsewhere T data ∧
    Returns (parseDurationFloat T (data.get shutdownTimeoutVar "5.0") shutdownTimeoutVar) := by
  constructor
  · intro ⟨c, hc⟩
    have h := partsOf_of_fromEnv hc
    exact ⟨h.accepted, (returns_exporterFromEnv_iff.mp ⟨_, h.exporter⟩).2⟩
  · intro ⟨h, hshutdown⟩
    obtain ⟨strict, hstrict⟩ := returns_parseEnvBool_iff.mpr h.strictConfig
    obtain ⟨exporters, hexporters⟩ := h.exporters strict hstrict
    have hknown := validateExporters_of_parseMetricsExporters hexporters
    obtain ⟨schema, hschema⟩ := returns_parseEnvBool_iff.mpr h.strictSchema
    obtain ⟨depth, hdepth, hnonneg⟩ := h.piiMaxDepth
    obtain ⟨logging, hlogging⟩ := returns_loggingFromEnv_iff.mpr h.logging
    obtain ⟨tracing, htracing⟩ := returns_tracingFromEnv_iff.mpr h.tracing
    obtain ⟨metrics, hmetrics⟩ := (returns_metricsFromEnv_iff hknown).mpr h.metrics
    obtain ⟨eventSchema, heventSchema⟩ := returns_schemaFromEnv_iff.mpr h.strictEventName
    obtain ⟨sampling, hsampling⟩ := returns_samplingFromEnv_iff.mpr h.sampling
    obtain ⟨backpressure, hbackpressure⟩ := returns_backpressureFromEnv_iff.mpr h.backpressure
    obtain ⟨exporter, hexporter⟩ := returns_exporterFromEnv_iff.mpr ⟨h.exporter, hshutdown⟩
    obtain ⟨slo, hslo⟩ := returns_sloFromEnv_iff.mpr h.slo
    obtain ⟨security, hsecurity⟩ := returns_securityFromEnv_iff.mpr h.security
    rw [fromEnv, hstrict, ok_bind, hexporters, ok_bind, hschema, ok_bind,
      parseEnvInt_eq_ok_iff.mpr hdepth, ok_bind, hlogging, ok_bind, htracing, ok_bind, hmetrics,
      ok_bind, heventSchema, ok_bind, hsampling, ok_bind, hbackpressure, ok_bind, hexporter,
      ok_bind, hslo, ok_bind, hsecurity, ok_bind]
    exact ⟨_, TelemetryConfig.postInit_eq_ok_iff.mpr ⟨rfl, hnonneg⟩⟩

/-- **A config that is returned is in range** but for the duration of the shutdown. -/
theorem PartsOf.inRange {c : TelemetryConfig} (h : PartsOf T data c)
    (hshutdown : InHour c.exporter.logsShutdownTimeoutSeconds) : InRange c := by
  obtain ⟨hlevel, hlevels⟩ := knownLevel_of_loggingFromEnv h.logging
  obtain ⟨hlength, hcount, hdepth⟩ := nonneg_of_securityFromEnv h.security
  obtain ⟨-, hbackoff, htimeout, -, -, -, hinit⟩ := exporterFromEnv_eq_ok_iff.mp h.exporter
  obtain ⟨-, hretries, hbackoffs, htimeouts⟩ := ExporterPolicyConfig.postInit_eq_ok_iff.mp hinit
  exact
    { level := hlevel
      moduleLevels := hlevels
      sampleRate := inUnit_of_tracingFromEnv h.tracing
      rate := inUnit_of_samplingFromEnv h.sampling
      maxsize := nonneg_of_backpressureFromEnv h.backpressure
      maxAttrValueLength := hlength
      maxAttrCount := hcount
      maxNestingDepth := hdepth
      piiMaxDepth := h.nonneg
      retries := hretries
      backoffSeconds := inHour_of_parsePerSignal hbackoff hbackoffs
      timeoutSeconds := inHour_of_parsePerSignal htimeout htimeouts
      logsShutdownTimeoutSeconds := hshutdown }

/-- **What is accepted is in range** iff the duration of the shutdown does not spell `nan`, or
another variable is refused. -/
theorem acceptsInRange_iff (T : CaseTables) (data : Env) : AcceptsInRange T data ↔
    ¬ (float T.toUnicode (data.get shutdownTimeoutVar "5.0") = some .nan ∧
      AcceptedElsewhere T data) := by
  constructor
  · intro hrange ⟨hnan, haccepted⟩
    have hparsed : parseDurationFloat T (data.get shutdownTimeoutVar "5.0") shutdownTimeoutVar =
        .ok .nan := parseDurationFloat_eq_ok_iff.mpr ⟨hnan, rfl, rfl⟩
    obtain ⟨c, hc⟩ := returns_fromEnv_iff.mpr ⟨haccepted, _, hparsed⟩
    obtain ⟨-, -, -, hshutdown, -⟩ :=
      exporterFromEnv_eq_ok_iff.mp (partsOf_of_fromEnv hc).exporter
    have heq := Except.ok.inj (hparsed.symm.trans hshutdown)
    exact not_inHour_nan (heq ▸ (hrange c hc).logsShutdownTimeoutSeconds)
  · intro hnot c hc
    have h := partsOf_of_fromEnv hc
    obtain ⟨-, -, -, hshutdown, -⟩ := exporterFromEnv_eq_ok_iff.mp h.exporter
    obtain ⟨hfloat, hnonneg, hle⟩ := parseDurationFloat_eq_ok_iff.mp hshutdown
    obtain hnan | hin := eq_nan_or_inHour hnonneg hle
    · exact absurd ⟨hnan ▸ hfloat, h.accepted⟩ hnot
    · exact h.inRange hin

/-- An environment in which one variable is set. -/
def oneVar (name value : String) : Env := fun n =>
  if n = name then some (CodePoints.ofString value) else none

/-- An environment that sets nothing but the duration of the shutdown, to `nan`, is accepted, and
the config has it. -/
theorem accepts_nan_for_shutdown :
    ∃ c, fromEnv asciiCase (oneVar shutdownTimeoutVar "nan") = .ok c ∧
      c.exporter.logsShutdownTimeoutSeconds = .nan ∧
      ¬ AcceptsInRange asciiCase (oneVar shutdownTimeoutVar "nan") := by
  have hc : fromEnv asciiCase (oneVar shutdownTimeoutVar "nan") =
      .ok { exporter := { logsShutdownTimeoutSeconds := .nan } } := by decide +kernel
  refine ⟨_, hc, rfl, fun hrange => ?_⟩
  exact not_inHour_nan (hrange _ hc).logsShutdownTimeoutSeconds

end Telemetry.Config.Python
