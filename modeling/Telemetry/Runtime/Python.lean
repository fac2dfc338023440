import Mathlib.Data.String.Basic
import Telemetry.Lib.Number
import Telemetry.Lib.Program
import Telemetry.Lib.SortedMap

/-!
# Configs and policies of the Python SDK

A `TelemetryConfig` says, among other things, how each signal is sampled, how long its queue may
get and how its exporter retries. `apply_policies` writes that into the modules of the signals, one
setter after another, and `set_sampling_policy` clamps its rates on the way. The blocks under
`rolled_back_on_failure` put back what was in force when they began.

## Main definitions

* `TelemetryConfig`, `RuntimeOverrides` — configs and what may be changed in them at runtime.
* `Policies`, `applyPolicies`, `rolledBackOnFailure` — what is in force.
* `policiesOf` — what a config asks for.

## Main results

* `exec_applyPolicies` — what `apply_policies` leaves behind.
* `exec_rolledBackOnFailure` — what a failing block leaves behind.
-/

namespace Telemetry.Runtime.Python

open Telemetry.Lib

/-- A signal, `"logs"`, `"traces"` or `"metrics"`. -/
inductive Signal
  | logs
  | traces
  | metrics
  deriving DecidableEq, Repr

/-! ## Configs -/

/-- `LoggingConfig`. The order of a `dict` does not matter. -/
structure LoggingConfig where
  level : String := "INFO"
  fmt : String := "console"
  includeTimestamp : Bool := true
  includeCaller : Bool := true
  sanitize : Bool := true
  otlpEndpoint : Option String := none
  otlpEnabled : Bool := true
  otlpHeaders : SortedMap String String := .empty
  logCodeAttributes : Bool := false
  prettyKeyColor : String := "dim"
  prettyValueColor : String := ""
  prettyFields : List String := []
  moduleLevels : SortedMap String String := .empty
  deriving DecidableEq

/-- `TracingConfig`, as far as it is read here. -/
structure TracingConfig where
  sampleRate : Number := .one

/-- `SchemaConfig`. -/
structure SchemaConfig where
  strictEventName : Bool := false
  requiredKeys : List String := []

/-- `SamplingConfig`: `logs_rate`, `traces_rate` and `metrics_rate`. -/
structure SamplingConfig where
  rate : Signal → Number := fun _ => .one

/-- `BackpressureConfig`: `logs_maxsize`, `traces_maxsize` and `metrics_maxsize`. -/
structure BackpressureConfig where
  maxsize : Signal → ℤ := fun _ => 0

/-- `ExporterPolicyConfig`, with a field for each signal under its name. -/
structure ExporterPolicyConfig where
  retries : Signal → ℤ := fun _ => 0
  backoffSeconds : Signal → Number := fun _ => .zero
  timeoutSeconds : Signal → Number := fun _ => .ofRat 10
  logsShutdownTimeoutSeconds : Number := .ofRat 5
  failOpen : Signal → Bool := fun _ => true
  allowBlockingInEventLoop : Signal → Bool := fun _ => false

/-- `SLOConfig`. -/
structure SLOConfig where
  enableRedMetrics : Bool := false
  enableUseMetrics : Bool := false
  includeErrorTaxonomy : Bool := true

/-- `SecurityConfig`. -/
structure SecurityConfig where
  maxAttrValueLength : ℤ := 1024
  maxAttrCount : ℤ := 64
  maxNestingDepth : ℤ := 8

/-- `RuntimeOverrides`. -/
structure RuntimeOverrides where
  sampling : Option SamplingConfig := none
  backpressure : Option BackpressureConfig := none
  exporter : Option ExporterPolicyConfig := none
  security : Option SecurityConfig := none
  slo : Option SLOConfig := none
  piiMaxDepth : Option ℤ := none
  strictSchema : Option Bool := none
  logging : Option LoggingConfig := none
  eventSchema : Option SchemaConfig := none

/-- `TelemetryConfig`, as far as it is read here. -/
structure TelemetryConfig where
  serviceName : String := "provide-service"
  environment : String := "dev"
  version : String := "0.0.0"
  strictSchema : Bool := false
  piiMaxDepth : ℤ := 8
  logging : LoggingConfig := {}
  tracing : TracingConfig := {}
  eventSchema : SchemaConfig := {}
  sampling : SamplingConfig := {}
  backpressure : BackpressureConfig := {}
  exporter : ExporterPolicyConfig := {}
  slo : SLOConfig := {}
  security : SecurityConfig := {}

/-! ## Policies -/

/-- `SamplingPolicy`. -/
structure SamplingPolicy where
  defaultRate : Number := .one
  overrides : SortedMap String Number := .empty

/-- `QueuePolicy`. -/
structure QueuePolicy where
  maxsize : Signal → ℤ := fun _ => 0

/-- `ExporterPolicy`. -/
structure ExporterPolicy where
  retries : ℤ := 0
  backoffSeconds : Number := .zero
  timeoutSeconds : Number := .ofRat 10
  failOpen : Bool := true
  allowBlockingInEventLoop : Bool := false

/-- `min(a, b)`. -/
def min (a b : Number) : Number := if b.lt a then b else a

/-- `max(a, b)`. -/
def max (a b : Number) : Number := if a.lt b then b else a

/-- `_normalize_rate`. -/
def normalizeRate (rate : Number) : Number := max .zero (min .one rate)

/-- Every rate is between zero and one. -/
structure SamplingPolicy.Normalized (policy : SamplingPolicy) : Prop where
  defaultRate : policy.defaultRate.InUnit
  overrides : ∀ key rate, (key, rate) ∈ policy.overrides.entries → rate.InUnit

/-- What `set_sampling_policy` stores. -/
def SamplingPolicy.normalize (policy : SamplingPolicy) : SamplingPolicy where
  defaultRate := normalizeRate policy.defaultRate
  overrides := policy.overrides.mapValues normalizeRate

theorem normalizeRate_inUnit (rate : Number) : (normalizeRate rate).InUnit := by
  cases rate with
  | nan => decide
  | num x =>
      simp only [normalizeRate, min, max, Number.one, Number.zero, Number.lt_num]
      by_cases hone : x < 1
      · by_cases hzero : 0 < x
        · simp [hone, hzero, Number.InUnit, hzero.le, hone.le]
        · simp [hone, hzero, Number.InUnit]
      · have hlt : (0 : WithBot (WithTop ℚ)) < 1 := by decide
        simp [hone, hlt, Number.InUnit]

/-- **Clamping changes nothing between zero and one**, and only there. -/
theorem normalizeRate_eq_iff {rate : Number} : normalizeRate rate = rate ↔ rate.InUnit := by
  constructor
  · intro h
    rw [← h]
    exact normalizeRate_inUnit rate
  · intro h
    cases rate with
    | nan => exact h.elim
    | num x =>
        obtain ⟨hzero, hone⟩ := h
        simp only [normalizeRate, min, max, Number.one, Number.zero, Number.lt_num]
        obtain hlt | rfl := lt_or_eq_of_le hone
        · obtain hpos | rfl := lt_or_eq_of_le hzero
          · simp [hlt, hpos]
          · simp [hlt]
        · simp

theorem SamplingPolicy.normalized_normalize (policy : SamplingPolicy) :
    policy.normalize.Normalized := by
  constructor
  · exact normalizeRate_inUnit _
  · intro key rate h
    obtain ⟨e, -, he⟩ := List.mem_map.mp h
    obtain ⟨-, rfl⟩ := Prod.mk.inj he
    exact normalizeRate_inUnit _

theorem SamplingPolicy.normalize_eq_iff {policy : SamplingPolicy} :
    policy.normalize = policy ↔ policy.Normalized := by
  constructor
  · intro h
    rw [← h]
    exact policy.normalized_normalize
  · intro h
    obtain ⟨defaultRate, ⟨entries, hsorted⟩⟩ := policy
    simp only [normalize, SamplingPolicy.mk.injEq, SortedMap.mapValues, SortedMap.mk.injEq]
    constructor
    · exact normalizeRate_eq_iff.mpr h.defaultRate
    · calc
        entries.map (fun e => (e.1, normalizeRate e.2)) = entries.map id :=
          List.map_congr_left fun e he =>
            Prod.ext rfl (normalizeRate_eq_iff.mpr (h.overrides _ _ he))
        _ = entries := List.map_id entries

/-- What is in force. Every rate has been clamped. -/
@[ext] structure Policies where
  sampling : Signal → SamplingPolicy
  queue : QueuePolicy
  exporter : Signal → ExporterPolicy
  normalized : ∀ signal, (sampling signal).Normalized

/-- The policies before anything is set. -/
def Policies.default : Policies where
  sampling := fun _ => {}
  queue := {}
  exporter := fun _ => {}
  normalized := by
    intro signal
    constructor
    · decide
    · intro key rate h
      cases h

/-- The rate at which a config has a signal sampled. -/
def TelemetryConfig.rate (config : TelemetryConfig) : Signal → Number
  | .logs => config.sampling.rate .logs
  | .traces => min (config.sampling.rate .traces) config.tracing.sampleRate
  | .metrics => config.sampling.rate .metrics

/-- The policy that a config asks for. -/
def TelemetryConfig.samplingPolicy (config : TelemetryConfig) (signal : Signal) :
    SamplingPolicy where
  defaultRate := config.rate signal

def TelemetryConfig.queuePolicy (config : TelemetryConfig) : QueuePolicy where
  maxsize := config.backpressure.maxsize

def TelemetryConfig.exporterPolicy (config : TelemetryConfig) (signal : Signal) :
    ExporterPolicy where
  retries := config.exporter.retries signal
  backoffSeconds := config.exporter.backoffSeconds signal
  timeoutSeconds := config.exporter.timeoutSeconds signal
  failOpen := config.exporter.failOpen signal
  allowBlockingInEventLoop := config.exporter.allowBlockingInEventLoop signal

/-- The policies in force are those that a config asks for. -/
structure Policies.AsConfigured (p : Policies) (config : TelemetryConfig) : Prop where
  sampling : ∀ signal, p.sampling signal = config.samplingPolicy signal
  queue : p.queue = config.queuePolicy
  exporter : ∀ signal, p.exporter signal = config.exporterPolicy signal

/-- What comes into force of the policies of a config. -/
def TelemetryConfig.installed (config : TelemetryConfig) : Policies where
  sampling := fun signal => (config.samplingPolicy signal).normalize
  queue := config.queuePolicy
  exporter := config.exporterPolicy
  normalized := fun _ => SamplingPolicy.normalized_normalize _

theorem TelemetryConfig.samplingPolicy_normalized_iff {config : TelemetryConfig} {signal : Signal} :
    (config.samplingPolicy signal).Normalized ↔ (config.rate signal).InUnit := by
  constructor
  · exact fun h => h.defaultRate
  · intro h
    constructor
    · exact h
    · intro key rate hmem
      cases hmem

/-- **A config gets what it asks for** if no rate needs clamping. -/
theorem TelemetryConfig.asConfigured_installed_iff {config : TelemetryConfig} :
    config.installed.AsConfigured config ↔ ∀ signal, (config.rate signal).InUnit := by
  constructor
  · intro h signal
    exact samplingPolicy_normalized_iff.mp (SamplingPolicy.normalize_eq_iff.mp (h.sampling signal))
  · intro h
    constructor
    · intro signal
      exact SamplingPolicy.normalize_eq_iff.mpr (samplingPolicy_normalized_iff.mpr (h signal))
    · rfl
    · exact fun _ => rfl

/-! ## The state of the SDK -/

/-- `LifecycleGeneration`. -/
structure LifecycleGeneration where
  number : ℕ := 0
  config : Option TelemetryConfig := none
  setupDone : Bool := false

/-- The handlers behind the root logger: those from before the SDK, or those of a config. -/
inductive Handlers
  | host
  | of (config : LoggingConfig)
  deriving DecidableEq

/-- What structlog has been configured with. -/
inductive Processors
  | default
  | of (config : LoggingConfig)
  | emergency
  deriving DecidableEq

/-- The installed logging pipeline. -/
structure Pipeline where
  handlers : Handlers := .host
  processors : Processors := .default
  deriving DecidableEq

/-- The pipeline of a config. -/
def LoggingConfig.pipeline (config : LoggingConfig) : Pipeline := ⟨.of config, .of config⟩

/-- The modules of the SDK. -/
structure World where
  policies : Policies := .default
  generation : LifecycleGeneration := {}
  pipeline : Pipeline := {}
  /-- `_has_real_otel_log_provider()` -/
  hasRealOtelLogProvider : Bool := false

/-- What is raised. -/
inductive Raised
  | configurationError
  | providerImmutableError
  /-- By a step that has been interrupted. -/
  | interrupted
  /-- An `Exception` of the rebuild of the logging pipeline. -/
  | rebuildError
  deriving DecidableEq, Repr

/-- A function of the SDK. -/
abbrev Py (α : Type) := Program Raised World α

/-! ## Setting the policies -/

/-- The setters, each for its signal. -/
inductive Setter
  | sampling (signal : Signal)
  | queue
  | exporter (signal : Signal)
  deriving DecidableEq, Repr

namespace World

def setSampling (signal : Signal) (policy : SamplingPolicy) (w : World) : World :=
  { w with policies := { w.policies with
      sampling := Function.update w.policies.sampling signal policy.normalize
      normalized := by
        intro other
        rw [Function.update_apply]
        split
        · exact policy.normalized_normalize
        · exact w.policies.normalized other } }

def setQueue (policy : QueuePolicy) (w : World) : World :=
  { w with policies := { w.policies with queue := policy } }

def setExporter (signal : Signal) (policy : ExporterPolicy) (w : World) : World :=
  { w with policies := { w.policies with
      exporter := Function.update w.policies.exporter signal policy } }

end World

/-- `set_sampling_policy`. -/
def setSamplingPolicy (i : Interruption) (signal : Signal) (policy : SamplingPolicy) : Py Unit :=
  .step i .interrupted (World.setSampling signal policy)

/-- `set_queue_policy`. -/
def setQueuePolicy (i : Interruption) (policy : QueuePolicy) : Py Unit :=
  .step i .interrupted (World.setQueue policy)

/-- `set_exporter_policy`. -/
def setExporterPolicy (i : Interruption) (signal : Signal) (policy : ExporterPolicy) : Py Unit :=
  .step i .interrupted (World.setExporter signal policy)

/-- `apply_policies`. Each setter may be interrupted. -/
def applyPolicies (i : Setter → Interruption) (snapshot : TelemetryConfig) : Py Unit := do
  setSamplingPolicy (i (.sampling .logs)) .logs { defaultRate := snapshot.sampling.rate .logs }
  setSamplingPolicy (i (.sampling .traces)) .traces
    { defaultRate := min (snapshot.sampling.rate .traces) snapshot.tracing.sampleRate }
  setSamplingPolicy (i (.sampling .metrics)) .metrics
    { defaultRate := snapshot.sampling.rate .metrics }
  setQueuePolicy (i .queue) { maxsize := snapshot.backpressure.maxsize }
  setExporterPolicy (i (.exporter .logs)) .logs (snapshot.exporterPolicy .logs)
  setExporterPolicy (i (.exporter .traces)) .traces (snapshot.exporterPolicy .traces)
  setExporterPolicy (i (.exporter .metrics)) .metrics (snapshot.exporterPolicy .metrics)

/-- `_SIGNALS`. -/
def signals : List Signal := [.logs, .traces, .metrics]

/-- `rolled_back_on_failure`, around a block. -/
def rolledBackOnFailure {α : Type} (block : Py α) : Py α := do
  let w ← get
  block.onRaise do
    signals.forM fun signal => setSamplingPolicy .none signal (w.policies.sampling signal)
    setQueuePolicy .none w.policies.queue
    signals.forM fun signal => setExporterPolicy .none signal (w.policies.exporter signal)

/-! ## What the setters leave behind -/

/-- Everything but the policies. -/
def World.rest (w : World) : World := { w with policies := .default }

def World.withPolicies (w : World) (p : Policies) : World := { w with policies := p }

theorem World.eq_withPolicies {w w' : World} (h : w'.rest = w.rest) :
    w' = w.withPolicies w'.policies := by
  obtain ⟨policies, generation, pipeline, provider⟩ := w
  obtain ⟨policies', generation', pipeline', provider'⟩ := w'
  cases h
  rfl

theorem keeps_setSamplingPolicy (i : Interruption) (signal : Signal) (policy : SamplingPolicy) :
    Program.Keeps World.rest (setSamplingPolicy i signal policy) := by
  refine .step ?_ i _
  intro w
  rfl

theorem keeps_setQueuePolicy (i : Interruption) (policy : QueuePolicy) :
    Program.Keeps World.rest (setQueuePolicy i policy) := by
  refine .step ?_ i _
  intro w
  rfl

theorem keeps_setExporterPolicy (i : Interruption) (signal : Signal) (policy : ExporterPolicy) :
    Program.Keeps World.rest (setExporterPolicy i signal policy) := by
  refine .step ?_ i _
  intro w
  rfl

variable {i : Setter → Interruption} {config : TelemetryConfig} {w w' : World}

/-- Interrupted or not, `apply_policies` touches nothing but the policies. -/
theorem keeps_applyPolicies (i : Setter → Interruption) (config : TelemetryConfig) :
    Program.Keeps World.rest (applyPolicies i config) :=
  (keeps_setSamplingPolicy _ _ _).bind fun _ =>
  (keeps_setSamplingPolicy _ _ _).bind fun _ =>
  (keeps_setSamplingPolicy _ _ _).bind fun _ =>
  (keeps_setQueuePolicy _ _).bind fun _ =>
  (keeps_setExporterPolicy _ _ _).bind fun _ =>
  (keeps_setExporterPolicy _ _ _).bind fun _ =>
  keeps_setExporterPolicy _ _ _

theorem forall_signal {P : Signal → Prop} :
    (∀ signal, P signal) ↔ P .logs ∧ P .traces ∧ P .metrics := by
  constructor
  · exact fun h => ⟨h _, h _, h _⟩
  · intro ⟨hlogs, htraces, hmetrics⟩ signal
    cases signal with
    | logs => exact hlogs
    | traces => exact htraces
    | metrics => exact hmetrics

theorem forall_setter {P : Setter → Prop} :
    (∀ setter, P setter) ↔
      (∀ signal, P (.sampling signal)) ∧ P .queue ∧ ∀ signal, P (.exporter signal) := by
  constructor
  · exact fun h => ⟨fun _ => h _, h _, fun _ => h _⟩
  · intro ⟨hsampling, hqueue, hexporter⟩ setter
    cases setter with
    | sampling signal => exact hsampling signal
    | queue => exact hqueue
    | exporter signal => exact hexporter signal

/-- The setters in a row replace all policies. -/
theorem setters_eq (w : World) (config : TelemetryConfig) :
    (World.setExporter .metrics (config.exporterPolicy .metrics) <|
      World.setExporter .traces (config.exporterPolicy .traces) <|
      World.setExporter .logs (config.exporterPolicy .logs) <|
      World.setQueue config.queuePolicy <|
      World.setSampling .metrics (config.samplingPolicy .metrics) <|
      World.setSampling .traces (config.samplingPolicy .traces) <|
      World.setSampling .logs (config.samplingPolicy .logs) w) =
    w.withPolicies config.installed := by
  refine World.eq_withPolicies rfl |>.trans (congrArg _ ?_)
  ext1
  · funext signal
    cases signal <;> rfl
  · rfl
  · funext signal
    cases signal <;> rfl

/-- **When `apply_policies` returns**, and what it has put in force. -/
theorem exec_applyPolicies_eq_ok {u : Unit} :
    (applyPolicies i config).exec w = (.ok u, w') ↔
      (∀ setter, i setter = .none) ∧ w' = w.withPolicies config.installed := by
  rw [forall_setter, forall_signal, forall_signal, ← setters_eq]
  simp only [applyPolicies, setSamplingPolicy, setQueuePolicy, setExporterPolicy,
    Program.exec_bind_eq_ok, Program.exec_step_eq_ok]
  constructor
  · rintro ⟨-, -, ⟨h₁, rfl⟩, -, -, ⟨h₂, rfl⟩, -, -, ⟨h₃, rfl⟩, -, -, ⟨h₄, rfl⟩, -, -, ⟨h₅, rfl⟩,
      -, -, ⟨h₆, rfl⟩, h₇, rfl⟩
    exact ⟨⟨⟨h₁, h₂, h₃⟩, h₄, h₅, h₆, h₇⟩, rfl⟩
  · intro ⟨⟨⟨h₁, h₂, h₃⟩, h₄, h₅, h₆, h₇⟩, hw⟩
    exact ⟨(), _, ⟨h₁, rfl⟩, (), _, ⟨h₂, rfl⟩, (), _, ⟨h₃, rfl⟩, (), _, ⟨h₄, rfl⟩, (), _,
      ⟨h₅, rfl⟩, (), _, ⟨h₆, rfl⟩, h₇, hw⟩

/-- The handler of `rolled_back_on_failure` puts the policies back, as they have been clamped
already. -/
theorem exec_rollback (p : Policies) (w : World) :
    (do
      signals.forM fun signal => setSamplingPolicy .none signal (p.sampling signal)
      setQueuePolicy .none p.queue
      signals.forM fun signal => setExporterPolicy .none signal (p.exporter signal) :
      Py Unit).exec w = (.ok (), w.withPolicies p) := by
  have hsame : ∀ signal, (p.sampling signal).normalize = p.sampling signal :=
    fun signal => SamplingPolicy.normalize_eq_iff.mpr (p.normalized signal)
  simp only [signals, List.forM_eq_forM, List.forM_cons, List.forM_nil, setSamplingPolicy,
    setQueuePolicy, setExporterPolicy, Program.exec_bind, Program.exec_step, Program.exec_pure,
    Prod.mk.injEq, true_and]
  refine World.eq_withPolicies rfl |>.trans (congrArg _ ?_)
  ext1
  · funext signal
    cases signal <;> exact hsame _
  · rfl
  · funext signal
    cases signal <;> rfl

/-- **A failing block leaves the policies as they were.** -/
theorem exec_rolledBackOnFailure {α : Type} (block : Py α) (w : World) :
    (rolledBackOnFailure block).exec w =
      match block.exec w with
      | (.ok a, w') => (.ok a, w')
      | (.error e, w') => (.error e, w'.withPolicies w.policies) := by
  rw [rolledBackOnFailure, Program.exec_bind, Program.exec_get]
  simp only [Program.exec_onRaise, exec_rollback]
  cases block.exec w with
  | mk r w' => cases r <;> rfl

end Telemetry.Runtime.Python
