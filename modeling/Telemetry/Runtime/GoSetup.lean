import Telemetry.Runtime.Go

/-!
# A setup of the Go SDK that fails

`setup.go`, `setup_rollback.go` and `backend.go`. `SetupTelemetry` writes all over the process
before it knows whether its backend can be wired, because the backend asks for what was written.
So it remembers the process first, and where the wiring fails it puts back what it remembered.

What it remembers is a list made by hand. The channels of the queues are in it, so that a ticket
that is still out goes back to where it came from. The default tracer need not be: it is bound only
once the backend is wired. The recorded setup error is not in it either, but is overwritten before
the wiring; so a setup that fails leaves there what the rejected config had to report.

Loggers, writers, sinks and tracers are known by their numbers, and the ones that are made take
the next. What is logged after a setup has succeeded is left out.

## Main definitions

* `Process` — what a setup writes; `Environment`, `Backend`, `SetupOption` — what it reads.
* `captureProcessState`, `restoreProcessState`, `setupTelemetry`.
* `LeftAsFound` — every piece of the process is what it was.

## Main results

* `leftAsFound_iff` — **a failed setup leaves the process as it found it** iff it was refused
  before it wrote anything, or recorded the setup error that was recorded before.
* `logOutput_of_failed` — what the standard library's `log` is left with.
-/

namespace Telemetry.Runtime.GoSetup

open Telemetry.Lib Telemetry.Backpressure.Go Telemetry.Runtime.Go

/-! ## What a setup reads -/

/-- What is only ever compared: which one it is. -/
abbrev Ref := ℕ

/-- `TelemetryConfig`, with the entries of `OTEL_METRICS_EXPORTER` that were ignored. -/
structure Config extends TelemetryConfig where
  exporterWarnings : List String := []

/-- What an `io.Writer` turns out to be. -/
inductive WriterKind
  /-- An `*os.File`. -/
  | file
  /-- It has an `IsTerminal() bool`, and this is what that answers. -/
  | declared (isTerminal : Bool)
  | other
  deriving DecidableEq

/-- A writer. It may be a nil pointer inside an interface that is not nil. -/
structure Writer where
  ref : Ref
  kind : WriterKind := .other
  nilPointer : Bool := false
  deriving DecidableEq

/-- `_writerIsNil`. -/
def writerIsNil : Option Writer → Bool
  | none => true
  | some w => w.nilPointer

/-- The options that a host can pass. -/
inductive SetupOption
  | withConfig (cfg : Option Config)
  | withTracerProvider (tp : Option Ref)
  | withMeterProvider (mp : Option Ref)
  | withLoggerProvider (lp : Option Ref)
  | withLogOutput (w : Option Writer)

/-- `BackendSetupState`: the providers that the host gave. -/
structure BackendSetupState where
  tracerProvider : Option Ref := none
  meterProvider : Option Ref := none
  loggerProvider : Option Ref := none

/-- `_setupState`. -/
structure SetupState extends BackendSetupState where
  config : Option Config := none
  logOutput : Option Writer := none
  logOutputSet : Bool := false

/-- An option; `WithConfig` of nothing is ignored. -/
def SetupOption.apply (state : SetupState) : SetupOption → SetupState
  | .withConfig none => state
  | .withConfig (some cfg) => { state with config := some cfg }
  | .withTracerProvider tp => { state with tracerProvider := tp }
  | .withMeterProvider mp => { state with meterProvider := mp }
  | .withLoggerProvider lp => { state with loggerProvider := lp }
  | .withLogOutput w => { state with logOutput := w, logOutputSet := true }

/-- The options in their order. -/
def applyOptions (opts : List SetupOption) : SetupState := opts.foldl SetupOption.apply {}

/-- What a backend's `Setup` does: the texts it reports, in order, and its error. -/
structure BackendOutcome where
  reported : List String := []
  error : Option String := none

/-- `Backend`, as far as a setup calls it. -/
structure Backend where
  setup : Config → BackendSetupState → BackendOutcome
  providers : SignalStatus := {}
  tracer : String → Option Ref := fun _ => none
  loggerHandler : String → Option Ref := fun _ => none

/-- What surrounds the process. -/
structure Environment where
  /-- What `ConfigFromEnv` answers. -/
  configFromEnv : Except String Config
  /-- `PROVIDE_CONSENT_LEVEL`, empty where it is not set. -/
  consentLevel : String := ""
  /-- The backend that is registered and active. -/
  backend : Option Backend := none
  stderr : Writer := ⟨0, .file, false⟩
  /-- `_prepareConsole` on a file: whether its console renders ANSI, and the restore function. -/
  prepareConsole : Ref → Bool × Option Ref := fun _ => (false, none)
  /-- `_terminalRendersANSI` on a file, with what `_consoleANSIEnabled` says. -/
  terminalRendersANSI : Ref → Bool → Bool := fun _ _ => false

/-! ## The process -/

/-- `ConsentLevel`. -/
inductive ConsentLevel
  | full
  | functional
  | minimal
  | none
  deriving DecidableEq

/-- `_logSink`. -/
structure LogSink where
  ref : Ref
  w : Writer
  colors : Bool

/-- A backend's bridge below the telemetry handler, wrapped or not. -/
structure Bridge where
  handler : Ref
  codeAttributes : Bool

/-- The handler of a logger. -/
inductive Handler
  /-- The standard library's, which writes to wherever `log` writes. -/
  | standard
  /-- One of the host's. -/
  | host (ref : Ref)
  /-- `_telemetryHandler`; without a sink it writes to the standard error. -/
  | telemetry (cfg : Config) (sink : Option LogSink) (bridge : Option Bridge)

/-- `*slog.Logger`. -/
structure Logger where
  ref : Ref
  handler : Handler

/-- `Tracer`. -/
inductive Tracer
  | noop
  | other (ref : Ref)

/-- `_consolePrep`. What the restore function does to the console is not in the process. -/
structure ConsolePrep where
  restore : Option Ref := none
  ansi : Bool := false

/-- `runtimeGeneration`. -/
structure Generation where
  number : ℕ
  config : Config
  logger : Option Logger

/-- The process, as far as a setup writes it. -/
structure Process where
  samplingPolicies : SortedMap String SamplingPolicy := .empty
  queues : Queues := {}
  exporterPolicies : SortedMap String ExporterPolicy := .empty
  strictSchema : Bool := false
  consentLevel : ConsentLevel := .full
  consentEnvWarned : Bool := false
  logger : Option Logger := none
  slogDefault : Logger := ⟨0, .standard⟩
  /-- The handler that what is written with `log` goes to, once there is one. -/
  logOutput : Option Handler := none
  preTelemetryLogger : Option Logger := none
  logSink : Option LogSink := none
  consoleGuard : ConsolePrep := {}
  defaultTracer : Option Tracer := none
  backendTracerName : Option String := none
  setupError : String := ""
  setupDone : Bool := false
  runtimeCfg : Option Config := none
  tracingEnabled : Bool := true
  metricsEnabled : Bool := true
  generation : Option Generation := none
  generationCounter : ℕ := 0
  /-- The next number to be given out. -/
  next : Ref := 1

/-! ## What a setup writes -/

namespace Process

/-- `SetSamplingPolicy`, of a signal that is one and a policy without overrides. -/
def setSamplingPolicy (signal : String) (rate : Number) (s : Process) : Process :=
  { s with samplingPolicies := s.samplingPolicies.insert signal ⟨clampRate rate, .empty⟩ }

/-- `SetQueuePolicy`. -/
def setQueuePolicy (policy : QueuePolicy) (s : Process) : Process :=
  { s with queues := s.queues.setQueuePolicy policy }

/-- `SetExporterPolicy`. -/
def setExporterPolicy (signal : String) (policy : ExporterPolicy) (s : Process) : Process :=
  { s with exporterPolicies := s.exporterPolicies.insert signal policy }

/-- `SetStrictSchema`. -/
def setStrictSchema (enabled : Bool) (s : Process) : Process := { s with strictSchema := enabled }

/-- `SetConsentLevel`. -/
def setConsentLevel (level : ConsentLevel) (s : Process) : Process :=
  { s with consentLevel := level }

/-- `SetLogger`. -/
def setLogger (l : Option Logger) (s : Process) : Process := { s with logger := l }

/-- `slog.SetDefault`: what is written with `log` then goes to the handler too, unless that is
the one that writes there itself. -/
def slogSetDefault (l : Logger) (s : Process) : Process :=
  match l.handler with
  | .standard => { s with slogDefault := l }
  | handler => { s with slogDefault := l, logOutput := some handler }

/-- `SetDefaultTracer`. -/
def setDefaultTracer (t : Tracer) (s : Process) : Process := { s with defaultTracer := some t }

/-- `_setSetupError`. -/
def setSetupError (msg : String) (s : Process) : Process := { s with setupError := msg }

/-- `_prepareConsole` on what `_consoleFile` finds: only a file can be a console. -/
def prepareConsole (env : Environment) (w : Writer) : ConsolePrep :=
  if w.kind = .file then ⟨(env.prepareConsole w.ref).2, (env.prepareConsole w.ref).1⟩ else {}

/-- `_prepareLogConsole`. -/
def prepareLogConsole (env : Environment) (w : Writer) (s : Process) : Process :=
  match s.consoleGuard.restore with
  | some _ => s
  | none => { s with consoleGuard := prepareConsole env w }

/-- `_restoreLogConsole`. -/
def restoreLogConsole (s : Process) : Process :=
  match s.consoleGuard.restore with
  | none => s
  | some _ => { s with consoleGuard := {} }

/-- `_isTerminalWriter`. -/
def isTerminalWriter (env : Environment) (w : Writer) (s : Process) : Bool :=
  match w.kind with
  | .file => env.terminalRendersANSI w.ref s.consoleGuard.ansi
  | .declared isTerminal => isTerminal
  | .other => false

/-- `_installLogSink`. -/
def installLogSink (env : Environment) (w : Writer) (s : Process) : Process :=
  { s with
    logSink := some ⟨s.next, w, s.isTerminalWriter env w⟩
    next := s.next + 1 }

/-- What is done for the log's destination: a nil writer was refused before. -/
def openLog (env : Environment) (state : SetupState) (s : Process) : Process :=
  if state.logOutputSet then
    match state.logOutput with
    | some w => (s.prepareLogConsole env w).installLogSink env w
    | none => s
  else s.prepareLogConsole env env.stderr

end Process

/-- `_backendOptionsSupplied`. -/
def backendOptionsSupplied (state : SetupState) : Bool :=
  state.tracerProvider.isSome || state.meterProvider.isSome || state.loggerProvider.isSome

section Metrics

variable (m : MetricsConfig)

/-- `HasExporter`. -/
def hasExporter (name : String) : Bool := m.exporters.contains name

/-- `PrometheusListenerEnabled`. -/
def prometheusListenerEnabled : Bool :=
  m.enabled && (m.prometheus.listen = "true" ||
    (m.prometheus.listen = "auto" && hasExporter m "prometheus"))

/-- `PrometheusReaderEnabled`. -/
def prometheusReaderEnabled : Bool :=
  m.enabled && (hasExporter m "prometheus" || prometheusListenerEnabled m)

end Metrics

/-- `_backendConfigured`. -/
def backendConfigured (cfg : Config) : Bool :=
  cfg.tracing.otlpEndpoint ≠ "" || cfg.metrics.otlpEndpoint ≠ "" ||
    cfg.logging.otlpEndpoint ≠ "" || prometheusReaderEnabled cfg.metrics

/-- The bridge of `_baseHandlerWithBridge`, for the package's own logger. -/
def bridge (env : Environment) (cfg : Config) : Option Bridge := do
  let backend ← env.backend
  let handler ← backend.loggerHandler cfg.serviceName
  some ⟨handler, cfg.logging.logCodeAttributes⟩

namespace Process

/-- The first logger that is configured remembers what `slog`'s default was. -/
def rememberSlogDefault (s : Process) : Process :=
  match s.logger with
  | none => { s with preTelemetryLogger := some s.slogDefault }
  | some _ => s

/-- `_configureLogger`. -/
def configureLogger (env : Environment) (cfg : Config) (s : Process) : Process :=
  let s := s.rememberSlogDefault
  let logger : Logger := ⟨s.next, .telemetry cfg s.logSink (bridge env cfg)⟩
  ({ s with next := s.next + 1 }.setLogger (some logger)).slogSetDefault logger

/-- The policies of a config, a signal at a time. -/
def setPolicies (cfg : Config) (s : Process) : Process :=
  let s := s.setSamplingPolicy signalLogs cfg.sampling.rate.logs
  let s := s.setSamplingPolicy signalTraces cfg.effectiveTracesSampleRate
  let s := s.setSamplingPolicy signalMetrics cfg.sampling.rate.metrics
  let s := s.setQueuePolicy cfg.queuePolicy
  let s := s.setExporterPolicy signalLogs (cfg.exporter.policy PerSignal.logs)
  let s := s.setExporterPolicy signalTraces (cfg.exporter.policy PerSignal.traces)
  s.setExporterPolicy signalMetrics (cfg.exporter.policy PerSignal.metrics)

/-- `_applyRuntimePolicies`. -/
def applyRuntimePolicies (env : Environment) (cfg : Config) (s : Process) : Process :=
  ((s.setPolicies cfg).configureLogger env cfg).setStrictSchema
    (cfg.strictSchema || cfg.eventSchema.strictEventName)

/-- `LoadConsentFromEnv`; `upper` is `strings.ToUpper(strings.TrimSpace(raw))`. -/
def loadConsentFromEnv (upper : String → String) (env : Environment) (s : Process) : Process :=
  let text := upper env.consentLevel
  if text = "" then s
  else if text = "FULL" then s.setConsentLevel .full
  else if text = "FUNCTIONAL" then s.setConsentLevel .functional
  else if text = "MINIMAL" then s.setConsentLevel .minimal
  else if text = "NONE" then s.setConsentLevel .none
  else { s with consentEnvWarned := true }.setConsentLevel .none

/-- `_publishRuntimeGatesLocked`. -/
def publishRuntimeGates (s : Process) : Process :=
  { s with
    tracingEnabled := s.runtimeCfg.all fun cfg => cfg.tracing.enabled
    metricsEnabled := s.runtimeCfg.all fun cfg => cfg.metrics.enabled }

/-- `_publishGenerationLocked`. -/
def publishGeneration (cfg : Config) (s : Process) : Process :=
  let s := { s with runtimeCfg := some cfg }.publishRuntimeGates
  { s with
    generationCounter := s.generationCounter + 1
    generation := some ⟨s.generationCounter + 1, cfg, s.logger⟩ }

/-- `_clearGenerationLocked`. -/
def clearGeneration (s : Process) : Process :=
  { { s with runtimeCfg := none }.publishRuntimeGates with generation := none }

/-- `_wireBackendBindingsLocked`. -/
def wireBackendBindings (env : Environment) (cfg : Config) (s : Process) : Process :=
  let s := { s.setDefaultTracer .noop with backendTracerName := some cfg.serviceName }
  match s.logger, env.backend with
  | some _, some backend =>
      let s := match backend.providers.traces, backend.tracer cfg.serviceName with
        | true, some tracer => s.setDefaultTracer (.other tracer)
        | _, _ => s
      if backend.providers.logs then s.configureLogger env cfg else s
  | _, _ => s

end Process

/-- Why a setup returns an error. -/
inductive SetupError
  /-- The options or the config were refused, or the environment's was not one. -/
  | refused (e : Error)
  /-- `provider options require an optional backend` -/
  | noBackend
  /-- What the backend's `Setup` returned. -/
  | backend (text : String)

/-- `_setupBackendLocked`. -/
def setupBackend (env : Environment) (state : SetupState) (cfg : Config) (s : Process) :
    Except SetupError Unit × Process :=
  match env.backend with
  | none =>
      if backendOptionsSupplied state then (.error .noBackend, s)
      else (.ok (), s.wireBackendBindings env cfg)
  | some backend =>
      if !backendOptionsSupplied state && !backendConfigured cfg then
        (.ok (), s.wireBackendBindings env cfg)
      else
        let outcome := backend.setup cfg state.toBackendSetupState
        -- `ReportSetupError` records a text at once, whatever the backend returns afterwards.
        let s := outcome.reported.foldl (fun s msg => s.setSetupError msg) s
        match outcome.error with
        | some text => (.error (.backend text), s)
        | none => (.ok (), s.wireBackendBindings env cfg)

/-! ## What a failed setup puts back -/

/-- `_processStateSnapshot`. -/
structure ProcessStateSnapshot where
  sampling : SortedMap String SamplingPolicy
  queuePolicy : QueuePolicy
  logsQueue : Option ℕ
  tracesQueue : Option ℕ
  metricsQueue : Option ℕ
  exporter : SortedMap String ExporterPolicy
  strictSchema : Bool
  consent : ConsentLevel
  logger : Option Logger
  slogDefault : Logger
  preTelemetry : Option Logger
  logSink : Option LogSink
  consolePrepared : Bool

namespace Process

/-- `_captureProcessState`. -/
def captureProcessState (s : Process) : ProcessStateSnapshot where
  sampling := s.samplingPolicies
  queuePolicy := s.queues.queuePolicy
  logsQueue := s.queues.logsQueue
  tracesQueue := s.queues.tracesQueue
  metricsQueue := s.queues.metricsQueue
  exporter := s.exporterPolicies
  strictSchema := s.strictSchema
  consent := s.consentLevel
  logger := s.logger
  slogDefault := s.slogDefault
  preTelemetry := s.preTelemetryLogger
  logSink := s.logSink
  consolePrepared := s.consoleGuard.restore.isSome

/-- The policies that a snapshot holds. -/
def restorePolicies (snap : ProcessStateSnapshot) (s : Process) : Process :=
  let queues := { s.queues with
    queuePolicy := snap.queuePolicy
    logsQueue := snap.logsQueue
    tracesQueue := snap.tracesQueue
    metricsQueue := snap.metricsQueue }
  let s := { s with
    samplingPolicies := snap.sampling
    queues := queues
    exporterPolicies := snap.exporter }
  (s.setStrictSchema snap.strictSchema).setConsentLevel snap.consent

/-- The loggers and the sink that a snapshot holds. -/
def restoreLogging (snap : ProcessStateSnapshot) (s : Process) : Process :=
  { (s.setLogger snap.logger).slogSetDefault snap.slogDefault with
    preTelemetryLogger := snap.preTelemetry
    logSink := snap.logSink }

/-- A console that was prepared before belongs to whoever prepared it. -/
def restoreConsole (snap : ProcessStateSnapshot) (s : Process) : Process :=
  if snap.consolePrepared then s else s.restoreLogConsole

/-- `_restoreProcessState`. -/
def restoreProcessState (snap : ProcessStateSnapshot) (s : Process) : Process :=
  ((s.restorePolicies snap).restoreLogging snap).restoreConsole snap

end Process

section Setup

variable (upper : String → String) (env : Environment)

/-- The config that a setup is for: the one that was given, or the environment's. -/
def setupConfig (state : SetupState) : Except Error Config :=
  if state.logOutputSet && writerIsNil state.logOutput then throw .nilWriter
  else
    match state.config with
    | some cfg => do
        validateReconfigureTarget upper cfg.toTelemetryConfig
        pure cfg
    | none => env.configFromEnv.mapError .env

/-- What is written before the backend is wired. -/
def applySetup (state : SetupState) (cfg : Config) (s : Process) : Process :=
  let s := ((s.openLog env state).loadConsentFromEnv upper env).applyRuntimePolicies env cfg
  let s := { s with runtimeCfg := some cfg, setupDone := true }.publishRuntimeGates
  s.setSetupError ("; ".intercalate cfg.exporterWarnings)

/-- What a setup does whose backend was not wired. -/
def rollBack (prior : ProcessStateSnapshot) (s : Process) : Process :=
  { s with setupDone := false }.clearGeneration.restoreProcessState prior

/-- `SetupTelemetry`. -/
def setupTelemetry (opts : List SetupOption) (s : Process) :
    Except SetupError (Option Config) × Process :=
  if s.setupDone then (.ok s.runtimeCfg, s)
  else
    let state := applyOptions opts
    match setupConfig upper env state with
    | .error e => (.error (.refused e), s)
    | .ok cfg =>
        match setupBackend env state cfg (applySetup upper env state cfg s) with
        | (.error e, t) => (.error e, rollBack s.captureProcessState t)
        | (.ok (), t) => (.ok (some cfg), t.publishGeneration cfg)

end Setup

/-! ## What is left as it was -/

/-- Every piece of the process is what it was, and the runtime is not set up. -/
structure LeftAsFound (s t : Process) : Prop where
  sampling : t.samplingPolicies = s.samplingPolicies
  queuePolicy : t.queues.queuePolicy = s.queues.queuePolicy
  logsQueue : t.queues.logsQueue = s.queues.logsQueue
  tracesQueue : t.queues.tracesQueue = s.queues.tracesQueue
  metricsQueue : t.queues.metricsQueue = s.queues.metricsQueue
  /-- The tickets that are out hold the slots that they held. -/
  slots : s.queues.chans <+: t.queues.chans
  exporter : t.exporterPolicies = s.exporterPolicies
  strictSchema : t.strictSchema = s.strictSchema
  consent : t.consentLevel = s.consentLevel
  logger : t.logger = s.logger
  slogDefault : t.slogDefault = s.slogDefault
  preTelemetry : t.preTelemetryLogger = s.preTelemetryLogger
  logSink : t.logSink = s.logSink
  defaultTracer : t.defaultTracer = s.defaultTracer
  setupError : t.setupError = s.setupError
  notDone : t.setupDone = false
  noConfig : s.runtimeCfg = none → t.runtimeCfg = none
  noGeneration : s.generation = none → t.generation = none

/-- What no snapshot holds: nothing was given back or taken from a channel that there was, and no
tracer was bound. -/
structure Spares (s t : Process) : Prop where
  slots : s.queues.chans <+: t.queues.chans
  defaultTracer : t.defaultTracer = s.defaultTracer

theorem Spares.refl (s : Process) : Spares s s := ⟨List.prefix_rfl, rfl⟩

theorem Spares.trans {s t u : Process} (hst : Spares s t) (htu : Spares t u) : Spares s u :=
  ⟨hst.slots.trans htu.slots, htu.defaultTracer.trans hst.defaultTracer⟩

section Writes

variable {upper : String → String} {env : Environment} {state : SetupState} {cfg : Config}
  {s t : Process}

theorem spares_slogSetDefault (l : Logger) (s : Process) : Spares s (s.slogSetDefault l) := by
  rw [Process.slogSetDefault]
  split <;> exact ⟨List.prefix_rfl, rfl⟩

theorem spares_prepareLogConsole (env : Environment) (w : Writer) (s : Process) :
    Spares s (s.prepareLogConsole env w) := by
  rw [Process.prepareLogConsole]
  split <;> exact ⟨List.prefix_rfl, rfl⟩

theorem spares_openLog (env : Environment) (state : SetupState) (s : Process) :
    Spares s (s.openLog env state) := by
  rw [Process.openLog]
  split
  · split
    · next w _ =>
        have hsink : Spares (s.prepareLogConsole env w)
            ((s.prepareLogConsole env w).installLogSink env w) := ⟨List.prefix_rfl, rfl⟩
        exact (spares_prepareLogConsole env w s).trans hsink
    · exact Spares.refl s
  · exact spares_prepareLogConsole env _ s

theorem spares_loadConsentFromEnv (upper : String → String) (env : Environment) (s : Process) :
    Spares s (s.loadConsentFromEnv upper env) := by
  simp only [Process.loadConsentFromEnv]
  split_ifs <;> exact ⟨List.prefix_rfl, rfl⟩

theorem spares_rememberSlogDefault (s : Process) : Spares s s.rememberSlogDefault := by
  rw [Process.rememberSlogDefault]
  split <;> exact ⟨List.prefix_rfl, rfl⟩

theorem spares_configureLogger (env : Environment) (cfg : Config) (s : Process) :
    Spares s (s.configureLogger env cfg) := by
  have hlogger (l : Logger) (n : Ref) : Spares s.rememberSlogDefault
      ({ s.rememberSlogDefault with next := n }.setLogger (some l)) := ⟨List.prefix_rfl, rfl⟩
  rw [Process.configureLogger]
  exact ((spares_rememberSlogDefault s).trans (hlogger _ _)).trans (spares_slogSetDefault _ _)

/-- The policies come into force with new channels. -/
theorem spares_setPolicies (cfg : Config) (s : Process) : Spares s (s.setPolicies cfg) :=
  ⟨Queues.setQueuePolicy_extends cfg.queuePolicy s.queues, rfl⟩

theorem spares_applyRuntimePolicies (env : Environment) (cfg : Config) (s : Process) :
    Spares s (s.applyRuntimePolicies env cfg) := by
  have hlogger := (spares_setPolicies cfg s).trans (spares_configureLogger env cfg _)
  exact ⟨hlogger.slots, hlogger.defaultTracer⟩

theorem spares_applySetup (upper : String → String) (env : Environment) (state : SetupState)
    (cfg : Config) (s : Process) : Spares s (applySetup upper env state cfg s) := by
  have hopened := (spares_openLog env state s).trans (spares_loadConsentFromEnv upper env _)
  have happlied := hopened.trans (spares_applyRuntimePolicies env cfg _)
  exact ⟨happlied.slots, happlied.defaultTracer⟩

/-- Of the texts that a backend reports the last stays. -/
theorem foldl_setSetupError (msgs : List String) (s : Process) :
    msgs.foldl (fun s msg => s.setSetupError msg) s =
      s.setSetupError (msgs.getLast?.getD s.setupError) := by
  induction msgs generalizing s with
  | nil => rfl
  | cons msg msgs ih =>
      rw [List.foldl_cons, ih, List.getLast?_cons]
      rfl

/-- What the backend reports that a setup asks, if it asks one. -/
def reportedErrors (env : Environment) (state : SetupState) (cfg : Config) : List String :=
  match env.backend with
  | none => []
  | some backend => (backend.setup cfg state.toBackendSetupState).reported

/-- A backend that is not wired has written no more than what it reported. -/
theorem setupBackend_error {e : SetupError} (h : setupBackend env state cfg s = (.error e, t)) :
    t = s.setSetupError ((reportedErrors env state cfg).getLast?.getD s.setupError) := by
  rw [setupBackend] at h
  rw [reportedErrors]
  cases hbackend : env.backend with
  | none =>
      simp only [hbackend] at h
      split at h
      · cases h
        rfl
      · cases h
  | some backend =>
      simp only [hbackend] at h
      split at h
      · cases h
      · split at h
        · rw [foldl_setSetupError] at h
          cases h
          rfl
        · cases h

/-- The text that a setup which fails has recorded last: the last one that its backend reported, or
else the ignored entries of `OTEL_METRICS_EXPORTER`. -/
def recordedError (env : Environment) (state : SetupState) (cfg : Config) : String :=
  (reportedErrors env state cfg).getLast?.getD ("; ".intercalate cfg.exporterWarnings)

/-- The loggers are put back, and maybe `log` is written elsewhere. -/
theorem restoreLogging_eq (snap : ProcessStateSnapshot) (s : Process) :
    ∃ o, s.restoreLogging snap = { s with
      logger := snap.logger
      slogDefault := snap.slogDefault
      logOutput := o
      preTelemetryLogger := snap.preTelemetry
      logSink := snap.logSink } := by
  rw [Process.restoreLogging, Process.slogSetDefault]
  split
  · exact ⟨s.logOutput, rfl⟩
  · exact ⟨_, rfl⟩

/-- Nothing but the console is concerned. -/
theorem restoreConsole_eq (snap : ProcessStateSnapshot) (s : Process) :
    ∃ c, s.restoreConsole snap = { s with consoleGuard := c } := by
  rw [Process.restoreConsole, Process.restoreLogConsole]
  split
  · exact ⟨s.consoleGuard, rfl⟩
  · split
    · exact ⟨s.consoleGuard, rfl⟩
    · exact ⟨{}, rfl⟩

/-- **What a rollback puts back**: everything but the recorded setup error, where no more was
written than what the snapshot holds. -/
theorem leftAsFound_rollBack_iff (h : Spares s t) :
    LeftAsFound s (rollBack s.captureProcessState t) ↔ t.setupError = s.setupError := by
  rw [rollBack, Process.restoreProcessState]
  obtain ⟨c, hconsole⟩ := restoreConsole_eq s.captureProcessState
    (({ t with setupDone := false }.clearGeneration.restorePolicies
      s.captureProcessState).restoreLogging s.captureProcessState)
  obtain ⟨o, hlogging⟩ := restoreLogging_eq s.captureProcessState
    ({ t with setupDone := false }.clearGeneration.restorePolicies s.captureProcessState)
  rw [hconsole, hlogging]
  constructor
  · intro hleft
    exact hleft.setupError
  · intro herror
    constructor
    case slots => exact h.slots
    case defaultTracer => exact h.defaultTracer
    case setupError => exact herror
    case noConfig => exact fun _ => rfl
    case noGeneration => exact fun _ => rfl
    all_goals rfl

theorem LeftAsFound.refl (h : s.setupDone = false) : LeftAsFound s s := by
  constructor
  case slots => exact List.prefix_rfl
  case notDone => exact h
  case noConfig => exact id
  case noGeneration => exact id
  all_goals rfl

/-- The outcomes of a setup that fails: refused, or rolled back. -/
theorem setupTelemetry_error {opts : List SetupOption} {e : SetupError}
    (h : setupTelemetry upper env opts s = (.error e, t)) :
    (∃ refusal, setupConfig upper env (applyOptions opts) = .error refusal ∧ t = s) ∨
      ∃ cfg, setupConfig upper env (applyOptions opts) = .ok cfg ∧
        t = rollBack s.captureProcessState
          ((applySetup upper env (applyOptions opts) cfg s).setSetupError
            (recordedError env (applyOptions opts) cfg)) := by
  rw [setupTelemetry] at h
  split at h
  · cases h
  · cases hcfg : setupConfig upper env (applyOptions opts) with
    | error refusal =>
        simp only [hcfg] at h
        cases h
        exact .inl ⟨refusal, rfl, rfl⟩
    | ok cfg =>
        simp only [hcfg] at h
        split at h
        · next hbackend =>
            cases h
            exact .inr ⟨cfg, rfl, congrArg _ (setupBackend_error hbackend)⟩
        · cases h

/-- **When a failed setup leaves the process as it found it**: its options or its config were
refused, so that it wrote nothing, or it recorded the setup error that was recorded before. -/
theorem leftAsFound_iff {opts : List SetupOption} {e : SetupError} (hdone : s.setupDone = false)
    (h : setupTelemetry upper env opts s = (.error e, t)) :
    LeftAsFound s t ↔ ∀ cfg, setupConfig upper env (applyOptions opts) = .ok cfg →
      s.setupError = recordedError env (applyOptions opts) cfg := by
  rcases setupTelemetry_error h with ⟨refusal, hrefused, rfl⟩ | ⟨cfg, hcfg, rfl⟩
  · simp [hrefused, LeftAsFound.refl hdone]
  · have happlied := spares_applySetup upper env (applyOptions opts) cfg s
    have hspares : Spares s ((applySetup upper env (applyOptions opts) cfg s).setSetupError
        (recordedError env (applyOptions opts) cfg)) := ⟨happlied.slots, happlied.defaultTracer⟩
    rw [leftAsFound_rollBack_iff hspares]
    simp only [hcfg, Except.ok.injEq, forall_eq']
    exact eq_comm

/-- A process with policies of its own, and a ticket out for one of its two logs slots. -/
def busyProcess : Process where
  samplingPolicies := SortedMap.empty.insert signalLogs ⟨.zero, .empty⟩
  queues := (Queues.tryAcquire signalLogs
    (Queues.setQueuePolicy { logsMaxSize := 2, tracesMaxSize := 1 } {})).1
  exporterPolicies := SortedMap.empty.insert signalTraces ⟨3, .one, .one, false, true⟩
  strictSchema := true
  consentLevel := .functional

/-- A setup whose provider needs a backend that nobody registered, when no error was recorded. -/
theorem leftAsFound_of_noBackend :
    busyProcess.queues.chans.map Permits.held = [1, 0] ∧
    LeftAsFound busyProcess
      (setupTelemetry id { configFromEnv := .ok {} } [.withTracerProvider (some 7)]
        busyProcess).2 := by
  have hfails : setupTelemetry id { configFromEnv := .ok {} } [.withTracerProvider (some 7)]
      busyProcess = (.error .noBackend, (setupTelemetry id { configFromEnv := .ok {} }
        [.withTracerProvider (some 7)] busyProcess).2) := rfl
  refine ⟨rfl, (leftAsFound_iff rfl hfails).mpr ?_⟩
  intro cfg hcfg
  obtain rfl : ({} : Config) = cfg := Except.ok.inj hcfg
  rfl

/-- What the rejected config had to report, an exporter that was ignored, stays recorded. -/
theorem not_leftAsFound_of_ignoredExporter :
    ¬ ∀ (upper : String → String) (env : Environment) (opts : List SetupOption) (s t : Process)
      (e : SetupError), s.setupDone = false →
        setupTelemetry upper env opts s = (.error e, t) → LeftAsFound s t := by
  intro h
  have hleft := h id
    { configFromEnv := .ok
        { exporterWarnings := ["OTEL_METRICS_EXPORTER: unknown exporter zipkin, ignored"] } }
    [.withTracerProvider (some 7)] {} _ _ rfl rfl
  exact absurd hleft.setupError (by decide)

/-- The standard library's own handler writes to `log`, and `log` is left as it is. -/
theorem logOutput_rollBack {prior : ProcessStateSnapshot}
    (h : prior.slogDefault.handler = .standard) :
    (rollBack prior t).logOutput = t.logOutput := by
  rw [rollBack, Process.restoreProcessState]
  obtain ⟨c, hconsole⟩ := restoreConsole_eq prior
    (({ t with setupDone := false }.clearGeneration.restorePolicies prior).restoreLogging prior)
  rw [hconsole, Process.restoreLogging, Process.slogSetDefault]
  simp only [h]
  rfl

/-- **Where the standard library's `log` is left**: `slog`'s default is put back, but where that is
the standard library's own, what it writes to `log` goes to the logger of the rejected config. -/
theorem logOutput_of_failed {opts : List SetupOption} {e : SetupError}
    (hdefault : s.slogDefault.handler = .standard)
    (h : setupTelemetry upper env opts s = (.error e, t))
    (hcfg : setupConfig upper env (applyOptions opts) = .ok cfg) :
    ∃ sink, t.logOutput = some (.telemetry cfg sink (bridge env cfg)) := by
  rcases setupTelemetry_error h with ⟨refusal, hrefused, -⟩ | ⟨cfg', hcfg', rfl⟩
  · rw [hcfg] at hrefused
    cases hrefused
  · obtain rfl : cfg = cfg' := Except.ok.inj (hcfg.symm.trans hcfg')
    have happlied : ∃ sink, (applySetup upper env (applyOptions opts) cfg s).logOutput =
        some (.telemetry cfg sink (bridge env cfg)) := ⟨_, rfl⟩
    obtain ⟨sink, hsink⟩ := happlied
    exact ⟨sink, (logOutput_rollBack hdefault).trans hsink⟩

end Writes

end Telemetry.Runtime.GoSetup
