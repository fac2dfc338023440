import Telemetry.Config.PythonConfig
import Telemetry.Logging.PythonLevels
import Mathlib.Data.List.Lex
import Mathlib.Data.List.Sort

/-!
# One configuration of the Python logger

`_configure_logging_inner` puts new children behind the fan-out handler of the root logger, sets
its level and gives structlog a chain of processors and a class of loggers. All of it is made from
the config and from the destination, which is read twice: before the children are made, for the
colour answer of the renderer, and again for the console handler. What it does not make anew is the
OTLP provider: where the config in force has the same key, the provider that is there is reused.

## Main definitions

* `ProviderKey`, `logProviderConfigKey` — what a provider is made from.
* `Handler`, `Processor`, `Pipeline` — what is installed.
* `LoggerCore` — the globals of `core.py`, with the root logger and structlog.
* `buildHandlers`, `installPipeline`, `configureLoggingInner`.
* `pipelineOf` — the pipeline of a config and the two destinations that were read.

## Main results

* `pipeline_configureLoggingInner` — a pass installs that pipeline, unless it reuses a provider that
  was made for another config.
-/

namespace Telemetry.Logging.PythonPipeline

open Telemetry.Lib Telemetry.Config.Python Telemetry.Logging.PythonLevels

/-! ## What is installed -/

/-- The number of a code point, by which Python compares strings. -/
def number : CodePoint → ℕ
  | .scalar c => c.toNat
  | .surrogate offset => 0xD800 + offset.val

/-- `tuple(sorted(headers.items()))`: no two items have the same key. -/
def sortedItems (headers : Dict CodePoints CodePoints) : List (CodePoints × CodePoints) :=
  headers.entries.insertionSort fun e e' => e.1.map number ≤ e'.1.map number

/-- The key of a config. A provider is known by the key of the config it was made from: its resource
and its exporter are made from the same fields. -/
structure ProviderKey where
  serviceName : CodePoints
  environment : CodePoints
  version : CodePoints
  otlpEndpoint : Option CodePoints
  otlpHeaders : List (CodePoints × CodePoints)
  logsTimeoutSeconds : Number
  deriving DecidableEq

/-- `log_provider_config_key`. -/
def logProviderConfigKey (config : TelemetryConfig) : ProviderKey where
  serviceName := config.serviceName
  environment := config.environment
  version := config.version
  otlpEndpoint := config.logging.otlpEndpoint
  otlpHeaders := sortedItems config.logging.otlpHeaders
  logsTimeoutSeconds := config.exporter.timeoutSeconds.logs

/-- A child of the fan-out handler. -/
inductive Handler (W : Type)
  /-- `_HostWriterHandler` -/
  | hostWriter (writer : W)
  /-- `StreamHandler(utf8_writer(sys.stderr))` -/
  | stderr
  /-- The handler of the instrumentation package, which is told of code attributes, or else the one
  of the SDK, which is not. -/
  | otel (level : ℕ) (provider : ProviderKey) (logCodeAttributes : Option Bool)
  deriving DecidableEq

/-- The level of a handler; `NOTSET` for those of the console. -/
def Handler.level {W : Type} : Handler W → ℕ
  | hostWriter _ | stderr => 0
  | otel level _ _ => level

/-- `_console_handler`. -/
def consoleHandler {W : Type} : Option W → Handler W
  | some writer => .hostWriter writer
  | none => .stderr

/-- The renderers, with what they are made with. -/
inductive Renderer
  | json
  | pretty (colors : Bool) (keyColor valueColor : String) (fields : List CodePoints)
  | console (colors : Bool)
  deriving DecidableEq

/-- The processors, with what they are made with. -/
inductive Processor
  | mergeContextvars
  | mergeRuntimeContext
  | injectLoggerName
  | injectDasFields
  | addLogLevel
  | canonicalizeLevel
  | timeStamper
  | levelFilter (filter : LevelFilter)
  | applySampling
  | hardenInput (maxAttrValueLength maxAttrCount maxNestingDepth : ℤ)
  | addStandardFields (config : TelemetryConfig)
  | addErrorFingerprint
  | enforceEventSchema (config : TelemetryConfig)
  | sanitizeSensitiveFields (sanitize : Bool) (piiMaxDepth : ℤ)
  | callsiteParameterAdder
  | renameEventToMessage
  | renderWithBackpressureExtra (renderer : Renderer)

/-- `_BackpressureFanoutHandler`. -/
structure Fanout (W : Type) where
  handlers : List (Handler W)
  level : ℕ

/-- The least level of the children, `NOTSET` if there are none. -/
def minLevel {W : Type} : List (Handler W) → ℕ
  | [] => 0
  | handler :: handlers => handlers.foldl (fun least h => min least h.level) handler.level

/-- `_BackpressureFanoutHandler.__init__`. -/
def Fanout.ofHandlers {W : Type} (handlers : List (Handler W)) : Fanout W :=
  ⟨handlers, minLevel handlers⟩

/-- `replace_children`. -/
def Fanout.replaceChildren {W : Type} (_ : Fanout W) (handlers : List (Handler W)) : Fanout W :=
  ⟨handlers, minLevel handlers⟩

/-- A handler of the root logger: the SDK's own, or one of the host's. -/
inductive RootHandler (W : Type)
  | fanout (handler : Fanout W)
  | host (id : ℕ)

/-- `isinstance(handler, _BackpressureFanoutHandler)` -/
def RootHandler.fanout? {W : Type} : RootHandler W → Option (Fanout W)
  | fanout handler => some handler
  | host _ => none

/-- The root logger. -/
structure Root (W : Type) where
  handlers : List (RootHandler W)
  level : ℕ

/-- What `structlog.configure` was given last. -/
structure Structlog where
  processors : List Processor
  /-- The level of `_make_filtering_bound_logger`. -/
  wrapperLevel : ℕ

/-- All that a pass installs. -/
structure Pipeline (W : Type) where
  fanout : Fanout W
  rootLevel : ℕ
  structlog : Structlog

/-- What a pass asks of the rest of the process. -/
structure Env (W : Type) where
  tables : CaseTables
  /-- `_load_otel_logs_components()` finds the packages. -/
  otelComponents : Bool
  /-- `_load_instrumentation_logging_handler()` finds a handler. -/
  instrumentation : Bool
  /-- `tls_ready("logs")` -/
  tlsReady : Bool
  /-- `run_with_resilience` has an exporter for the fields of the key. -/
  rawExporter : ProviderKey → Bool
  ansiSupported : Option W → Bool
  structlogColors : Option W → Bool
  /-- `write` of the writer is callable. -/
  writable : W → Bool

/-- The globals of `core.py`, with the root logger and structlog. -/
structure LoggerCore (W : Type) where
  configured : Bool
  activeConfig : Option TelemetryConfig
  otelLogProvider : Option ProviderKey
  otelLogGlobalSet : Bool
  root : Root W
  structlog : Option Structlog

namespace LoggerCore

variable {W : Type}

/-- Before the first configuration. -/
def initial (hosts : List ℕ) : LoggerCore W where
  configured := false
  activeConfig := none
  otelLogProvider := none
  otelLogGlobalSet := false
  root := ⟨hosts.map .host, 30⟩
  structlog := none

/-! ## Handlers -/

/-- `_can_reuse_otel_log_provider`. -/
def canReuseOtelLogProvider (s : LoggerCore W) (current : TelemetryConfig) : Bool :=
  match s.activeConfig with
  | none => false
  | some previous =>
      s.otelLogProvider.isSome && s.otelLogGlobalSet &&
        decide (logProviderConfigKey previous = logProviderConfigKey current)

/-- `_make_otel_logging_handler`. -/
def makeOtelLoggingHandler (env : Env W) (provider : ProviderKey) (level : ℕ)
    (config : TelemetryConfig) : Handler W :=
  .otel level provider
    (if env.instrumentation then some config.logging.logCodeAttributes else none)

/-- The config wants records exported, and the packages are there. -/
def exports (env : Env W) (config : TelemetryConfig) : Bool :=
  truthy config.logging.otlpEndpoint && config.logging.otlpEnabled && env.otelComponents

/-- A provider for the key can be made. -/
def makes (env : Env W) (key : ProviderKey) : Bool := env.tlsReady && env.rawExporter key

/-- The globals with a provider that has just been made. -/
def withProvider (s : LoggerCore W) (provider : ProviderKey) : LoggerCore W :=
  { s with otelLogProvider := some provider, otelLogGlobalSet := true }

/-- `_build_handlers`, where the slot holds `installed`. -/
def buildHandlers (env : Env W) (s : LoggerCore W) (config : TelemetryConfig) (level : ℕ)
    (installed : Option W) : List (Handler W) × LoggerCore W :=
  let handlers := [consoleHandler installed]
  if exports env config = false then (handlers, s)
  else if s.canReuseOtelLogProvider config then
    (handlers ++ s.otelLogProvider.toList.map fun provider =>
      makeOtelLoggingHandler env provider level config, s)
  else if makes env (logProviderConfigKey config) = false then (handlers, s)
  else
    let provider := logProviderConfigKey config
    (handlers ++ [makeOtelLoggingHandler env provider level config], s.withProvider provider)

/-- `_installed_fanout`. -/
def installedFanout (root : Root W) : Option (Fanout W) :=
  root.handlers.findSome? RootHandler.fanout?

/-- Do something to the first fan-out handler. -/
def modifyFanout (change : Fanout W → Fanout W) : List (RootHandler W) → List (RootHandler W)
  | [] => []
  | .fanout handler :: handlers => .fanout (change handler) :: handlers
  | .host id :: handlers => .host id :: modifyFanout change handlers

/-- `_install_pipeline`. -/
def installPipeline (root : Root W) (children : List (Handler W)) (level : ℕ)
    (reload claimRoot : Bool) : Root W :=
  match if reload then installedFanout root else none with
  | some _ => ⟨modifyFanout (fun fanout => fanout.replaceChildren children) root.handlers, level⟩
  | none =>
      if claimRoot then ⟨[.fanout (.ofHandlers children)], level⟩
      else ⟨root.handlers ++ [.fanout (.ofHandlers children)], level⟩

/-! ## Processors -/

/-- `NAMED_COLORS`. -/
def namedColors : List (String × String) :=
  [("dim", "\x1b[2m"), ("bold", "\x1b[1m"), ("red", "\x1b[31m"), ("green", "\x1b[32m"),
    ("yellow", "\x1b[33m"), ("blue", "\x1b[34m"), ("cyan", "\x1b[36m"), ("white", "\x1b[37m"),
    ("none", "")]

/-- `resolve_color`. -/
def resolveColor (name : CodePoints) : String :=
  ((namedColors.find? fun e => CodePoints.ofString e.1 = name).map Prod.snd).getD ""

/-- The renderer of a config, and the processor that goes before it. -/
def rendering (env : Env W) (config : TelemetryConfig) (destination : Option W) : List Processor :=
  if config.logging.fmt = CodePoints.ofString "json" then
    [.renameEventToMessage, .renderWithBackpressureExtra .json]
  else if config.logging.fmt = CodePoints.ofString "pretty" then
    [.renderWithBackpressureExtra (.pretty (env.ansiSupported destination)
      (resolveColor config.logging.prettyKeyColor) (resolveColor config.logging.prettyValueColor)
      config.logging.prettyFields)]
  else [.renderWithBackpressureExtra (.console (env.structlogColors destination))]

/-- The chain of processors, where the destination was `destination`. -/
def processors (env : Env W) (config : TelemetryConfig) (destination : Option W) :
    List Processor :=
  let enrichment : List Processor :=
    [.mergeContextvars, .mergeRuntimeContext, .injectLoggerName, .injectDasFields, .addLogLevel,
      .canonicalizeLevel]
  let timestamp : List Processor := if config.logging.includeTimestamp then [.timeStamper] else []
  let filtering : List Processor :=
    if config.logging.moduleLevels.entries.isEmpty then []
    else [.levelFilter (.ofLevels env.tables config.logging.level config.logging.moduleLevels)]
  let payload : List Processor :=
    [.applySampling,
      .hardenInput config.security.maxAttrValueLength config.security.maxAttrCount
        config.security.maxNestingDepth,
      .addStandardFields config, .addErrorFingerprint, .enforceEventSchema config,
      .sanitizeSensitiveFields config.logging.sanitize config.piiMaxDepth]
  let caller : List Processor :=
    if config.logging.includeCaller then [.callsiteParameterAdder] else []
  enrichment ++ timestamp ++ filtering ++ payload ++ caller ++ rendering env config destination

/-! ## A pass -/

/-- `_configure_logging_inner`, where the slot held `destination` at first and holds `installed`
when the children are made. -/
def configureLoggingInner (env : Env W) (s : LoggerCore W) (config : TelemetryConfig)
    (claimRoot : Bool) (destination installed : Option W) : LoggerCore W :=
  let level := effectiveLevel config.logging
  let built := s.buildHandlers env config level installed
  { built.2 with
    configured := true
    activeConfig := some config
    root := installPipeline s.root built.1 level s.configured claimRoot
    structlog := some ⟨processors env config destination, level⟩ }

/-- `_configure_logging` returns at once. -/
def skips (s : LoggerCore W) (config : TelemetryConfig) (force : Bool) : Bool :=
  s.configured && !force && decide (s.activeConfig = some config)

/-- What is installed, once something is. -/
def pipeline (s : LoggerCore W) : Option (Pipeline W) := do
  let fanout ← installedFanout s.root
  let structlog ← s.structlog
  pure ⟨fanout, s.root.level, structlog⟩

/-- **The pipeline of a config** and the destinations that were read. -/
def pipelineOf (env : Env W) (config : TelemetryConfig) (destination installed : Option W) :
    Pipeline W where
  fanout := .ofHandlers
    ((initial []).buildHandlers env config (effectiveLevel config.logging) installed).1
  rootLevel := effectiveLevel config.logging
  structlog := ⟨processors env config destination, effectiveLevel config.logging⟩

/-- A pass takes the provider that is there. -/
def reuses (env : Env W) (s : LoggerCore W) (config : TelemetryConfig) : Bool :=
  exports env config && s.canReuseOtelLogProvider config

/-! ## What a pass installs -/

variable {env : Env W} {s : LoggerCore W} {config : TelemetryConfig} {level : ℕ}
  {destination installed : Option W} {root : Root W} {children : List (Handler W)}
  {reload claimRoot : Bool}

@[simp] theorem canReuseOtelLogProvider_initial (hosts : List ℕ) :
    (initial hosts : LoggerCore W).canReuseOtelLogProvider config = false := rfl

/-- The host's handlers are none of ours. -/
theorem installedFanout_hosts (hosts : List ℕ) (level : ℕ) :
    installedFanout (⟨hosts.map .host, level⟩ : Root W) = none := by
  rw [installedFanout, List.findSome?_eq_none_iff]
  intro handler hhandler
  obtain ⟨id, -, rfl⟩ := List.mem_map.mp hhandler
  rfl

@[simp] theorem skips_force : s.skips config true = false := by
  simp [skips]

/-- **The handlers do not depend on the provider that is there**, unless it is reused and was made
for another key. -/
theorem buildHandlers_eq_initial
    (hreuse : reuses env s config = true →
      s.otelLogProvider = some (logProviderConfigKey config))
    (hmakes : ∀ key, s.otelLogProvider = some key → makes env key = true) :
    (s.buildHandlers env config level installed).1 =
      ((initial []).buildHandlers env config level installed).1 := by
  rw [buildHandlers, buildHandlers]
  cases hexports : exports env config with
  | false => rfl
  | true =>
      cases hcan : s.canReuseOtelLogProvider config with
      | true =>
          have hkey := hreuse (by simp [reuses, hexports, hcan])
          simp [hkey, hmakes _ hkey]
      | false =>
          cases makes env (logProviderConfigKey config) <;> simp

/-- A provider that is there afterwards could be made. -/
theorem makes_buildHandlers (hmakes : ∀ key, s.otelLogProvider = some key → makes env key = true)
    {key : ProviderKey}
    (h : (s.buildHandlers env config level installed).2.otelLogProvider = some key) :
    makes env key = true := by
  rw [buildHandlers] at h
  split at h
  · exact hmakes key h
  · split at h
    · exact hmakes key h
    · split at h
      · exact hmakes key h
      · rename_i hmade
        obtain rfl : logProviderConfigKey config = key := Option.some.inj h
        simpa using hmade

/-- The first child is the console handler. -/
theorem head?_buildHandlers :
    (s.buildHandlers env config level installed).1.head? = some (consoleHandler installed) := by
  rw [buildHandlers]
  split
  · rfl
  · split
    · rfl
    · split <;> rfl

theorem findSome?_modifyFanout (change : Fanout W → Fanout W) (handlers : List (RootHandler W)) :
    (modifyFanout change handlers).findSome? RootHandler.fanout? =
      (handlers.findSome? RootHandler.fanout?).map change := by
  induction handlers with
  | nil => rfl
  | cons handler handlers ih =>
      cases handler with
      | fanout handler => rfl
      | host id => exact ih

/-- **What is installed is the new children**, in the handler that is found first. -/
theorem installedFanout_installPipeline (h : reload = true ∨ installedFanout root = none) :
    installedFanout (installPipeline root children level reload claimRoot) =
      some (.ofHandlers children) := by
  have hnone : installedFanout root = none →
      installedFanout (installPipeline root children level reload claimRoot) =
        some (.ofHandlers children) := by
    intro hroot
    rw [installPipeline, hroot, ite_self]
    cases claimRoot with
    | true => rfl
    | false =>
        rw [installedFanout] at hroot
        simp [installedFanout, List.findSome?_append, hroot, RootHandler.fanout?]
  cases hroot : installedFanout root with
  | none => exact hnone hroot
  | some fanout =>
      obtain rfl : reload = true := by simpa [hroot] using h
      rw [installPipeline, hroot]
      rw [installedFanout] at hroot
      simp [installedFanout, findSome?_modifyFanout, hroot, Fanout.replaceChildren,
        Fanout.ofHandlers]

@[simp] theorem level_installPipeline :
    (installPipeline root children level reload claimRoot).level = level := by
  rw [installPipeline]
  split
  · rfl
  · split <;> rfl

/-- What is installed, part by part. -/
theorem pipeline_eq_some {p : Pipeline W} (h : s.pipeline = some p) :
    installedFanout s.root = some p.fanout ∧ s.root.level = p.rootLevel ∧
      s.structlog = some p.structlog := by
  obtain ⟨fanout, hfanout, h⟩ := Option.bind_eq_some_iff.mp h
  obtain ⟨structlog, hstructlog, h⟩ := Option.bind_eq_some_iff.mp h
  obtain rfl := Option.some.inj h
  exact ⟨hfanout, rfl, hstructlog⟩

/-- **A pass installs the pipeline of its config**, unless it reuses a provider that was made for
another. -/
theorem pipeline_configureLoggingInner
    (hroot : s.configured = true ∨ installedFanout s.root = none)
    (hreuse : reuses env s config = true →
      s.otelLogProvider = some (logProviderConfigKey config))
    (hmakes : ∀ key, s.otelLogProvider = some key → makes env key = true) :
    (s.configureLoggingInner env config claimRoot destination installed).pipeline =
      some (pipelineOf env config destination installed) := by
  rw [pipeline, configureLoggingInner]
  simp only [installedFanout_installPipeline hroot, level_installPipeline,
    buildHandlers_eq_initial hreuse hmakes]
  rfl

/-- Whatever it reuses, its console handler is for the destination that was read last. -/
theorem console_configureLoggingInner
    (hroot : s.configured = true ∨ installedFanout s.root = none) :
    ∃ p, (s.configureLoggingInner env config claimRoot destination installed).pipeline = some p ∧
      p.fanout.handlers.head? = some (consoleHandler installed) := by
  rw [pipeline, configureLoggingInner]
  simp only [installedFanout_installPipeline hroot, level_installPipeline]
  exact ⟨_, rfl, head?_buildHandlers⟩

end LoggerCore

end Telemetry.Logging.PythonPipeline
