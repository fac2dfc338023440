import Telemetry.Lib.Run
import Telemetry.Runtime.Rust

/-!
# What the Rust SDK reports and what is in force

Setup, update, reload, reconfiguration and shutdown, one after another on one thread and without
OpenTelemetry providers. Each of the first four stores a config, which `get_runtime_config` returns,
and pushes its policies; update and reload also set a logging config that outranks the stored one
from then on, across a shutdown and a reconfiguration.

## Main definitions

* `Statics`, and `setupTelemetry` to `shutdownTelemetry` on it.
* `Reported` — what is in force is what is reported.
* `Label`, `machine` — runs.
* `Sound` — the steps after which this still holds.

## Main results

* `reported_step_iff` — **what one step does to it**.
* `reported_run` — **what is in force after a run of such steps**.
-/

namespace Telemetry.Runtime.Rust

open Telemetry.Lib

/-- `TelemetryError`. -/
inductive TelemetryError
  /-- "telemetry not set up: call setup_telemetry first" -/
  | notSetUp
  /-- "telemetry setup state is inconsistent" -/
  | inconsistent
  | configuration (e : ConfigurationError)
  /-- From `setup_otel`. -/
  | otel
  deriving DecidableEq, Repr

/-- What `TelemetryConfig::from_env` returns. -/
abbrev Environment := Except ConfigurationError EnvConfig

/-- The statics of the SDK. -/
structure Statics where
  /-- `ACTIVE_CONFIG` -/
  active : Option TelemetryConfig := none
  modules : Modules := {}
  /-- `LOGGING_CONFIG_OVERRIDE` -/
  loggingOverride : Option LoggingConfig := none
  /-- `SETUP_STATE` -/
  done : Bool := false

/-! ## The functions -/

/-- The explicit config, or the one of the environment. -/
def choose (config : Option TelemetryConfig) (env : Environment) :
    Except ConfigurationError TelemetryConfig :=
  match config with
  | some explicit => .ok explicit
  | none => env.map EnvConfig.config

namespace Statics

/-- `active_logging_config`. -/
def activeLoggingConfig (env : Environment) (r : Statics) : LoggingConfig :=
  match r.loggingOverride, r.active with
  | some config, _ => config
  | none, some config => config.logging
  | none, none =>
      match env with
      | .ok fresh => fresh.config.logging
      | .error _ => {}

/-- `logger::configure_logging`. -/
def configureLogging (config : LoggingConfig) (r : Statics) : Statics :=
  { r with loggingOverride := some config }

/-- A config is stored, and its policies are pushed. -/
def store (config : TelemetryConfig) (r : Statics) : Statics :=
  { r with active := some config, modules := applyPolicies config r.modules }

end Statics

/-- `setup_telemetry`. -/
def setupTelemetry (config : Option TelemetryConfig) (env : Environment)
    (otel : Except TelemetryError Unit) (r : Statics) :
    Except TelemetryError TelemetryConfig × Statics :=
  if r.done then
    match r.active with
    | some active => (.ok active, r)
    | none => (.error .inconsistent, r)
  else
    match choose config env with
    | .error e => (.error (.configuration e), r)
    | .ok config =>
        match config.validate with
        | .error e => (.error (.configuration e), r)
        | .ok _ =>
            match otel with
            | .error e => (.error e, r)
            | .ok _ => (.ok config, { r.store config with done := true })

/-- `update_runtime_config`. -/
def updateRuntimeConfig (overrides : RuntimeOverrides) (r : Statics) :
    Except TelemetryError TelemetryConfig × Statics :=
  match r.active with
  | none => (.error .notSetUp, r)
  | some current =>
      let next := applyRuntimeOverrides current overrides
      match overrides.logging with
      | some config => (.ok next, (r.store next).configureLogging config)
      | none => (.ok next, r.store next)

/-- The overrides that `reload_runtime_from_env` makes of the environment. -/
def hotOverrides (fresh : TelemetryConfig) : RuntimeOverrides where
  sampling := some fresh.sampling
  backpressure := some fresh.backpressure
  exporter := some fresh.exporter
  security := some fresh.security
  slo := some fresh.slo
  piiMaxDepth := some fresh.piiMaxDepth
  strictSchema := some fresh.strictSchema
  eventSchema := some fresh.eventSchema
  logging := some fresh.logging

/-- The cold fields of another config. -/
def withColdFields (current next : TelemetryConfig) : TelemetryConfig :=
  { next with
    serviceName := current.serviceName
    environment := current.environment
    version := current.version
    tracing := { next.tracing with
      enabled := current.tracing.enabled
      otlpHeaders := current.tracing.otlpHeaders }
    metrics := { next.metrics with
      enabled := current.metrics.enabled
      otlpHeaders := current.metrics.otlpHeaders } }

/-- `reload_runtime_from_env`. -/
def reloadRuntimeFromEnv (env : Environment) (r : Statics) :
    Except TelemetryError TelemetryConfig × Statics :=
  match env with
  | .error e => (.error (.configuration e), r)
  | .ok fresh =>
      match r.active with
      | none => (.error .notSetUp, r)
      | some current =>
          let next := applyRuntimeOverrides current (hotOverrides fresh.config)
          let r := (r.store next).configureLogging next.logging
          let next := withColdFields current next
          (.ok next, { r with active := some next })

/-- `reconfigure_telemetry`. -/
def reconfigureTelemetry (config : Option TelemetryConfig) (env : Environment) (r : Statics) :
    Except TelemetryError TelemetryConfig × Statics :=
  match choose config env with
  | .error e => (.error (.configuration e), r)
  | .ok target => (.ok target, r.store target)

/-- `shutdown_telemetry`. -/
def shutdownTelemetry (r : Statics) : Statics := { r with active := none, done := false }

/-! ## Runs -/

/-- A call. -/
inductive Label
  | setup (config : Option TelemetryConfig) (env : Environment) (otel : Except TelemetryError Unit)
  | update (overrides : RuntimeOverrides)
  | reload (env : Environment)
  | reconfigure (config : Option TelemetryConfig) (env : Environment)
  | shutdown

/-- What a call leaves behind. -/
def Label.run : Label → Statics → Statics
  | .setup config env otel, r => (setupTelemetry config env otel r).2
  | .update overrides, r => (updateRuntimeConfig overrides r).2
  | .reload env, r => (reloadRuntimeFromEnv env r).2
  | .reconfigure config env, r => (reconfigureTelemetry config env r).2
  | .shutdown, r => shutdownTelemetry r

/-- The calls on one thread, from the start of the process. -/
def machine : Machine Statics Label where
  init := {}
  step r l := some (l.run r)

/-- No logging config outranks the one of a config. -/
def Statics.Agrees (r : Statics) (config : LoggingConfig) : Prop :=
  r.loggingOverride = none ∨ r.loggingOverride = some config

/-- What is in force is what is reported. -/
def Reported (r : Statics) : Prop :=
  ∀ config, r.active = some config →
    (∀ env, r.activeLoggingConfig env = config.logging) ∧ r.modules.AsConfigured config

/-- The steps after which what is in force is what is reported. -/
def Sound (r : Statics) : Label → Prop
  | .setup config env otel => r.done = false → ∀ c, choose config env = .ok c →
      c.validate = .ok () → otel = .ok () → r.Agrees c.logging
  | .update overrides => ∀ current, r.active = some current →
      (applyRuntimeOverrides current overrides).Exact
  | .reload env => ∀ fresh, env = .ok fresh → ∀ current, r.active = some current →
      current.tracing.sampleRate.lt .zero = false
  | .reconfigure config env => ∀ c, choose config env = .ok c → c.Exact ∧ r.Agrees c.logging
  | .shutdown => True

/-! ## One step -/

variable {r : Statics} {l : Label} {config current fresh : TelemetryConfig}

theorem forall_activeLoggingConfig_iff (h : r.active = some config) :
    (∀ env, r.activeLoggingConfig env = config.logging) ↔ r.Agrees config.logging := by
  simp only [Statics.activeLoggingConfig, Statics.Agrees, h]
  cases r.loggingOverride with
  | none => simp
  | some logging =>
      simp only [reduceCtorEq, false_or, Option.some.injEq]
      exact ⟨fun hall => hall (.error ⟨"", ""⟩), fun heq _ => heq⟩

/-- A config that has been stored. -/
theorem reported_store_iff :
    Reported (r.store config) ↔ config.Exact ∧ r.Agrees config.logging := by
  have hactive : (r.store config).active = some config := rfl
  have hmodules : (r.store config).modules = config.installed := applyPolicies_eq config r.modules
  simp only [Reported, hactive, Option.some.injEq, forall_eq', hmodules,
    asConfigured_installed_iff, forall_activeLoggingConfig_iff hactive]
  exact and_comm

/-- A config that has been stored, with its logging config above it. -/
theorem reported_configureLogging_iff :
    Reported ((r.store config).configureLogging config.logging) ↔ config.Exact := by
  have hactive : ((r.store config).configureLogging config.logging).active = some config := rfl
  have hmodules : ((r.store config).configureLogging config.logging).modules = config.installed :=
    applyPolicies_eq config r.modules
  simp only [Reported, hactive, Option.some.injEq, forall_eq', hmodules,
    asConfigured_installed_iff, forall_activeLoggingConfig_iff hactive]
  exact and_iff_right (.inr rfl)

/-- The cold fields are not overridden anyway. -/
theorem withColdFields_applyRuntimeOverrides (overrides : RuntimeOverrides) :
    withColdFields current (applyRuntimeOverrides current overrides) =
      applyRuntimeOverrides current overrides := rfl

/-- With what the environment has, only the rate of the traces may still be out of range. -/
theorem exact_hotOverrides_iff (h : fresh.InRange) :
    (applyRuntimeOverrides current (hotOverrides fresh)).Exact ↔
      current.tracing.sampleRate.lt .zero = false := by
  have htraces : (applyRuntimeOverrides current (hotOverrides fresh)).rate .traces =
      min (fresh.sampling.rate .traces) current.tracing.sampleRate := rfl
  rw [← min_exact_iff (h.rate .traces), ← htraces]
  constructor
  · exact fun hexact => hexact.rate .traces
  · intro hrate
    constructor
    · intro signal
      cases signal with
      | logs => exact .inr (h.rate .logs)
      | traces => exact hrate
      | metrics => exact .inr (h.rate .metrics)
    · exact fun signal => h.exact.retries signal

/-- **What one step does** where what is in force is what is reported. -/
theorem reported_step_iff (h : Reported r) : Reported (l.run r) ↔ Sound r l := by
  cases l with
  | setup explicit env otel =>
      simp only [Label.run, setupTelemetry, Sound]
      cases hdone : r.done with
      | true =>
          cases hactive : r.active <;> simp [h]
      | false =>
          cases choose explicit env with
          | error e => simp [h]
          | ok config =>
              cases hvalidate : config.validate with
              | error e => simp [h, hvalidate]
              | ok u =>
                  cases otel with
                  | error e => simp [h, hvalidate]
                  | ok u =>
                      have hexact := (TelemetryConfig.inRange_of_validate hvalidate).exact
                      have hdone : Reported { r.store config with done := true } ↔
                          Reported (r.store config) := Iff.rfl
                      simp [hvalidate, hdone, reported_store_iff, hexact]
  | update overrides =>
      simp only [Label.run, updateRuntimeConfig, Sound]
      cases hactive : r.active with
      | none => simp [h]
      | some current =>
          cases hlogging : overrides.logging with
          | none =>
              have hlogging : (applyRuntimeOverrides current overrides).logging =
                  current.logging := by
                simp [applyRuntimeOverrides, hlogging]
              have hagrees : r.Agrees current.logging :=
                (forall_activeLoggingConfig_iff hactive).mp (h current hactive).1
              simp [reported_store_iff, hlogging, hagrees]
          | some logging =>
              have hlogging : logging = (applyRuntimeOverrides current overrides).logging := by
                simp [applyRuntimeOverrides, hlogging]
              simp only [Option.some.injEq, forall_eq']
              rw [hlogging]
              exact reported_configureLogging_iff
  | reload env =>
      simp only [Label.run, reloadRuntimeFromEnv, Sound]
      cases env with
      | error e => simp [h]
      | ok fresh =>
          cases hactive : r.active with
          | none => simp [h]
          | some current =>
              simp only [withColdFields_applyRuntimeOverrides, Except.ok.injEq, forall_eq',
                Option.some.injEq]
              rw [← exact_hotOverrides_iff fresh.inRange]
              exact reported_configureLogging_iff
  | reconfigure explicit env =>
      rw [Label.run, reconfigureTelemetry]
      simp only [Sound]
      cases choose explicit env with
      | error e => simp [h]
      | ok target => simp [reported_store_iff]
  | shutdown =>
      simp [Label.run, shutdownTelemetry, Reported, Sound]

/-! ## Runs of such steps -/

variable {s : Statics} {ls : List Label}

theorem reported_init : Reported {} := by
  intro config h
  cases h

theorem reported_of_reachable (h : machine.Reachable Sound s) : Reported s := by
  refine h.invariant reported_init ?_
  intro r l r' hr hsound hstep
  obtain rfl := Option.some.inj hstep
  exact (reported_step_iff hr).mpr hsound

theorem inRange_default : ({} : TelemetryConfig).InRange := by
  have hone : Number.one.InUnit := by decide
  exact ⟨fun _ => hone, hone, fun _ => Nat.zero_le _⟩

/-- An environment in which nothing is set. -/
def emptyEnv : Environment := .ok ⟨{}, inRange_default⟩

/-- An update of the level, a reload that takes it back, and a shutdown between two setups. -/
def levelThereAndBack : List Label :=
  [.setup none emptyEnv (.ok ()), .update { logging := some { level := "DEBUG" } },
    .reload emptyEnv, .shutdown, .setup (some {}) emptyEnv (.ok ())]

/-- The level is lowered at runtime, and the SDK is set up again with a higher one. -/
def setUpAgain : List Label :=
  [.setup (some {}) emptyEnv (.ok ()), .update { logging := some { level := "DEBUG" } }, .shutdown,
    .setup (some { logging := { level := "WARN" } }) emptyEnv (.ok ())]

end Telemetry.Runtime.Rust
