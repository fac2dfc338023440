import Telemetry.Runtime.Python

/-!
# Updating the config of the Python SDK at runtime

`update_runtime_config` applies the policies of the merged config, rebuilds the logging pipeline if
the logging config has changed, and publishes the next generation. When a step raises, the policies
are put back. The pipeline is not; and where the rebuild fails with an `Exception`,
`configure_logging` installs the emergency pipeline and returns, so that the update goes on.

## Main definitions

* `Course` — how the steps of a call go.
* `configureLogging`, `publish`, `updateRuntimeConfig` — the functions.
* `Atomic` — the call has done all or nothing.
* `Regular` — how a call must go for that.

## Main results

* `atomic_iff` — **when an update is atomic**.
-/

namespace Telemetry.Runtime.Python

open Telemetry.Lib

/-! ## The functions -/

/-- How far a rebuild has come: to the handlers of the root logger, or to structlog as well. -/
inductive Reached
  | nothing
  | handlers
  | processors
  deriving DecidableEq, Repr

/-- How `_configure_logging_inner` goes. -/
inductive Rebuild
  | installs
  /-- It raises an `Exception`. -/
  | fails (reached : Reached)
  /-- It raises a `BaseException` that is no `Exception`. -/
  | interrupted (reached : Reached)
  deriving DecidableEq, Repr

/-- How `_setup_emergency_fallback` goes: the warning at its end may be an error. -/
inductive Fallback
  | installs
  | interrupted
  | warns
  deriving DecidableEq, Repr

/-- How the steps of a call go. -/
structure Course where
  setters : Setter → Interruption := fun _ => .none
  rebuild : Rebuild := .installs
  fallback : Fallback := .installs
  publish : Interruption := .none
  /-- Whether the copy of the config that is returned raises. -/
  copyRaises : Bool := false
  /-- `TelemetryConfig.from_env()` -/
  fromEnv : Except Raised TelemetryConfig := .ok {}

/-- What a rebuild has installed by then. -/
def Reached.install (config : LoggingConfig) (p : Pipeline) : Reached → Pipeline
  | .nothing => p
  | .handlers => { p with handlers := .of config }
  | .processors => config.pipeline

def World.withPipeline (w : World) (p : Pipeline) : World := { w with pipeline := p }

/-- `_configure_logging_inner`. -/
def configureLoggingInner (course : Course) (config : TelemetryConfig) : Py Unit :=
  match course.rebuild with
  | .installs => modify fun w => w.withPipeline config.logging.pipeline
  | .fails reached =>
      .step .after .rebuildError fun w => w.withPipeline (reached.install config.logging w.pipeline)
  | .interrupted reached =>
      .step .after .interrupted fun w => w.withPipeline (reached.install config.logging w.pipeline)

/-- `_setup_emergency_fallback`. -/
def setupEmergencyFallback (course : Course) : Py Unit :=
  let i : Interruption := match course.fallback with
    | .installs => .none
    | .interrupted => .before
    | .warns => .after
  .step i .interrupted fun w => w.withPipeline { w.pipeline with processors := .emergency }

/-- `configure_logging`, with `force=True`. -/
def configureLogging (course : Course) (config : TelemetryConfig) : Py Unit :=
  tryCatch (configureLoggingInner course config) fun e =>
    if e = .rebuildError then setupEmergencyFallback course else throw e

def World.withGeneration (w : World) (generation : LifecycleGeneration) : World :=
  { w with generation := generation }

/-- `publish`. The copy of the config is made before the generation is stored, and the one of the
snapshot that is returned afterwards. -/
def publish (i : Interruption) (config : TelemetryConfig) (setupDone : Bool) : Py Unit :=
  .step i .interrupted fun w =>
    w.withGeneration ⟨w.generation.number + 1, some config, setupDone⟩

/-- `get_runtime_config`. -/
def getRuntimeConfig (course : Course) : Py TelemetryConfig := do
  let w ← get
  match w.generation.config with
  | some config => if course.copyRaises then throw .interrupted else pure config
  | none =>
      match course.fromEnv with
      | .ok config => pure config
      | .error e => throw e

/-- `_apply_overrides`. -/
def applyOverrides (base : TelemetryConfig) (overrides : RuntimeOverrides) : TelemetryConfig :=
  { base with
    sampling := overrides.sampling.getD base.sampling
    backpressure := overrides.backpressure.getD base.backpressure
    exporter := overrides.exporter.getD base.exporter
    security := overrides.security.getD base.security
    slo := overrides.slo.getD base.slo
    piiMaxDepth := overrides.piiMaxDepth.getD base.piiMaxDepth
    strictSchema := overrides.strictSchema.getD base.strictSchema
    logging := overrides.logging.getD base.logging
    eventSchema := overrides.eventSchema.getD base.eventSchema }

/-- `_logging_provider_config_changed`. -/
def loggingProviderConfigChanged (current target : TelemetryConfig) : Bool :=
  current.logging.otlpEndpoint != target.logging.otlpEndpoint ||
  current.logging.otlpHeaders != target.logging.otlpHeaders ||
  !(current.exporter.timeoutSeconds .logs).same (target.exporter.timeoutSeconds .logs)

/-- The update needs another OpenTelemetry log provider than the one that is installed. -/
def refuses (w : World) (base merged : TelemetryConfig) : Bool :=
  loggingProviderConfigChanged base merged && w.hasRealOtelLogProvider

/-- `overrides.logging is not None and overrides.logging != base.logging`. -/
def loggingChanged (base : TelemetryConfig) (overrides : RuntimeOverrides) : Bool :=
  match overrides.logging with
  | some logging => logging != base.logging
  | none => false

/-- The block of `update_runtime_config` whose failure puts the policies back. -/
def install (course : Course) (base merged : TelemetryConfig) (overrides : RuntimeOverrides)
    (setupDone : Bool) : Py Unit := do
  applyPolicies course.setters merged
  if loggingChanged base overrides then configureLogging course merged
  publish course.publish merged setupDone

/-- `update_runtime_config`. -/
def updateRuntimeConfig (course : Course) (overrides : RuntimeOverrides) : Py TelemetryConfig := do
  let w ← get
  match w.generation.config with
  | none => throw .configurationError
  | some base =>
      let merged := applyOverrides base overrides
      if refuses w base merged then
        throw .providerImmutableError
      rolledBackOnFailure (install course base merged overrides w.generation.setupDone)
      getRuntimeConfig course

/-! ## All or nothing -/

/-- The call has done all or nothing. -/
def Atomic (course : Course) (overrides : RuntimeOverrides) (w : World) : Prop :=
  match (updateRuntimeConfig course overrides).exec w with
  | (.error _, w') =>
      w'.policies = w.policies ∧ w'.generation = w.generation ∧ w'.pipeline = w.pipeline
  | (.ok config, w') =>
      w'.generation.config = some config ∧ w'.policies.AsConfigured config ∧
        w'.pipeline = config.logging.pipeline

/-- What a rebuild had installed when it was given up was there before. -/
def Pipeline.Has (p : Pipeline) (config : LoggingConfig) : Reached → Prop
  | .nothing => True
  | .handlers => p.handlers = .of config
  | .processors => p = config.pipeline

/-- The emergency pipeline was there before, behind the handlers that a rebuild has reached. -/
def Pipeline.FellBack (p : Pipeline) (config : LoggingConfig) (reached : Reached) : Prop :=
  p.processors = .emergency ∧ (reached ≠ .nothing → p.handlers = .of config)

/-- How the publication must go: if it is given up, the pipeline must be the old one (`kept`), and
if it succeeds, the pipeline must be the one of the config (`configured`). -/
def Course.Publishes (course : Course) (merged : TelemetryConfig) (kept configured : Prop) : Prop :=
  match course.publish with
  | .none =>
      course.copyRaises = false ∧ (∀ signal, (merged.rate signal).InUnit) ∧ configured
  | .before => kept
  | .after => False

/-- How the steps behind the policies must go. -/
def Course.Proceeds (course : Course) (base merged : TelemetryConfig) (overrides : RuntimeOverrides)
    (p : Pipeline) : Prop :=
  if loggingChanged base overrides then
    match course.rebuild, course.fallback with
    | .installs, _ => course.Publishes merged (p = merged.logging.pipeline) True
    | .interrupted reached, _ => p.Has merged.logging reached
    | .fails reached, .interrupted => p.Has merged.logging reached
    | .fails reached, .warns => p.FellBack merged.logging reached
    | .fails reached, .installs =>
        course.Publishes merged (p.FellBack merged.logging reached) False
  else course.Publishes merged True (p = base.logging.pipeline)

/-- How a call must go to be atomic. -/
def Regular (course : Course) (overrides : RuntimeOverrides) (w : World) : Prop :=
  ∀ base, w.generation.config = some base →
    refuses w base (applyOverrides base overrides) = false →
    (∀ setter, course.setters setter = .none) →
      course.Proceeds base (applyOverrides base overrides) overrides w.pipeline

/-! ## The rebuild -/

variable {course : Course} {overrides : RuntimeOverrides} {w w' : World}
  {base merged config : TelemetryConfig} {p : Pipeline} {reached : Reached}

theorem Reached.install_eq_iff {config : LoggingConfig} :
    reached.install config p = p ↔ p.Has config reached := by
  obtain ⟨handlers, processors⟩ := p
  cases reached with
  | nothing => simp [Reached.install, Pipeline.Has]
  | handlers => simp [Reached.install, Pipeline.Has, eq_comm]
  | processors => simp [Reached.install, Pipeline.Has, LoggingConfig.pipeline, eq_comm]

theorem Reached.emergency_eq_iff {config : LoggingConfig} :
    ({ reached.install config p with processors := .emergency } : Pipeline) = p ↔
      p.FellBack config reached := by
  obtain ⟨handlers, processors⟩ := p
  cases reached with
  | nothing => simp [Reached.install, Pipeline.FellBack, eq_comm]
  | handlers => simp [Reached.install, Pipeline.FellBack, eq_comm, and_comm]
  | processors =>
      simp [Reached.install, Pipeline.FellBack, LoggingConfig.pipeline, eq_comm, and_comm]

/-- **What `configure_logging` does**: it installs the pipeline, raises, or installs the emergency
pipeline. -/
theorem exec_configureLogging :
    (configureLogging course config).exec w =
      match course.rebuild, course.fallback with
      | .installs, _ => (.ok (), w.withPipeline config.logging.pipeline)
      | .interrupted reached, _ =>
          (.error .interrupted, w.withPipeline (reached.install config.logging w.pipeline))
      | .fails reached, .interrupted =>
          (.error .interrupted, w.withPipeline (reached.install config.logging w.pipeline))
      | .fails reached, .warns =>
          (.error .interrupted, w.withPipeline
            { reached.install config.logging w.pipeline with processors := .emergency })
      | .fails reached, .installs =>
          (.ok (), w.withPipeline
            { reached.install config.logging w.pipeline with processors := .emergency }) := by
  rw [configureLogging, Program.exec_tryCatch, configureLoggingInner]
  cases hrebuild : course.rebuild with
  | installs => rfl
  | interrupted reached => rfl
  | fails reached =>
      simp only [Program.exec_step, if_true, setupEmergencyFallback]
      cases course.fallback <;> rfl

theorem keeps_generation_applyPolicies (i : Setter → Interruption) (config : TelemetryConfig) :
    Program.Keeps World.generation (applyPolicies i config) := by
  intro w
  have hrest := congrArg World.generation (keeps_applyPolicies i config w)
  exact hrest

theorem keeps_generation_configureLogging (course : Course) (config : TelemetryConfig) :
    Program.Keeps World.generation (configureLogging course config) := by
  intro w
  rw [exec_configureLogging]
  split <;> rfl

/-! ## The block -/

variable {setupDone : Bool}

/-- If the block returns, it has published. -/
theorem generation_of_install {u : Unit}
    (h : (install course base merged overrides setupDone).exec w = (.ok u, w')) :
    w'.generation = ⟨w.generation.number + 1, some merged, setupDone⟩ := by
  rw [install, Program.exec_bind_eq_ok] at h
  obtain ⟨_, w₁, happly, h⟩ := h
  have hw₁ : w₁.generation = w.generation := by
    have hkeeps := keeps_generation_applyPolicies course.setters merged w
    rwa [happly] at hkeeps
  split at h
  next =>
    rw [Program.exec_bind_eq_ok] at h
    obtain ⟨_, w₂, hconfigure, h⟩ := h
    have hw₂ : w₂.generation = w₁.generation := by
      have hkeeps := keeps_generation_configureLogging course merged w₁
      rwa [hconfigure] at hkeeps
    obtain ⟨-, rfl⟩ := Program.exec_step_eq_ok.mp h
    rw [← hw₁, ← hw₂]
    rfl
  next =>
    obtain ⟨-, rfl⟩ := Program.exec_step_eq_ok.mp h
    rw [← hw₁]
    rfl

/-- What the block must do for the call to be atomic. -/
def Settled (course : Course) (merged : TelemetryConfig) (w : World) :
    Except Raised Unit × World → Prop
  | (.error _, w') => w'.generation = w.generation ∧ w'.pipeline = w.pipeline
  | (.ok _, w') =>
      course.copyRaises = false ∧ w'.policies.AsConfigured merged ∧
        w'.pipeline = merged.logging.pipeline

theorem atomic_iff_settled (hbase : w.generation.config = some base)
    (hlive : refuses w base (applyOverrides base overrides) = false) :
    Atomic course overrides w ↔ Settled course (applyOverrides base overrides) w
      ((install course base (applyOverrides base overrides) overrides
        w.generation.setupDone).exec w) := by
  have hexec : (updateRuntimeConfig course overrides).exec w =
      (rolledBackOnFailure (install course base (applyOverrides base overrides) overrides
        w.generation.setupDone) >>= fun _ => getRuntimeConfig course).exec w := by
    rw [updateRuntimeConfig, Program.exec_bind, Program.exec_get]
    simp only [hbase, hlive]
    rfl
  rw [Atomic, hexec, Program.exec_bind, exec_rolledBackOnFailure]
  cases h : (install course base (applyOverrides base overrides) overrides
      w.generation.setupDone).exec w with
  | mk r w' =>
      cases r with
      | error e => simp [Settled, World.withPolicies]
      | ok u =>
          have hgeneration := generation_of_install h
          simp only [getRuntimeConfig, Program.exec_bind, Program.exec_get, hgeneration]
          cases hcopy : course.copyRaises with
          | true =>
              have hne : w'.generation ≠ w.generation := by
                intro heq
                rw [hgeneration] at heq
                have hnumber := congrArg LifecycleGeneration.number heq
                simp at hnumber
              simp [Settled, hcopy, hne]
          | false => simp [Settled, hcopy, hgeneration]

/-- The publication, behind policies that have been applied. -/
theorem settled_publish_iff {v : World} (hgeneration : v.generation = w.generation)
    (hpolicies : v.policies = merged.installed) :
    Settled course merged w ((publish course.publish merged setupDone).exec v) ↔
      course.Publishes merged (v.pipeline = w.pipeline)
        (v.pipeline = merged.logging.pipeline) := by
  rw [publish, Program.exec_step, Course.Publishes]
  cases course.publish with
  | none =>
      have hpol : (v.withGeneration ⟨v.generation.number + 1, some merged, setupDone⟩).policies =
          merged.installed := hpolicies
      simp only [Settled, hpol, TelemetryConfig.asConfigured_installed_iff]
      rfl
  | before => simp [Settled, hgeneration]
  | after =>
      simp only [Settled, iff_false, not_and]
      intro heq
      rw [← hgeneration] at heq
      have hnumber := congrArg LifecycleGeneration.number heq
      simp [World.withGeneration] at hnumber

theorem Course.publishes_congr {kept kept' configured configured' : Prop} (hkept : kept ↔ kept')
    (hconfigured : configured ↔ configured') :
    course.Publishes merged kept configured ↔ course.Publishes merged kept' configured' := by
  rw [hkept, hconfigured]

theorem logging_applyOverrides (h : loggingChanged base overrides = false) :
    (applyOverrides base overrides).logging = base.logging := by
  rw [loggingChanged] at h
  simp only [applyOverrides]
  cases hlogging : overrides.logging with
  | none => rfl
  | some logging => simpa [hlogging] using h

/-- **What the block must do**, step by step. -/
theorem settled_install_iff (hmerged : merged = applyOverrides base overrides) :
    Settled course merged w ((install course base merged overrides setupDone).exec w) ↔
      ((∀ setter, course.setters setter = .none) →
        course.Proceeds base merged overrides w.pipeline) := by
  have hrest := keeps_applyPolicies course.setters merged w
  rw [install, Program.exec_bind]
  cases happly : (applyPolicies course.setters merged).exec w with
  | mk r w' =>
      rw [happly] at hrest
      cases r with
      | error e =>
          have hset : ¬ ∀ setter, course.setters setter = .none := by
            intro hset
            have hok : (applyPolicies course.setters merged).exec w =
                (.ok (), w.withPolicies merged.installed) :=
              exec_applyPolicies_eq_ok.mpr ⟨hset, rfl⟩
            rw [happly] at hok
            cases hok
          have hgeneration := congrArg World.generation hrest
          have hpipeline := congrArg World.pipeline hrest
          simp only [hset, false_imp_iff, iff_true]
          exact ⟨hgeneration, hpipeline⟩
      | ok u =>
          obtain ⟨hset, rfl⟩ := exec_applyPolicies_eq_ok.mp happly
          simp only [hset, implies_true, true_imp_iff, Course.Proceeds]
          cases hchanged : loggingChanged base overrides with
          | false =>
              refine (settled_publish_iff ?_ ?_).trans (Course.publishes_congr ?_ ?_)
              · rfl
              · rfl
              · exact iff_true_intro rfl
              · have hmerged : merged.logging = base.logging := by
                  rw [hmerged]
                  exact logging_applyOverrides hchanged
                rw [hmerged]
                exact Iff.rfl
          | true =>
              simp only [if_true, Program.exec_bind, exec_configureLogging]
              cases hrebuild : course.rebuild with
              | installs =>
                  refine (settled_publish_iff ?_ ?_).trans (Course.publishes_congr ?_ ?_)
                  · rfl
                  · rfl
                  · exact eq_comm
                  · exact iff_true_intro rfl
              | interrupted reached =>
                  exact (and_iff_right rfl).trans Reached.install_eq_iff
              | fails reached =>
                  cases hfallback : course.fallback with
                  | installs =>
                      refine (settled_publish_iff ?_ ?_).trans (Course.publishes_congr ?_ ?_)
                      · rfl
                      · rfl
                      · exact Reached.emergency_eq_iff
                      · simp [World.withPipeline, LoggingConfig.pipeline]
                  | interrupted => exact (and_iff_right rfl).trans Reached.install_eq_iff
                  | warns => exact (and_iff_right rfl).trans Reached.emergency_eq_iff

/-- **When an update is atomic.** -/
theorem atomic_iff (course : Course) (overrides : RuntimeOverrides) (w : World) :
    Atomic course overrides w ↔ Regular course overrides w := by
  cases hbase : w.generation.config with
  | none =>
      simp [Atomic, Regular, updateRuntimeConfig, Program.exec_bind, hbase]
  | some base =>
      cases hlive : refuses w base (applyOverrides base overrides) with
      | true =>
          simp [Atomic, Regular, updateRuntimeConfig, Program.exec_bind, hbase, hlive]
      | false =>
          rw [atomic_iff_settled hbase hlive, settled_install_iff rfl]
          simp [Regular, hbase, hlive]

/-- After a setup with the default config. -/
def started : World where
  policies := TelemetryConfig.installed {}
  generation := ⟨1, some {}, true⟩
  pipeline := LoggingConfig.pipeline {}

/-- The level is lowered. -/
def debugLevel : RuntimeOverrides := { logging := some { level := "DEBUG" } }

/-- The rebuild fails at once. Then the update returns the new config above the emergency pipeline;
or, where warnings are errors, it raises and leaves the emergency pipeline under the old one. -/
theorem emergency_under_either_config :
    (∃ config w', (updateRuntimeConfig { rebuild := .fails .nothing } debugLevel).exec started =
        (.ok config, w') ∧
      config.logging.level = "DEBUG" ∧ w'.pipeline.processors = .emergency) ∧
    ∃ w', (updateRuntimeConfig { rebuild := .fails .nothing, fallback := .warns } debugLevel).exec
        started = (.error .interrupted, w') ∧
      w'.generation = started.generation ∧ w'.pipeline.processors = .emergency :=
  ⟨⟨_, _, rfl, rfl, rfl⟩, _, rfl, rfl, rfl⟩

end Telemetry.Runtime.Python
