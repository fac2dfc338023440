import Telemetry.Lib.Parties
import Telemetry.Lib.Rebuilds
import Telemetry.Logging.PythonPipeline
import Mathlib.Data.Fintype.Basic

/-!
# Changing the destination of the Python logger

`set_log_output` and `clear_log_output` write the slot of the destination under a lock of its own.
Then `reapply_log_output` copies the config in force under the lock of the logger, releases it, and
rebuilds the pipeline from its copy in a pass like that of `configure_logging`. Threads interleave
between any of these, and the slot may be written while another thread's pass is under way.

For the slot, the pending rebuild makes up for that: whoever writes it owes a pass that starts
after. For the config it does not: a pass of `configure_logging` may come between the copy and the
rebuild, and the rebuild puts the older config back.

## Main definitions

* `State`, `machine` — the logger with the calls of its threads.
* `InForce` — between calls, the pipeline is that of the last `configure_logging` and of the slot.
* `Current` — a rebuild has the config in force, and a provider that is reused is its config's own.

## Main results

* `console_of_reachable` — **the console handler follows the slot**, in every run.
* `pipeline_eq_of_reachable` — **no reconfiguration is lost** in a run whose passes are current.
-/

namespace Telemetry.Logging.PythonOutput

open Telemetry.Lib Telemetry.Config.Python Telemetry.Logging.PythonPipeline
open Telemetry.Logging.PythonLevels (effectiveLevel)
open LoggerCore (configureLoggingInner initial makes pipelineOf reuses)

/-! ## Calls -/

/-- What a thread may call. -/
inductive Call (W : Type)
  /-- `configure_logging(config, force=True)` -/
  | configureLogging (config : TelemetryConfig)
  | setLogOutput (writer : W)
  | clearLogOutput

/-- How far a thread is in its call. -/
inductive Progress (W : Type)
  /-- In `configure_logging`, before its pass. -/
  | configuring (config : TelemetryConfig)
  /-- Before the slot is written. -/
  | swapping (writer : Option W)
  /-- The slot is written. -/
  | swapped
  /-- In `reapply_log_output`, with its copy of the config. -/
  | rebuilding (config : TelemetryConfig)
  /-- In its pass. -/
  | passing

/-- The thread still owes a pass for its change of the slot. -/
def Owes {W : Type} : Option (Progress W) → Prop
  | some .swapped | some (.rebuilding _) => True
  | _ => False

/-- A pass under way: whose it is, whether it is a rebuild, and the destination it has read. -/
structure Pass (T W : Type) where
  thread : T
  config : TelemetryConfig
  rebuild : Bool
  destination : Option W

/-- What has happened: the config of the `configure_logging` pass that ran last, and what the last
pass read of the slot. -/
structure History (W : Type) where
  configured : TelemetryConfig
  read : Option W × Option W

/-- The logger, the slot, the lock with the pass that holds it, and the calls. -/
structure State (T W : Type) where
  core : LoggerCore W
  /-- `_LOG_OUTPUT` -/
  logOutput : Option W
  /-- `_lock`: held over steps only by a pass. -/
  lock : Option (Pass T W)
  calls : T → Option (Progress W)
  history : History W

/-- The first configuration: the handlers of the host, what was in the slot, the config, and
whether it was `configure_logging` or a getter that came first. -/
structure Setup (W : Type) where
  hosts : List ℕ
  logOutput : Option W
  config : TelemetryConfig
  claimRoot : Bool

/-- A step of a thread. -/
inductive Step (T W : Type)
  | call (t : T) (call : Call W)
  /-- Write the slot, under its lock. -/
  | swap (t : T)
  /-- The locked read of `reapply_log_output`. -/
  | readActive (t : T)
  /-- Take the lock for a pass and read the destination. -/
  | enter (t : T)
  /-- Read the slot again, install what is built, and release the lock. -/
  | leave

namespace State

variable {T W : Type} [DecidableEq T]

/-- A thread goes on, or returns. -/
def setCall (s : State T W) (t : T) (progress : Option (Progress W)) : State T W :=
  { s with calls := Function.update s.calls t progress }

/-- What a call does first: `set_log_output` raises for a writer that cannot be written to. -/
def begin (env : Env W) (s : State T W) (t : T) : Call W → State T W
  | .configureLogging config => s.setCall t (some (.configuring config))
  | .setLogOutput writer =>
      if env.writable writer then s.setCall t (some (.swapping (some writer))) else s
  | .clearLogOutput => s.setCall t (some (.swapping none))

def swap (s : State T W) (t : T) (writer : Option W) : State T W :=
  { s.setCall t (some .swapped) with logOutput := writer }

/-- The config in force, if the logger is configured: without one the call returns. -/
def readActive (s : State T W) (t : T) : State T W :=
  s.setCall t ((if s.core.configured then s.core.activeConfig else none).map .rebuilding)

/-- A thread takes the lock and reads the slot. -/
def takeLock (s : State T W) (t : T) (config : TelemetryConfig) (rebuild : Bool) : State T W :=
  { s.setCall t (some .passing) with lock := some ⟨t, config, rebuild, s.logOutput⟩ }

/-- `_configure_logging` with `force=True`, up to its first read of the slot. -/
def enter (s : State T W) (t : T) (config : TelemetryConfig) (rebuild : Bool) : State T W :=
  if s.core.skips config true then s.setCall t none else s.takeLock t config rebuild

/-- The rest of it. A rebuild does not claim the root logger. -/
def leave (env : Env W) (s : State T W) (pass : Pass T W) : State T W where
  core := s.core.configureLoggingInner env pass.config (!pass.rebuild) pass.destination s.logOutput
  logOutput := s.logOutput
  lock := none
  calls := Function.update s.calls pass.thread none
  history :=
    { configured := if pass.rebuild then s.history.configured else pass.config
      read := (pass.destination, s.logOutput) }

end State

variable {T W : Type} [DecidableEq T]

/-- The logger after its first configuration. -/
def first (env : Env W) (setup : Setup W) : State T W where
  core := (initial setup.hosts).configureLoggingInner env setup.config setup.claimRoot
    setup.logOutput setup.logOutput
  logOutput := setup.logOutput
  lock := none
  calls _ := none
  history := ⟨setup.config, (setup.logOutput, setup.logOutput)⟩

variable (T) in
/-- The logger as a machine. -/
def machine (env : Env W) (setup : Setup W) : Machine (State T W) (Step T W) where
  init := first env setup
  step s
    | .call t call =>
        match s.calls t with
        | none => some (s.begin env t call)
        | some _ => none
    | .swap t =>
        match s.calls t with
        | some (.swapping writer) => some (s.swap t writer)
        | _ => none
    | .readActive t =>
        match s.lock, s.calls t with
        | none, some .swapped => some (s.readActive t)
        | _, _ => none
    | .enter t =>
        match s.lock, s.calls t with
        | none, some (.configuring config) => some (s.enter t config false)
        | none, some (.rebuilding config) => some (s.enter t config true)
        | _, _ => none
    | .leave => s.lock.map (s.leave env)

/-- No call is in progress. -/
def State.Idle (s : State T W) : Prop := ∀ t, (s.calls t).isNone = true

instance [Fintype T] (s : State T W) : Decidable s.Idle :=
  inferInstanceAs (Decidable (∀ t, (s.calls t).isNone = true))

/-- **Between calls, the pipeline is that of the last `configure_logging`**, and both reads of the
slot have found what is in it. -/
def InForce (env : Env W) (s : State T W) : Prop :=
  s.Idle → s.core.pipeline = some (pipelineOf env s.history.configured s.logOutput s.logOutput)

/-- A rebuild that ends has the config in force, and if a pass that ends reuses the provider, that
was made for the key of its config. -/
def Current (env : Env W) (s : State T W) : Step T W → Prop
  | .leave => ∀ pass ∈ s.lock,
      (pass.rebuild = true → s.core.activeConfig = some pass.config) ∧
      (reuses env s.core pass.config = true →
        s.core.otelLogProvider = some (logProviderConfigKey pass.config))
  | _ => True

instance (env : Env W) : ∀ (s : State T W) (l : Step T W), Decidable (Current env s l)
  | _, .call _ _ | _, .swap _ | _, .readActive _ | _, .enter _ =>
      inferInstanceAs (Decidable True)
  | s, .leave =>
      inferInstanceAs (Decidable (∀ pass ∈ s.lock,
        (pass.rebuild = true → s.core.activeConfig = some pass.config) ∧
        (reuses env s.core pass.config = true →
          s.core.otelLogProvider = some (logProviderConfigKey pass.config))))

/-! ## Steps -/

/-- What a step does. -/
inductive Stepped (env : Env W) (s : State T W) : Step T W → State T W → Prop
  | call {t : T} (call : Call W) (hidle : s.calls t = none) :
      Stepped env s (.call t call) (s.begin env t call)
  | swap {t : T} {writer : Option W} (hcall : s.calls t = some (.swapping writer)) :
      Stepped env s (.swap t) (s.swap t writer)
  | readActive {t : T} (hlock : s.lock = none) (hcall : s.calls t = some .swapped) :
      Stepped env s (.readActive t) (s.readActive t)
  | configure {t : T} {config : TelemetryConfig} (hlock : s.lock = none)
      (hcall : s.calls t = some (.configuring config)) :
      Stepped env s (.enter t) (s.enter t config false)
  | rebuild {t : T} {config : TelemetryConfig} (hlock : s.lock = none)
      (hcall : s.calls t = some (.rebuilding config)) :
      Stepped env s (.enter t) (s.enter t config true)
  | leave {pass : Pass T W} (hlock : s.lock = some pass) : Stepped env s .leave (s.leave env pass)

variable {env : Env W} {setup : Setup W} {s s' : State T W} {l : Step T W}

theorem stepped_of_step (h : (machine T env setup).step s l = some s') : Stepped env s l s' := by
  cases l with
  | call t call =>
      cases hcall : s.calls t with
      | some progress => simp [machine, hcall] at h
      | none =>
          obtain rfl : s.begin env t call = s' := by simpa [machine, hcall] using h
          exact .call call hcall
  | swap t =>
      simp only [machine] at h
      split at h
      · rename_i writer hcall
        obtain rfl := Option.some.inj h
        exact .swap hcall
      · cases h
  | readActive t =>
      simp only [machine] at h
      split at h
      · rename_i hlock hcall
        obtain rfl := Option.some.inj h
        exact .readActive hlock hcall
      · cases h
  | enter t =>
      simp only [machine] at h
      split at h
      · rename_i config hlock hcall
        obtain rfl := Option.some.inj h
        exact .configure hlock hcall
      · rename_i config hlock hcall
        obtain rfl := Option.some.inj h
        exact .rebuild hlock hcall
      · cases h
  | leave =>
      obtain ⟨pass, hlock, rfl⟩ := Option.map_eq_some_iff.mp h
      exact .leave hlock

@[simp] theorem State.core_begin (t : T) (call : Call W) : (s.begin env t call).core = s.core := by
  cases call with
  | setLogOutput writer =>
      simp only [begin]
      split <;> rfl
  | configureLogging config => rfl
  | clearLogOutput => rfl

@[simp] theorem State.history_begin (t : T) (call : Call W) :
    (s.begin env t call).history = s.history := by
  cases call with
  | setLogOutput writer =>
      simp only [begin]
      split <;> rfl
  | configureLogging config => rfl
  | clearLogOutput => rfl

@[simp] theorem State.enter_eq (t : T) (config : TelemetryConfig) (rebuild : Bool) :
    s.enter t config rebuild = s.takeLock t config rebuild := by
  simp [enter]

/-- **Only the end of a pass** changes what is installed. -/
theorem Stepped.frame (h : Stepped env s l s') (hl : l ≠ .leave) :
    s'.core = s.core ∧ s'.history = s.history := by
  cases h with
  | call call hidle => exact ⟨State.core_begin _ _, State.history_begin _ _⟩
  | swap hcall => exact ⟨rfl, rfl⟩
  | readActive hlock hcall => exact ⟨rfl, rfl⟩
  | configure hlock hcall =>
      rw [State.enter_eq]
      exact ⟨rfl, rfl⟩
  | rebuild hlock hcall =>
      rw [State.enter_eq]
      exact ⟨rfl, rfl⟩
  | leave hlock => exact absurd rfl hl

/-! ## The slot -/

/-- The logger is configured, the thread that holds the lock is in its pass, and the console handler
is for what the last pass read. -/
structure Sound (s : State T W) : Prop where
  configured : s.core.configured = true
  active : s.core.activeConfig.isSome = true
  passing : ∀ pass, s.lock = some pass → s.calls pass.thread = some .passing
  console : ∃ p, s.core.pipeline = some p ∧
    p.fanout.handlers.head? = some (consoleHandler s.history.read.2)

omit [DecidableEq T] in
theorem sound_first : Sound (first env setup : State T W) where
  configured := rfl
  active := rfl
  passing pass h := by cases h
  console := LoggerCore.console_configureLoggingInner (.inr (LoggerCore.installedFanout_hosts _ _))

/-- Another thread goes on: the holder of the lock is where it was. -/
theorem Sound.passing_update (h : Sound s) {t : T} {progress : Option (Progress W)}
    (ht : s.calls t ≠ some .passing) (pass : Pass T W) (hlock : s.lock = some pass) :
    Function.update s.calls t progress pass.thread = some .passing := by
  have hpassing := h.passing pass hlock
  have hne : pass.thread ≠ t := by
    intro heq
    rw [heq] at hpassing
    exact ht hpassing
  rw [Function.update_of_ne hne, hpassing]

/-- A call begins: that is one more thread before its pass, or nothing. -/
theorem State.begin_cases (env : Env W) (s : State T W) (t : T) (call : Call W) :
    s.begin env t call = s ∨
      ∃ progress, ¬ Owes (some progress) ∧ s.begin env t call = s.setCall t (some progress) := by
  cases call with
  | configureLogging config => exact .inr ⟨.configuring config, id, rfl⟩
  | clearLogOutput => exact .inr ⟨.swapping none, id, rfl⟩
  | setLogOutput writer =>
      cases hwritable : env.writable writer with
      | false =>
          left
          simp [begin, hwritable]
      | true => exact .inr ⟨.swapping (some writer), id, by simp [begin, hwritable]⟩

/-- **One step** keeps the logger sound. -/
theorem Sound.step (h : Sound s) (hstep : Stepped env s l s') : Sound s' := by
  cases hstep with
  | @call t call hidle =>
      obtain hsame | ⟨progress, -, hset⟩ := State.begin_cases env s t call
      · rw [hsame]
        exact h
      · rw [hset]
        exact ⟨h.configured, h.active, h.passing_update (by simp [hidle]), h.console⟩
  | swap hcall => exact ⟨h.configured, h.active, h.passing_update (by simp [hcall]), h.console⟩
  | readActive hlock hcall =>
      exact ⟨h.configured, h.active, h.passing_update (by simp [hcall]), h.console⟩
  | @configure t config hlock hcall =>
      rw [State.enter_eq]
      refine ⟨h.configured, h.active, fun pass hpass => ?_, h.console⟩
      obtain rfl := Option.some.inj hpass
      simp [State.takeLock, State.setCall]
  | @rebuild t config hlock hcall =>
      rw [State.enter_eq]
      refine ⟨h.configured, h.active, fun pass hpass => ?_, h.console⟩
      obtain rfl := Option.some.inj hpass
      simp [State.takeLock, State.setCall]
  | leave hlock =>
      refine ⟨rfl, rfl, fun pass hpass => ?_, ?_⟩
      · cases hpass
      · exact LoggerCore.console_configureLoggingInner (.inl h.configured)

theorem lockSound_of_reachable {G : State T W → Step T W → Prop}
    (hs : (machine T env setup).Reachable G s) : Sound s :=
  hs.invariant sound_first fun _ _ _ h _ hstep => h.step (stepped_of_step hstep)

/-- What the passes read and who owes one. -/
def State.shown (s : State T W) : Rebuilds T (Option W) where
  source := s.logOutput
  owing := {t | Owes (s.calls t)}
  pass := s.lock.map Pass.destination
  built := s.history.read

/-- Taking the lock is starting a pass, owed or not. -/
theorem State.shown_takeLock (hlock : s.lock = none) (t : T) (config : TelemetryConfig)
    (rebuild : Bool) :
    (Rebuilds.machine T setup.logOutput).step s.shown (.start t) =
      some (s.takeLock t config rebuild).shown := by
  have howing : {t' | Owes ((s.takeLock t config rebuild).calls t')} =
      {t' | Owes (s.calls t')} \ {t} := setOf_update_of_not id
  simp only [Rebuilds.machine, shown, hlock, Option.map_none]
  exact congrArg some (Rebuilds.ext rfl howing.symm rfl rfl)

/-- **A step of the logger is one of `Rebuilds`**, or does not show. -/
theorem Sound.shown_step (h : Sound s) (hstep : Stepped env s l s') :
    s'.shown = s.shown ∨
      ∃ e, (Rebuilds.machine T setup.logOutput).step s.shown e = some s'.shown := by
  cases hstep with
  | @call t call hidle =>
      left
      obtain hsame | ⟨progress, howes, hset⟩ := State.begin_cases env s t call
      · rw [hsame]
      · have hnot : ¬ Owes (s.calls t) := by
          rw [hidle]
          exact id
        rw [hset]
        exact Rebuilds.ext rfl (setOf_update_of_iff (iff_of_false howes hnot)) rfl rfl
  | @swap t writer hcall =>
      have howing : {t' | Owes ((s.swap t writer).calls t')} =
          insert t {t' | Owes (s.calls t')} := setOf_update_of_holds trivial
      exact .inr ⟨.change t writer, congrArg some (Rebuilds.ext rfl howing.symm rfl rfl)⟩
  | @readActive t hlock hcall =>
      left
      obtain ⟨config, hactive⟩ := Option.isSome_iff_exists.mp h.active
      have howes : Owes (s.calls t) := by
        rw [hcall]
        trivial
      have hread : s.readActive t = s.setCall t (some (.rebuilding config)) := by
        simp [State.readActive, h.configured, hactive]
      rw [hread]
      exact Rebuilds.ext rfl (setOf_update_of_iff (iff_of_true trivial howes)) rfl rfl
  | @configure t config hlock hcall =>
      rw [State.enter_eq]
      exact .inr ⟨.start t, State.shown_takeLock hlock t config false⟩
  | @rebuild t config hlock hcall =>
      rw [State.enter_eq]
      exact .inr ⟨.start t, State.shown_takeLock hlock t config true⟩
  | @leave pass hlock =>
      have hnot : ¬ Owes (s.calls pass.thread) := by
        rw [h.passing pass hlock]
        exact id
      have howing : {t' | Owes ((s.leave env pass).calls t')} = {t' | Owes (s.calls t')} :=
        setOf_update_of_iff (iff_of_false id hnot)
      refine .inr ⟨.finish, ?_⟩
      simp only [Rebuilds.machine, State.shown, hlock, Option.map_some]
      exact congrArg some (Rebuilds.ext rfl howing.symm rfl rfl)

theorem shown_of_reachable {G : State T W → Step T W → Prop}
    (hs : (machine T env setup).Reachable G s) :
    (Rebuilds.machine T setup.logOutput).Reachable (fun _ _ => True) s.shown := by
  refine hs.map State.shown ?_ ?_
  · have hnone : {t | Owes ((first env setup : State T W).calls t)} = ∅ :=
      Set.eq_empty_of_forall_notMem fun _ => id
    exact Rebuilds.ext rfl hnone rfl rfl
  · intro s l s' hs _ hstep hshown
    obtain hsame | ⟨e, he⟩ := (lockSound_of_reachable hs).shown_step (stepped_of_step hstep)
    · rwa [hsame]
    · exact hshown.step trivial he

/-- Between calls, the last pass has found in the slot, both times, what is in it. -/
theorem read_of_reachable {G : State T W → Step T W → Prop}
    (hs : (machine T env setup).Reachable G s) (hidle : s.Idle) :
    s.history.read = (s.logOutput, s.logOutput) := by
  have hnone : ∀ t, s.calls t = none := fun t => Option.isNone_iff_eq_none.mp (hidle t)
  have hlock : s.lock = none := by
    cases hlock : s.lock with
    | none => rfl
    | some pass =>
        have hpassing := (lockSound_of_reachable hs).passing pass hlock
        rw [hnone] at hpassing
        cases hpassing
  refine Rebuilds.built_eq_of_reachable (shown_of_reachable hs) ?_ ?_
  · rw [State.shown, hlock]
    rfl
  · refine Set.eq_empty_of_forall_notMem fun t ht => ?_
    rw [State.shown, Set.mem_ofPred_eq, hnone] at ht
    exact ht

/-- **The console handler follows the slot**: in every run, between calls, it is for the writer in
the slot, or for stderr. -/
theorem console_of_reachable {G : State T W → Step T W → Prop}
    (hs : (machine T env setup).Reachable G s) (hidle : s.Idle) :
    ∃ p, s.core.pipeline = some p ∧
      p.fanout.handlers.head? = some (consoleHandler s.logOutput) := by
  have hconsole := (lockSound_of_reachable hs).console
  rwa [read_of_reachable hs hidle] at hconsole

/-! ## The config -/

/-- The config in force is that of the last `configure_logging`, and the pipeline is made from it
and from what the last pass read. -/
structure Follows (env : Env W) (s : State T W) : Prop where
  active : s.core.activeConfig = some s.history.configured
  pipeline : s.core.pipeline =
    some (pipelineOf env s.history.configured s.history.read.1 s.history.read.2)
  makes : ∀ key, s.core.otelLogProvider = some key → makes env key = true

omit [DecidableEq T] in
theorem follows_first : Follows env (first env setup : State T W) where
  active := rfl
  pipeline := LoggerCore.pipeline_configureLoggingInner
    (.inr (LoggerCore.installedFanout_hosts _ _)) (by intro h; simp [reuses] at h)
    (by intro _ h; cases h)
  makes key h := LoggerCore.makes_buildHandlers (by intro _ h; cases h) h

/-- **One step** that is current keeps it. -/
theorem Follows.step (h : Follows env s) (hs : Sound s) (hcurrent : Current env s l)
    (hstep : Stepped env s l s') : Follows env s' := by
  by_cases hl : l = .leave
  · subst hl
    cases hstep with
    | @leave pass hlock =>
        obtain ⟨hrebuild, hreuse⟩ := hcurrent pass hlock
        -- A rebuild has the config in force, which is that of the last `configure_logging`.
        have hconfigured : (s.leave env pass).history.configured = pass.config := by
          cases hkind : pass.rebuild with
          | false => simp [State.leave, hkind]
          | true =>
              have hconfig := hrebuild hkind
              rw [h.active, Option.some.injEq] at hconfig
              simpa [State.leave, hkind] using hconfig
        refine ⟨?_, ?_, ?_⟩
        · rw [hconfigured]
          rfl
        · rw [hconfigured]
          exact LoggerCore.pipeline_configureLoggingInner (.inl hs.configured) hreuse h.makes
        · exact fun key hkey => LoggerCore.makes_buildHandlers h.makes hkey
  · obtain ⟨hcore, hhistory⟩ := hstep.frame hl
    refine ⟨?_, ?_, ?_⟩
    · rw [hcore, hhistory, h.active]
    · rw [hcore, hhistory, h.pipeline]
    · rw [hcore]
      exact h.makes

theorem follows_of_reachable (hs : (machine T env setup).Reachable (Current env) s) :
    Sound s ∧ Follows env s := by
  refine hs.invariant (P := fun s => Sound s ∧ Follows env s) ⟨sound_first, follows_first⟩ ?_
  intro s l s' h hcurrent hstep
  have hstepped := stepped_of_step hstep
  exact ⟨h.1.step hstepped, h.2.step h.1 hcurrent hstepped⟩

/-- **No reconfiguration is lost** in a run in which every rebuild has the config in force when it
ends, and every provider that is reused was made for its config. -/
theorem pipeline_eq_of_reachable (hs : (machine T env setup).Reachable (Current env) s) :
    InForce env s := by
  intro hidle
  have hpipeline := (follows_of_reachable hs).2.pipeline
  rwa [read_of_reachable hs hidle] at hpipeline

/-! ## Two runs -/

/-- No OpenTelemetry packages, no colours. -/
def bare : Env Unit where
  tables := asciiCase
  otelComponents := false
  instrumentation := false
  tlsReady := false
  rawExporter _ := false
  ansiSupported _ := false
  structlogColors _ := false
  writable _ := true

/-- A config at this level. -/
def atLevel (level : String) : TelemetryConfig :=
  { logging := { level := CodePoints.ofString level } }

/-- A process that has been configured at INFO and writes to stderr. -/
def atInfo : Setup Unit := ⟨[], none, atLevel "INFO", true⟩

/-- One thread changes the destination and another the level; the copy is made after the pass of the
second. -/
def freshCopy : List (Step Bool Unit) :=
  [.call false (.setLogOutput ()), .call true (.configureLogging (atLevel "DEBUG")), .swap false,
    .enter true, .leave, .readActive false, .enter false, .leave]

theorem inForce_freshCopy : ∃ s, (machine Bool bare atInfo).run freshCopy = some s ∧ s.Idle ∧
    s.history.configured = atLevel "DEBUG" ∧ s.logOutput = some () ∧ InForce bare s := by
  obtain ⟨s, hrun, hidle, hlevel, hslot⟩ := Machine.exists_of_run_any
    (M := machine Bool bare atInfo)
    (P := fun s => s.Idle ∧ s.history.configured = atLevel "DEBUG" ∧ s.logOutput = some ())
    freshCopy (by decide)
  have hguarded : (machine Bool bare atInfo).Guarded (Current bare) (first bare atInfo)
      freshCopy := by decide
  exact ⟨s, hrun, hidle, hlevel, hslot,
    pipeline_eq_of_reachable (Machine.reachable_of_run hguarded hrun)⟩

/-- The same, but the copy is made before. -/
def staleCopy : List (Step Bool Unit) :=
  [.call false (.setLogOutput ()), .call true (.configureLogging (atLevel "DEBUG")), .swap false,
    .readActive false, .enter true, .leave, .enter false, .leave]

/-- **The level of the last `configure_logging` is lost.** -/
theorem not_inForce_staleCopy :
    ∃ s, (machine Bool bare atInfo).run staleCopy = some s ∧ ¬ InForce bare s := by
  obtain ⟨s, hrun, hidle, hlast, hlevel⟩ := Machine.exists_of_run_any
    (M := machine Bool bare atInfo)
    (P := fun s => s.Idle ∧ s.history.configured = atLevel "DEBUG" ∧ s.core.root.level = 20)
    staleCopy (by decide)
  refine ⟨s, hrun, fun h => ?_⟩
  have hpipeline := h hidle
  rw [hlast] at hpipeline
  have hroot : s.core.root.level = effectiveLevel (atLevel "DEBUG").logging :=
    (LoggerCore.pipeline_eq_some hpipeline).2.1
  rw [hlevel] at hroot
  exact absurd hroot (by decide)

/-- The packages are there, and every exporter can be made. -/
def exporting : Env Unit :=
  { bare with otelComponents := true, tlsReady := true, rawExporter := fun _ => true }

/-- A config with this endpoint. -/
def atEndpoint (endpoint : String) (enabled : Bool) : TelemetryConfig :=
  { logging := { otlpEndpoint := some (CodePoints.ofString endpoint), otlpEnabled := enabled } }

/-- A process that exports to one collector. -/
def toFirst : Setup Unit := ⟨[], none, atEndpoint "http://first" true, true⟩

/-- One thread names another collector while export is off, and then switches it on. -/
def switchedOff : List (Step Bool Unit) :=
  [.call false (.configureLogging (atEndpoint "http://second" false)), .enter false, .leave,
    .call false (.configureLogging (atEndpoint "http://second" true)), .enter false, .leave]

/-- **The provider is still that of the first collector**: the key of the config in force says
nothing about a provider that it did not make. -/
theorem not_inForce_switchedOff :
    ∃ s, (machine Bool exporting toFirst).run switchedOff = some s ∧ ¬ InForce exporting s := by
  obtain ⟨s, hrun, hidle, hlast, hslot, hhandlers⟩ := Machine.exists_of_run_any
    (M := machine Bool exporting toFirst)
    (P := fun s => s.Idle ∧ s.history.configured = atEndpoint "http://second" true ∧
      s.logOutput = none ∧
      (LoggerCore.installedFanout s.core.root).map Fanout.handlers =
        some [.stderr, .otel 20 (logProviderConfigKey (atEndpoint "http://first" true)) none])
    switchedOff (by decide)
  refine ⟨s, hrun, fun h => ?_⟩
  have hpipeline := h hidle
  rw [hlast, hslot] at hpipeline
  rw [(LoggerCore.pipeline_eq_some hpipeline).1] at hhandlers
  exact absurd hhandlers (by decide)

end Telemetry.Logging.PythonOutput
