import Telemetry.Runtime.RustRuns

/-!
# Updates and reloads of the Rust SDK on several threads

`update_runtime_config` merges and stores its config under the write lock, and `reload` reads the
config, stores the merged one and stores it once more at its end; each of these is one section.
After the store both push the policies, setter by setter, and then the logging config, each under
the lock of its module. The sections of several calls interleave.

What a live OpenTelemetry provider was built with is kept: an update that would change it for the
log provider fails, and a reload takes it from the config that it has read.

## Main definitions

* `Slot`, `Slot.push`, `Slot.Agrees` — what is pushed.
* `keepLive`, `Asked` — what a call makes of a config.
* `Phase`, `System`, `Step`, `calls` — the calls and their sections.
* `Serial` — the stored config comes from the calls in some order.
* `Kept` — what live providers keep has not changed since a reload has read it.

## Main results

* `serial_of_reachable` — **the stored config in every run** in which this holds.
* `kept_of_not_live` — it does if no provider is live.
-/

namespace Telemetry.Runtime.Rust

open Telemetry.Lib

/-! ## What is pushed -/

/-- What a call pushes: the policies, by their setters, and the logging config. -/
inductive Slot
  | policy (setter : Setter)
  | logging
  deriving DecidableEq, Repr

/-- A setter has set what a config has for it. -/
def Setter.Holds (config : TelemetryConfig) (m : Modules) : Setter → Prop
  | .sampling signal => m.sampling signal = config.installed.sampling signal
  | .queue => m.queue = config.installed.queue
  | .exporter signal => m.exporter signal = config.installed.exporter signal
  | .strictSchema => m.strictSchema = config.installed.strictSchema

namespace Slot

/-- The section of a call that pushes a part of its config. -/
def push (config : TelemetryConfig) (s : Statics) : Slot → Statics
  | .policy setter => { s with modules := setter.set config s.modules }
  | .logging => s.configureLogging config.logging

/-- What is in force is what a config has. -/
def Agrees (config : TelemetryConfig) (s : Statics) : Slot → Prop
  | .policy setter => setter.Holds config s.modules
  | .logging => s.Agrees config.logging

/-- Two configs have the same. -/
def Same (config stored : TelemetryConfig) : Slot → Prop
  | .policy setter => setter.Holds stored config.installed
  | .logging => config.logging = stored.logging

variable {config stored : TelemetryConfig} {s : Statics} {x y : Slot}

theorem same_refl (config : TelemetryConfig) (x : Slot) : x.Same config config := by
  cases x with
  | policy setter => cases setter <;> rfl
  | logging => rfl

/-- What has been pushed is in force. -/
theorem agrees_push_iff : x.Agrees stored (x.push config s) ↔ x.Same config stored := by
  cases x with
  | policy setter =>
      cases setter <;>
        simp [Agrees, push, Same, Setter.Holds, Setter.set, setSamplingPolicy, setQueuePolicy,
          setExporterPolicy, setStrictSchema, TelemetryConfig.installed, SortedMap.mapValues,
          SortedMap.empty]
  | logging => simp [Agrees, push, Same, Statics.Agrees, Statics.configureLogging]

/-- Nothing else is touched. -/
theorem agrees_push_of_ne (h : y ≠ x) : y.Agrees stored (x.push config s) ↔ y.Agrees stored s := by
  cases x with
  | logging =>
      cases y with
      | logging => exact absurd rfl h
      | policy setter => rfl
  | policy setter =>
      cases y with
      | logging => rfl
      | policy setter' =>
          have hne : setter' ≠ setter := fun heq => h (congrArg policy heq)
          cases setter <;> cases setter' <;>
            simp_all [Agrees, push, Setter.Holds, Setter.set, setSamplingPolicy, setQueuePolicy,
              setExporterPolicy, setStrictSchema]

/-- The policies in force, all together. -/
theorem modules_eq_of_agrees (h : ∀ setter, (policy setter).Agrees stored s) :
    s.modules = stored.installed := by
  ext1
  · exact funext fun signal => h (.sampling signal)
  · exact h .queue
  · exact funext fun signal => h (.exporter signal)
  · exact h .strictSchema

end Slot

/-! ## What a call makes of a config -/

/-- `logging_provider_config_changed`. -/
def loggingProviderConfigChanged (current target : TelemetryConfig) : Bool :=
  current.logging.otlpEndpoint ≠ target.logging.otlpEndpoint ||
    current.logging.otlpHeaders ≠ target.logging.otlpHeaders ||
    current.logging.otlpProtocol ≠ target.logging.otlpProtocol ||
    !(current.exporter.timeoutSeconds .logs).same (target.exporter.timeoutSeconds .logs)

/-- What a reload takes of a new config; what live providers were built with stays. -/
def keepLive (live : Signal → Bool) (current fresh : TelemetryConfig) : TelemetryConfig :=
  { fresh with
    exporter := { fresh.exporter with
      timeoutSeconds := fun signal =>
        if live signal then current.exporter.timeoutSeconds signal
        else fresh.exporter.timeoutSeconds signal }
    logging :=
      if live .logs then
        { fresh.logging with
          otlpEndpoint := current.logging.otlpEndpoint
          otlpHeaders := current.logging.otlpHeaders
          otlpProtocol := current.logging.otlpProtocol }
      else fresh.logging }

/-- What a call is asked: to apply overrides, or to reload what the environment has. -/
inductive Asked
  | update (overrides : RuntimeOverrides)
  | reload (fresh : TelemetryConfig)

namespace Asked

/-- The overrides that a call applies to a config. -/
def overrides (live : Signal → Bool) (current : TelemetryConfig) : Asked → RuntimeOverrides
  | update overrides => overrides
  | reload fresh => hotOverrides (keepLive live current fresh)

/-- What a call makes of a config. -/
def apply (live : Signal → Bool) (current : TelemetryConfig) (asked : Asked) : TelemetryConfig :=
  applyRuntimeOverrides current (asked.overrides live current)

end Asked

/-- Two configs with the same for the live providers. -/
structure SameLive (live : Signal → Bool) (current current' : TelemetryConfig) : Prop where
  timeoutSeconds : ∀ signal, live signal = true →
    current.exporter.timeoutSeconds signal = current'.exporter.timeoutSeconds signal
  logging : live .logs = true →
    current.logging.otlpEndpoint = current'.logging.otlpEndpoint ∧
      current.logging.otlpHeaders = current'.logging.otlpHeaders ∧
      current.logging.otlpProtocol = current'.logging.otlpProtocol

section

variable {live : Signal → Bool} {current current' current'' : TelemetryConfig}

theorem SameLive.refl (current : TelemetryConfig) : SameLive live current current :=
  ⟨fun _ _ => rfl, fun _ => ⟨rfl, rfl, rfl⟩⟩

theorem SameLive.symm (h : SameLive live current current') : SameLive live current' current := by
  constructor
  · exact fun signal hlive => (h.timeoutSeconds signal hlive).symm
  · intro hlive
    obtain ⟨hendpoint, hheaders, hprotocol⟩ := h.logging hlive
    exact ⟨hendpoint.symm, hheaders.symm, hprotocol.symm⟩

theorem SameLive.trans (h : SameLive live current current')
    (h' : SameLive live current' current'') : SameLive live current current'' := by
  constructor
  · exact fun signal hlive =>
      (h.timeoutSeconds signal hlive).trans (h'.timeoutSeconds signal hlive)
  · intro hlive
    obtain ⟨hendpoint, hheaders, hprotocol⟩ := h.logging hlive
    obtain ⟨hendpoint', hheaders', hprotocol'⟩ := h'.logging hlive
    exact ⟨hendpoint.trans hendpoint', hheaders.trans hheaders', hprotocol.trans hprotocol'⟩

/-- With no provider live nothing is kept. -/
theorem sameLive_of_not_live (h : ∀ signal, live signal = false) : SameLive live current current' :=
  ⟨fun signal hlive => by simp [h] at hlive, fun hlive => by simp [h] at hlive⟩

theorem keepLive_congr (h : SameLive live current current') (fresh : TelemetryConfig) :
    keepLive live current fresh = keepLive live current' fresh := by
  have htimeout : (fun signal => if live signal then current.exporter.timeoutSeconds signal
        else fresh.exporter.timeoutSeconds signal) =
      fun signal => if live signal then current'.exporter.timeoutSeconds signal
        else fresh.exporter.timeoutSeconds signal := by
    funext signal
    split
    · exact h.timeoutSeconds signal ‹_›
    · rfl
  rw [keepLive, keepLive, htimeout]
  split
  · obtain ⟨hendpoint, hheaders, hprotocol⟩ := h.logging ‹_›
    rw [hendpoint, hheaders, hprotocol]
  · rfl

/-- A reload leaves alone what live providers keep. -/
theorem sameLive_reload (current fresh : TelemetryConfig) :
    SameLive live (Asked.apply live current (.reload fresh)) current := by
  constructor
  · intro signal hlive
    simp [Asked.apply, Asked.overrides, applyRuntimeOverrides, hotOverrides, keepLive, hlive]
  · intro hlive
    simp [Asked.apply, Asked.overrides, applyRuntimeOverrides, hotOverrides, keepLive, hlive]

/-- What live providers keep comes from what they kept. -/
theorem SameLive.apply (h : SameLive live current current') (asked : Asked) :
    SameLive live (asked.apply live current) (asked.apply live current') := by
  cases asked with
  | reload fresh => exact (sameLive_reload current fresh).trans (h.trans (sameLive_reload _ _).symm)
  | update overrides =>
      constructor
      · intro signal hlive
        cases hexporter : overrides.exporter <;>
          simp [Asked.apply, Asked.overrides, applyRuntimeOverrides, hexporter,
            h.timeoutSeconds signal hlive]
      · intro hlive
        cases hlogging : overrides.logging <;>
          simp [Asked.apply, Asked.overrides, applyRuntimeOverrides, hlogging, h.logging hlive]

end

/-! ## The calls -/

/-- A section of a call behind its store. -/
inductive Section
  | push (x : Slot)
  /-- The second store of a reload. -/
  | storeAgain
  deriving DecidableEq, Repr

/-- Where a call is. Behind its store it has the config that it has read, what it has made of it,
what it was asked, and the sections that are left; with none left it has returned. -/
inductive Phase
  | idle
  | failed
  | read (fresh : EnvConfig) (current : TelemetryConfig)
  | running (current next : TelemetryConfig) (asked : Asked) (rest : List Section)

/-- The sections of an update behind its store. -/
def updateSections (overrides : RuntimeOverrides) : List Section :=
  (setters.map fun setter => .push (.policy setter)) ++
    if overrides.logging.isSome then [.push .logging] else []

/-- The sections of a reload behind its first store. -/
def reloadSections : List Section :=
  (setters.map fun setter => .push (.policy setter)) ++ [.push .logging, .storeAgain]

/-- The statics, and every call. -/
structure System (ι : Type) where
  statics : Statics
  calls : ι → Phase := fun _ => .idle
  /-- The call that stored last among those that push a part. -/
  owner : Slot → Option ι := fun _ => none

/-- The next section of a call. -/
inductive Step (ι : Type)
  /-- An update reads, merges and stores. -/
  | update (i : ι) (overrides : RuntimeOverrides)
  /-- A reload reads the environment, and the config. -/
  | reload (i : ι) (env : Environment)
  /-- A reload stores. -/
  | store (i : ι)
  /-- A call runs a section behind its store. -/
  | run (i : ι)

variable {ι : Type} [DecidableEq ι]

namespace System

def setPhase (s : System ι) (i : ι) (phase : Phase) : System ι :=
  { s with calls := Function.update s.calls i phase }

/-- A call stores what it has made of a config. -/
def merge (s : System ι) (i : ι) (current next : TelemetryConfig) (asked : Asked)
    (rest : List Section) : System ι where
  statics := { s.statics with active := some next }
  calls := Function.update s.calls i (.running current next asked rest)
  owner x := if .push x ∈ rest then some i else s.owner x

/-- A call pushes a part. -/
def push (s : System ι) (i : ι) (current next : TelemetryConfig) (asked : Asked) (x : Slot)
    (rest : List Section) : System ι where
  statics := x.push next s.statics
  calls := Function.update s.calls i (.running current next asked rest)
  owner := s.owner

/-- A reload stores again. -/
def storeAgain (s : System ι) (i : ι) (current next : TelemetryConfig) (asked : Asked)
    (rest : List Section) : System ι where
  statics := { s.statics with active := some (withColdFields current next) }
  calls := Function.update s.calls i (.running current next asked rest)
  owner _ := none

end System

/-- The calls after a setup that has left these providers live. -/
def calls (ι : Type) [DecidableEq ι] (live : Signal → Bool) (start : Statics) :
    Machine (System ι) (Step ι) where
  init := { statics := start }
  step s
    | .update i overrides =>
        match s.calls i, s.statics.active with
        | .idle, some current =>
            let next := applyRuntimeOverrides current overrides
            if live .logs && loggingProviderConfigChanged current next then
              some (s.setPhase i .failed)
            else some (s.merge i current next (.update overrides) (updateSections overrides))
        | .idle, none => some (s.setPhase i .failed)
        | _, _ => none
    | .reload i env =>
        match s.calls i, env, s.statics.active with
        | .idle, .ok fresh, some current => some (s.setPhase i (.read fresh current))
        | .idle, _, _ => some (s.setPhase i .failed)
        | _, _, _ => none
    | .store i =>
        match s.calls i with
        | .read fresh current =>
            let hot := keepLive live current fresh.config
            let next := applyRuntimeOverrides current (hotOverrides hot)
            some (s.merge i current next (.reload fresh.config) reloadSections)
        | _ => none
    | .run i =>
        match s.calls i with
        | .running current next asked (.push x :: rest) => some (s.push i current next asked x rest)
        | .running current next asked (.storeAgain :: rest) =>
            some (s.storeAgain i current next asked rest)
        | _ => none

/-- The call has not begun, or has returned. -/
def Phase.Returned : Phase → Prop
  | .idle => True
  | .failed => True
  | .read _ _ => False
  | .running _ _ _ rest => rest = []

/-- What a call that has stored was asked. -/
def Phase.asked : Phase → Option Asked
  | .running _ _ asked _ => some asked
  | _ => none

/-! ## What one step does -/

variable {live : Signal → Bool} {start : Statics} {s s' : System ι} {l : Step ι}

/-- The steps, by what they find and what they leave. -/
inductive Stepped (live : Signal → Bool) (s : System ι) : Step ι → System ι → Prop
  | fail {l : Step ι} {i : ι} (h : s.calls i = .idle) : Stepped live s l (s.setPhase i .failed)
  | read {i : ι} {env : Environment} {fresh : EnvConfig} {current : TelemetryConfig}
      (h : s.calls i = .idle) (hactive : s.statics.active = some current) :
      Stepped live s (.reload i env) (s.setPhase i (.read fresh current))
  | update {i : ι} {overrides : RuntimeOverrides} {current : TelemetryConfig}
      (h : s.calls i = .idle) (hactive : s.statics.active = some current) :
      Stepped live s (.update i overrides) (s.merge i current
        ((Asked.update overrides).apply live current) (.update overrides)
        (updateSections overrides))
  | store {i : ι} {fresh : EnvConfig} {current : TelemetryConfig}
      (h : s.calls i = .read fresh current) :
      Stepped live s (.store i) (s.merge i current
        ((Asked.reload fresh.config).apply live current) (.reload fresh.config) reloadSections)
  | push {i : ι} {current next : TelemetryConfig} {asked : Asked} {x : Slot}
      {rest : List Section} (h : s.calls i = .running current next asked (.push x :: rest)) :
      Stepped live s (.run i) (s.push i current next asked x rest)
  | again {i : ι} {current next : TelemetryConfig} {asked : Asked} {rest : List Section}
      (h : s.calls i = .running current next asked (.storeAgain :: rest)) :
      Stepped live s (.run i) (s.storeAgain i current next asked rest)

theorem stepped_of_step (h : (calls ι live start).step s l = some s') : Stepped live s l s' := by
  cases l with
  | update i overrides =>
      simp only [calls] at h
      split at h
      next hidle hactive =>
        split at h
        · obtain rfl := Option.some.inj h
          exact .fail hidle
        · obtain rfl := Option.some.inj h
          exact .update hidle hactive
      next hidle _ =>
        obtain rfl := Option.some.inj h
        exact .fail hidle
      next => cases h
  | reload i env =>
      simp only [calls] at h
      split at h
      next hidle hactive =>
        obtain rfl := Option.some.inj h
        exact .read hidle hactive
      next hidle _ =>
        obtain rfl := Option.some.inj h
        exact .fail hidle
      next => cases h
  | store i =>
      simp only [calls] at h
      split at h
      next hread =>
        obtain rfl := Option.some.inj h
        exact .store hread
      next => cases h
  | run i =>
      simp only [calls] at h
      split at h
      next hrunning =>
        obtain rfl := Option.some.inj h
        exact .push hrunning
      next hrunning =>
        obtain rfl := Option.some.inj h
        exact .again hrunning
      next => cases h

/-! ## The stored config -/

variable {config current current' next : TelemetryConfig} {asked : Asked}

/-- Two configs that differ in what a reload replaces anyway. -/
def SameCold (current current' : TelemetryConfig) : Prop :=
  ∀ fresh, applyRuntimeOverrides current (hotOverrides fresh) =
    applyRuntimeOverrides current' (hotOverrides fresh)

theorem sameCold_foldl (config : TelemetryConfig) (order : List Asked) :
    SameCold (order.foldl (Asked.apply live) config) config := by
  induction order generalizing config with
  | nil => exact fun _ => rfl
  | cons asked order ih =>
      intro fresh
      rw [List.foldl_cons, ih]
      rfl

/-- A reload of two configs. -/
theorem apply_reload_congr (hcold : SameCold current current') (h : SameLive live current current')
    (fresh : TelemetryConfig) :
    Asked.apply live current (.reload fresh) = Asked.apply live current' (.reload fresh) := by
  rw [Asked.apply, Asked.apply, Asked.overrides, Asked.overrides, keepLive_congr h]
  exact hcold _

/-- What a call has read has the cold fields of the start, it has applied to that what it was asked,
and what stores again is a reload. -/
def Phase.Sound (live : Signal → Bool) (config : TelemetryConfig) : Phase → Prop
  | .read _ current => SameCold current config
  | .running current next asked rest =>
      SameCold current config ∧ next = asked.apply live current ∧
        (.storeAgain ∈ rest → ∃ fresh, asked = .reload fresh)
  | _ => True

/-- The calls that have stored, in an order that leads to the stored config. -/
structure Ordered (live : Signal → Bool) (config : TelemetryConfig) (s : System ι)
    (order : List (ι × Asked)) : Prop where
  nodup : (order.map Prod.fst).Nodup
  mem : ∀ i asked, (i, asked) ∈ order ↔ (s.calls i).asked = some asked
  stored : s.statics.active = some ((order.map Prod.snd).foldl (Asked.apply live) config)

/-- The stored config comes from the calls in some order. -/
structure Serial (live : Signal → Bool) (config : TelemetryConfig) (s : System ι) : Prop where
  ordered : ∃ order, Ordered live config s order
  phases : ∀ i, (s.calls i).Sound live config

/-- What live providers keep is in the stored config as a call has read it. -/
def System.Keeps (s : System ι) (live : Signal → Bool) (current : TelemetryConfig) : Prop :=
  ∀ stored, s.statics.active = some stored → SameLive live stored current

/-- What live providers keep has not changed since a reload has read it. -/
def Kept (live : Signal → Bool) (s : System ι) : Step ι → Prop
  | .store i =>
      match s.calls i with
      | .read _ current => s.Keeps live current
      | _ => True
  | .run i =>
      match s.calls i with
      | .running current _ _ (.storeAgain :: _) => s.Keeps live current
      | _ => True
  | _ => True

/-- A call comes last in an order, once. -/
def moveLast (order : List (ι × Asked)) (i : ι) (asked : Asked) : List (ι × Asked) :=
  (order.filter fun e => e.1 ≠ i) ++ [(i, asked)]

theorem nodup_moveLast {order : List (ι × Asked)} (h : (order.map Prod.fst).Nodup)
    (i : ι) (asked : Asked) : ((moveLast order i asked).map Prod.fst).Nodup := by
  rw [moveLast, List.map_append, List.nodup_append]
  refine ⟨h.sublist (List.filter_sublist.map Prod.fst), List.nodup_singleton i, ?_⟩
  intro j hj k hk
  rw [List.map_singleton, List.mem_singleton] at hk
  obtain ⟨e, he, rfl⟩ := List.mem_map.mp hj
  have hne := (List.mem_filter.mp he).2
  rw [hk]
  simpa using hne

theorem mem_moveLast {order : List (ι × Asked)} {f : ι → Phase} {i : ι} {phase : Phase}
    (h : ∀ j other, (j, other) ∈ order ↔ (f j).asked = some other)
    (hphase : phase.asked = some asked) (j : ι) (other : Asked) :
    (j, other) ∈ moveLast order i asked ↔ (Function.update f i phase j).asked = some other := by
  rw [moveLast, List.mem_append, List.mem_filter, List.mem_singleton, h]
  by_cases hj : j = i
  · subst hj
    simp [hphase, eq_comm]
  · simp [hj]

/-- An order without the reloads of a call leads to a config with the same for the live providers.
-/
theorem sameLive_filter {order : List (ι × Asked)} {i : ι}
    (h : ∀ e ∈ order, e.1 = i → ∃ fresh, e.2 = .reload fresh)
    (hlive : SameLive live current current') :
    SameLive live (((order.filter fun e => e.1 ≠ i).map Prod.snd).foldl (Asked.apply live) current)
      ((order.map Prod.snd).foldl (Asked.apply live) current') := by
  induction order generalizing current current' with
  | nil => exact hlive
  | cons e order ih =>
      have htail : ∀ e ∈ order, e.1 = i → ∃ fresh, e.2 = .reload fresh :=
        fun other hother => h other (List.mem_cons_of_mem _ hother)
      by_cases he : e.1 = i
      · obtain ⟨fresh, hfresh⟩ := h e List.mem_cons_self he
        rw [List.filter_cons_of_neg (by simpa using he), List.map_cons, List.foldl_cons, hfresh]
        exact ih htail (hlive.trans (sameLive_reload current' fresh).symm)
      · rw [List.filter_cons_of_pos (by simpa using he), List.map_cons, List.map_cons,
          List.foldl_cons, List.foldl_cons]
        exact ih htail (hlive.apply e.2)

/-- A step that leaves alone what the calls were asked. -/
theorem asked_update {f : ι → Phase} {i : ι} {phase : Phase} (h : phase.asked = (f i).asked)
    (j : ι) : (Function.update f i phase j).asked = (f j).asked := by
  by_cases hj : j = i
  · rw [hj, Function.update_self, h]
  · rw [Function.update_of_ne hj]

theorem phases_update {f : ι → Phase} {i : ι} {phase : Phase}
    (h : ∀ j, (f j).Sound live config) (hphase : phase.Sound live config) (j : ι) :
    (Function.update f i phase j).Sound live config :=
  (Function.forall_update_iff f fun _ phase => phase.Sound live config).mpr
    ⟨hphase, fun j _ => h j⟩ j

/-- A call that stores for the first time what it makes of the stored config. -/
theorem Serial.merge {i : ι} {rest : List Section} (hs : Serial live config s)
    (hasked : (s.calls i).asked = none)
    (hphase : (Phase.running current next asked rest).Sound live config)
    (hnext : ∀ stored, s.statics.active = some stored → next = asked.apply live stored) :
    Serial live config (s.merge i current next asked rest) := by
  obtain ⟨order, hnodup, hmem, horder⟩ := hs.ordered
  refine ⟨⟨moveLast order i asked, nodup_moveLast hnodup i asked, ?_, ?_⟩, ?_⟩
  · exact mem_moveLast hmem rfl
  · -- the call has not stored before, so that the order in front of it is the old one
    have hfilter : order.filter (fun e => e.1 ≠ i) = order := by
      refine List.filter_eq_self.mpr fun e he => ?_
      simp only [ne_eq, decide_eq_true_eq]
      intro heq
      have hsome := (hmem e.1 e.2).mp he
      rw [heq, hasked] at hsome
      cases hsome
    rw [moveLast, hfilter, List.map_append, List.foldl_append]
    exact congrArg some (hnext _ horder)
  · exact phases_update hs.phases hphase

omit [DecidableEq ι] in
theorem Serial.sameCold (hs : Serial live config s) (h : s.statics.active = some current) :
    SameCold current config := by
  obtain ⟨order, hordered⟩ := hs.ordered
  rw [hordered.stored, Option.some.injEq] at h
  rw [← h]
  exact sameCold_foldl config _

/-- A step of a call that stores nothing. -/
theorem Serial.quiet {i : ι} {phase : Phase} (hs : Serial live config s)
    (hactive : s'.statics.active = s.statics.active)
    (hcalls : s'.calls = Function.update s.calls i phase)
    (hasked : phase.asked = (s.calls i).asked) (hphase : phase.Sound live config) :
    Serial live config s' := by
  obtain ⟨order, hnodup, hmem, horder⟩ := hs.ordered
  refine ⟨⟨order, hnodup, ?_, ?_⟩, ?_⟩
  · intro j other
    rw [hcalls, asked_update hasked, hmem]
  · rw [hactive, horder]
  · rw [hcalls]
    exact phases_update hs.phases hphase

/-- A reload that stores again comes last in the order: it overwrites all that an update can
change, but for what live providers keep. -/
theorem Serial.again {i : ι} {rest : List Section} (hs : Serial live config s)
    (h : s.calls i = .running current next asked (.storeAgain :: rest))
    (hkept : s.Keeps live current) :
    Serial live config (s.storeAgain i current next asked rest) := by
  have hphase := hs.phases i
  rw [h] at hphase
  obtain ⟨hcold, hnext, hagain⟩ := hphase
  obtain ⟨fresh, rfl⟩ := hagain List.mem_cons_self
  obtain ⟨order, hnodup, hmem, horder⟩ := hs.ordered
  refine ⟨⟨moveLast order i (.reload fresh), nodup_moveLast hnodup i _, ?_, ?_⟩, ?_⟩
  · exact mem_moveLast hmem rfl
  · have hreload : ∀ e ∈ order, e.1 = i → ∃ fresh, e.2 = .reload fresh := by
      intro e he heq
      have hsome := (hmem e.1 e.2).mp he
      rw [heq, h] at hsome
      exact ⟨fresh, (Option.some.inj hsome).symm⟩
    have hlive := (sameLive_filter hreload (.refl config)).trans (hkept _ horder)
    have hsame : SameCold (((order.filter fun e => e.1 ≠ i).map Prod.snd).foldl
        (Asked.apply live) config) current := fun other =>
      (sameCold_foldl config _ other).trans (hcold other).symm
    rw [moveLast, List.map_append, List.foldl_append]
    simp only [List.map_cons, List.map_nil, List.foldl_cons, List.foldl_nil]
    rw [apply_reload_congr hsame hlive, ← hnext, System.storeAgain, hnext]
    rfl
  · exact phases_update hs.phases ⟨hcold, hnext, fun _ => ⟨fresh, rfl⟩⟩

theorem active_push (x : Slot) (config : TelemetryConfig) (s : Statics) :
    (x.push config s).active = s.active := by
  cases x <;> rfl

/-- **Each step keeps the order.** -/
theorem Serial.step (hs : Serial live config s) (hkept : Kept live s l)
    (h : Stepped live s l s') : Serial live config s' := by
  cases h with
  | fail hidle =>
      refine hs.quiet rfl rfl ?_ trivial
      rw [hidle]
      rfl
  | read hidle hactive =>
      refine hs.quiet rfl rfl ?_ (hs.sameCold hactive)
      rw [hidle]
      rfl
  | @update i overrides current hidle hactive =>
      refine hs.merge ?_ ⟨hs.sameCold hactive, rfl, ?_⟩ ?_
      · rw [hidle]
        rfl
      · intro hmem
        simp [updateSections] at hmem
      · intro stored hstored
        rw [hactive, Option.some.injEq] at hstored
        rw [hstored]
  | @store i fresh current hread =>
      have hphase := hs.phases i
      rw [hread] at hphase
      simp only [Kept, hread] at hkept
      refine hs.merge ?_ ⟨hphase, rfl, fun _ => ⟨_, rfl⟩⟩ ?_
      · rw [hread]
        rfl
      · intro stored hstored
        have hsame : SameCold current stored := fun other =>
          (hphase other).trans (hs.sameCold hstored other).symm
        exact apply_reload_congr hsame (hkept stored hstored).symm fresh.config
  | @push i current next asked x rest hrunning =>
      have hphase := hs.phases i
      rw [hrunning] at hphase
      obtain ⟨hcold, hnext, hagain⟩ := hphase
      refine hs.quiet (active_push x _ _) rfl ?_
        ⟨hcold, hnext, fun hmem => hagain (List.mem_cons_of_mem _ hmem)⟩
      rw [hrunning]
      rfl
  | again hrunning =>
      simp only [Kept, hrunning] at hkept
      exact hs.again hrunning hkept

omit [DecidableEq ι] in
theorem serial_init (h : start.active = some config) :
    Serial live config ({ statics := start } : System ι) := by
  refine ⟨⟨[], List.nodup_nil, ?_, h⟩, fun _ => trivial⟩
  intro i asked
  simp [Phase.asked]

/-- **The stored config**: the calls that have stored have an order that leads to it. -/
theorem serial_of_reachable (hactive : start.active = some config)
    (h : (calls ι live start).Reachable (Kept live) s) : Serial live config s :=
  h.invariant (serial_init hactive) fun _ _ _ hs hkept hstep =>
    hs.step hkept (stepped_of_step hstep)

omit [DecidableEq ι] in
/-- With no provider live, in every run. -/
theorem kept_of_not_live (h : ∀ signal, live signal = false) (s : System ι) (l : Step ι) :
    Kept live s l := by
  have hkeeps : ∀ current, s.Keeps live current := fun _ _ _ => sameLive_of_not_live h
  cases l with
  | update i overrides => trivial
  | reload i env => trivial
  | store i =>
      simp only [Kept]
      split
      · exact hkeeps _
      · trivial
  | run i =>
      simp only [Kept]
      split
      · exact hkeeps _
      · trivial

end Telemetry.Runtime.Rust
