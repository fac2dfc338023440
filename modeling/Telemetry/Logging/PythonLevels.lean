import Telemetry.Config.PythonLogging
import Telemetry.Lib.LongestPrefix

/-!
# Levels of modules in the Python SDK

Two filters are built from one `LoggingConfig`. The class of the loggers, and the root logger, let
pass what is at the least level that the config names anywhere; `_LevelFilter`, a processor that is
only there if the config has levels for modules, looks for the longest key that is a dotted prefix
of the name of the logger. The first filter reads the level of a module as it is written, the
second in lower case.

## Main definitions

* `effectiveLevel` — the least level, as it is found at configuration.
* `issue` — the method of structlog that a call of a logger runs.
* `LevelFilter` — the processor.
* `survives` — whether a record passes both.
* `HasThreshold` — what the level of a logger should be.

## Main results

* `survives_iff` — a record survives at the level of both filters.
* `meansLongestPrefix_iff` — **the levels are those of the longest prefixes** iff the filter reads
  every level as the converter does, and no level is below the least.
-/

namespace Telemetry.Logging.PythonLevels

open Telemetry.Lib Telemetry.Config.Python

/-! ## The floor -/

/-- `logging.getLevelNamesMapping()`, with the name that `addLevelName` has added. -/
def levelNamesMapping : List (String × ℕ) :=
  [("CRITICAL", 50), ("FATAL", 50), ("ERROR", 40), ("WARN", 30), ("WARNING", 30), ("INFO", 20),
    ("DEBUG", 10), ("NOTSET", 0), ("TRACE", 5)]

/-- `_get_level`. -/
def getLevel (level : CodePoints) : ℕ :=
  if level = CodePoints.ofString "TRACE" then LogSeverity.trace.stdlibLevel
  else
    ((levelNamesMapping.find? fun e => CodePoints.ofString e.1 = level).map Prod.snd).getD
      LogSeverity.info.stdlibLevel

/-- The least level of a config, as `_configure_logging_inner` finds it. -/
def effectiveLevel (config : LoggingConfig) : ℕ :=
  config.moduleLevels.values.foldl
    (fun effective level =>
      if levelNameToNumeric level < effective then levelNameToNumeric level else effective)
    (getLevel config.level)

/-- The methods of structlog's loggers that have a level. -/
inductive StandardMethod
  | debug
  | info
  | warning
  | error
  | critical
  deriving DecidableEq, Repr

namespace StandardMethod

def name : StandardMethod → CodePoints
  | debug => CodePoints.ofString "debug"
  | info => CodePoints.ofString "info"
  | warning => CodePoints.ofString "warning"
  | error => CodePoints.ofString "error"
  | critical => CodePoints.ofString "critical"

def severity : StandardMethod → LogSeverity
  | debug => .debug
  | info => .info
  | warning => .warn
  | error => .error
  | critical => .critical

/-- `_standard_levels`. -/
def level (method : StandardMethod) : ℕ := method.severity.stdlibLevel

/-- The method that structlog has for a level. -/
def ofSeverity : LogSeverity → StandardMethod
  | .trace | .debug => debug
  | .info => info
  | .warn => warning
  | .error => error
  | .critical => critical

end StandardMethod

/-- What a logger is called with. -/
inductive Call
  | trace
  | standard (method : StandardMethod)
  /-- `log(level, …)` -/
  | log (level : LogSeverity)
  deriving DecidableEq, Repr

/-- The level of the record. -/
def Call.severity : Call → LogSeverity
  | trace => .trace
  | standard method => method.severity
  | log level => level

/-- A method of the class that `_make_filtering_bound_logger` makes, unless it does nothing. -/
def boundMethod (level : ℕ) (method : StandardMethod) : Option StandardMethod :=
  if method.level < max level LogSeverity.debug.stdlibLevel then none else some method

/-- Its `trace`. -/
def boundTrace (level : ℕ) : Option StandardMethod :=
  if level ≤ LogSeverity.trace.stdlibLevel then boundMethod level .debug else none

/-- The method that structlog runs for a call, and whether with `_trace=True`. -/
def issue (level : ℕ) : Call → Option (StandardMethod × Bool)
  | .trace => (boundTrace level).map fun method => (method, true)
  | .standard method => (boundMethod level method).map fun method => (method, false)
  | .log severity =>
      if severity.stdlibLevel ≤ LogSeverity.trace.stdlibLevel then
        (boundTrace level).map fun method => (method, true)
      else (boundMethod level (.ofSeverity severity)).map fun method => (method, false)

/-! ## The processors -/

/-- The fields of an event that the processors up to `_LevelFilter` read. -/
structure EventDict where
  loggerName : Option CodePoints := none
  logger : Option CodePoints := none
  level : Option CodePoints := none
  /-- `_trace`, the mark of the pipeline's own. -/
  trace : Bool := false
  deriving DecidableEq

/-- Neither nothing nor empty. -/
def truthy (text : Option CodePoints) : Bool := text.any fun s => s ≠ []

def EventDict.withLoggerName (event : EventDict) (name : Option CodePoints) : EventDict :=
  { event with loggerName := name }

def EventDict.withLevel (event : EventDict) (level : CodePoints) : EventDict :=
  { event with level := some level }

def EventDict.withTrace (event : EventDict) (trace : Bool) : EventDict :=
  { event with trace := trace }

/-- `inject_logger_name`, in a logger with a name. -/
def injectLoggerName (logger : CodePoints) (event : EventDict) : EventDict :=
  let name := if truthy event.loggerName then event.loggerName else event.logger
  let name := name.or (some logger)
  if truthy name then event.withLoggerName name else event

/-- structlog's `add_log_level`. -/
def addLogLevel (method : StandardMethod) (event : EventDict) : EventDict :=
  event.withLevel method.name

/-- `canonicalize_level`. -/
def canonicalizeLevel (T : CaseTables) (event : EventDict) : EventDict :=
  match event.level with
  | none => event
  | some level =>
      if event.trace then event.withLevel LogSeverity.trace.canonicalName
      else event.withLevel (parseLevel T level).canonicalName

/-- The dot. -/
def dot : CodePoint := .scalar '.'

/-- `_LevelFilter`. -/
structure LevelFilter where
  defaultNumeric : ℕ
  moduleNumerics : Dict CodePoints ℕ

/-- `_LevelFilter.__init__` -/
def LevelFilter.ofLevels (T : CaseTables) (defaultLevel : CodePoints)
    (moduleLevels : Dict CodePoints CodePoints) : LevelFilter where
  defaultNumeric := fastLevelLookup T defaultLevel
  moduleNumerics := moduleLevels.mapValues (fastLevelLookup T)

/-- The threshold for a name: the value of the first of the sorted prefixes that matches. -/
def LevelFilter.threshold (filter : LevelFilter) (name : CodePoints) : ℕ :=
  ((findLongest dot filter.moduleNumerics.keys name).bind filter.moduleNumerics.get?).getD
    filter.defaultNumeric

/-- `_LevelFilter.__call__`, whether it returns. -/
def LevelFilter.passes (T : CaseTables) (filter : LevelFilter) (method : StandardMethod)
    (event : EventDict) : Bool :=
  let loggerName := (event.loggerName.or event.logger).getD []
  let eventLevel := fastLevelLookup T (event.level.getD method.name)
  filter.threshold loggerName ≤ eventLevel

/-- The processors of a config up to the filter. -/
def process (T : CaseTables) (config : LoggingConfig) (logger : CodePoints)
    (method : StandardMethod) (event : EventDict) : Bool :=
  let event := canonicalizeLevel T (addLogLevel method (injectLoggerName logger event))
  config.moduleLevels.entries.isEmpty ||
    (LevelFilter.ofLevels T config.level config.moduleLevels).passes T method event

/-- Whether a record reaches the handlers: past the class of the logger, the processors and the
level of the root logger. -/
def survives (T : CaseTables) (config : LoggingConfig) (logger : CodePoints) (call : Call)
    (event : EventDict) : Bool :=
  match issue (effectiveLevel config) call with
  | none => false
  | some (method, trace) =>
      process T config logger method (event.withTrace trace) &&
        decide (effectiveLevel config ≤ method.level)

/-! ## What the level of a logger should be -/

/-- The level of the longest key that is the name or a dotted prefix of it, and of the config where
there is none, each as the converter reads it. -/
inductive HasThreshold (T : CaseTables) (config : LoggingConfig) (name : CodePoints) :
    LogSeverity → Prop
  | module {key level : CodePoints} (hkey : IsLongest dot config.moduleLevels.keys name key)
      (hlevel : config.moduleLevels.get? key = some level) :
      HasThreshold T config name (parseLevel T level)
  | default (hnone : ∀ key ∈ config.moduleLevels.keys, ¬ Covers dot key name) :
      HasThreshold T config name (parseLevel T config.level)

/-- A record survives iff its level is at or above the threshold of its logger. -/
def MeansLongestPrefix (T : CaseTables) (config : LoggingConfig) : Prop :=
  ∀ name call event threshold, event.loggerName = none → event.logger = none →
    HasThreshold T config name threshold →
      (survives T config name call event = true ↔
        threshold.stdlibLevel ≤ call.severity.stdlibLevel)

/-- Every level of a module is read alike in lower case and by the converter, and is not below both
the default level and every level of a module as it is written. -/
def LevelsClear (T : CaseTables) (config : LoggingConfig) : Prop :=
  ∀ level ∈ config.moduleLevels.values, lowerSeverity T level = parseLevel T level ∧
    ((parseLevel T config.level).stdlibLevel ≤ (parseLevel T level).stdlibLevel ∨
      ∃ other ∈ config.moduleLevels.values,
        levelNameToNumeric other ≤ (parseLevel T level).stdlibLevel)

instance (T : CaseTables) (config : LoggingConfig) : Decidable (LevelsClear T config) :=
  inferInstanceAs (Decidable (∀ level ∈ config.moduleLevels.values, _ ∧ (_ ∨ ∃ other ∈ _, _)))

/-! ## The two filters -/

variable {T : CaseTables} {given config : LoggingConfig} {name level : CodePoints}
  {severity : LogSeverity} {call : Call} {event : EventDict} {n : ℕ}

/-- **The floor** is at most a number iff a level is. -/
theorem effectiveLevel_le_iff : effectiveLevel config ≤ n ↔
    getLevel config.level ≤ n ∨
      ∃ level ∈ config.moduleLevels.values, levelNameToNumeric level ≤ n := by
  rw [effectiveLevel]
  generalize getLevel config.level = effective
  induction config.moduleLevels.values generalizing effective with
  | nil => simp
  | cons level levels ih =>
      rw [List.foldl_cons, ih]
      by_cases h : levelNameToNumeric level < effective
      · simp only [h, if_true, List.exists_mem_cons_iff]
        grind
      · simp only [h, if_false, List.exists_mem_cons_iff]
        grind

theorem getLevel_of_lookup (h : lookupLevel levelTable level = some severity) :
    getLevel level = severity.stdlibLevel := by
  have hall : ∀ e ∈ levelTable, getLevel (CodePoints.ofString e.1) = e.2.stdlibLevel := by
    decide
  obtain ⟨name, hmem, rfl⟩ := lookupLevel_eq_some h
  exact hall _ hmem

theorem severity_standardMethod (method : StandardMethod) :
    LogSeverity.debug.stdlibLevel ≤ method.level := by
  cases method <;> decide

theorem eq_trace_of_le {severity : LogSeverity}
    (h : severity.stdlibLevel ≤ LogSeverity.trace.stdlibLevel) : severity = .trace := by
  revert h
  cases severity <;> decide

theorem level_ofSeverity {severity : LogSeverity}
    (h : ¬ severity.stdlibLevel ≤ LogSeverity.trace.stdlibLevel) :
    (StandardMethod.ofSeverity severity).severity = severity := by
  cases severity <;> first | rfl | exact absurd le_rfl h

/-- A method of a level runs iff it is not below the floor. -/
theorem boundMethod_eq (method : StandardMethod) :
    boundMethod n method = if n ≤ method.level then some method else none := by
  have hdebug := severity_standardMethod method
  rw [boundMethod]
  split <;> split <;> first | rfl | omega

theorem boundTrace_eq :
    boundTrace n = if n ≤ LogSeverity.trace.stdlibLevel then some .debug else none := by
  have hdebug : LogSeverity.trace.stdlibLevel ≤ StandardMethod.debug.level := by decide
  rw [boundTrace, boundMethod_eq]
  split
  · rw [if_pos (by omega)]
  · rfl

/-- What a record says of its level. -/
def Says (severity : LogSeverity) (method : StandardMethod) (trace : Bool) : Prop :=
  if trace then severity = .trace else method.severity = severity

/-- **The class of the loggers** lets a call pass iff it is not below the floor. -/
theorem issue_of_le (h : n ≤ call.severity.stdlibLevel) :
    ∃ method trace, issue n call = some (method, trace) ∧ n ≤ method.level ∧
      Says call.severity method trace := by
  have hdebug : LogSeverity.trace.stdlibLevel ≤ StandardMethod.debug.level := by decide
  cases call with
  | trace =>
      have htrace : n ≤ LogSeverity.trace.stdlibLevel := h
      exact ⟨.debug, true, by simp [issue, boundTrace_eq, htrace], htrace.trans hdebug, rfl⟩
  | standard method =>
      have hmethod : n ≤ method.level := h
      exact ⟨method, false, by simp [issue, boundMethod_eq, hmethod], hmethod, rfl⟩
  | log severity =>
      have hlevel : n ≤ severity.stdlibLevel := h
      by_cases hle : severity.stdlibLevel ≤ LogSeverity.trace.stdlibLevel
      · have htrace : n ≤ LogSeverity.trace.stdlibLevel := hlevel.trans hle
        exact ⟨.debug, true, by simp [issue, hle, boundTrace_eq, htrace], htrace.trans hdebug,
          eq_trace_of_le hle⟩
      · have hsame := level_ofSeverity hle
        have hmethod : n ≤ (StandardMethod.ofSeverity severity).level := by
          rwa [StandardMethod.level, hsame]
        exact ⟨_, false, by simp [issue, hle, boundMethod_eq, hmethod], hmethod, hsame⟩

theorem issue_of_lt (h : ¬ n ≤ call.severity.stdlibLevel) : issue n call = none := by
  cases call with
  | trace =>
      have htrace : ¬ n ≤ LogSeverity.trace.stdlibLevel := h
      simp [issue, boundTrace_eq, htrace]
  | standard method =>
      have hmethod : ¬ n ≤ method.level := h
      simp [issue, boundMethod_eq, hmethod]
  | log severity =>
      have hlevel : ¬ n ≤ severity.stdlibLevel := h
      by_cases hle : severity.stdlibLevel ≤ LogSeverity.trace.stdlibLevel
      · obtain rfl := eq_trace_of_le hle
        simp [issue, boundTrace_eq, hlevel]
      · have hmethod : ¬ n ≤ (StandardMethod.ofSeverity severity).level := by
          rwa [StandardMethod.level, level_ofSeverity hle]
        simp [issue, hle, boundMethod_eq, hmethod]

/-- structlog's names of levels, and the canonical ones, are read as what they say. -/
theorem lowerSeverity_canonicalName (severity : LogSeverity) :
    lowerSeverity T severity.canonicalName = severity := by
  have hmem : ∀ s : LogSeverity, lookupLevel levelTable s.canonicalName = some s := by
    intro s
    cases s <;> decide
  exact (parseLevel_of_exact (hmem severity)).2.1

-- Checks the characters of the text, not all characters.
local instance (priority := 2000) decidableForallChars {p : Char → Prop} [DecidablePred p]
    (s : List Char) : Decidable (∀ c ∈ s, p c) := List.decidableBAll p s

theorem parseLevel_name (method : StandardMethod) : parseLevel T method.name = method.severity := by
  have hlower : lookupLevel lowerTable (T.lower method.name) = some method.severity := by
    cases method <;> rw [StandardMethod.name, CodePoints.ofString, T.lower_ascii _ (by decide)] <;>
      decide
  rw [parseLevel, tryParseLevel_of_lower hlower, Option.getD_some]

/-- The level that an event gets. -/
theorem canonicalizeLevel_addLogLevel (method : StandardMethod) (event : EventDict) :
    canonicalizeLevel T (addLogLevel method event) =
      event.withLevel (if event.trace then LogSeverity.trace.canonicalName
        else method.severity.canonicalName) := by
  simp only [canonicalizeLevel, addLogLevel, EventDict.withLevel, parseLevel_name]
  split <;> rfl

/-- **What the filter sees of an event** that has no name of its own for the logger. -/
theorem passes_iff (T : CaseTables) (filter : LevelFilter) (name : CodePoints)
    {method : StandardMethod} {trace : Bool} (hname : event.loggerName = none)
    (hlogger : event.logger = none) (hsaid : Says severity method trace) :
    filter.passes T method (canonicalizeLevel T (addLogLevel method
        (injectLoggerName name (event.withTrace trace)))) = true ↔
      filter.threshold name ≤ severity.stdlibLevel := by
  have hinjected : injectLoggerName name (event.withTrace trace) =
      if name = [] then event.withTrace trace
      else (event.withTrace trace).withLoggerName (some name) := by
    simp [injectLoggerName, EventDict.withTrace, EventDict.withLoggerName, truthy, hname, hlogger]
  have hcanonical : (if trace then LogSeverity.trace.canonicalName
      else method.severity.canonicalName) = severity.canonicalName := by
    cases trace with
    | true =>
        have htrace : severity = .trace := hsaid
        rw [htrace, if_pos rfl]
    | false =>
        have hmethod : method.severity = severity := hsaid
        rw [if_neg (by simp), hmethod]
  have hlevel : fastLevelLookup T severity.canonicalName = severity.stdlibLevel := by
    rw [fastLevelLookup, lowerSeverity_canonicalName]
  rw [canonicalizeLevel_addLogLevel, hinjected, LevelFilter.passes]
  by_cases hempty : name = []
  · simp [hempty, EventDict.withLevel, EventDict.withTrace, hname, hlogger, hcanonical, hlevel]
  · simp [hempty, EventDict.withLevel, EventDict.withTrace, EventDict.withLoggerName, hcanonical,
      hlevel]

/-- The level of the filter for a logger: that of the longest key, or the default. -/
def filterThreshold (T : CaseTables) (config : LoggingConfig) (name : CodePoints) : ℕ :=
  (LevelFilter.ofLevels T config.level config.moduleLevels).threshold name

/-- A level that is in the table is the same for all. -/
theorem fastLevelLookup_of_lookup (h : lookupLevel levelTable level = some severity) :
    fastLevelLookup T level = severity.stdlibLevel := by
  rw [fastLevelLookup, (parseLevel_of_exact h).2.1]

theorem filterThreshold_of_isLongest {key : CodePoints}
    (hkey : IsLongest dot config.moduleLevels.keys name key)
    (hlevel : config.moduleLevels.get? key = some level) :
    filterThreshold T config name = fastLevelLookup T level := by
  have hfind := findLongest_eq_some_iff.mpr hkey
  simp [filterThreshold, LevelFilter.threshold, LevelFilter.ofLevels, hfind, hlevel]

theorem filterThreshold_of_none
    (hnone : ∀ key ∈ config.moduleLevels.keys, ¬ Covers dot key name) :
    filterThreshold T config name = fastLevelLookup T config.level := by
  have hfind := findLongest_eq_none_iff.mpr hnone
  simp [filterThreshold, LevelFilter.threshold, LevelFilter.ofLevels, hfind]

/-- **A record survives** iff it is not below the floor, and not below the level that the filter
has for its logger. -/
theorem survives_iff (hconfig : given.postInit T = .ok config) (hname : event.loggerName = none)
    (hlogger : event.logger = none) :
    survives T config name call event = true ↔
      effectiveLevel config ≤ call.severity.stdlibLevel ∧
        filterThreshold T config name ≤ call.severity.stdlibLevel := by
  rw [survives]
  by_cases hfloor : effectiveLevel config ≤ call.severity.stdlibLevel
  · obtain ⟨method, trace, hissue, hroot, hsaid⟩ := issue_of_le hfloor
    have hpasses := passes_iff T (.ofLevels T config.level config.moduleLevels) name hname hlogger
      hsaid
    rw [hissue]
    simp only [process, hfloor, hroot, decide_true, Bool.and_true, Bool.or_eq_true, hpasses,
      true_and, filterThreshold]
    refine or_iff_right_of_imp fun hempty => ?_
    -- without levels of modules the floor is the default level
    have hentries := List.isEmpty_iff.mp hempty
    obtain ⟨severity, hseverity⟩ := LoggingConfig.level_of_postInit hconfig
    have hkeys : ∀ key ∈ config.moduleLevels.keys, ¬ Covers dot key name := by
      simp [Dict.keys, hentries]
    have hdefault := filterThreshold_of_none (T := T) hkeys
    rw [filterThreshold] at hdefault
    rw [hdefault, fastLevelLookup_of_lookup hseverity, ← getLevel_of_lookup hseverity]
    simpa [effectiveLevel, Dict.values, hentries] using hfloor
  · rw [issue_of_lt hfloor]
    simp [hfloor]

/-! ## Both filters together -/

/-- **Every logger has a threshold.** -/
theorem exists_hasThreshold (T : CaseTables) (config : LoggingConfig) (name : CodePoints) :
    ∃ threshold, HasThreshold T config name threshold := by
  cases hfind : findLongest dot config.moduleLevels.keys name with
  | none => exact ⟨_, .default (findLongest_eq_none_iff.mp hfind)⟩
  | some key =>
      have hkey := findLongest_eq_some_iff.mp hfind
      obtain ⟨level, hlevel⟩ := Option.isSome_iff_exists.mp (Dict.isSome_get?_iff.mpr hkey.mem)
      exact ⟨_, .module hkey hlevel⟩

/-- A level that the filter does not find in lower case it takes for `INFO`, and so does the
floor. -/
theorem fastLevelLookup_eq_of_ne (h : lowerSeverity T level ≠ parseLevel T level) :
    levelNameToNumeric level = fastLevelLookup T level := by
  have hlower : lookupLevel lowerTable (T.lower level) = none := by
    by_contra hsome
    obtain ⟨severity, hseverity⟩ := Option.ne_none_iff_exists'.mp hsome
    refine h ?_
    rw [lowerSeverity, parseLevel, tryParseLevel_of_lower hseverity, hseverity]
  have hexact : lookupLevel levelTable level = none := by
    by_contra hsome
    obtain ⟨severity, hseverity⟩ := Option.ne_none_iff_exists'.mp hsome
    rw [lower_of_exact hseverity] at hlower
    cases hlower
  rw [levelNameToNumeric, fastLevelLookup, exactSeverity, lowerSeverity, hlower, hexact]

/-- **One level of a module is right** for every record iff it is read alike and not below the
floor. -/
theorem level_right_iff (hlevel : level ∈ config.moduleLevels.values) :
    (∀ severity : LogSeverity,
      effectiveLevel config ≤ severity.stdlibLevel ∧
          fastLevelLookup T level ≤ severity.stdlibLevel ↔
        (parseLevel T level).stdlibLevel ≤ severity.stdlibLevel) ↔
      lowerSeverity T level = parseLevel T level ∧
        effectiveLevel config ≤ (parseLevel T level).stdlibLevel := by
  constructor
  · intro h
    obtain ⟨hfloor, hfast⟩ := (h (parseLevel T level)).mpr le_rfl
    refine ⟨?_, hfloor⟩
    by_contra hne
    have hinfo := fastLevelLookup_eq_of_ne hne
    have hle : effectiveLevel config ≤ fastLevelLookup T level :=
      effectiveLevel_le_iff.mpr (.inr ⟨level, hlevel, hinfo.le⟩)
    have hback : (parseLevel T level).stdlibLevel ≤ fastLevelLookup T level :=
      (h (lowerSeverity T level)).mp ⟨hle, le_rfl⟩
    exact hne (LogSeverity.stdlibLevel_injective (le_antisymm hfast hback))
  · intro ⟨hsame, hfloor⟩ severity
    rw [fastLevelLookup, hsame]
    exact ⟨fun h => h.2, fun h => ⟨hfloor.trans h, h⟩⟩

/-- **The levels of a config are those of the longest prefixes**, for every logger and every
record, iff the filter reads every level of a module as the converter does, and none is below both
the default level and all levels of modules as they are written. -/
theorem meansLongestPrefix_iff (h : given.postInit T = .ok config) :
    MeansLongestPrefix T config ↔ LevelsClear T config := by
  obtain ⟨severity, hseverity⟩ := LoggingConfig.level_of_postInit h
  have hdefault : getLevel config.level = (parseLevel T config.level).stdlibLevel := by
    rw [getLevel_of_lookup hseverity, (parseLevel_of_exact hseverity).2.2]
  have hclear : LevelsClear T config ↔ ∀ level ∈ config.moduleLevels.values,
      lowerSeverity T level = parseLevel T level ∧
        effectiveLevel config ≤ (parseLevel T level).stdlibLevel := by
    simp only [LevelsClear, effectiveLevel_le_iff, hdefault]
  rw [hclear]
  constructor
  · intro hmeans level hlevel
    obtain ⟨key, hkey⟩ := Dict.mem_values_iff.mp hlevel
    have hmem : key ∈ config.moduleLevels.keys := Dict.isSome_get?_iff.mp (by simp [hkey])
    have hlongest := isLongest_self dot hmem
    rw [← level_right_iff hlevel]
    intro severity
    have hlog := hmeans key (.log severity) {} _ rfl rfl (.module hlongest hkey)
    rwa [survives_iff h rfl rfl, filterThreshold_of_isLongest hlongest hkey] at hlog
  · intro hright name call event threshold hname hlogger hthreshold
    rw [survives_iff h hname hlogger]
    cases hthreshold with
    | module hkey hlevel =>
        have hvalue := Dict.mem_values_iff.mpr ⟨_, hlevel⟩
        rw [filterThreshold_of_isLongest hkey hlevel]
        exact (level_right_iff hvalue).mpr (hright _ hvalue) call.severity
    | default hnone =>
        have hfloor : effectiveLevel config ≤ (parseLevel T config.level).stdlibLevel :=
          effectiveLevel_le_iff.mpr (.inl hdefault.le)
        rw [filterThreshold_of_none hnone, fastLevelLookup_of_lookup hseverity,
          (parseLevel_of_exact hseverity).2.2] at *
        exact ⟨fun hboth => hboth.2, fun hle => ⟨hfloor.trans hle, hle⟩⟩

/-- A config with a level for one module, the default level being `INFO`. -/
def oneModule (level : String) : LoggingConfig where
  moduleLevels := Dict.empty.set (CodePoints.ofString "x") (CodePoints.ofString level)

/-- A level in upper case is in force. -/
theorem means_of_upper_case :
    (oneModule "DEBUG").postInit asciiCase = .ok (oneModule "DEBUG") ∧
      MeansLongestPrefix asciiCase (oneModule "DEBUG") := by
  have h : (oneModule "DEBUG").postInit asciiCase = .ok (oneModule "DEBUG") := by decide
  exact ⟨h, (meansLongestPrefix_iff h).mpr (by decide)⟩

/-- A level in lower case is accepted, and the records that it asks for are dropped. -/
theorem not_means_of_lower_case :
    (oneModule "debug").postInit asciiCase = .ok (oneModule "debug") ∧
      ¬ MeansLongestPrefix asciiCase (oneModule "debug") := by
  refine ⟨by decide, fun hmeans => ?_⟩
  have hlevel : (oneModule "debug").moduleLevels.get? (CodePoints.ofString "x") =
      some (CodePoints.ofString "debug") := by decide
  have hmem := Dict.isSome_get?_iff.mp (Option.isSome_of_eq_some hlevel)
  have hkey := isLongest_self dot hmem
  have hiff := hmeans _ (.standard .debug) {} _ rfl rfl (.module hkey hlevel)
  have hsurvives : survives asciiCase (oneModule "debug") (CodePoints.ofString "x")
      (.standard .debug) {} = true := hiff.mpr (by decide)
  exact absurd hsurvives (by decide)

end Telemetry.Logging.PythonLevels
