import Mathlib.Data.List.Sort
import Telemetry.Lib.Gathered
import Telemetry.Lib.Returns
import Telemetry.Metrics.PythonNames
import Telemetry.Propagation.PythonHeaders
import Telemetry.Receipts.ShortestDouble

/-!
# The families of one Prometheus scrape in the Python SDK

`families_from` makes families of what was collected, one for every translated name, and
`health_families` adds those of the health snapshot. Names and labels are translated many to one.
A second instrument under a name adds its samples to the family, if it is of the same type, and
nothing looks whether such a sample is there already.

## Main definitions

* `addMetric`, `familiesFrom`, `healthFamilies`, `scrape` — the source's functions.
* `Row`, `rows` — the data points that are taken, and the samples each becomes.

## Main results

* `nodup_familiesFrom` — the families of the collected data have different names.
* `series_familiesFrom` — **their samples are those of the data points**.
-/

namespace Telemetry.Metrics.PythonFamilies

open Lib
open PythonNames
open PythonRender (Family Kind Sample formatValue)
open Propagation.Python (ord)
open Receipts.Python (PyFloat)

/-! ## What is collected -/

/-- What ends a scrape. -/
inductive ScrapeError
  | overflowError
  | indexError
  deriving DecidableEq, Repr

/-- A number of the source: an `int` or a `float`. -/
inductive Number
  | int (n : ℤ)
  | float (x : PyFloat)

/-- `float`. An integer that would be rounded to more than the greatest double is too large. -/
def Number.toFloat : Number → Except ScrapeError PyFloat
  | .int n => if n.natAbs < 2 ^ 1024 - 2 ^ 970 then .ok (.ofInt n) else .error .overflowError
  | .float x => .ok x

/-- The labels of a sample. -/
abbrev Labels := Dict CodePoints CodePoints

structure NumberPoint (V : Type) where
  attributes : Dict CodePoints V
  value : Number

structure HistogramPoint (V : Type) where
  attributes : Dict CodePoints V
  explicitBounds : List PyFloat
  bucketCounts : List ℤ
  count : ℤ
  sum : Number

/-- The data of an instrument. -/
inductive InstrumentData (V : Type)
  | sum (isMonotonic : Bool) (points : List (NumberPoint V))
  | gauge (points : List (NumberPoint V))
  | histogram (points : List (HistogramPoint V))
  | unsupported

structure Metric (V : Type) where
  name : CodePoints
  unit : Option CodePoints := none
  description : Option CodePoints := none
  data : InstrumentData V

structure Scope where
  name : CodePoints
  version : Option CodePoints := none

structure ScopeMetrics (V : Type) where
  scope : Scope
  metrics : List (Metric V)

structure ResourceMetrics (V : Type) where
  attributes : Dict CodePoints V
  scopeMetrics : List (ScopeMetrics V)

/-- The collected data, if there are any. -/
abbrev MetricsData (V : Type) := Option (List (ResourceMetrics V))

/-! ## Families -/

/-- `RenderOptions` -/
structure RenderOptions where
  strategy : Strategy
  scopeLabels : Bool := false
  targetInfo : Bool := true
  utf8 : Bool := false
  skip : List CodePoints := []

/-- `effective_strategy` -/
def effectiveStrategy (opts : RenderOptions) : Strategy :=
  if opts.strategy.escapes || opts.utf8 then opts.strategy
  else if opts.strategy.addsSuffixes then .underscoreEscapingWithSuffixes
  else .underscoreEscapingWithoutSuffixes

/-- `_kind_of` -/
def kindOf {V : Type} : InstrumentData V → Option (TranslationKind × Kind)
  | .sum true _ => some (.monotonicCounter, .counter)
  | .sum false _ => some (.nonMonotonicCounter, .gauge)
  | .gauge _ => some (.gauge, .gauge)
  | .histogram _ => some (.histogram, .histogram)
  | .unsupported => none

/-- `_scope_labels` -/
def scopeLabels (scope : Scope) : Labels :=
  let labels := Dict.empty.set (.ofString "otel_scope_name") scope.name
  match scope.version with
  | some version =>
      if version = [] then labels else labels.set (.ofString "otel_scope_version") version
  | none => labels

/-- `le` -/
def le : CodePoints := .ofString "le"

/-- `+Inf` -/
def infinity : CodePoints := .ofString "+Inf"

def bucketSuffix : CodePoints := .ofString "_bucket"

def sumSuffix : CodePoints := .ofString "_sum"

def countSuffix : CodePoints := .ofString "_count"

/-- The loop of `_histogram_samples`, with the sum of the counts so far. -/
def bucketSamples (labels : Labels) :
    List PyFloat → List ℤ → ℤ → Except ScrapeError (List Sample)
  | [], _, _ => .ok []
  | _ :: _, [], _ => .error .indexError
  | bound :: bounds, count :: counts, running => do
      let value ← (Number.int (running + count)).toFloat
      let samples ← bucketSamples labels bounds counts (running + count)
      pure (⟨bucketSuffix, labels.set le (formatValue bound), value⟩ :: samples)

/-- `_histogram_samples` -/
def histogramSamples {V : Type} (point : HistogramPoint V) (labels : Labels) :
    Except ScrapeError (List Sample) := do
  let buckets ← bucketSamples labels point.explicitBounds point.bucketCounts 0
  let count ← (Number.int point.count).toFloat
  let sum ← point.sum.toFloat
  pure (buckets ++ [⟨bucketSuffix, labels.set le infinity, count⟩, ⟨sumSuffix, labels, sum⟩,
    ⟨countSuffix, labels, count⟩])

section

variable {V : Type} (str : V → CodePoints)

/-- `translate_labels` -/
def translateLabels (attributes : Dict CodePoints V) (strategy : Strategy) : Labels :=
  attributes.entries.foldl (fun labels e =>
    match labelName e.1 strategy with
    | none => labels
    | some label => if reservedMark <+: label then labels else labels.set label (str e.2)) .empty

/-- The labels of a data point. -/
def pointLabels (strategy : Strategy) (scope : Labels) (attributes : Dict CodePoints V) : Labels :=
  (translateLabels str attributes strategy).update scope.entries

/-- The sample of a data point with one value. -/
def numberSample (strategy : Strategy) (scope : Labels) (point : NumberPoint V) :
    Except ScrapeError Sample := do
  let value ← point.value.toFloat
  pure ⟨[], pointLabels str strategy scope point.attributes, value⟩

/-- The samples of the data points of an instrument. -/
def dataSamples (strategy : Strategy) (scope : Labels) :
    InstrumentData V → Except ScrapeError (List Sample)
  | .sum _ points | .gauge points => points.mapM (numberSample str strategy scope)
  | .histogram points => do
      let samples ← points.mapM fun point =>
        histogramSamples point (pointLabels str strategy scope point.attributes)
      pure samples.flatten
  | .unsupported => .ok []

/-- The family of the name gets the samples, or is left alone if it is of another type. -/
def addData (strategy : Strategy) (scope : Labels) (families : Dict CodePoints Family)
    (fresh : Family) (data : InstrumentData V) : Except ScrapeError (Dict CodePoints Family) :=
  let family := (families.get? fresh.name).getD fresh
  if family.kind ≠ fresh.kind then .ok families
  else do
    let samples ← dataSamples str strategy scope data
    pure (families.set fresh.name { family with samples := family.samples ++ samples })

/-- `_add_metric` -/
def addMetric (strategy : Strategy) (scope : Labels) (families : Dict CodePoints Family)
    (metric : Metric V) : Except ScrapeError (Dict CodePoints Family) :=
  match kindOf metric.data with
  | none => .ok families
  | some (kind, promType) =>
      match metricName metric.name (metric.unit.getD []) kind strategy with
      | none => .ok families
      | some name =>
          addData str strategy scope families ⟨name, promType, metric.description.getD [], []⟩
            metric.data

/-- The labels that the instruments of a scope have in common. -/
def commonLabels (opts : RenderOptions) (scope : Scope) : Labels :=
  if opts.scopeLabels then scopeLabels scope else .empty

/-- The instruments of one scope. -/
def addScope (opts : RenderOptions) (families : Dict CodePoints Family) (sm : ScopeMetrics V) :
    Except ScrapeError (Dict CodePoints Family) :=
  sm.metrics.foldlM (fun families metric =>
    if metric.name ∈ opts.skip then .ok families
    else addMetric str (effectiveStrategy opts) (commonLabels opts sm.scope) families metric)
    families

def targetInfoName : CodePoints := .ofString "target_info"

def targetInfoHelp : CodePoints := .ofString "Target metadata"

/-- The samples of `info`. -/
def infoSamples (opts : RenderOptions) (data : MetricsData V) : List Sample :=
  (data.getD []).filterMap fun resource =>
    let labels := translateLabels str resource.attributes (effectiveStrategy opts)
    if opts.targetInfo ∧ labels.entries ≠ [] then some ⟨[], labels, .ofInt 1⟩ else none

/-- `sorted`, by the name. -/
def sortedByName (families : List Family) : List Family :=
  families.insertionSort fun f g => f.name.map ord ≤ g.name.map ord

/-- The families of the instruments. -/
def instrumentFamilies (opts : RenderOptions) (data : MetricsData V) :
    Except ScrapeError (Dict CodePoints Family) :=
  (data.getD []).foldlM (fun families resource =>
    resource.scopeMetrics.foldlM (addScope str opts) families) .empty

/-- The families of the instruments, with that of the resources. -/
def withTargetInfo (info : List Sample) (families : Dict CodePoints Family) :
    Dict CodePoints Family :=
  if info.isEmpty then families
  else families.setDefault targetInfoName ⟨targetInfoName, .gauge, targetInfoHelp, info⟩

/-- `families_from` -/
def familiesFrom (opts : RenderOptions) (data : MetricsData V) :
    Except ScrapeError (List Family) := do
  let families ← instrumentFamilies str opts data
  pure (sortedByName (withTargetInfo (infoSamples str opts data) families).values)

end

/-! ## The health snapshot -/

/-- The fields of the snapshot about one signal. -/
structure SignalHealth where
  emitted : Number
  dropped : Number
  exportFailures : Number
  retries : Number
  exportLatencyMs : Number
  asyncBlockingRisk : Number
  circuitState : CodePoints
  circuitOpenCount : Number

structure HealthSnapshot where
  logs : SignalHealth
  traces : SignalHealth
  metrics : SignalHealth
  setupError : Option CodePoints
  receiptFailures : Number

/-- `_circuit_value` -/
def circuitValue (state : CodePoints) : PyFloat :=
  if state = .ofString "closed" then .ofInt 0
  else if state = .ofString "half-open" then .ofInt 1
  else if state = .ofString "open" then .ofInt 2
  else .ofInt (-1)

/-- A metric of `_PER_SIGNAL`. -/
structure HealthMetric where
  name : CodePoints
  kind : Kind
  value : SignalHealth → Except ScrapeError PyFloat

/-- `_PER_SIGNAL` -/
def perSignal : List HealthMetric :=
  [⟨.ofString "provide_telemetry_emitted_total", .counter, fun h => h.emitted.toFloat⟩,
    ⟨.ofString "provide_telemetry_dropped_total", .counter, fun h => h.dropped.toFloat⟩,
    ⟨.ofString "provide_telemetry_export_failures_total", .counter,
      fun h => h.exportFailures.toFloat⟩,
    ⟨.ofString "provide_telemetry_export_retries_total", .counter, fun h => h.retries.toFloat⟩,
    ⟨.ofString "provide_telemetry_export_latency_milliseconds", .gauge,
      fun h => h.exportLatencyMs.toFloat⟩,
    ⟨.ofString "provide_telemetry_async_blocking_risk_total", .counter,
      fun h => h.asyncBlockingRisk.toFloat⟩,
    ⟨.ofString "provide_telemetry_circuit_state", .gauge,
      fun h => .ok (circuitValue h.circuitState)⟩,
    ⟨.ofString "provide_telemetry_circuit_open_total", .counter,
      fun h => h.circuitOpenCount.toFloat⟩]

/-- `_SIGNALS` -/
def signalNames : List CodePoints := [.ofString "logs", .ofString "traces", .ofString "metrics"]

/-- `_SETUP_ERROR` -/
def setupErrorName : CodePoints := .ofString "provide_telemetry_setup_error"

/-- `_RECEIPT_FAILURES` -/
def receiptFailuresName : CodePoints := .ofString "provide_telemetry_receipt_failures_total"

/-- `HEALTH_METRIC_NAMES` -/
def healthMetricNames : List CodePoints :=
  perSignal.map HealthMetric.name ++ [setupErrorName, receiptFailuresName]

/-- The label of a signal. -/
def signalLabels (signal : CodePoints) : Labels := Dict.empty.set (.ofString "signal") signal

/-- A family of `_PER_SIGNAL`. -/
def healthFamily (snapshot : HealthSnapshot) (metric : HealthMetric) :
    Except ScrapeError Family := do
  let signals := signalNames.zip [snapshot.logs, snapshot.traces, snapshot.metrics]
  let samples ← signals.mapM fun signal => do
    let value ← metric.value signal.2
    pure (⟨[], signalLabels signal.1, value⟩ : Sample)
  pure ⟨metric.name, metric.kind, [], samples⟩

/-- `health_families` -/
def healthFamilies (snapshot : HealthSnapshot) : Except ScrapeError (List Family) := do
  let families ← perSignal.mapM (healthFamily snapshot)
  let setupError := if snapshot.setupError.any (· ≠ []) then .ofInt 1 else .ofInt 0
  let receiptFailures ← snapshot.receiptFailures.toFloat
  pure (families ++ [⟨setupErrorName, .gauge, [], [⟨[], .empty, setupError⟩]⟩,
    ⟨receiptFailuresName, .counter, [], [⟨[], .empty, receiptFailures⟩]⟩])

/-! ## One scrape -/

/-- What the configuration says about the endpoint. -/
structure PrometheusConfig where
  translation : Strategy
  scopeLabels : Bool
  targetInfo : Bool

/-- `options_for` -/
def optionsFor (p : PrometheusConfig) : RenderOptions where
  strategy := p.translation
  scopeLabels := p.scopeLabels
  targetInfo := p.targetInfo
  skip := healthMetricNames

/-- The options of one scrape, which may have asked for names in UTF-8. -/
def scrapeOptions (p : PrometheusConfig) (utf8 : Bool) : RenderOptions :=
  { optionsFor p with utf8 := utf8 }

/-- The families that `render_prometheus` renders. -/
def scrape {V : Type} (str : V → CodePoints) (p : PrometheusConfig) (utf8 : Bool)
    (data : MetricsData V) (snapshot : HealthSnapshot) : Except ScrapeError (List Family) := do
  let families ← familiesFrom str (scrapeOptions p utf8) data
  let health ← healthFamilies snapshot
  pure (families ++ health)

/-! ## What the families hold -/

/-- The name and the labels of a sample. -/
abbrev Series := CodePoints × Labels

/-- What the samples of a family are told apart by. -/
def seriesOf (name : CodePoints) (samples : List Sample) : List Series :=
  samples.map fun s => (name ++ s.suffix, s.labels)

def familySeries (f : Family) : List Series := seriesOf f.name f.samples

/-- A data point: the name and the labels it is translated to, and for a histogram the texts of its
bounds. -/
inductive Row
  | plain (name : CodePoints) (labels : Labels)
  | histogram (name : CodePoints) (labels : Labels) (bounds : List CodePoints)
  deriving DecidableEq

/-- What its samples are told apart by. -/
def Row.series : Row → List Series
  | plain name labels => [(name, labels)]
  | histogram name labels bounds =>
      ((bounds ++ [infinity]).map fun bound => (name ++ bucketSuffix, labels.set le bound)) ++
        [(name ++ sumSuffix, labels), (name ++ countSuffix, labels)]

/-- An instrument, with the name and the type it is translated to and the labels of its scope. -/
structure Instrument (V : Type) where
  name : CodePoints
  kind : Kind
  scope : Labels
  data : InstrumentData V

section

variable {V : Type}

/-- What an instrument is translated to, if it can be. -/
def instrument? (strategy : Strategy) (scope : Labels) (metric : Metric V) :
    Option (Instrument V) :=
  (kindOf metric.data).bind fun kinds =>
    (metricName metric.name (metric.unit.getD []) kinds.1 strategy).map fun name =>
      ⟨name, kinds.2, scope, metric.data⟩

/-- The instruments that are translated, in their order. -/
def instruments (opts : RenderOptions) (data : MetricsData V) : List (Instrument V) :=
  (data.getD []).flatMap fun resource => resource.scopeMetrics.flatMap fun sm =>
    sm.metrics.flatMap fun metric =>
      if metric.name ∈ opts.skip then []
      else (instrument? (effectiveStrategy opts) (commonLabels opts sm.scope) metric).toList

variable (str : V → CodePoints)

/-- The data points of an instrument. -/
def Instrument.rows (strategy : Strategy) (i : Instrument V) : List Row :=
  match i.data with
  | .sum _ points | .gauge points =>
      points.map fun point => .plain i.name (pointLabels str strategy i.scope point.attributes)
  | .histogram points =>
      points.map fun point =>
        .histogram i.name (pointLabels str strategy i.scope point.attributes)
          (point.explicitBounds.map formatValue)
  | .unsupported => []

/-- Families gather instruments under their names. -/
def gathering (strategy : Strategy) : Gathering (Instrument V) Family Series CodePoints Kind where
  key := Instrument.name
  kind := Instrument.kind
  items i := (i.rows str strategy).flatMap Row.series
  kindOf := Family.kind
  itemsOf := familySeries

/-- The families are under their names, and hold the instruments. -/
structure Holds (strategy : Strategy) (done : List (Instrument V))
    (families : Dict CodePoints Family) : Prop where
  gathers : (gathering str strategy).Gathers done families
  name : ∀ k f, families.get? k = some f → f.name = k

variable {str} {strategy : Strategy} {labels scope : Labels}

theorem map_bucketSamples {bounds : List PyFloat} {counts : List ℤ} {running : ℤ}
    {samples : List Sample} (h : bucketSamples labels bounds counts running = .ok samples) :
    (samples.map fun s => (s.suffix, s.labels)) =
      bounds.map fun bound => (bucketSuffix, labels.set le (formatValue bound)) := by
  induction bounds generalizing counts running samples with
  | nil =>
      cases h
      rfl
  | cons bound bounds ih =>
      cases counts with
      | nil => cases h
      | cons count counts =>
          rw [bucketSamples] at h
          obtain ⟨value, -, h⟩ := bind_eq_ok_iff.mp h
          obtain ⟨rest, hrest, h⟩ := bind_eq_ok_iff.mp h
          cases h
          rw [List.map_cons, List.map_cons, ih hrest]

/-- The samples of a histogram's data point. -/
theorem seriesOf_histogramSamples {point : HistogramPoint V} {samples : List Sample}
    (name : CodePoints) (h : histogramSamples point labels = .ok samples) :
    seriesOf name samples =
      (Row.histogram name labels (point.explicitBounds.map formatValue)).series := by
  rw [histogramSamples] at h
  obtain ⟨buckets, hbuckets, h⟩ := bind_eq_ok_iff.mp h
  obtain ⟨count, -, h⟩ := bind_eq_ok_iff.mp h
  obtain ⟨sum, -, h⟩ := bind_eq_ok_iff.mp h
  cases h
  have hmap := congrArg (List.map fun s : CodePoints × Labels => (name ++ s.1, s.2))
    (map_bucketSamples hbuckets)
  rw [List.map_map, List.map_map] at hmap
  rw [seriesOf, List.map_append, Row.series, List.map_append, List.map_map]
  simp only [Function.comp_def] at hmap ⊢
  rw [hmap]
  simp

/-- The samples of data points with one value. -/
theorem seriesOf_numberSamples {points : List (NumberPoint V)} {samples : List Sample}
    (name : CodePoints) (h : points.mapM (numberSample str strategy scope) = .ok samples) :
    seriesOf name samples = (points.map fun point =>
      Row.plain name (pointLabels str strategy scope point.attributes)).flatMap Row.series := by
  have hone : ∀ (point : NumberPoint V) s, numberSample str strategy scope point = .ok s →
      (name ++ s.suffix, s.labels) = (name, pointLabels str strategy scope point.attributes) := by
    intro point s hs
    obtain ⟨value, -, hs⟩ := bind_eq_ok_iff.mp hs
    cases hs
    rw [List.append_nil]
  rw [seriesOf, map_eq_of_mapM hone h, List.flatMap_map]
  exact List.map_eq_flatMap

/-- **The samples of an instrument** are those of its data points. -/
theorem seriesOf_dataSamples {i : Instrument V} {samples : List Sample}
    (h : dataSamples str strategy i.scope i.data = .ok samples) :
    seriesOf i.name samples = (i.rows str strategy).flatMap Row.series := by
  rw [Instrument.rows]
  cases hdata : i.data with
  | sum isMonotonic points =>
      rw [hdata] at h
      exact seriesOf_numberSamples i.name h
  | gauge points =>
      rw [hdata] at h
      exact seriesOf_numberSamples i.name h
  | histogram points =>
      rw [hdata] at h
      obtain ⟨parts, hparts, h⟩ := bind_eq_ok_iff.mp h
      cases h
      have hmap := map_eq_of_mapM (fun point s hs => seriesOf_histogramSamples i.name hs) hparts
      rw [seriesOf, List.map_flatten, List.flatMap_map, List.flatMap, ← hmap]
      rfl
  | unsupported =>
      rw [hdata] at h
      cases h
      rfl

/-! ## Gathering -/

variable {done : List (Instrument V)} {families families' : Dict CodePoints Family}
  {listed : List Family}

/-- A family under its name gets the samples of an instrument of its type. -/
theorem Holds.adds (h : Holds str strategy done families) {i : Instrument V} {family : Family}
    {samples : List Sample} (hname : family.name = i.name) (hkind : family.kind = i.kind)
    (hfamily : familySeries family = (families.get? i.name).elim [] familySeries)
    (hfits : ∀ f ∈ families.get? i.name, f.kind = i.kind)
    (hsamples : dataSamples str strategy i.scope i.data = .ok samples) :
    Holds str strategy (done ++ [i])
      (families.set i.name { family with samples := family.samples ++ samples }) where
  gathers := by
    refine h.gathers.adds hfits hkind ?_
    have hseries := seriesOf_dataSamples hsamples
    rw [familySeries, seriesOf, hname] at hfamily
    rw [seriesOf] at hseries
    simp only [gathering, familySeries, seriesOf, hname, List.map_append, hseries, hfamily]
  name := by
    intro k f hf
    rw [Dict.get?_set] at hf
    split_ifs at hf with hk
    · obtain rfl := Option.some.inj hf
      rw [hname, hk]
    · exact h.name k f hf

theorem Holds.addData (h : Holds str strategy done families) {i : Instrument V} {fresh : Family}
    (hname : fresh.name = i.name) (hkind : fresh.kind = i.kind) (hsamples : fresh.samples = [])
    (hadd : addData str strategy i.scope families fresh i.data = .ok families') :
    Holds str strategy (done ++ [i]) families' := by
  simp only [PythonFamilies.addData, hname, hkind] at hadd
  cases hget : families.get? i.name with
  | none =>
      rw [hget, Option.getD_none, if_neg (not_not.mpr hkind)] at hadd
      obtain ⟨samples, hnew, hadd⟩ := bind_eq_ok_iff.mp hadd
      cases hadd
      refine h.adds hname hkind ?_ (by simp [hget]) hnew
      rw [hget, familySeries, hsamples]
      rfl
  | some family =>
      rw [hget, Option.getD_some] at hadd
      split_ifs at hadd with hclash
      · cases hadd
        exact ⟨h.gathers.passes hget hclash, h.name⟩
      · obtain ⟨samples, hnew, hadd⟩ := bind_eq_ok_iff.mp hadd
        cases hadd
        rw [not_not] at hclash
        refine h.adds (h.name i.name family hget) hclash (by rw [hget]; rfl) ?_ hnew
        rw [hget]
        rintro f ⟨⟩
        exact hclash

/-- **An instrument is added** to what the families hold, if it is translated. -/
theorem Holds.addMetric (h : Holds str strategy done families) {metric : Metric V}
    (hadd : addMetric str strategy scope families metric = .ok families') :
    Holds str strategy (done ++ (instrument? strategy scope metric).toList) families' := by
  rw [PythonFamilies.addMetric] at hadd
  rw [instrument?]
  cases hkind : kindOf metric.data with
  | none =>
      rw [hkind] at hadd
      cases hadd
      simpa using h
  | some kinds =>
      simp only [hkind] at hadd
      rw [Option.bind_some]
      cases hname : metricName metric.name (metric.unit.getD []) kinds.1 strategy with
      | none =>
          rw [hname] at hadd
          cases hadd
          simpa using h
      | some name =>
          simp only [hname] at hadd
          exact h.addData (i := ⟨name, kinds.2, scope, metric.data⟩) rfl rfl rfl hadd

/-- **The families of the instruments** hold them all. -/
theorem holds_instrumentFamilies {opts : RenderOptions} {data : MetricsData V}
    (h : instrumentFamilies str opts data = .ok families) :
    Holds str (effectiveStrategy opts) (instruments opts data) families := by
  have hmetric : ∀ (scope : Scope) done d (metric : Metric V) d',
      Holds str (effectiveStrategy opts) done d →
      (if metric.name ∈ opts.skip then .ok d
        else addMetric str (effectiveStrategy opts) (commonLabels opts scope) d metric) = .ok d' →
      Holds str (effectiveStrategy opts)
        (done ++ if metric.name ∈ opts.skip then []
          else (instrument? (effectiveStrategy opts) (commonLabels opts scope) metric).toList)
        d' := by
    intro scope done d metric d' hd hadd
    split_ifs at hadd ⊢
    · cases hadd
      rwa [List.append_nil]
    · exact hd.addMetric hadd
  have hempty : Holds str (effectiveStrategy opts) [] (.empty : Dict CodePoints Family) :=
    ⟨Gathering.gathers_empty, by simp⟩
  refine foldlM_gathers (fun done d resource d' hd hstep => ?_) hempty h
  refine foldlM_gathers (fun done d sm d' hd hstep => ?_) hd hstep
  exact foldlM_gathers (hmetric sm.scope) hd hstep

/-! ## The list of families -/

variable (str)

/-- The data points of the instruments that are not passed over. -/
def instrumentRows (opts : RenderOptions) (data : MetricsData V) : List Row :=
  ((gathering str (effectiveStrategy opts)).kept (instruments opts data)).flatMap
    (Instrument.rows str (effectiveStrategy opts))

/-- The resources that are told of. An instrument of that name takes their place. -/
def infoRows (opts : RenderOptions) (data : MetricsData V) : List Row :=
  if targetInfoName ∈ (instruments opts data).map Instrument.name then []
  else (infoSamples str opts data).map fun s => .plain targetInfoName s.labels

/-- All that is rendered of the collected data. -/
def rows (opts : RenderOptions) (data : MetricsData V) : List Row :=
  instrumentRows str opts data ++ infoRows str opts data

variable {str} {opts : RenderOptions} {data : MetricsData V}

theorem map_name_values (h : ∀ k f, families.get? k = some f → f.name = k) :
    families.values.map Family.name = families.keys := by
  rw [Dict.values, Dict.keys, List.map_map]
  exact List.map_congr_left fun e he => h e.1 e.2 (Dict.mem_entries_iff.mp he)

/-- The families of resources and instruments are under their names. -/
theorem Holds.name_withTargetInfo (h : Holds str strategy done families) (info : List Sample) :
    ∀ k f, (withTargetInfo info families).get? k = some f → f.name = k := by
  intro k f hf
  rw [withTargetInfo, Dict.setDefault] at hf
  split_ifs at hf
  · exact h.name k f hf
  · exact h.name k f hf
  · rw [Dict.get?_set] at hf
    split_ifs at hf with hk
    · obtain rfl := Option.some.inj hf
      exact hk.symm
    · exact h.name k f hf

theorem mem_keys_withTargetInfo {info : List Sample} {k : CodePoints} :
    k ∈ (withTargetInfo info families).keys ↔
      k ∈ families.keys ∨ info ≠ [] ∧ k = targetInfoName := by
  rw [withTargetInfo, Dict.setDefault]
  split_ifs with hinfo hmem
  · simp [List.isEmpty_iff.mp hinfo]
  · constructor
    · exact .inl
    · rintro (h | ⟨-, rfl⟩)
      · exact h
      · exact hmem
  · have hne : info ≠ [] := fun h => hinfo (List.isEmpty_iff.mpr h)
    rw [Dict.keys_set, if_neg hmem, List.mem_append, List.mem_singleton]
    simp [hne]

/-- The samples of the resources come on top, unless an instrument has their name. -/
theorem flatMap_values_withTargetInfo (info : List Sample) (families : Dict CodePoints Family) :
    ((withTargetInfo info families).values.flatMap familySeries).Perm
      (families.values.flatMap familySeries ++
        if targetInfoName ∈ families.keys then [] else seriesOf targetInfoName info) := by
  rw [withTargetInfo, Dict.setDefault]
  split_ifs with hinfo hmem hmem
  · rw [List.append_nil]
  · rw [List.isEmpty_iff.mp hinfo, seriesOf, List.map_nil, List.append_nil]
  · rw [List.append_nil]
  · refine Dict.flatMap_values_set_perm ?_
    rw [Dict.get?_eq_none_iff.mpr hmem]
    rfl

theorem familiesFrom_eq_ok (h : familiesFrom str opts data = .ok listed) :
    ∃ families, Holds str (effectiveStrategy opts) (instruments opts data) families ∧
      listed.Perm (withTargetInfo (infoSamples str opts data) families).values := by
  obtain ⟨families, hfamilies, h⟩ := bind_eq_ok_iff.mp h
  cases h
  exact ⟨families, holds_instrumentFamilies hfamilies, List.perm_insertionSort _ _⟩

/-- **Every family from the collected data has a name of its own.** -/
theorem nodup_familiesFrom (h : familiesFrom str opts data = .ok listed) :
    (listed.map Family.name).Nodup := by
  obtain ⟨families, hholds, hperm⟩ := familiesFrom_eq_ok h
  rw [(hperm.map Family.name).nodup_iff, map_name_values (hholds.name_withTargetInfo _)]
  exact Dict.nodup_keys _

/-- The names of the families: those of the instruments, and that of the resources. -/
theorem mem_names_familiesFrom_iff (h : familiesFrom str opts data = .ok listed)
    {name : CodePoints} : name ∈ listed.map Family.name ↔
      name ∈ (instruments opts data).map Instrument.name ∨
        infoSamples str opts data ≠ [] ∧ name = targetInfoName := by
  obtain ⟨families, hholds, hperm⟩ := familiesFrom_eq_ok h
  rw [(hperm.map Family.name).mem_iff, map_name_values (hholds.name_withTargetInfo _),
    mem_keys_withTargetInfo, hholds.gathers.mem_keys_iff]
  rfl

theorem suffix_of_mem_infoSamples {s : Sample} (h : s ∈ infoSamples str opts data) :
    s.suffix = [] := by
  obtain ⟨resource, -, hs⟩ := List.mem_filterMap.mp h
  simp only at hs
  split_ifs at hs
  rw [← Option.some.inj hs]

theorem seriesOf_infoSamples : seriesOf targetInfoName (infoSamples str opts data) =
    ((infoSamples str opts data).map fun s =>
      Row.plain targetInfoName s.labels).flatMap Row.series := by
  have hmap : seriesOf targetInfoName (infoSamples str opts data) =
      (infoSamples str opts data).map fun s => (targetInfoName, s.labels) :=
    List.map_congr_left fun s hs => by rw [suffix_of_mem_infoSamples hs, List.append_nil]
  rw [hmap, List.flatMap_map]
  exact List.map_eq_flatMap

/-- **The samples of the families are those of the data points**, in some order. -/
theorem series_familiesFrom (h : familiesFrom str opts data = .ok listed) :
    (listed.flatMap familySeries).Perm ((rows str opts data).flatMap Row.series) := by
  obtain ⟨families, hholds, hperm⟩ := familiesFrom_eq_ok h
  have hinfo : (if targetInfoName ∈ families.keys then []
      else seriesOf targetInfoName (infoSamples str opts data)) =
      (infoRows str opts data).flatMap Row.series := by
    have hiff : targetInfoName ∈ families.keys ↔
        targetInfoName ∈ (instruments opts data).map Instrument.name := hholds.gathers.mem_keys_iff
    rw [infoRows]
    split_ifs with h₁ h₂ h₂
    · rfl
    · exact absurd (hiff.mp h₁) h₂
    · exact absurd (hiff.mpr h₂) h₁
    · exact seriesOf_infoSamples
  have hitems := hholds.gathers.items
  have htotal := flatMap_values_withTargetInfo (infoSamples str opts data) families
  rw [hinfo] at htotal
  rw [rows, List.flatMap_append, instrumentRows, List.flatMap_assoc]
  exact (hperm.flatMap_right familySeries).trans (htotal.trans (hitems.append_right _))

end

end Telemetry.Metrics.PythonFamilies
