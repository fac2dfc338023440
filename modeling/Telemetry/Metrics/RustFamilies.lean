import Telemetry.Lib.Gathered
import Telemetry.Lib.SortedMap
import Telemetry.Metrics.RustNames
import Telemetry.Receipts.Rust

/-!
# The families of one Prometheus scrape in the Rust SDK

`prometheus/render.rs` makes families of what was collected, one for every translated name. Labels
are translated many to one, and `set_label` gives a name that is there the new value. The bound of a
bucket is pushed behind the labels of its data point, whatever they are.

## Main definitions

* `addMetric`, `familiesFrom` — the source's functions.
* `rendered` — the instruments whose samples are in the families.
* `Right` — no sample has two labels of one name, and `le` is the bound of the bucket.
* `LeFree` — no data point of a histogram that is rendered has an attribute `le`.

## Main results

* `labelName_eq_le_iff` — no other key is translated to `le`.
* `mem_familiesFrom_iff` — the families are those of the instruments, and that of the resource.
* `right_iff_leFree` — **the collections whose labels are right**.
-/

namespace Telemetry.Metrics.RustFamilies

open Lib
open RustNames
open Receipts.Python (Shortest digitChar minus)
open Receipts.Rust (F64 decimal lowerExp)

/-! ## What is collected -/

/-- `Labels`: pairs, in the order in which they came. -/
abbrev Labels := List (List Char × List Char)

/-- `set_label` -/
def setLabel (labels : Labels) (name value : List Char) : Labels := assign name value labels

/-- `HistogramPoint` -/
structure HistogramPoint where
  attributes : Labels
  bounds : List F64
  bucketCounts : List UInt64
  count : UInt64
  sum : F64

/-- `Points` -/
inductive Points
  | sum (monotonic : Bool) (points : List (Labels × F64))
  | gauge (points : List (Labels × F64))
  | histogram (points : List HistogramPoint)

/-- `MetricView` -/
structure MetricView where
  name : List Char
  unit : List Char
  description : List Char
  points : Points

/-- `ScopeView` -/
structure ScopeView where
  name : List Char
  version : Option (List Char)
  metrics : List MetricView

/-- `ResourceView` -/
structure ResourceView where
  attributes : Labels
  scopes : List ScopeView

/-- `RenderOptions` -/
structure RenderOptions where
  strategy : String
  scopeLabels : Bool
  targetInfo : Bool

/-! ## Families -/

/-- `PromType` -/
inductive PromType
  | counter
  | gauge
  | histogram
  deriving DecidableEq, Repr

/-- `Sample` -/
structure Sample where
  suffix : List Char
  labels : Labels
  value : F64

/-- `Family` -/
structure Family where
  name : List Char
  kind : PromType
  help : List Char
  samples : List Sample := []

/-- `family.samples.extend` -/
def Family.extend (f : Family) (samples : List Sample) : Family :=
  { f with samples := f.samples ++ samples }

/-- `push` -/
def Family.push (f : Family) (labels : Labels) (value : F64) : Family :=
  f.extend [⟨[], labels, value⟩]

/-- `effective_strategy` -/
def effectiveStrategy (configured : String) (utf8 : Bool) : Strategy :=
  let strategy := Strategy.named configured
  ⟨strategy.escapes || !utf8, strategy.suffixes⟩

/-- `translate_labels` -/
def translateLabels (attributes : Labels) (strategy : Strategy) : Labels :=
  attributes.foldl (fun labels e =>
    match labelName e.1 strategy with
    | some label => if reservedMark <+: label then labels else setLabel labels label e.2
    | none => labels) []

/-- `scope_labels` -/
def scopeLabels (scope : ScopeView) : Labels :=
  ("otel_scope_name".toList, scope.name) ::
    ((scope.version.filter (· ≠ [])).map fun version =>
      ("otel_scope_version".toList, version)).toList

/-- `kinds_of` -/
def kindsOf : Points → Kind × PromType
  | .sum true _ => (.monotonicCounter, .counter)
  | .sum false _ => (.nonMonotonicCounter, .gauge)
  | .gauge _ => (.gauge, .gauge)
  | .histogram _ => (.histogram, .histogram)

/-- `with_scope` -/
def withScope (labels scope : Labels) : Labels :=
  scope.foldl (fun labels e => setLabel labels e.1 e.2) labels

/-- `format_value`: `{:e}` below `1e-7` and from `1e21` on, and `{}` between them. -/
def formatValue : F64 → List Char
  | .nan => "NaN".toList
  | .inf negative => (if negative then "-Inf" else "+Inf").toList
  | .zero negative => minus negative ++ ['0']
  | .nonzero negative x =>
      minus negative ++
        if x.point < -6 ∨ 21 < x.point then (lowerExp x).1 ++ 'e' :: decimal (lowerExp x).2
        else if x.point ≤ 0 then
          '0' :: '.' :: (List.replicate (-x.point).toNat '0' ++ x.digits.map digitChar)
        else if x.digits.length ≤ x.point then
          x.digits.map digitChar ++ List.replicate (x.point - x.digits.length).toNat '0'
        else
          (x.digits.take x.point.toNat).map digitChar ++
            '.' :: (x.digits.drop x.point.toNat).map digitChar

/-- `as f64` -/
def asF64 (n : UInt64) : F64 := .ofInt n.toNat

/-- `le` -/
def le : List Char := "le".toList

/-- `+Inf` -/
def infinity : List Char := "+Inf".toList

def bucketSuffix : List Char := "_bucket".toList

def sumSuffix : List Char := "_sum".toList

def countSuffix : List Char := "_count".toList

/-- The loop of `histogram_samples`, with the count so far, which wraps. -/
def bucketSamples (labels : Labels) : List (F64 × UInt64) → UInt64 → List Sample
  | [], _ => []
  | (bound, count) :: buckets, running =>
      ⟨bucketSuffix, labels ++ [(le, formatValue bound)], asF64 (running + count)⟩ ::
        bucketSamples labels buckets (running + count)

/-- `histogram_samples` -/
def histogramSamples (point : HistogramPoint) (labels : Labels) : List Sample :=
  bucketSamples labels (point.bounds.zip point.bucketCounts) 0 ++
    [⟨bucketSuffix, labels ++ [(le, infinity)], asF64 point.count⟩, ⟨sumSuffix, labels, point.sum⟩,
      ⟨countSuffix, labels, asF64 point.count⟩]

/-- The labels of a data point. -/
def pointLabels (strategy : Strategy) (scope attributes : Labels) : Labels :=
  withScope (translateLabels attributes strategy) scope

/-- The samples that the data points of a metric become. -/
def pointSamples (strategy : Strategy) (scope : Labels) : Points → List Sample
  | .sum _ points | .gauge points =>
      points.map fun point => ⟨[], pointLabels strategy scope point.1, point.2⟩
  | .histogram points =>
      points.flatMap fun point =>
        histogramSamples point (pointLabels strategy scope point.attributes)

/-- The names of `PER_SIGNAL` and `GLOBAL`. -/
def healthMetricNames : List (List Char) :=
  ["provide_telemetry_emitted_total", "provide_telemetry_dropped_total",
    "provide_telemetry_export_failures_total", "provide_telemetry_export_retries_total",
    "provide_telemetry_export_latency_milliseconds", "provide_telemetry_async_blocking_risk_total",
    "provide_telemetry_circuit_state", "provide_telemetry_circuit_open_total",
    "provide_telemetry_setup_error", "provide_telemetry_receipt_failures_total"].map String.toList

/-- `is_health_metric` -/
def isHealthMetric (name : List Char) : Bool := healthMetricNames.any fun metric => metric = name

/-- The families, by their names. -/
abbrev Families := SortedMap (List Char) Family

/-- `add_metric` -/
def addMetric (families : Families) (metric : MetricView) (scope : Labels) (strategy : Strategy) :
    Families :=
  if isHealthMetric metric.name then families
  else
    let kinds := kindsOf metric.points
    match metricName metric.name metric.unit kinds.1 strategy with
    | none => families
    | some name =>
        let family := (families.lookup name).getD ⟨name, kinds.2, metric.description, []⟩
        -- a family of another type was there before, and stays
        if family.kind ≠ kinds.2 then families
        else
          families.insert name (family.extend (pointSamples strategy scope metric.points))

def targetInfoName : List Char := "target_info".toList

def targetInfoHelp : List Char := "Target metadata".toList

/-- The labels that the metrics of a scope have in common. -/
def scopeExtra (opts : RenderOptions) (scope : ScopeView) : Labels :=
  if opts.scopeLabels then scopeLabels scope else []

/-- The families of the metrics. -/
def metricFamilies (view : ResourceView) (opts : RenderOptions) (strategy : Strategy) : Families :=
  view.scopes.foldl (fun families scope =>
    scope.metrics.foldl (fun families metric =>
      addMetric families metric (scopeExtra opts scope) strategy) families) .empty

/-- The family of the resource. -/
def infoFamily (labels : Labels) : Family :=
  Family.push ⟨targetInfoName, .gauge, targetInfoHelp, []⟩ labels (.ofInt 1)

/-- The families with that of the resource. An instrument of that name keeps it. -/
def withTargetInfo (families : Families) (opts : RenderOptions) (labels : Labels) : Families :=
  if opts.targetInfo ∧ labels ≠ [] ∧ families.lookup targetInfoName = none then
    families.insert targetInfoName (infoFamily labels)
  else families

/-- `families_from` -/
def familiesFrom (view : ResourceView) (opts : RenderOptions) (utf8 : Bool) : List Family :=
  let strategy := effectiveStrategy opts.strategy utf8
  (withTargetInfo (metricFamilies view opts strategy) opts
    (translateLabels view.attributes strategy)).entries.map Prod.snd

/-! ## What is rendered -/

/-- A metric that is translated: its name and its type, and the labels of its scope. -/
structure Instrument where
  name : List Char
  kind : PromType
  scope : Labels
  points : Points

/-- What a metric is translated to, if it can be and is not one of the health snapshot's. -/
def instrument? (strategy : Strategy) (scope : Labels) (metric : MetricView) : Option Instrument :=
  if isHealthMetric metric.name then none
  else
    (metricName metric.name metric.unit (kindsOf metric.points).1 strategy).map fun name =>
      ⟨name, (kindsOf metric.points).2, scope, metric.points⟩

/-- The metrics that are translated, in their order. -/
def instruments (view : ResourceView) (opts : RenderOptions) (strategy : Strategy) :
    List Instrument :=
  view.scopes.flatMap fun scope => scope.metrics.flatMap fun metric =>
    (instrument? strategy (scopeExtra opts scope) metric).toList

/-- Families gather the samples of instruments under their names. -/
def gathering (strategy : Strategy) : Gathering Instrument Family Sample (List Char) PromType where
  key := Instrument.name
  kind := Instrument.kind
  items i := pointSamples strategy i.scope i.points
  kindOf := Family.kind
  itemsOf := Family.samples

/-- The instruments whose samples are in the families: those of the type that the first one of
their name has. -/
def rendered (view : ResourceView) (opts : RenderOptions) (utf8 : Bool) : List Instrument :=
  (gathering (effectiveStrategy opts.strategy utf8)).kept
    (instruments view opts (effectiveStrategy opts.strategy utf8))

/-- The data points of a histogram. -/
def Points.histogramPoints : Points → List HistogramPoint
  | .histogram points => points
  | .sum _ _ | .gauge _ => []

/-- The bounds of the buckets of a data point, as they are written. -/
def HistogramPoint.bucketBounds (point : HistogramPoint) : List (List Char) :=
  ((point.bounds.zip point.bucketCounts).map fun bucket => formatValue bucket.1) ++ [infinity]

/-- The bounds of the buckets of a metric. -/
def Points.bucketBounds (points : Points) : List (List Char) :=
  points.histogramPoints.flatMap HistogramPoint.bucketBounds

/-- The `le` of a sample. -/
def Sample.le? (s : Sample) : Option (List Char) :=
  (s.labels.find? fun e => e.1 = le).map Prod.snd

/-- The samples that are buckets. -/
def Family.buckets (f : Family) : List Sample :=
  f.samples.filter fun s => s.suffix = bucketSuffix

/-- The labels are right: no sample has two of one name, and the `le` of the buckets of a family are
the bounds of the buckets of the metrics under its name, one for one. -/
structure Right (view : ResourceView) (opts : RenderOptions) (utf8 : Bool) : Prop where
  nodup : ∀ f ∈ familiesFrom view opts utf8, ∀ s ∈ f.samples, (s.labels.map Prod.fst).Nodup
  bounds : ∀ f ∈ familiesFrom view opts utf8,
    f.buckets.map Sample.le? = ((rendered view opts utf8).filter fun i => i.name = f.name).flatMap
      fun i => i.points.bucketBounds.map some

/-- No data point of a histogram that is rendered has an attribute `le`. -/
def LeFree (view : ResourceView) (opts : RenderOptions) (utf8 : Bool) : Prop :=
  ∀ i ∈ rendered view opts utf8, ∀ point ∈ i.points.histogramPoints,
    le ∉ point.attributes.map Prod.fst

/-! ## The labels of a data point -/

variable {labels scope attributes : Labels} {strategy : Strategy} {name : List Char}

theorem mem_setLabel_iff {key value : List Char} :
    name ∈ (setLabel labels key value).map Prod.fst ↔ name ∈ labels.map Prod.fst ∨ name = key := by
  rw [setLabel, keys_assign]
  split_ifs with hkey
  · constructor
    · exact .inl
    · rintro (h | rfl)
      · exact h
      · exact hkey
  · rw [List.mem_append, List.mem_singleton]

/-- What a key is translated to, if it can be a label. -/
def label? (strategy : Strategy) (key : List Char) : Option (List Char) :=
  (labelName key strategy).filter fun label => ¬ reservedMark <+: label

theorem translateLabels_eq : translateLabels attributes strategy =
    attributes.foldl (fun labels e =>
      (label? strategy e.1).elim labels fun label => setLabel labels label e.2) [] := by
  rw [translateLabels]
  congr 1
  funext labels e
  rw [label?]
  cases labelName e.1 strategy with
  | none => rfl
  | some label =>
      by_cases hmark : reservedMark <+: label
      · simp [hmark, Option.filter]
      · simp [hmark, Option.filter]

/-- **Labels that are set have different names.** -/
theorem nodup_translateLabels (attributes : Labels) (strategy : Strategy) :
    ((translateLabels attributes strategy).map Prod.fst).Nodup := by
  rw [translateLabels_eq]
  refine List.foldlRecOn (motive := fun labels : Labels => (labels.map Prod.fst).Nodup) attributes _
    List.nodup_nil fun labels hlabels e _ => ?_
  cases label? strategy e.1 with
  | none => exact hlabels
  | some label => exact nodup_assign hlabels

theorem nodup_withScope (h : (labels.map Prod.fst).Nodup) (scope : Labels) :
    ((withScope labels scope).map Prod.fst).Nodup :=
  List.foldlRecOn (motive := fun labels : Labels => (labels.map Prod.fst).Nodup) scope _ h
    fun _ hlabels _ _ => nodup_assign hlabels

theorem nodup_pointLabels (strategy : Strategy) (scope attributes : Labels) :
    ((pointLabels strategy scope attributes).map Prod.fst).Nodup :=
  nodup_withScope (nodup_translateLabels attributes strategy) scope

theorem mem_withScope_iff : name ∈ (withScope labels scope).map Prod.fst ↔
    name ∈ labels.map Prod.fst ∨ name ∈ scope.map Prod.fst := by
  induction scope generalizing labels with
  | nil => simp [withScope]
  | cons e scope ih =>
      have hcons : withScope labels (e :: scope) = withScope (setLabel labels e.1 e.2) scope := rfl
      rw [hcons, ih, mem_setLabel_iff, List.map_cons, List.mem_cons, or_assoc]

/-- The names of the labels are what the keys are translated to. -/
theorem mem_translateLabels_iff : name ∈ (translateLabels attributes strategy).map Prod.fst ↔
    ∃ e ∈ attributes, label? strategy e.1 = some name := by
  have hfrom : ∀ labels : Labels, name ∈ (attributes.foldl (fun labels e =>
      (label? strategy e.1).elim labels fun label => setLabel labels label e.2) labels).map
        Prod.fst ↔
      name ∈ labels.map Prod.fst ∨ ∃ e ∈ attributes, label? strategy e.1 = some name := by
    induction attributes with
    | nil => simp
    | cons e attributes ih =>
        intro labels
        rw [List.foldl_cons, ih]
        cases hlabel : label? strategy e.1 with
        | none => simp [hlabel]
        | some label =>
            rw [Option.elim_some, mem_setLabel_iff, or_assoc]
            simp [hlabel, eq_comm]
  rw [translateLabels_eq, hfrom]
  simp

/-! ## The label of a bucket -/

theorem prefix_collapse (keep : Char → Bool) (text out : List Char) (inRun : Bool) :
    out <+: (text.foldl (collapseStep keep) (out, inRun)).1 := by
  induction text generalizing out inRun with
  | nil => exact List.prefix_refl out
  | cons c text ih =>
      rw [List.foldl_cons, collapseStep]
      split_ifs
      · exact (List.prefix_append out [c]).trans (ih _ _)
      · exact (List.prefix_append out ['_']).trans (ih _ _)
      · exact ih _ _

/-- Where no underscore stands, nothing was replaced. -/
theorem eq_of_collapseInvalid {keep : Char → Bool} {text : List Char}
    (h : '_' ∉ collapseInvalid text keep) : collapseInvalid text keep = text := by
  have hrun : ∀ out, '_' ∉ (text.foldl (collapseStep keep) (out, false)).1 →
      (text.foldl (collapseStep keep) (out, false)).1 = out ++ text := by
    clear h
    induction text with
    | nil => simp
    | cons c text ih =>
        intro out hout
        rw [List.foldl_cons, collapseStep] at hout ⊢
        by_cases hkeep : keep c = true
        · rw [if_pos hkeep] at hout ⊢
          rw [ih _ hout, List.append_assoc, List.singleton_append]
        · rw [if_neg hkeep] at hout
          exact absurd ((prefix_collapse keep text _ true).subset (by simp)) hout
  exact hrun [] h

/-- **No other key is translated to `le`.** -/
theorem labelName_eq_le_iff {key : List Char} : labelName key strategy = some le ↔ key = le := by
  constructor
  · intro h
    rw [labelName] at h
    split_ifs at h
    · exact Option.some.inj h
    · have hsanitized := Option.some.inj h
      simp only [sanitized] at hsanitized
      split_ifs at hsanitized with hreserved hdigit hdigit
      · cases hsanitized
      · cases hsanitized
      · cases hsanitized
      · rw [← hsanitized]
        refine (eq_of_collapseInvalid ?_).symm
        rw [hsanitized]
        decide
  · rintro rfl
    obtain ⟨escapes, suffixes⟩ := strategy
    cases escapes <;> cases suffixes <;> decide

theorem label?_eq_le_iff {key : List Char} : label? strategy key = some le ↔ key = le := by
  have hmark : ¬ reservedMark <+: le := by decide
  rw [label?, Option.filter_eq_some_iff, labelName_eq_le_iff]
  simp [hmark]

theorem le_notMem_scopeExtra (opts : RenderOptions) (scope : ScopeView) :
    le ∉ (scopeExtra opts scope).map Prod.fst := by
  have hname : le ≠ "otel_scope_name".toList := by decide
  have hversion : le ≠ "otel_scope_version".toList := by decide
  rw [scopeExtra]
  split_ifs
  · rw [scopeLabels]
    cases scope.version.filter (· ≠ []) with
    | none => simpa using hname
    | some version => simpa using ⟨hname, hversion⟩
  · exact List.not_mem_nil

/-- A data point has a label `le` if it has an attribute `le`. -/
theorem le_mem_pointLabels_iff (hscope : le ∉ scope.map Prod.fst) :
    le ∈ (pointLabels strategy scope attributes).map Prod.fst ↔
      le ∈ attributes.map Prod.fst := by
  rw [pointLabels, mem_withScope_iff, or_iff_left hscope, mem_translateLabels_iff, List.mem_map]
  simp only [label?_eq_le_iff]

/-! ## The samples of a data point -/

variable {point : HistogramPoint} {points : Points}

/-- The suffix and the labels of a sample. -/
def Sample.series (s : Sample) : List Char × Labels := (s.suffix, s.labels)

theorem map_series_bucketSamples (buckets : List (F64 × UInt64)) (running : UInt64) :
    (bucketSamples labels buckets running).map Sample.series =
      buckets.map fun bucket => (bucketSuffix, labels ++ [(le, formatValue bucket.1)]) := by
  induction buckets generalizing running with
  | nil => rfl
  | cons bucket buckets ih =>
      rw [bucketSamples, List.map_cons, List.map_cons, ih]
      rfl

/-- The samples of a histogram's data point: its buckets, the sum and the count. -/
theorem map_series_histogramSamples : (histogramSamples point labels).map Sample.series =
    (point.bucketBounds.map fun bound => (bucketSuffix, labels ++ [(le, bound)])) ++
      [(sumSuffix, labels), (countSuffix, labels)] := by
  rw [histogramSamples, List.map_append, map_series_bucketSamples, HistogramPoint.bucketBounds]
  simp [Sample.series]

/-- A label that is pushed must be new. -/
theorem nodup_push_iff {key value : List Char} (h : (labels.map Prod.fst).Nodup) :
    ((labels ++ [(key, value)]).map Prod.fst).Nodup ↔ key ∉ labels.map Prod.fst := by
  rw [List.map_append, List.map_singleton, List.nodup_append_comm, List.singleton_append,
    List.nodup_cons, and_iff_left h]

/-- **The samples of a data point have different labels** if `le` is none of its labels. There is a
bucket in any case. -/
theorem forall_nodup_histogramSamples_iff (h : (labels.map Prod.fst).Nodup) :
    (∀ s ∈ histogramSamples point labels, (s.labels.map Prod.fst).Nodup) ↔
      le ∉ labels.map Prod.fst := by
  have hseries : (∀ s ∈ histogramSamples point labels, (s.labels.map Prod.fst).Nodup) ↔
      ∀ e ∈ (histogramSamples point labels).map Sample.series, (e.2.map Prod.fst).Nodup := by
    rw [List.forall_mem_map]
    rfl
  rw [hseries, map_series_histogramSamples, List.forall_mem_append, List.forall_mem_map]
  simp only [nodup_push_iff h]
  constructor
  · rintro ⟨hbuckets, -⟩
    exact hbuckets infinity (List.mem_append_right _ List.mem_cons_self)
  · intro hle
    refine ⟨fun _ _ => hle, ?_⟩
    simpa using h

/-- The samples of a metric have different labels if no data point of a histogram has `le`. -/
theorem forall_nodup_pointSamples_iff (strategy : Strategy) (hscope : le ∉ scope.map Prod.fst) :
    (∀ s ∈ pointSamples strategy scope points, (s.labels.map Prod.fst).Nodup) ↔
      ∀ point ∈ points.histogramPoints, le ∉ point.attributes.map Prod.fst := by
  have hplain : ∀ data : List (Labels × F64), ∀ s ∈ data.map fun point =>
      (⟨[], pointLabels strategy scope point.1, point.2⟩ : Sample),
      (s.labels.map Prod.fst).Nodup :=
    fun data => List.forall_mem_map.mpr fun point _ => nodup_pointLabels strategy scope point.1
  cases points with
  | sum monotonic data => exact iff_of_true (hplain data) (by simp [Points.histogramPoints])
  | gauge data => exact iff_of_true (hplain data) (by simp [Points.histogramPoints])
  | histogram data =>
      rw [pointSamples, List.forall_mem_flatMap]
      refine forall₂_congr fun point _ => ?_
      rw [forall_nodup_histogramSamples_iff (nodup_pointLabels strategy scope _),
        le_mem_pointLabels_iff hscope]

/-- A label that is pushed behind others is found if it is new. -/
theorem find?_push (h : le ∉ labels.map Prod.fst) (bound : List Char) :
    ((labels ++ [(le, bound)]).find? fun e => e.1 = le) = some (le, bound) := by
  have hnone : (labels.find? fun e => e.1 = le) = none := by
    rw [List.find?_eq_none]
    intro e he hle
    exact h (List.mem_map.mpr ⟨e, he, of_decide_eq_true hle⟩)
  rw [List.find?_append, hnone, Option.none_or, List.find?_singleton, decide_eq_true rfl,
    if_pos rfl]

/-- The `le` of the buckets among some samples. -/
def bucketLabels (samples : List Sample) : List (Option (List Char)) :=
  (samples.filter fun s => s.suffix = bucketSuffix).map Sample.le?

theorem bucketLabels_eq (samples : List Sample) : bucketLabels samples =
    ((samples.map Sample.series).filter fun e => e.1 = bucketSuffix).map fun e =>
      (e.2.find? fun label => label.1 = le).map Prod.snd := by
  rw [List.filter_map, List.map_map]
  rfl

@[simp] theorem bucketLabels_flatMap {α : Type} (f : α → List Sample) (xs : List α) :
    bucketLabels (xs.flatMap f) = xs.flatMap fun x => bucketLabels (f x) := by
  rw [bucketLabels, List.filter_flatMap, List.map_flatMap]
  rfl

theorem bucketLabels_plain {α : Type} (f : α → Sample) (hf : ∀ x, (f x).suffix = [])
    (xs : List α) : bucketLabels (xs.map f) = [] := by
  have hsuffix : [] ≠ bucketSuffix := by decide
  rw [bucketLabels, List.filter_eq_nil_iff.mpr, List.map_nil]
  exact List.forall_mem_map.mpr fun x _ => by simpa [hf] using hsuffix

/-- **The buckets of a data point without `le` have their bounds.** -/
theorem bucketLabels_histogramSamples (h : le ∉ labels.map Prod.fst) :
    bucketLabels (histogramSamples point labels) = point.bucketBounds.map some := by
  have hall : ∀ e ∈ point.bucketBounds.map fun bound => (bucketSuffix, labels ++ [(le, bound)]),
      decide (e.1 = bucketSuffix) = true := List.forall_mem_map.mpr fun _ _ => decide_eq_true rfl
  have hsum : sumSuffix ≠ bucketSuffix := by decide
  have hcount : countSuffix ≠ bucketSuffix := by decide
  rw [bucketLabels_eq, map_series_histogramSamples, List.filter_append,
    List.filter_eq_self.mpr hall, List.map_append, List.map_map]
  simp [hsum, hcount, find?_push h]

theorem bucketLabels_pointSamples (hscope : le ∉ scope.map Prod.fst)
    (h : ∀ point ∈ points.histogramPoints, le ∉ point.attributes.map Prod.fst) :
    bucketLabels (pointSamples strategy scope points) = points.bucketBounds.map some := by
  cases points with
  | sum monotonic data => exact bucketLabels_plain _ (fun _ => rfl) data
  | gauge data => exact bucketLabels_plain _ (fun _ => rfl) data
  | histogram data =>
      rw [pointSamples, bucketLabels_flatMap, Points.bucketBounds, List.map_flatMap]
      refine List.flatMap_congr fun point hpoint => ?_
      exact bucketLabels_histogramSamples ((le_mem_pointLabels_iff hscope).not.mpr (h point hpoint))

/-! ## The families -/

/-- The families are under their names, and hold the samples of the instruments. -/
structure Holds (strategy : Strategy) (done : List Instrument) (families : Families) : Prop where
  bins : (gathering strategy).Bins done families.lookup
  name : ∀ k f, families.lookup k = some f → f.name = k

variable {done : List Instrument} {families : Families} {view : ResourceView}
  {opts : RenderOptions} {utf8 : Bool}

/-- A family that gets the samples of an instrument of its type. -/
theorem Holds.adds (h : Holds strategy done families) {i : Instrument} {family : Family}
    (hname : family.name = i.name) (hkind : family.kind = i.kind)
    (hfits : ∀ f ∈ families.lookup i.name, f.kind = i.kind)
    (hfamily : family.samples = (families.lookup i.name).elim [] Family.samples) :
    Holds strategy (done ++ [i])
      (families.insert i.name (family.extend (pointSamples strategy i.scope i.points))) where
  bins := by
    refine h.bins.adds hfits (b := family.extend (pointSamples strategy i.scope i.points)) hkind
      (congrArg (· ++ pointSamples strategy i.scope i.points) hfamily) ?_ fun k hk => ?_
    · exact (SortedMap.lookup_insert _ _).trans (if_pos rfl)
    · exact (SortedMap.lookup_insert _ _).trans (if_neg hk)
  name := by
    intro k f hf
    rw [SortedMap.lookup_insert] at hf
    split_ifs at hf with hk
    · obtain rfl := Option.some.inj hf
      exact hname.trans hk.symm
    · exact h.name k f hf

/-- **A metric is added** to what the families hold, if it is translated. -/
theorem Holds.addMetric (h : Holds strategy done families) (metric : MetricView) (scope : Labels) :
    Holds strategy (done ++ (instrument? strategy scope metric).toList)
      (addMetric families metric scope strategy) := by
  rw [RustFamilies.addMetric, instrument?]
  split_ifs with hhealth
  · simpa using h
  · simp only
    cases hname : metricName metric.name metric.unit (kindsOf metric.points).1 strategy with
    | none => simpa using h
    | some name =>
        simp only [Option.map_some, Option.toList_some]
        let i : Instrument := ⟨name, (kindsOf metric.points).2, scope, metric.points⟩
        cases hget : families.lookup name with
        | none =>
            rw [Option.getD_none, if_neg (not_not.mpr rfl)]
            exact h.adds (i := i) rfl rfl (by simp [i, hget]) (by simp [i, hget])
        | some family =>
            rw [Option.getD_some]
            split_ifs with hkind
            · exact ⟨h.bins.passes (x := i) hget hkind, h.name⟩
            · refine h.adds (i := i) (h.name name family hget) (not_not.mp hkind) ?_ ?_
              · rintro f hf
                rw [show families.lookup i.name = some family from hget] at hf
                obtain rfl := Option.some.inj hf
                exact not_not.mp hkind
              · rw [show families.lookup i.name = some family from hget, Option.elim_some]

/-- **The families of the metrics** hold them all. -/
theorem holds_metricFamilies (view : ResourceView) (opts : RenderOptions) (strategy : Strategy) :
    Holds strategy (instruments view opts strategy) (metricFamilies view opts strategy) := by
  have hempty : Holds strategy [] (SortedMap.empty : Families) :=
    ⟨Gathering.bins_empty, by simp⟩
  refine Gathering.foldl_gathers (fun done families scope hscope => ?_) hempty view.scopes
  exact Gathering.foldl_gathers (fun done families metric hmetric => hmetric.addMetric metric _)
    hscope _

theorem le_notMem_scope {i : Instrument} (h : i ∈ instruments view opts strategy) :
    le ∉ i.scope.map Prod.fst := by
  obtain ⟨scope, -, hi⟩ := List.mem_flatMap.mp h
  obtain ⟨metric, -, hi⟩ := List.mem_flatMap.mp hi
  rw [Option.mem_toList, instrument?] at hi
  split_ifs at hi
  obtain ⟨name, -, rfl⟩ := Option.map_eq_some_iff.mp hi
  exact le_notMem_scopeExtra opts scope

/-- The families of a map, which are under their names. -/
theorem mem_values_iff (h : ∀ k f, families.lookup k = some f → f.name = k) {f : Family} :
    f ∈ families.entries.map Prod.snd ↔ families.lookup f.name = some f := by
  constructor
  · intro hf
    obtain ⟨⟨k, _⟩, he, rfl⟩ := List.mem_map.mp hf
    have hlookup := SortedMap.lookup_eq_some.mpr he
    rwa [h k _ hlookup]
  · intro hf
    exact List.mem_map.mpr ⟨(f.name, f), SortedMap.lookup_eq_some.mp hf, rfl⟩

/-- The family of the resource is under its name. -/
theorem Holds.name_withTargetInfo (h : Holds strategy done families) (labels : Labels) :
    ∀ k f, (withTargetInfo families opts labels).lookup k = some f → f.name = k := by
  intro k f hf
  rw [withTargetInfo] at hf
  split_ifs at hf with hinfo
  · rw [SortedMap.lookup_insert] at hf
    split_ifs at hf with hk
    · obtain rfl := Option.some.inj hf
      exact hk.symm
    · exact h.name k f hf
  · exact h.name k f hf

/-- **The families** are those of the metrics, and that of the resource where no metric has its
name. -/
theorem mem_familiesFrom_iff (view : ResourceView) (opts : RenderOptions) (utf8 : Bool) :
    ∃ families, Holds (effectiveStrategy opts.strategy utf8)
        (instruments view opts (effectiveStrategy opts.strategy utf8)) families ∧
      ∀ f, f ∈ familiesFrom view opts utf8 ↔ families.lookup f.name = some f ∨
        (opts.targetInfo ∧
          translateLabels view.attributes (effectiveStrategy opts.strategy utf8) ≠ [] ∧
            families.lookup targetInfoName = none) ∧
          f = infoFamily
            (translateLabels view.attributes (effectiveStrategy opts.strategy utf8)) := by
  have hholds := holds_metricFamilies view opts (effectiveStrategy opts.strategy utf8)
  refine ⟨_, hholds, fun f => ?_⟩
  rw [familiesFrom, mem_values_iff (hholds.name_withTargetInfo _), withTargetInfo]
  split_ifs with hinfo
  · rw [SortedMap.lookup_insert, and_iff_right hinfo]
    split_ifs with hk
    · rw [hk, hinfo.2.2, Option.some.injEq]
      simp [eq_comm]
    · have hne : ∀ labels, f ≠ infoFamily labels := by
        rintro labels rfl
        exact hk rfl
      rw [or_iff_left (hne _)]
  · rw [or_iff_left fun h => hinfo h.1]

/-- The samples of a family are those of the instruments that are rendered under its name. -/
theorem Holds.samples_eq (h : Holds (effectiveStrategy opts.strategy utf8)
    (instruments view opts (effectiveStrategy opts.strategy utf8)) families) {k : List Char}
    {f : Family} (hf : families.lookup k = some f) :
    f.samples = ((rendered view opts utf8).filter fun i => i.name = k).flatMap fun i =>
      pointSamples (effectiveStrategy opts.strategy utf8) i.scope i.points :=
  h.bins.items k f hf

theorem le_notMem_of_rendered {i : Instrument} (h : i ∈ rendered view opts utf8) :
    le ∉ i.scope.map Prod.fst :=
  le_notMem_scope (List.mem_of_mem_filter h)

/-! ## When the labels are right -/

/-- The samples of every instrument that is rendered are in a family. -/
theorem leFree_of_nodup (h : ∀ f ∈ familiesFrom view opts utf8, ∀ s ∈ f.samples,
    (s.labels.map Prod.fst).Nodup) : LeFree view opts utf8 := by
  obtain ⟨families, hholds, hmem⟩ := mem_familiesFrom_iff view opts utf8
  intro i hi
  have hsome : (families.lookup i.name).isSome = true :=
    hholds.bins.isSome_iff.mpr (List.mem_map_of_mem (List.mem_of_mem_filter hi))
  obtain ⟨f, hf⟩ := Option.isSome_iff_exists.mp hsome
  have hfamily : f ∈ familiesFrom view opts utf8 := by
    refine (hmem f).mpr (.inl ?_)
    rw [hholds.name i.name f hf, hf]
  refine (forall_nodup_pointSamples_iff (effectiveStrategy opts.strategy utf8)
    (le_notMem_of_rendered hi)).mp fun s hs => h f hfamily s ?_
  rw [hholds.samples_eq hf]
  exact List.mem_flatMap.mpr ⟨i, List.mem_filter.mpr ⟨hi, decide_eq_true rfl⟩, hs⟩

theorem right_of_leFree (h : LeFree view opts utf8) : Right view opts utf8 := by
  obtain ⟨families, hholds, hmem⟩ := mem_familiesFrom_iff view opts utf8
  constructor
  · intro f hf s hs
    rcases (hmem f).mp hf with hf | ⟨-, rfl⟩
    · rw [hholds.samples_eq hf] at hs
      obtain ⟨i, hi, hs⟩ := List.mem_flatMap.mp hs
      have hi := List.mem_of_mem_filter hi
      exact (forall_nodup_pointSamples_iff _ (le_notMem_of_rendered hi)).mpr (h i hi) s hs
    · obtain rfl := List.mem_singleton.mp hs
      exact nodup_translateLabels _ _
  · intro f hf
    change bucketLabels f.samples = _
    rcases (hmem f).mp hf with hf | ⟨⟨-, -, hnone⟩, rfl⟩
    · rw [hholds.samples_eq hf, bucketLabels_flatMap]
      refine List.flatMap_congr fun i hi => ?_
      have hi := List.mem_of_mem_filter hi
      exact bucketLabels_pointSamples (le_notMem_of_rendered hi) (h i hi)
    · -- nothing that is rendered has the name of the resource's family
      have hunder : ((rendered view opts utf8).filter fun i => i.name = targetInfoName) = [] :=
        hholds.bins.under_eq_nil hnone
      have hinfo : ∀ labels, bucketLabels (infoFamily labels).samples = [] := fun labels =>
        bucketLabels_plain (fun _ : Unit => ⟨[], labels, .ofInt 1⟩) (fun _ => rfl) [()]
      rw [hinfo]
      exact (congrArg (List.flatMap _) hunder).symm

/-- **The collections whose labels are right**: those in which no histogram that is rendered has a
data point with an attribute `le`. -/
theorem right_iff_leFree (view : ResourceView) (opts : RenderOptions) (utf8 : Bool) :
    Right view opts utf8 ↔ LeFree view opts utf8 :=
  ⟨fun h => leFree_of_nodup h.nodup, right_of_leFree⟩

/-- A histogram with one data point, which has an attribute. -/
def measured (key : List Char) : ResourceView where
  attributes := []
  scopes := [⟨"shop".toList, none, [⟨"latency".toList, "ms".toList, [],
    .histogram [⟨[(key, "eu".toList)], [.ofInt 5], [1, 0], 1, .ofInt 3⟩]⟩]⟩]

/-- An attribute `le` stands in front of the bound. -/
theorem not_right_of_le : ¬ ∀ (view : ResourceView) (opts : RenderOptions) (utf8 : Bool),
    Right view opts utf8 := by
  intro h
  have hnodup := (h (measured le) ⟨"UnderscoreEscapingWithSuffixes", true, true⟩ false).nodup
  have htwice : ¬ ∀ f ∈ familiesFrom (measured le)
      ⟨"UnderscoreEscapingWithSuffixes", true, true⟩ false,
      ∀ s ∈ f.samples, (s.labels.map Prod.fst).Nodup := by decide
  exact htwice hnodup

end Telemetry.Metrics.RustFamilies
