import Telemetry.Metrics.PythonFamilies

/-!
# When a Prometheus scrape of the Python SDK is well formed

A reader of the text takes two samples with the same name and the same labels for one, and expects
one block of samples under every name. The families of the collected data have different names, and
so have those of the health snapshot; but nothing keeps an instrument from a name that is translated
to one of the latter. Samples are the same when the data points they come from are translated to the
same name and the same labels, and a histogram takes three more names and the label `le`.

## Main definitions

* `Distinct` — no two samples have the same name and the same labels.
* `Row.Sound`, `Row.Meets` — a data point whose own samples differ; two of which some are the same.

## Main results

* `nodup_names_iff` — when every name occurs once.
* `wellFormed_scrape_iff` — **when a scrape is well formed**, beside the health metrics.
-/

namespace Telemetry.Metrics.PythonFamilies

open Lib
open PythonRender (Family Kind Sample formatValue)
open Propagation.Python (ord)

/-- The same labels, in whatever order. -/
def SameLabels (l l' : Labels) : Prop := ∀ k, l.get? k = l'.get? k

/-- The same labels but for `le`. -/
def SameButLe (l l' : Labels) : Prop := ∀ k, k ≠ le → l.get? k = l'.get? k

/-- Two samples are told apart by their names and labels. -/
def SameSeries (s t : Series) : Prop := s.1 = t.1 ∧ SameLabels s.2 t.2

/-- No two samples are the same. -/
def Distinct (series : List Series) : Prop := series.Pairwise fun s t => ¬ SameSeries s t

namespace Row

/-- The name of its family. -/
def name : Row → CodePoints
  | plain name _ => name
  | histogram name _ _ => name

/-- The buckets of a histogram have different bounds. -/
def Sound : Row → Prop
  | plain _ _ => True
  | histogram _ _ bounds => bounds.Nodup ∧ infinity ∉ bounds

/-- A sample is one of those of a histogram. -/
def IsSampleOf (name : CodePoints) (labels : Labels) (name' : CodePoints) (labels' : Labels)
    (bounds : List CodePoints) : Prop :=
  (name = name' ++ sumSuffix ∨ name = name' ++ countSuffix) ∧ SameLabels labels labels' ∨
    name = name' ++ bucketSuffix ∧
      ∃ bound ∈ bounds ++ [infinity], SameLabels labels (labels'.set le bound)

/-- Two data points have a sample in common. -/
def Meets : Row → Row → Prop
  | plain name labels, plain name' labels' => name = name' ∧ SameLabels labels labels'
  | plain name labels, histogram name' labels' bounds => IsSampleOf name labels name' labels' bounds
  | histogram name labels bounds, plain name' labels' => IsSampleOf name' labels' name labels bounds
  | histogram name labels _, histogram name' labels' _ => name = name' ∧ SameButLe labels labels'

end Row

variable {l l' : Labels} {b b' name name' : CodePoints}

theorem SameLabels.symm (h : SameLabels l l') : SameLabels l' l := fun k => (h k).symm

theorem SameSeries.symm {s t : Series} (h : SameSeries s t) : SameSeries t s :=
  ⟨h.1.symm, h.2.symm⟩

theorem sameLabels_set_iff : SameLabels (l.set le b) (l'.set le b') ↔ b = b' ∧ SameButLe l l' := by
  simp only [SameLabels, SameButLe, Dict.get?_set]
  constructor
  · intro h
    refine ⟨by simpa using h le, fun k hk => ?_⟩
    simpa [hk] using h k
  · rintro ⟨rfl, h⟩ k
    split_ifs with hk
    · rfl
    · exact h k hk

/-- The suffixes of a histogram's samples. -/
def histogramSuffixes : List CodePoints := [bucketSuffix, sumSuffix, countSuffix]

/-- A suffix is taken off in one way. -/
theorem append_suffix_inj {s s' : CodePoints} (hs : s ∈ histogramSuffixes)
    (hs' : s' ∈ histogramSuffixes) (h : name ++ s = name' ++ s') : name = name' ∧ s = s' := by
  have hall : ∀ s ∈ histogramSuffixes, ∀ s' ∈ histogramSuffixes, s <:+ s' → s = s' := by decide
  have heq : s = s' := by
    have hsuffix : s' <:+ name ++ s := h ▸ List.suffix_append name' s'
    obtain hle | hle := List.suffix_or_suffix_of_suffix (List.suffix_append name s) hsuffix
    · exact hall s hs s' hs' hle
    · exact (hall s' hs' s hs hle).symm
  subst heq
  exact ⟨List.append_cancel_right h, rfl⟩

theorem mem_series_plain {s : Series} : s ∈ (Row.plain name l).series ↔ s = (name, l) :=
  List.mem_singleton

theorem isSampleOf_iff {bounds : List CodePoints} :
    Row.IsSampleOf name l name' l' bounds ↔
      ∃ t ∈ (Row.histogram name' l' bounds).series, SameSeries (name, l) t := by
  simp only [Row.IsSampleOf, Row.series, SameSeries, List.mem_append (s := List.map _ _),
    List.mem_map, List.mem_cons, List.not_mem_nil, or_false]
  constructor
  · rintro (⟨rfl | rfl, hl⟩ | ⟨rfl, bound, hbound, hl⟩)
    · exact ⟨_, .inr (.inl rfl), rfl, hl⟩
    · exact ⟨_, .inr (.inr rfl), rfl, hl⟩
    · exact ⟨_, .inl ⟨bound, hbound, rfl⟩, rfl, hl⟩
  · rintro ⟨t, ⟨bound, hbound, rfl⟩ | rfl | rfl, hname, hl⟩
    · exact .inr ⟨hname, bound, hbound, hl⟩
    · exact .inl ⟨.inl hname, hl⟩
    · exact .inl ⟨.inr hname, hl⟩

/-- A sample of a histogram has a suffix, and the labels of the data point but for `le`. -/
theorem exists_of_mem_series {bounds : List CodePoints} {s : Series}
    (h : s ∈ (Row.histogram name l bounds).series) :
    ∃ suffix ∈ histogramSuffixes, s.1 = name ++ suffix ∧ SameButLe s.2 l := by
  rw [Row.series, List.mem_append] at h
  obtain h | h := h
  · obtain ⟨bound, -, rfl⟩ := List.mem_map.mp h
    refine ⟨bucketSuffix, by decide, rfl, fun k hk => ?_⟩
    rw [Dict.get?_set, if_neg hk]
  · obtain rfl | h := List.mem_cons.mp h
    · exact ⟨sumSuffix, by decide, rfl, fun _ _ => rfl⟩
    · obtain rfl := List.mem_singleton.mp h
      exact ⟨countSuffix, by decide, rfl, fun _ _ => rfl⟩

/-- **Two data points meet** if a sample of one is a sample of the other. -/
theorem meets_iff (r r' : Row) :
    r.Meets r' ↔ ∃ s ∈ r.series, ∃ t ∈ r'.series, SameSeries s t := by
  cases r with
  | plain name l =>
      cases r' with
      | plain name' l' => simp [Row.Meets, mem_series_plain, SameSeries]
      | histogram name' l' bounds => simp [Row.Meets, isSampleOf_iff, mem_series_plain]
  | histogram name l bounds =>
      cases r' with
      | plain name' l' =>
          rw [Row.Meets, isSampleOf_iff]
          constructor
          · rintro ⟨t, ht, hsame⟩
            exact ⟨t, ht, (name', l'), mem_series_plain.mpr rfl, hsame.symm⟩
          · rintro ⟨t, ht, s, hs, hsame⟩
            obtain rfl := mem_series_plain.mp hs
            exact ⟨t, ht, hsame.symm⟩
      | histogram name' l' bounds' =>
          constructor
          · rintro ⟨rfl, hl⟩
            refine ⟨(name ++ bucketSuffix, l.set le infinity), by simp [Row.series],
              (name ++ bucketSuffix, l'.set le infinity), by simp [Row.series], rfl, ?_⟩
            exact sameLabels_set_iff.mpr ⟨rfl, hl⟩
          · rintro ⟨s, hs, t, ht, hname, hsame⟩
            obtain ⟨suffix, hsuffix, hs, hsl⟩ := exists_of_mem_series hs
            obtain ⟨suffix', hsuffix', ht, htl⟩ := exists_of_mem_series ht
            rw [hs, ht] at hname
            refine ⟨(append_suffix_inj hsuffix hsuffix' hname).1, fun k hk => ?_⟩
            rw [← hsl k hk, hsame k, htl k hk]

/-- The buckets of one data point. -/
theorem distinct_buckets_iff {bounds : List CodePoints} :
    Distinct (bounds.map fun bound => (name ++ bucketSuffix, l.set le bound)) ↔ bounds.Nodup := by
  have hbound : ∀ b b', ¬ SameSeries (name ++ bucketSuffix, l.set le b)
      (name ++ bucketSuffix, l.set le b') ↔ b ≠ b' := by
    intro b b'
    have hrefl : SameButLe l l := fun _ _ => rfl
    simp [SameSeries, sameLabels_set_iff, hrefl]
  rw [Distinct, List.pairwise_map, List.Nodup]
  simp only [hbound]

/-- **The samples of one data point differ** if its bounds do. -/
theorem distinct_series_iff (r : Row) : Distinct r.series ↔ r.Sound := by
  cases r with
  | plain name l => simp [Distinct, Row.series, Row.Sound]
  | histogram name l bounds =>
      have hname : ∀ s ∈ histogramSuffixes, ∀ s' ∈ histogramSuffixes, s ≠ s' → ∀ l l' : Labels,
          ¬ SameSeries (name ++ s, l) (name ++ s', l') :=
        fun s hs s' hs' hne l l' hsame => hne (append_suffix_inj hs hs' hsame.1).2
      have hsum : bucketSuffix ≠ sumSuffix := by decide
      have hcount : bucketSuffix ≠ countSuffix := by decide
      have hothers : sumSuffix ≠ countSuffix := by decide
      have hnodup : (bounds ++ [infinity]).Nodup ↔ bounds.Nodup ∧ infinity ∉ bounds := by
        rw [List.nodup_append_comm]
        simp [and_comm]
      rw [Distinct, Row.series, List.pairwise_append, ← Distinct, distinct_buckets_iff, hnodup]
      refine and_iff_left ⟨?_, ?_⟩
      · simp [hname _ (by decide) _ (by decide) hothers]
      · intro s hs t ht
        obtain ⟨bound, -, rfl⟩ := List.mem_map.mp hs
        obtain rfl | ht := List.mem_cons.mp ht
        · exact hname _ (by decide) _ (by decide) hsum _ _
        · obtain rfl := List.mem_singleton.mp ht
          exact hname _ (by decide) _ (by decide) hcount _ _

/-- **When the samples of data points differ**: when those of each do, and no two data points
meet. -/
theorem distinct_flatMap_iff (rows : List Row) :
    Distinct (rows.flatMap Row.series) ↔
      (∀ r ∈ rows, r.Sound) ∧ rows.Pairwise fun r r' => ¬ r.Meets r' := by
  have hpair : (fun r r' : Row => ∀ s ∈ r.series, ∀ t ∈ r'.series, ¬ SameSeries s t) =
      fun r r' => ¬ r.Meets r' := by
    funext r r'
    rw [meets_iff]
    simp
  rw [Distinct, List.pairwise_flatMap, hpair]
  exact and_congr_left' (forall₂_congr fun r _ => distinct_series_iff r)

/-! ## The health snapshot -/

/-- The samples of the health snapshot. -/
def healthRows : List Row :=
  (perSignal.flatMap fun metric => signalNames.map fun signal =>
    .plain metric.name (signalLabels signal)) ++
    [.plain setupErrorName .empty, .plain receiptFailuresName .empty]

theorem name_healthFamily {snapshot : HealthSnapshot} {metric : HealthMetric} {f : Family}
    (h : healthFamily snapshot metric = .ok f) : f.name = metric.name := by
  obtain ⟨samples, -, h⟩ := bind_eq_ok_iff.mp h
  cases h
  rfl

theorem series_healthFamily {snapshot : HealthSnapshot} {metric : HealthMetric} {f : Family}
    (h : healthFamily snapshot metric = .ok f) :
    familySeries f = (signalNames.map fun signal =>
      Row.plain metric.name (signalLabels signal)).flatMap Row.series := by
  obtain ⟨samples, hsamples, h⟩ := bind_eq_ok_iff.mp h
  cases h
  have hone : ∀ (signal : CodePoints × SignalHealth) (s : Sample),
      (do let value ← metric.value signal.2; pure ⟨[], signalLabels signal.1, value⟩) =
        Except.ok (ε := ScrapeError) s →
      (metric.name ++ s.suffix, s.labels) = (metric.name, signalLabels signal.1) := by
    intro signal s hs
    obtain ⟨value, -, hs⟩ := bind_eq_ok_iff.mp hs
    cases hs
    rw [List.append_nil]
  have hmap := map_eq_of_mapM hone hsamples
  rw [familySeries, seriesOf, hmap]
  rfl

theorem healthFamilies_eq_ok {snapshot : HealthSnapshot} {health : List Family}
    (h : healthFamilies snapshot = .ok health) :
    health.map Family.name = healthMetricNames ∧
      health.flatMap familySeries = healthRows.flatMap Row.series := by
  obtain ⟨families, hfamilies, h⟩ := bind_eq_ok_iff.mp h
  obtain ⟨receiptFailures, -, h⟩ := bind_eq_ok_iff.mp h
  cases h
  have hnames := map_eq_of_mapM (fun metric f hf => name_healthFamily hf) hfamilies
  have hseries := map_eq_of_mapM (fun metric f hf => series_healthFamily hf) hfamilies
  constructor
  · rw [List.map_append, hnames]
    rfl
  · rw [List.flatMap_append, List.flatMap, hseries, healthRows, List.flatMap_append,
      List.flatMap_assoc]
    rfl

/-- The names of the health metrics, asked all at once: each question reads the texts anew. -/
theorem healthMetricNames_checked :
    (healthMetricNames.map (List.map ord)).Nodup ∧ targetInfoName ∉ healthMetricNames ∧
      ∀ name ∈ healthMetricNames, ∀ suffix ∈ histogramSuffixes, ¬ suffix <:+ name := by
  decide +kernel

theorem nodup_healthMetricNames : healthMetricNames.Nodup := healthMetricNames_checked.1.of_map

theorem targetInfoName_notMem : targetInfoName ∉ healthMetricNames := healthMetricNames_checked.2.1

/-- No histogram has a sample of such a name. -/
theorem not_suffix_healthMetricNames : ∀ name ∈ healthMetricNames, ∀ suffix ∈ histogramSuffixes,
    ¬ suffix <:+ name :=
  healthMetricNames_checked.2.2

theorem exists_plain_of_mem_healthRows {r : Row} (h : r ∈ healthRows) :
    ∃ name l, r = .plain name l ∧ name ∈ healthMetricNames := by
  rw [healthRows, List.mem_append] at h
  obtain h | h := h
  · obtain ⟨metric, hmetric, h⟩ := List.mem_flatMap.mp h
    obtain ⟨signal, -, rfl⟩ := List.mem_map.mp h
    exact ⟨_, _, rfl, List.mem_append_left _ (List.mem_map_of_mem hmetric)⟩
  · have hsetup : setupErrorName ∈ healthMetricNames := List.mem_append_right _ (by simp)
    have hreceipt : receiptFailuresName ∈ healthMetricNames := List.mem_append_right _ (by simp)
    obtain rfl | h := List.mem_cons.mp h
    · exact ⟨_, _, rfl, hsetup⟩
    · obtain rfl := List.mem_singleton.mp h
      exact ⟨_, _, rfl, hreceipt⟩

/-- The label tells the signal. -/
theorem signalLabels_inj {signal signal' : CodePoints}
    (h : SameLabels (signalLabels signal) (signalLabels signal')) : signal = signal' := by
  have hget := h (.ofString "signal")
  rw [signalLabels, signalLabels, Dict.get?_set, Dict.get?_set, if_pos rfl, if_pos rfl] at hget
  exact Option.some.inj hget

/-- **The samples of the snapshot differ**: by their names, or else by the signal. -/
theorem pairwise_healthRows : healthRows.Pairwise fun r r' => ¬ r.Meets r' := by
  have hnames := nodup_healthMetricNames
  rw [healthMetricNames, List.nodup_append] at hnames
  obtain ⟨hmetrics, hothers, hdisjoint⟩ := hnames
  have hsignals : signalNames.Nodup := by decide
  rw [healthRows, List.pairwise_append, List.pairwise_flatMap]
  refine ⟨⟨fun metric _ => ?_, ?_⟩, ?_, ?_⟩
  · rw [List.pairwise_map]
    exact hsignals.imp fun hne hmeets => hne (signalLabels_inj hmeets.2)
  · refine (List.pairwise_map.mp hmetrics).imp fun hne r hr r' hr' hmeets => hne ?_
    obtain ⟨signal, -, rfl⟩ := List.mem_map.mp hr
    obtain ⟨signal', -, rfl⟩ := List.mem_map.mp hr'
    exact hmeets.1
  · exact List.pairwise_pair.mpr fun hmeets => List.pairwise_pair.mp hothers hmeets.1
  · intro r hr r' hr' hmeets
    obtain ⟨metric, hmetric, hr⟩ := List.mem_flatMap.mp hr
    obtain ⟨signal, -, rfl⟩ := List.mem_map.mp hr
    have hname := hdisjoint _ (List.mem_map_of_mem hmetric)
    obtain rfl | hr' := List.mem_cons.mp hr'
    · exact hname setupErrorName (by simp) hmeets.1
    · obtain rfl := List.mem_singleton.mp hr'
      exact hname receiptFailuresName (by simp) hmeets.1

/-- A data point of another family has no sample in common with the snapshot. -/
theorem not_meets_of_mem_healthRows {r r' : Row} (hr : r.name ∉ healthMetricNames)
    (hr' : r' ∈ healthRows) : ¬ r.Meets r' := by
  obtain ⟨name', l', rfl, hname'⟩ := exists_plain_of_mem_healthRows hr'
  cases r with
  | plain name l =>
      rintro ⟨rfl, -⟩
      exact hr hname'
  | histogram name l bounds =>
      have hsuffix := not_suffix_healthMetricNames name' hname'
      rintro (⟨rfl | rfl, -⟩ | ⟨rfl, -⟩)
      · exact hsuffix sumSuffix (by decide) (List.suffix_append _ _)
      · exact hsuffix countSuffix (by decide) (List.suffix_append _ _)
      · exact hsuffix bucketSuffix (by decide) (List.suffix_append _ _)

/-! ## The whole scrape -/

section

variable {V : Type} {str : V → CodePoints} {opts : RenderOptions} {data : MetricsData V}
  {snapshot : HealthSnapshot} {families : List Family} {p : PrometheusConfig} {utf8 : Bool}

/-- A data point has the name of an instrument, or that of the resources. -/
theorem name_of_mem_rows {r : Row} (h : r ∈ rows str opts data) :
    r.name ∈ (instruments opts data).map Instrument.name ∨ r.name = targetInfoName := by
  rw [rows, List.mem_append] at h
  obtain h | h := h
  · obtain ⟨i, hi, hr⟩ := List.mem_flatMap.mp h
    have hname : r.name = i.name := by
      rw [Instrument.rows] at hr
      cases hdata : i.data <;> rw [hdata] at hr
      case unsupported => cases hr
      all_goals
        obtain ⟨point, -, rfl⟩ := List.mem_map.mp hr
        rfl
    rw [hname]
    exact .inl (List.mem_map_of_mem (List.mem_of_mem_filter hi))
  · rw [infoRows] at h
    split_ifs at h
    · cases h
    · obtain ⟨s, -, rfl⟩ := List.mem_map.mp h
      exact .inr rfl

theorem scrape_eq_ok (h : scrape str p utf8 data snapshot = .ok families) :
    ∃ listed health, familiesFrom str (scrapeOptions p utf8) data = .ok listed ∧
      healthFamilies snapshot = .ok health ∧ families = listed ++ health := by
  obtain ⟨listed, hlisted, h⟩ := bind_eq_ok_iff.mp h
  obtain ⟨health, hhealth, h⟩ := bind_eq_ok_iff.mp h
  cases h
  exact ⟨listed, health, hlisted, hhealth, rfl⟩

/-- **When every name occurs once**: when no instrument is translated to the name of a health
metric. -/
theorem nodup_names_iff (h : scrape str p utf8 data snapshot = .ok families) :
    (families.map Family.name).Nodup ↔
      ∀ i ∈ instruments (scrapeOptions p utf8) data, i.name ∉ healthMetricNames := by
  obtain ⟨listed, health, hlisted, hhealth, rfl⟩ := scrape_eq_ok h
  rw [List.map_append, (healthFamilies_eq_ok hhealth).1, List.nodup_append]
  constructor
  · rintro ⟨-, -, hdisjoint⟩ i hi hmem
    have hlist := (mem_names_familiesFrom_iff hlisted).mpr (.inl (List.mem_map_of_mem hi))
    exact hdisjoint _ hlist _ hmem rfl
  · intro hfree
    refine ⟨nodup_familiesFrom hlisted, nodup_healthMetricNames, ?_⟩
    rintro name hname _ hmem rfl
    obtain hname | ⟨-, rfl⟩ := (mem_names_familiesFrom_iff hlisted).mp hname
    · obtain ⟨i, hi, rfl⟩ := List.mem_map.mp hname
      exact hfree i hi hmem
    · exact targetInfoName_notMem hmem

/-- **When no two samples are the same**, beside those of the health metrics. -/
theorem distinct_scrape_iff (h : scrape str p utf8 data snapshot = .ok families)
    (hfree : ∀ i ∈ instruments (scrapeOptions p utf8) data, i.name ∉ healthMetricNames) :
    Distinct (families.flatMap familySeries) ↔
      (∀ r ∈ rows str (scrapeOptions p utf8) data, r.Sound) ∧
        (rows str (scrapeOptions p utf8) data).Pairwise fun r r' => ¬ r.Meets r' := by
  obtain ⟨listed, health, hlisted, hhealth, rfl⟩ := scrape_eq_ok h
  have hsound : ∀ r ∈ healthRows, r.Sound := by
    intro r hr
    obtain ⟨name, l, rfl, -⟩ := exists_plain_of_mem_healthRows hr
    trivial
  have happart : ∀ r ∈ rows str (scrapeOptions p utf8) data, ∀ r' ∈ healthRows, ¬ r.Meets r' := by
    intro r hr r' hr'
    refine not_meets_of_mem_healthRows (fun hname => ?_) hr'
    obtain hi | htarget := name_of_mem_rows hr
    · obtain ⟨i, hi, heq⟩ := List.mem_map.mp hi
      exact hfree i hi (heq ▸ hname)
    · exact targetInfoName_notMem (htarget ▸ hname)
  have hperm := (series_familiesFrom hlisted).append_right (healthRows.flatMap Row.series)
  rw [List.flatMap_append, (healthFamilies_eq_ok hhealth).2, Distinct,
    hperm.pairwise_iff fun hst hts => hst hts.symm, ← List.flatMap_append, ← Distinct,
    distinct_flatMap_iff, List.pairwise_append, List.forall_mem_append, and_iff_left hsound,
    and_iff_left (And.intro pairwise_healthRows happart)]

/-- **When a scrape is well formed**, if no instrument is translated to the name of a health metric.
Every name occurs once; and no two samples are the same just when the buckets of every data point
have different bounds, and no two data points have a sample in common. -/
theorem wellFormed_scrape_iff (h : scrape str p utf8 data snapshot = .ok families)
    (hfree : ∀ i ∈ instruments (scrapeOptions p utf8) data, i.name ∉ healthMetricNames) :
    (families.map Family.name).Nodup ∧
      (Distinct (families.flatMap familySeries) ↔
        (∀ r ∈ rows str (scrapeOptions p utf8) data, r.Sound) ∧
          (rows str (scrapeOptions p utf8) data).Pairwise fun r r' => ¬ r.Meets r') :=
  ⟨(nodup_names_iff h).mpr hfree, distinct_scrape_iff h hfree⟩

end

/-! ## Two scrapes -/

/-- Nothing has happened. -/
def idleSignal : SignalHealth :=
  ⟨.int 0, .int 0, .int 0, .int 0, .int 0, .int 0, .ofString "closed", .int 0⟩

def idle : HealthSnapshot := ⟨idleSignal, idleSignal, idleSignal, none, .int 0⟩

/-- Instruments of one scope. -/
def ofMetrics (metrics : List (Metric CodePoints)) : MetricsData CodePoints :=
  some [⟨.empty, [⟨⟨.ofString "jobs", none⟩, metrics⟩]⟩]

/-- Names without suffixes, and nothing about scopes and resources. -/
def plainNames : PrometheusConfig := ⟨.underscoreEscapingWithoutSuffixes, false, false⟩

/-- One gauge with two queues. -/
def twoQueues : MetricsData CodePoints :=
  ofMetrics [⟨.ofString "queue.size", none, none, .gauge
    [⟨Dict.empty.set (.ofString "queue") (.ofString "mail"), .int 1⟩,
      ⟨Dict.empty.set (.ofString "queue") (.ofString "push"), .int 2⟩]⟩]

theorem wellFormed_scrape_twoQueues : ∃ families,
    scrape id plainNames false twoQueues idle = .ok families ∧ (families.map Family.name).Nodup ∧
      Distinct (families.flatMap familySeries) := by
  obtain ⟨⟨families, h⟩, hfree, hrows⟩ : Returns (scrape id plainNames false twoQueues idle) ∧
      (∀ i ∈ instruments (scrapeOptions plainNames false) twoQueues, i.name ∉ healthMetricNames) ∧
      rows id (scrapeOptions plainNames false) twoQueues =
        [.plain (.ofString "queue_size") (Dict.empty.set (.ofString "queue") (.ofString "mail")),
          .plain (.ofString "queue_size")
            (Dict.empty.set (.ofString "queue") (.ofString "push"))] := by
    decide +kernel
  obtain ⟨hnames, hdistinct⟩ := wellFormed_scrape_iff h hfree
  refine ⟨families, h, hnames, hdistinct.mpr ?_⟩
  rw [hrows]
  refine ⟨by simp [Row.Sound], List.pairwise_pair.mpr fun hmeets => ?_⟩
  have hqueue := hmeets.2 (.ofString "queue")
  revert hqueue
  decide +kernel

/-- The attributes of the data points. -/
def pointAttributes {V : Type} : InstrumentData V → List (Dict CodePoints V)
  | .sum _ points | .gauge points => points.map NumberPoint.attributes
  | .histogram points => points.map HistogramPoint.attributes
  | .unsupported => []

/-- No two data points of one instrument have the same attributes. -/
def PointsDiffer {V : Type} (data : MetricsData V) : Prop :=
  ∀ resource ∈ data.getD [], ∀ sm ∈ resource.scopeMetrics, ∀ metric ∈ sm.metrics,
    (pointAttributes metric.data).Pairwise fun a b => ¬ ∀ k, a.get? k = b.get? k

/-- Two instruments of one name and one type. -/
def sameName : MetricsData CodePoints :=
  ofMetrics [⟨.ofString "dup", none, none, .gauge [⟨.empty, .int 1⟩]⟩,
    ⟨.ofString "dup", none, none, .sum false [⟨.empty, .int 2⟩]⟩]

/-- An instrument that is translated to the name of a health metric. -/
def healthName : MetricsData CodePoints :=
  ofMetrics [⟨.ofString "provide.telemetry.circuit_state", none, none, .gauge [⟨.empty, .int 1⟩]⟩]

theorem not_wellFormed_scrape :
    (PointsDiffer sameName ∧ ∃ families,
      scrape id plainNames false sameName idle = .ok families ∧
        ¬ Distinct (families.flatMap familySeries)) ∧
    PointsDiffer healthName ∧ ∃ families,
      scrape id plainNames false healthName idle = .ok families ∧
        ¬ (families.map Family.name).Nodup := by
  obtain ⟨⟨families, h⟩, hfree, hrows⟩ : Returns (scrape id plainNames false sameName idle) ∧
      (∀ i ∈ instruments (scrapeOptions plainNames false) sameName, i.name ∉ healthMetricNames) ∧
      rows id (scrapeOptions plainNames false) sameName =
        [.plain (.ofString "dup") .empty, .plain (.ofString "dup") .empty] := by
    decide +kernel
  obtain ⟨⟨families', h'⟩, hclash⟩ : Returns (scrape id plainNames false healthName idle) ∧
      ¬ ∀ i ∈ instruments (scrapeOptions plainNames false) healthName,
        i.name ∉ healthMetricNames := by
    decide +kernel
  refine ⟨⟨?_, families, h, ?_⟩, ?_, families', h', (nodup_names_iff h').not.mpr hclash⟩
  · simp [PointsDiffer, sameName, ofMetrics, pointAttributes]
  · rw [distinct_scrape_iff h hfree, hrows]
    rintro ⟨-, happart⟩
    exact List.pairwise_pair.mp happart ⟨rfl, fun _ => rfl⟩
  · simp [PointsDiffer, healthName, ofMetrics, pointAttributes]

end Telemetry.Metrics.PythonFamilies
