import Fusillade.Stats.Statsd

/-! The payload of the OTLP exporter: its data points with their names and labels, and the
figures of the report that they stand for. The order of the maps is a parameter. -/
namespace Fusillade.Stats.Otlp

open FiniteMap Statsd

/-- The labels are a map of one entry where there are any. -/
structure MetricData where
  name : Text
  value : ℚ
  labels : Option (String × String)
  deriving DecidableEq

structure ResourceData where
  serviceName : String
  serviceVersion : String
  deriving DecidableEq

structure OtlpPayload where
  resource : ResourceData
  metrics : List MetricData
  deriving DecidableEq

def plain (name : String) (value : ℚ) : MetricData := ⟨name.toList,value,none⟩

def typed (type : String) (name : Text) (value : ℚ) : MetricData := ⟨name,value,some ("metric_type",type)⟩

/-- The name and the suffix, with a dot between them. -/
def suffixed (name suffix : String) : Text := name.toList ++ '.' :: suffix.toList

section

variable (version : String) {report : ReportStats} (order : Listing report)

def requestMetrics (name : String) (r : RequestReport) : List MetricData :=
  let labels := some ("request.name",name)
  [⟨"fusillade.http.request.count".toList,asDouble r.totalRequests,labels⟩,
    ⟨"fusillade.http.request.p95_ms".toList,r.p95LatencyMs,labels⟩]

def histogramMetrics (name : String) (h : HistogramReport) : List MetricData :=
  [("p95",h.p95),("p99",h.p99),("avg",h.avg),("min",h.min),("max",h.max),("count",asDouble h.count)].map
    fun (suffix,value) => typed "histogram" (suffixed name suffix) value

def errorCount : Nat := (order.errors.map Prod.snd).foldl wrappingAdd 0

def buildPayload : OtlpPayload where
  resource := ⟨"fusillade",version⟩
  metrics :=
    [plain "fusillade.http.requests.total" (asDouble report.totalRequests),
      plain "fusillade.http.latency.avg_ms" report.avgLatencyMs,
      plain "fusillade.http.latency.p95_ms" report.p95LatencyMs,
      plain "fusillade.http.latency.p99_ms" report.p99LatencyMs,
      plain "fusillade.http.errors.total" (asDouble (errorCount order))] ++
    (order.groupedRequests.flatMap fun (name,r) => requestMetrics name r) ++
    (order.histograms.flatMap fun (name,h) => histogramMetrics name h) ++
    (order.counters.map fun (name,value) => typed "counter" name.toList value) ++
    (order.gauges.map fun (name,value) => typed "gauge" name.toList value) ++
    (order.rates.map fun (name,r) => typed "rate" name.toList r.rate)

end

/-- The parts of a histogram that are exported. -/
inductive Part where
  | p95
  | p99
  | avg
  | min
  | max
  | count
  deriving DecidableEq

def Part.suffix : Part → String
  | p95 => "p95"
  | p99 => "p99"
  | avg => "avg"
  | min => "min"
  | max => "max"
  | count => "count"

def Part.of (h : HistogramReport) : Part → ℚ
  | p95 => h.p95
  | p99 => h.p99
  | avg => h.avg
  | min => h.min
  | max => h.max
  | count => asDouble h.count

def Part.all : List Part := [p95,p99,avg,min,max,count]

/-- The figures of a run as a whole. -/
inductive Overall where
  | requests
  | avg
  | p95
  | p99
  | errors
  deriving DecidableEq

def Overall.name : Overall → String
  | requests => "fusillade.http.requests.total"
  | avg => "fusillade.http.latency.avg_ms"
  | p95 => "fusillade.http.latency.p95_ms"
  | p99 => "fusillade.http.latency.p99_ms"
  | errors => "fusillade.http.errors.total"

def Overall.all : List Overall := [requests,avg,p95,p99,errors]

/-- What a data point can be about. -/
inductive Figure where
  | overall (figure : Overall)
  | requestCount (name : String)
  | requestP95 (name : String)
  | histogram (name : String) (part : Part)
  | counter (name : String)
  | gauge (name : String)
  | rate (name : String)
  deriving DecidableEq

/-- The name and the labels of a data point, by which a collector knows its series. -/
def MetricData.series (m : MetricData) : Text × Option (String × String) := (m.name,m.labels)

def Figure.title : Figure → Text
  | overall figure => figure.name.toList
  | requestCount _ => "fusillade.http.request.count".toList
  | requestP95 _ => "fusillade.http.request.p95_ms".toList
  | histogram name part => suffixed name part.suffix
  | counter name | gauge name | rate name => name.toList

def Figure.labels : Figure → Option (String × String)
  | overall _ => none
  | requestCount name | requestP95 name => some ("request.name",name)
  | histogram _ _ => some ("metric_type","histogram")
  | counter _ => some ("metric_type","counter")
  | gauge _ => some ("metric_type","gauge")
  | rate _ => some ("metric_type","rate")

def Figure.series (figure : Figure) : Text × Option (String × String) := (figure.title,figure.labels)

variable {report : ReportStats} (order : Listing report)

def Overall.of : Overall → ℚ
  | requests => asDouble report.totalRequests
  | avg => report.avgLatencyMs
  | p95 => report.p95LatencyMs
  | p99 => report.p99LatencyMs
  | errors => asDouble (errorCount order)

/-- The figure as the report has it. -/
def Figure.value : Figure → Option ℚ
  | overall figure => some (figure.of order)
  | requestCount name => (report.groupedRequests.lookup name).map fun r => asDouble r.totalRequests
  | requestP95 name => (report.groupedRequests.lookup name).map (·.p95LatencyMs)
  | histogram name part => (report.histograms.lookup name).map fun h => part.of h
  | counter name => report.counters.lookup name
  | gauge name => report.gauges.lookup name
  | rate name => (report.rates.lookup name).map (·.rate)

/-- The figures that the report has, with their values, in the order of the payload. -/
def figures : List (Figure × ℚ) :=
  (Overall.all.map fun figure => (.overall figure,figure.of order)) ++
  (order.groupedRequests.flatMap fun (name,r) =>
    [(.requestCount name,asDouble r.totalRequests),(.requestP95 name,r.p95LatencyMs)]) ++
  (order.histograms.flatMap fun (name,h) => Part.all.map fun part => (.histogram name part,part.of h)) ++
  (order.counters.map fun (name,value) => (.counter name,value)) ++
  (order.gauges.map fun (name,value) => (.gauge name,value)) ++
  (order.rates.map fun (name,r) => (.rate name,r.rate))

def data (figure : Figure × ℚ) : MetricData := ⟨figure.1.title,figure.2,figure.1.labels⟩

theorem metrics_eq (version : String) :
    (buildPayload version order).metrics = (figures order).map data := by
  simp only [buildPayload,figures,List.map_append,List.map_flatMap,List.map_map]
  rfl

theorem mem_figures {figure : Figure} {value : ℚ} :
    (figure,value) ∈ figures order ↔ figure.value order = some value := by
  cases figure with
  | overall figure => cases figure <;> simp [figures,Figure.value,Overall.all,eq_comm]
  | requestCount name | requestP95 name =>
    simp [figures,Figure.value,order.groupedRequests_lists.lookup,eq_comm]
  | histogram name part => cases part <;> simp [figures,Figure.value,Part.all,order.histograms_lists.lookup,eq_comm]
  | counter name => simp [figures,Figure.value,order.counters_lists.lookup]
  | gauge name => simp [figures,Figure.value,order.gauges_lists.lookup]
  | rate name => simp [figures,Figure.value,order.rates_lists.lookup,eq_comm]

theorem nodup_flatMap_keys {ν : Type} {entries : List (String × ν)} (parts : String → List Figure)
    (distinct : (entries.map Prod.fst).Nodup) (each : ∀ name, (parts name).Nodup)
    (apart : ∀ a b figure, figure ∈ parts a → figure ∈ parts b → a = b) :
    (entries.flatMap fun entry => parts entry.1).Nodup := by
  rw [List.nodup_flatMap]
  refine ⟨fun entry _ => each entry.1,?_⟩
  refine (List.pairwise_map.mp distinct).imp fun different => ?_
  exact fun figure inA inB => different (apart _ _ figure inA inB)

theorem figures_nodup : ((figures order).map Prod.fst).Nodup := by
  have keys : (figures order).map Prod.fst =
      Overall.all.map .overall ++
      order.groupedRequests.flatMap (fun entry => [.requestCount entry.1,.requestP95 entry.1]) ++
      order.histograms.flatMap (fun entry => Part.all.map (.histogram entry.1)) ++
      (order.counters.map Prod.fst).map .counter ++ (order.gauges.map Prod.fst).map .gauge ++
      (order.rates.map Prod.fst).map .rate := by
    simp only [figures,List.map_append,List.map_flatMap,List.map_map]
    rfl
  have requests := nodup_flatMap_keys (fun name => [.requestCount name,.requestP95 name])
    order.groupedRequests_lists.nodup (by simp) (by simp)
  have histograms := nodup_flatMap_keys (fun name => Part.all.map (.histogram name))
    order.histograms_lists.nodup (fun name => by simp [Part.all]) (by simp; tauto)
  have counters := order.counters_lists.nodup.map fun _ _ => Figure.counter.inj
  have gauges := order.gauges_lists.nodup.map fun _ _ => Figure.gauge.inj
  have rates := order.rates_lists.nodup.map fun _ _ => Figure.rate.inj
  rw [keys]
  simp only [List.nodup_append]
  refine ⟨⟨⟨⟨⟨by decide,requests,?_⟩,histograms,?_⟩,counters,?_⟩,gauges,?_⟩,rates,?_⟩
  all_goals
    intro a inA b inB same
    subst same
    simp only [List.mem_append,List.mem_map,List.mem_flatMap,List.mem_cons,List.not_mem_nil,or_false] at inA inB
    grind

theorem Part.suffix_injective : Function.Injective Part.suffix := by
  intro a b
  cases a <;> cases b <;> decide

theorem Overall.name_injective : Function.Injective Overall.name := by
  intro a b
  cases a <;> cases b <;> decide

theorem suffixed_injective {name other : String} {part rest : Part}
    (same : suffixed name part.suffix = suffixed other rest.suffix) : name = other ∧ part = rest := by
  have free (part : Part) : '.' ∉ part.suffix.toList := by cases part <;> decide
  obtain ⟨names,parts⟩ := (Separators.last_separator (free part) (free rest)).mp same
  exact ⟨String.toList_injective names,Part.suffix_injective (String.toList_injective parts)⟩

/-- Whatever the names of the metrics, no two figures have the same series. -/
theorem series_injective : Function.Injective Figure.series := by
  intro a b same
  obtain ⟨names,labels⟩ := Prod.ext_iff.mp same
  clear same
  cases a <;> cases b
  -- the labels tell the figures apart, except the two of a request
  all_goals try (simp [Figure.series,Figure.labels] at labels; done)
  case requestCount.requestP95 | requestP95.requestCount =>
    exact absurd (String.toList_injective names) (by decide)
  case overall.overall => exact congrArg _ (Overall.name_injective (String.toList_injective names))
  case requestCount.requestCount => exact congrArg _ (congrArg Prod.snd (Option.some.inj labels))
  case requestP95.requestP95 => exact congrArg _ (congrArg Prod.snd (Option.some.inj labels))
  case histogram.histogram =>
    obtain ⟨rfl,rfl⟩ := suffixed_injective names
    rfl
  case counter.counter | gauge.gauge | rate.rate => exact congrArg _ (String.toList_injective names)

@[simp] theorem data_series (figure : Figure × ℚ) : (data figure).series = figure.1.series := rfl

theorem figures_at (figure : Figure) : (figures order).filter (·.1 = figure) =
    (figure.value order).toList.map fun value => (figure,value) := by
  have once := (figures_nodup order).of_map Prod.fst |>.filter fun entry => entry.1 = figure
  cases value : figure.value order with
  | none =>
    simp only [Option.toList_none,List.map_nil,List.filter_eq_nil_iff,decide_eq_true_eq]
    rintro ⟨_,_⟩ listed rfl
    simp [(mem_figures order).mp listed] at value
  | some value =>
    refine List.perm_singleton.mp ((List.perm_ext_iff_of_nodup once (List.nodup_singleton _)).mpr ?_)
    rintro ⟨other,figureValue⟩
    simp only [List.mem_filter,mem_figures,decide_eq_true_eq,List.mem_singleton,Prod.mk.injEq]
    grind

/-- Whatever the order of the maps, the payload has exactly one data point for each figure that the
report has and none for any other: no name that a script chooses brings two figures into one
series. -/
theorem payload_figures (version : String) (figure : Figure) :
    (buildPayload version order).metrics.filter (·.series = figure.series) =
      (figure.value order).toList.map fun value => data (figure,value) := by
  have told : (figures order).filter ((fun m : MetricData => m.series = figure.series) ∘ data) =
      (figures order).filter (·.1 = figure) := by
    refine List.filter_congr fun entry _ => ?_
    simp [series_injective.eq_iff]
  rw [metrics_eq,List.filter_map,told,figures_at,List.map_map]
  rfl

end Fusillade.Stats.Otlp
