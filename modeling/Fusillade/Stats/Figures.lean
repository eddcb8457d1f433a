import Fusillade.Stats.FailureRate

/-! What the built-in criteria read of an aggregator: six figures, which add up over the
metrics that it was fed. The criteria cannot tell equal figures apart. -/
namespace Fusillade.Stats

open FiniteMap

/-- What the built-in criteria read of an aggregator. -/
@[ext] structure Figures where
  count : Nat
  total : Duration
  low : Option Duration
  high : Duration
  histogram : Histogram
  errors : Nat

namespace Figures

instance : Zero Figures := ⟨0,0,none,0,0,0⟩

instance : Add Figures where
  add a b := ⟨a.count + b.count,a.total + b.total,a.low.merge min b.low,max a.high b.high,
    a.histogram + b.histogram,a.errors + b.errors⟩

@[simp] theorem zero_high : (0 : Figures).high = 0 := rfl
@[simp] theorem zero_count : (0 : Figures).count = 0 := rfl
@[simp] theorem zero_errors : (0 : Figures).errors = 0 := rfl
@[simp] theorem add_high (a b : Figures) : (a + b).high = max a.high b.high := rfl
@[simp] theorem add_count (a b : Figures) : (a + b).count = a.count + b.count := rfl
@[simp] theorem add_errors (a b : Figures) : (a + b).errors = a.errors + b.errors := rfl

instance : AddCommMonoid Figures where
  add_assoc a b c := Figures.ext (Nat.add_assoc ..) (Nat.add_assoc ..)
    ((Option.associative_merge min).assoc ..) (Nat.max_assoc ..) (Multiset.add_assoc ..)
    (Nat.add_assoc ..)
  add_comm a b := Figures.ext (Nat.add_comm ..) (Nat.add_comm ..)
    ((Option.commutative_merge min).comm ..) (Nat.max_comm ..) (Multiset.add_comm ..)
    (Nat.add_comm ..)
  zero_add a := Figures.ext (Nat.zero_add _) (Nat.zero_add _) Option.merge_none_left
    (Nat.zero_max _) (Multiset.zero_add _) (Nat.zero_add _)
  add_zero a := Figures.ext (Nat.add_zero _) (Nat.add_zero _) Option.merge_none_right
    (Nat.max_zero _) (Multiset.add_zero _) (Nat.add_zero _)
  nsmul := nsmulRec

/-- The criteria cannot tell the figures apart: errors only show over a count. -/
structure Alike (a b : Figures) : Prop where
  count : a.count = b.count
  total : a.total = b.total
  low : a.low = b.low
  high : a.high = b.high
  histogram : a.histogram = b.histogram
  errors : a.count ≠ 0 → a.errors = b.errors

end Figures

def RequestStats.figures (s : RequestStats) : Figures :=
  ⟨s.totalRequests,s.totalDuration,s.minDuration,s.maxDuration,s.histogram,s.errorCount⟩

def Summary.figures (s : Summary) : Figures :=
  ⟨s.totalRequests,s.totalDuration,s.minDuration,s.maxDuration,s.histogram,sumValues s.errors⟩

def StatsAggregator.figures (a : StatsAggregator) : Figures := a.summary.figures

/-- Criteria on the built-in metrics only. -/
def OnHttp (criteria : Criteria) : Prop :=
  ∀ entry ∈ criteria, entry.1 = "http_req_duration" ∨ entry.1 = "http_req_failed"

theorem actualValue_alike (reader : HistogramReader) {a b : StatsAggregator}
    (alike : a.figures.Alike b.figures) {metricName : String}
    (builtIn : metricName = "http_req_duration" ∨ metricName = "http_req_failed")
    (checkType : String) :
    actualValue (a.toReport reader) metricName checkType =
      actualValue (b.toReport reader) metricName checkType := by
  have total : a.totalRequests = b.totalRequests := alike.count
  have duration : a.totalDuration = b.totalDuration := alike.total
  have low : a.minDuration = b.minDuration := alike.low
  have high : a.maxDuration = b.maxDuration := alike.high
  have histogram : a.histogram = b.histogram := alike.histogram
  have rate : failedRate (a.toReport reader) = failedRate (b.toReport reader) := by
    have errors : a.totalRequests ≠ 0 →
      (a.toReport reader).totalErrors = (b.toReport reader).totalErrors := alike.errors
    unfold failedRate
    change (if a.totalRequests > 0 then (_ : ℚ) / a.totalRequests else 0) =
      if b.totalRequests > 0 then (_ : ℚ) / b.totalRequests else 0
    rw [← total]
    split
    next some => rw [errors (by omega)]
    next => rfl
  have same (known : Known) (isBuiltIn : known = .duration ∨ known = .failed)
      (statistic : Statistic) :
      handled (a.toReport reader) known statistic = handled (b.toReport reader) known statistic := by
    rcases isBuiltIn with rfl | rfl
    · cases statistic <;>
        simp [handled,StatsAggregator.toReport,total,duration,low,high,histogram]
    · cases statistic <;> simp [handled,rate]
  unfold actualValue handledStatistic
  rcases builtIn with rfl | rfl
  · simp [lookupMetric,same]
  · simp [lookupMetric,same]

/-- Equal figures, equal failures. -/
theorem validateThresholds_alike (reader : HistogramReader) {a b : StatsAggregator}
    (alike : a.figures.Alike b.figures) {criteria : Criteria} (onHttp : OnHttp criteria) :
    a.validateThresholds reader criteria = b.validateThresholds reader criteria := by
  apply List.flatMap_congr
  intro entry member
  apply List.filterMap_congr
  intro threshold _
  have same (checkType : String) : actualF64 (a.toReport reader) entry.1 checkType =
      actualF64 (b.toReport reader) entry.1 checkType :=
    congrArg Binary64.nearest (actualValue_alike reader alike (onHttp entry member) checkType)
  simp only [thresholdFailure,same]

theorem RequestStats.figures_combine (a b : RequestStats) :
    (a.combine b).figures = a.figures + b.figures := rfl

theorem Summary.figures_combine (a b : Summary) :
    (a.combine b).figures = a.figures + b.figures :=
  Figures.ext rfl rfl rfl rfl rfl (sumValues_mergeWith a.errors b.errors)

@[simp] theorem Summary.figures_empty : Summary.empty.figures = 0 :=
  Figures.ext rfl rfl rfl rfl rfl (sumValues_empty (κ := String))

/-- An aggregate of errors alone. -/
def Figures.ofErrors (n : Nat) : Figures := ⟨0,0,none,0,0,n⟩

theorem Figures.alike_ofErrors {figures : Figures} {n : Nat} (unseen : figures.count = 0 ∨ n = 0) :
    figures.Alike (figures + .ofErrors n) where
  count := rfl
  total := rfl
  low := Option.merge_none_right.symm
  high := (Nat.max_zero _).symm
  histogram := (Multiset.add_zero _).symm
  errors := by
    intro some
    rcases unseen with none | rfl
    · exact absurd none some
    · rfl

/-- A sum is zero in a figure that only grows when all its terms are. -/
theorem figure_sum_eq_zero {f : Figures → Nat} (zero : f 0 = 0)
    (add : ∀ a b, f (a + b) = 0 ↔ f a = 0 ∧ f b = 0) (figures : List Figures) :
    f figures.sum = 0 ↔ ∀ x ∈ figures, f x = 0 := by
  induction figures with
  | nil => simpa using zero
  | cons x rest ih => rw [List.sum_cons,add,ih,List.forall_mem_cons]

section

variable (bucketOf : Nat → Option Nat)

/-- The figures of one request. -/
def requestFigures (timings : RequestTimings) (error : Option String) : Figures :=
  (RequestStats.new.record bucketOf timings error).figures

/-- What a metric adds to the global counters, failed iterations apart. -/
def countedFigures : Metric → Figures
  | .request name timings _ error _ => if isIteration name then 0 else requestFigures bucketOf timings error
  | _ => 0

theorem weight_figures (flag : Bool) (metric : Metric) :
    (StatsAggregator.weight bucketOf flag metric).figures =
      countedFigures bucketOf metric + .ofErrors (if metric.failedIteration then 1 else 0) := by
  cases metric with
  | request name timings status error tags =>
    have globally : (StatsAggregator.globalWeight bucketOf name timings status error).figures =
        countedFigures bucketOf (.request name timings status error tags) := by
      change _ = if isIteration name then 0 else requestFigures bucketOf timings error
      unfold StatsAggregator.globalWeight
      split
      · exact Summary.figures_empty
      · exact Figures.ext rfl rfl rfl rfl rfl (StatsAggregator.countError_sum error)
    have failed : (StatsAggregator.iterationWeight name error).figures =
        .ofErrors (if (Metric.request name timings status error tags).failedIteration then 1 else 0) := by
      change _ = Figures.ofErrors
        (if isIteration name && error.isSome && !isIterationTotal name then 1 else 0)
      unfold StatsAggregator.iterationWeight
      split
      next primary =>
        rw [Bool.and_eq_true] at primary
        refine Figures.ext rfl rfl rfl rfl rfl ((StatsAggregator.countError_sum error).trans ?_)
        simp [primary.1,primary.2,Figures.ofErrors]
      next other =>
        have none : ¬(isIteration name && error.isSome && !isIterationTotal name) = true := by
          simp only [Bool.and_eq_true] at other ⊢
          tauto
        rw [if_neg none]
        exact Summary.figures_empty
    have endpoint : (StatsAggregator.endpointWeight bucketOf flag name timings error tags).figures
        = 0 := by
      unfold StatsAggregator.endpointWeight
      split
      · exact Summary.figures_empty
      · exact Figures.ext rfl rfl rfl rfl rfl (sumValues_empty (κ := String))
    rw [StatsAggregator.weight_request,Summary.figures_combine,Summary.figures_combine,globally,
      failed,endpoint,add_zero]
  | _ => exact Figures.ext rfl rfl rfl rfl rfl (sumValues_empty (κ := String))

theorem sum_ofErrors (p : Metric → Bool) (metrics : List Metric) :
    (metrics.map fun metric => Figures.ofErrors (if p metric then 1 else 0)).sum =
      .ofErrors (metrics.countP p) := by
  induction metrics with
  | nil => rfl
  | cons metric rest ih =>
    rw [List.map_cons,List.sum_cons,ih,List.countP_cons,Nat.add_comm]
    rfl

/-- The global counters sum the figures of the counted requests, and the errors of the failed
iterations over them. -/
theorem addMetrics_figures (flag : Bool) (metrics : List Metric) :
    (StatsAggregator.addMetrics bucketOf flag metrics).figures =
      (metrics.map (countedFigures bucketOf)).sum +
        .ofErrors (metrics.countP Metric.failedIteration) := by
  have summed := StatsAggregator.addMetrics_sum bucketOf flag Summary.figures_empty
    Summary.figures_combine metrics
  rw [StatsAggregator.figures,summed]
  simp only [weight_figures]
  rw [List.sum_map_add,sum_ofErrors]

end

theorem requestFigures_high (bucketOf : Nat → Option Nat) (duration : Duration) (error : Option String) :
    (requestFigures bucketOf { duration } error).high = duration :=
  (updateMax_eq_max ..).trans (Nat.zero_max _)

variable {reader : HistogramReader}

theorem validate_single {metricName threshold checkType operator number : String}
    (words : splitWhitespace threshold = [checkType,operator,number]) (a : StatsAggregator) :
    a.validateThresholds reader [(metricName,[threshold])] = [] ↔
      passes operator (actualF64 (a.toReport reader) metricName checkType)
        (thresholdValue number) = true := by
  rw [← Bool.not_eq_false,← thresholdFailure_of_words words,Option.not_isSome_iff_eq_none]
  simp [StatsAggregator.validateThresholds,ReportStats.validateThresholds]

theorem validate_max (a : StatsAggregator) :
    a.validateThresholds reader [("http_req_duration",["max <= 0"])] = [] ↔
      a.figures.high.asMillis = 0 := by
  have words : splitWhitespace "max <= 0" = ["max","<=","0"] := by decide +kernel
  have zero : thresholdValue "0" = .finite 0 := by decide +kernel
  rw [validate_single words,zero]
  change decide (Binary64.nearest (a.maxDuration.asMillis : ℚ) ≤ 0) = true ↔ a.maxDuration.asMillis = 0
  rw [decide_eq_true_eq,Binary64.nearest_nonpos_iff (Nat.cast_nonneg _),Nat.cast_nonpos]

theorem failedRate_nonneg (report : ReportStats) : 0 ≤ failedRate report := by
  unfold failedRate
  split
  · exact div_nonneg (Nat.cast_nonneg _) (Nat.cast_nonneg _)
  · exact le_refl 0

theorem validate_rate (a : StatsAggregator) :
    a.validateThresholds reader [("http_req_failed",["rate <= 0"])] = [] ↔
      a.figures.count = 0 ∨ a.figures.errors = 0 := by
  have words : splitWhitespace "rate <= 0" = ["rate","<=","0"] := by decide +kernel
  have zero : thresholdValue "0" = .finite 0 := by decide +kernel
  rw [validate_single words,zero]
  change decide (Binary64.nearest (failedRate (a.toReport reader)) ≤ 0) = true ↔
    a.totalRequests = 0 ∨ (a.toReport reader).totalErrors = 0
  rw [decide_eq_true_eq,Binary64.nearest_nonpos_iff (failedRate_nonneg _),failedRate]
  change (if a.totalRequests > 0 then ((a.toReport reader).totalErrors : ℚ) / a.totalRequests else 0)
    ≤ 0 ↔ _
  split
  next some =>
    have positive : (0 : ℚ) < a.totalRequests := Nat.cast_pos.mpr some
    rw [div_le_iff₀ positive,zero_mul,Nat.cast_nonpos]
    omega
  next none => simp [Nat.le_zero.mp (Nat.le_of_not_lt none)]

end Fusillade.Stats
