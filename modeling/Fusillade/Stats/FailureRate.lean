import Fusillade.Bridge.Emission
import Fusillade.Stats.Presentation
import Fusillade.Stats.Thresholds

/-! The failure rate that a run is judged by. The errors come from transport failures and
from iterations that threw, the count below them from the requests alone, and a response
with an error status is in neither. -/
namespace Fusillade.Stats

open FiniteMap Bridge

def Metric.counted : Metric → Bool
  | .request name _ _ _ _ => !isIteration name
  | _ => false

def Metric.reported : Metric → Bool
  | .request name _ _ error _ => error.isSome && !isIterationTotal name
  | _ => false

def Metric.succeeded : Metric → Bool
  | .request name _ _ error _ => !isIteration name && error.isNone
  | _ => false

def Metric.failedIteration : Metric → Bool
  | .request name _ _ error _ => isIteration name && error.isSome && !isIterationTotal name
  | _ => false

theorem isIteration_of_total {name : String} (total : isIterationTotal name = true) :
    isIteration name = true := by
  simp [isIteration,total]

section

variable (bucketOf : Nat → Option Nat) (reader : HistogramReader) (flag : Bool)

theorem weight_totalRequests (metric : Metric) :
    (StatsAggregator.weight bucketOf flag metric).totalRequests = if metric.counted then 1 else 0 := by
  cases metric with
  | request name timings status error tags =>
    rw [StatsAggregator.weight_request_totalRequests,Metric.counted]
    cases isIteration name <;> rfl
  | _ => rfl

theorem weight_errors (metric : Metric) :
    sumValues (StatsAggregator.weight bucketOf flag metric).errors = if metric.reported then 1 else 0 := by
  cases metric with
  | request name timings status error tags =>
    have globally : sumValues (StatsAggregator.globalWeight bucketOf name timings status error).errors
        = if !isIteration name && error.isSome then 1 else 0 := by
      unfold StatsAggregator.globalWeight
      cases isIteration name
      · exact StatsAggregator.countError_sum error
      · exact sumValues_empty
    have failed : sumValues (StatsAggregator.iterationWeight name error).errors =
        if isIteration name && !isIterationTotal name && error.isSome then 1 else 0 := by
      unfold StatsAggregator.iterationWeight
      cases isIteration name && !isIterationTotal name
      · exact sumValues_empty
      · exact StatsAggregator.countError_sum error
    have endpoint : sumValues (StatsAggregator.endpointWeight bucketOf flag name timings error tags).errors
        = 0 := by
      unfold StatsAggregator.endpointWeight
      cases flag <;> exact sumValues_empty
    rw [StatsAggregator.weight_request,Summary.combine,Summary.combine,sumValues_mergeWith,
      sumValues_mergeWith,globally,failed,endpoint,Metric.reported]
    cases total : isIterationTotal name with
    | true => simp [isIteration_of_total total]
    | false => cases isIteration name <;> cases error <;> rfl
  | _ => exact sumValues_empty

theorem addMetrics_totalRequests (metrics : List Metric) :
    (StatsAggregator.addMetrics bucketOf flag metrics).totalRequests =
      metrics.countP Metric.counted :=
  StatsAggregator.addMetrics_countP bucketOf flag (f := Summary.totalRequests) rfl
    (fun _ _ => rfl) (weight_totalRequests bucketOf flag) metrics

theorem addMetrics_totalErrors (metrics : List Metric) :
    ((StatsAggregator.addMetrics bucketOf flag metrics).toReport reader).totalErrors =
      metrics.countP Metric.reported :=
  StatsAggregator.addMetrics_countP bucketOf flag (f := fun s => sumValues s.errors) sumValues_empty
    (fun _ _ => sumValues_mergeWith _ _) (weight_errors bucketOf flag) metrics

/-- The rate under any sequence of metrics; it is zero where nothing was counted. -/
theorem addMetrics_failedRate (metrics : List Metric) :
    actualValue ((StatsAggregator.addMetrics bucketOf flag metrics).toReport reader)
        "http_req_failed" "rate" =
      (metrics.countP Metric.reported : ℚ) / metrics.countP Metric.counted := by
  have total : ((StatsAggregator.addMetrics bucketOf flag metrics).toReport reader).totalRequests =
    metrics.countP Metric.counted := addMetrics_totalRequests bucketOf flag metrics
  change failedRate _ = _
  rw [failedRate,addMetrics_totalErrors,total]
  split
  · rfl
  next none =>
    rw [Nat.le_zero.mp (Nat.le_of_not_lt none)]
    simp

/-- The errors outnumber the requests by as much as the failed iterations do the successes. -/
theorem reported_add_succeeded (metrics : List Metric) :
    metrics.countP Metric.reported + metrics.countP Metric.succeeded =
      metrics.countP Metric.counted + metrics.countP Metric.failedIteration := by
  induction metrics with
  | nil => rfl
  | cons metric rest ih =>
    have here : (if metric.reported then 1 else 0) + (if metric.succeeded then 1 else 0) =
        (if metric.counted then 1 else 0) + (if metric.failedIteration then 1 else 0) := by
      cases metric with
      | request name timings status error tags =>
        change (if error.isSome && !isIterationTotal name then 1 else 0) +
            (if !isIteration name && error.isNone then 1 else 0) =
          (if !isIteration name then 1 else 0) +
            if isIteration name && error.isSome && !isIterationTotal name then 1 else 0
        cases total : isIterationTotal name with
        | true => simp [isIteration_of_total total]
        | false => cases isIteration name <;> cases error <;> rfl
      | _ => rfl
    simp only [List.countP_cons]
    omega

/-- The rate is one and the page has a percentage exactly when nothing was counted, or when
the failed iterations do not outnumber the requests that succeeded. -/
theorem rates_bounded_iff (metrics : List Metric) :
    let report := (StatsAggregator.addMetrics bucketOf flag metrics).toReport reader
    (0 ≤ actualValue report "http_req_failed" "rate" ∧
        actualValue report "http_req_failed" "rate" ≤ 1 ∧
        ∃ percentage, successRate report = some percentage ∧ 0 ≤ percentage ∧ percentage ≤ 100) ↔
      metrics.countP Metric.counted = 0 ∨
        metrics.countP Metric.failedIteration ≤ metrics.countP Metric.succeeded := by
  intro report
  have total : report.totalRequests = metrics.countP Metric.counted :=
    addMetrics_totalRequests bucketOf flag metrics
  have errors : report.totalErrors = metrics.countP Metric.reported :=
    addMetrics_totalErrors bucketOf reader flag metrics
  have rate : actualValue report "http_req_failed" "rate" = _ :=
    addMetrics_failedRate bucketOf reader flag metrics
  have balance := reported_add_succeeded metrics
  rw [rate]
  generalize metrics.countP Metric.counted = counted at *
  generalize metrics.countP Metric.reported = reported at *
  rcases Nat.eq_zero_or_pos counted with none | some
  · subst none
    simp [successRate,total]
  · have positive : (0 : ℚ) < counted := Nat.cast_pos.mpr some
    constructor
    · rintro ⟨_,atMost,_⟩
      rw [div_le_one positive,Nat.cast_le] at atMost
      omega
    · intro bounded
      have atMost : reported ≤ counted := by omega
      refine ⟨by positivity,(div_le_one positive).mpr (Nat.cast_le.mpr atMost),?_⟩
      refine ⟨((counted - reported : Nat) : ℚ) / counted * 100,?_,by positivity,?_⟩
      · rw [successRate,total,errors,if_pos some,if_pos atMost]
      · have share : ((counted - reported : Nat) : ℚ) / counted ≤ 1 :=
          (div_le_one positive).mpr (Nat.cast_le.mpr (Nat.sub_le ..))
        linarith

end

def okRequest : Event := .http { url := "https://shop.test/", outcome := .response 200 }
def serverError : Event := .http { url := "https://shop.test/", outcome := .response 500 }
def thrown : Event := .iteration { scenario := some "checkout", error := some "boom" }

theorem rate_above_one :
    let report := (StatsAggregator.addMetrics hdrBucketOf false
      ([okRequest,thrown,thrown].flatMap Event.metrics)).toReport hdrReader
    ¬actualValue report "http_req_failed" "rate" ≤ 1 ∧ successRate report = none := by
  decide +kernel

/-- A request that failed by the documentation: a status outside 2xx and 3xx, or no response. -/
def HttpOutcome.failed : HttpOutcome → Bool
  | .response status => !(200 ≤ status && status < 400)
  | .transportError _ => true

/-- What the documented rate counts, and what the aggregator counts in its place. -/
def Event.isRequest : Event → Bool
  | .http _ => true
  | .iteration _ => false

def Event.failed : Event → Bool
  | .http request => HttpOutcome.failed request.outcome
  | .iteration _ => false

def Event.counted : Event → Bool
  | .http request => !isIteration request.name
  | .iteration _ => false

def Event.reported : Event → Bool
  | .http request => match request.outcome with
    | .response _ => false
    | .transportError _ => !isIterationTotal request.name
  | .iteration run => run.error.isSome

theorem event_counted (event : Event) :
    event.metrics.countP Metric.counted = if Event.counted event then 1 else 0 := by
  cases event with
  | http request =>
    have same : request.metric.counted = !isIteration request.name := by
      unfold HttpRequest.metric
      split <;> rfl
    rw [Event.metrics,List.countP_singleton,same]
    rfl
  | iteration run =>
    have primary := isIteration_iterationName run.scenario
    have twin := isIteration_of_total (isIterationTotal_iterationName run.scenario)
    simp [Event.metrics,Iteration.metrics,Metric.counted,Event.counted,primary,twin]

theorem event_reported (event : Event) :
    event.metrics.countP Metric.reported = if Event.reported event then 1 else 0 := by
  cases event with
  | http request =>
    have same : request.metric.reported = Event.reported (.http request) := by
      cases ends : request.outcome <;>
        simp [HttpRequest.metric,Event.reported,Metric.reported,ends]
    rw [Event.metrics,List.countP_singleton,same]
  | iteration run =>
    have primary := primary_not_total run.scenario
    have twin := isIterationTotal_iterationName run.scenario
    cases threw : run.error <;>
      simp [Event.metrics,Iteration.metrics,Metric.reported,Event.reported,primary,twin,threw]

theorem countP_events {p : Metric → Bool} {q : Event → Bool}
    (each : ∀ event, event.metrics.countP p = if q event then 1 else 0) (events : List Event) :
    (events.flatMap Event.metrics).countP p = events.countP q := by
  induction events with
  | nil => rfl
  | cons event rest ih =>
    rw [List.flatMap_cons,List.countP_append,List.countP_cons,ih,each,Nat.add_comm]

/-- The rate that the criteria see is the documented one exactly when the errors are to the
counted requests as the failed requests are to all. -/
theorem failedRate_documented_iff (bucketOf : Nat → Option Nat) (reader : HistogramReader)
    (flag : Bool) (events : List Event) :
    actualValue ((StatsAggregator.addMetrics bucketOf flag
        (events.flatMap Event.metrics)).toReport reader) "http_req_failed" "rate" =
        (events.countP Event.failed : ℚ) / events.countP Event.isRequest ↔
      if events.countP Event.counted = 0 then events.countP Event.failed = 0
      else events.countP Event.reported * events.countP Event.isRequest =
        events.countP Event.failed * events.countP Event.counted := by
  have among : events.countP Event.failed ≤ events.countP Event.isRequest := by
    apply List.countP_mono_left
    intro event _ failed
    cases event with
    | http request => rfl
    | iteration run => contradiction
  have requests : events.countP Event.counted ≤ events.countP Event.isRequest := by
    apply List.countP_mono_left
    intro event _ counted
    cases event with
    | http request => rfl
    | iteration run => contradiction
  rw [addMetrics_failedRate,countP_events event_counted,countP_events event_reported]
  split
  next none =>
    rw [none,Nat.cast_zero,div_zero,eq_comm,div_eq_zero_iff,Nat.cast_eq_zero,Nat.cast_eq_zero]
    omega
  next some =>
    have positive : (events.countP Event.counted : ℚ) ≠ 0 := Nat.cast_ne_zero.mpr some
    have all : (events.countP Event.isRequest : ℚ) ≠ 0 := Nat.cast_ne_zero.mpr (by omega)
    rw [div_eq_div_iff positive all]
    exact_mod_cast Iff.rfl

/-- A script whose requests bear no name of an iteration: what is missing are the error
statuses, and what is there instead are the iterations that threw. -/
theorem failedRate_documented_ordinary (bucketOf : Nat → Option Nat) (reader : HistogramReader)
    (flag : Bool) (events : List Event)
    (ordinary : ∀ request, .http request ∈ events → isIteration request.name = false)
    (some : events.countP Event.isRequest ≠ 0) :
    actualValue ((StatsAggregator.addMetrics bucketOf flag
        (events.flatMap Event.metrics)).toReport reader) "http_req_failed" "rate" =
        (events.countP Event.failed : ℚ) / events.countP Event.isRequest ↔
      events.countP Event.reported = events.countP Event.failed := by
  have all : events.countP Event.counted = events.countP Event.isRequest := by
    apply List.countP_congr
    intro event member
    cases event with
    | http request => simp [Event.counted,Event.isRequest,ordinary request member]
    | iteration run => simp [Event.counted,Event.isRequest]
  rw [failedRate_documented_iff,all,if_neg some]
  exact Nat.mul_left_inj some

theorem server_error_not_failed :
    actualValue ((StatsAggregator.addMetrics hdrBucketOf false
        ([serverError].flatMap Event.metrics)).toReport hdrReader) "http_req_failed" "rate" ≠
      ([serverError].countP Event.failed : ℚ) / [serverError].countP Event.isRequest := by
  decide +kernel

end Fusillade.Stats
