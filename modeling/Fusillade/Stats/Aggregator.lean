import Fusillade.Stats.Metric

/-! `StatsAggregator` and its per-metric update. The update of a request metric is cut at
the three blocks of the source: the global counters, the failed iterations, and the entry
of the request's group. -/
namespace Fusillade.Stats

open FiniteMap

@[ext] structure RequestStats where
  totalRequests : Nat := 0
  totalDuration : Duration := 0
  minDuration : Option Duration := none
  maxDuration : Duration := 0
  histogram : Histogram := 0
  errorCount : Nat := 0
  totalBlocked : Duration := 0
  totalConnecting : Duration := 0
  totalTlsHandshaking : Duration := 0
  totalSending : Duration := 0
  totalWaiting : Duration := 0
  totalReceiving : Duration := 0
  totalResponseSize : Nat := 0
  totalRequestSize : Nat := 0
  deriving DecidableEq

def RequestStats.new : RequestStats := {}

structure StatsAggregator where
  totalRequests : Nat
  totalDuration : Duration
  minDuration : Option Duration
  maxDuration : Duration
  statusCodes : HashMap UInt16 Nat
  errors : HashMap String Nat
  checks : HashMap String (Nat × Nat)
  histogram : Histogram
  requests : HashMap String RequestStats
  totalDataSent : Nat
  totalDataReceived : Nat
  logs : List String
  histograms : HashMap String Histogram
  histogramSums : HashMap String ℚ
  rates : HashMap String (Nat × Nat)
  counters : HashMap String ℚ
  gauges : HashMap String ℚ
  noEndpointTracking : Bool
  poolHits : Nat
  poolMisses : Nat
  failedIterations : Nat
  deriving DecidableEq

def StatsAggregator.new : StatsAggregator where
  totalRequests := 0
  totalDuration := 0
  minDuration := none
  maxDuration := 0
  statusCodes := ∅
  errors := ∅
  checks := ∅
  histogram := 0
  requests := ∅
  totalDataSent := 0
  totalDataReceived := 0
  logs := []
  histograms := ∅
  histogramSums := ∅
  rates := ∅
  counters := ∅
  gauges := ∅
  noEndpointTracking := false
  poolHits := 0
  poolMisses := 0
  failedIterations := 0

/-- `is_none_or(|min| d < min)` keeps the smaller of the two. -/
def updateMin (min : Option Duration) (d : Duration) : Option Duration :=
  if min.all (d < ·) then some d else min

def updateMax (max d : Duration) : Duration := if d > max then d else max

/-- The entry of one name in a map of `(total, passes)` pairs. -/
def countOutcome (success : Bool) (entry : Nat × Nat) : Nat × Nat :=
  (entry.1 + 1, if success then entry.2 + 1 else entry.2)

section

variable (bucketOf : Nat → Option Nat)

def RequestStats.record (timings : RequestTimings) (error : Option String)
    (s : RequestStats) : RequestStats where
  totalRequests := s.totalRequests + 1
  totalDuration := s.totalDuration + timings.duration
  minDuration := updateMin s.minDuration timings.duration
  maxDuration := updateMax s.maxDuration timings.duration
  histogram := s.histogram.record bucketOf (max timings.duration.asMicros 1)
  errorCount := if error.isSome then s.errorCount + 1 else s.errorCount
  totalBlocked := s.totalBlocked + timings.blocked
  totalConnecting := s.totalConnecting + timings.connecting
  totalTlsHandshaking := s.totalTlsHandshaking + timings.tlsHandshaking
  totalSending := s.totalSending + timings.sending
  totalWaiting := s.totalWaiting + timings.waiting
  totalReceiving := s.totalReceiving + timings.receiving
  totalResponseSize := s.totalResponseSize + timings.responseSize
  totalRequestSize := s.totalRequestSize + timings.requestSize

namespace StatsAggregator

def countError (error : Option String) (errors : HashMap String Nat) : HashMap String Nat :=
  match error with
  | some err => upsert 0 (· + 1) err errors
  | none => errors

/-- The block under `if !is_iteration`. -/
def recordGlobal (timings : RequestTimings) (status : UInt16) (error : Option String)
    (a : StatsAggregator) : StatsAggregator :=
  { a with
    totalRequests := a.totalRequests + 1
    totalDuration := a.totalDuration + timings.duration
    minDuration := updateMin a.minDuration timings.duration
    maxDuration := updateMax a.maxDuration timings.duration
    histogram := a.histogram.record bucketOf (max timings.duration.asMicros 1)
    statusCodes := upsert 0 (· + 1) status a.statusCodes
    errors := countError error a.errors
    totalDataSent := a.totalDataSent + timings.requestSize
    totalDataReceived := a.totalDataReceived + timings.responseSize
    poolHits := if timings.poolReused then a.poolHits + 1 else a.poolHits
    poolMisses := if timings.poolReused then a.poolMisses else a.poolMisses + 1 }

/-- The block under `if is_iteration && !is_iteration_total`. -/
def recordFailedIteration (error : Option String) (a : StatsAggregator) : StatsAggregator :=
  { a with
    errors := countError error a.errors
    failedIterations := if error.isSome then a.failedIterations + 1 else a.failedIterations }

/-- The block under `if !self.no_endpoint_tracking`. -/
def recordEndpoint (name : String) (timings : RequestTimings) (error : Option String)
    (tags : HashMap String String) (a : StatsAggregator) : StatsAggregator :=
  { a with
    requests := upsert RequestStats.new (RequestStats.record bucketOf timings error)
      (fullName name tags) a.requests }

def addRequest (name : String) (timings : RequestTimings) (status : UInt16)
    (error : Option String) (tags : HashMap String String) (a : StatsAggregator) :
    StatsAggregator :=
  let a := if !isIteration name then recordGlobal bucketOf timings status error a else a
  let a := if isIteration name && !isIterationTotal name
    then recordFailedIteration error a else a
  if !a.noEndpointTracking then recordEndpoint bucketOf name timings error tags a else a

def add (a : StatsAggregator) : Metric → StatsAggregator
  | .request name timings status error tags => addRequest bucketOf name timings status error tags a
  | .check name success _ => { a with checks := upsert (0, 0) (countOutcome success) name a.checks }
  | .log message =>
    let logs := a.logs ++ [message]
    { a with logs := if logs.length > 100 then logs.tail else logs }
  | .histogram name value _ =>
    { a with
      histograms := upsert 0 (Histogram.record bucketOf (toMicros value)) name a.histograms
      histogramSums := upsert 0 (· + value) name a.histogramSums }
  | .counter name value _ => { a with counters := upsert 0 (· + value) name a.counters }
  | .gauge name value _ => { a with gauges := a.gauges.insert name value }
  | .rate name success _ => { a with rates := upsert (0, 0) (countOutcome success) name a.rates }

@[simp] theorem add_noEndpointTracking (a : StatsAggregator) (metric : Metric) :
    (add bucketOf a metric).noEndpointTracking = a.noEndpointTracking := by
  cases metric <;> simp only [add,addRequest]
  split_ifs <;> rfl

/-- The group of a request metric is the only entry that it touches. -/
theorem add_request_requests {a : StatsAggregator} (tracked : a.noEndpointTracking = false) (name : String)
    (timings : RequestTimings) (status : UInt16) (error : Option String) (tags : HashMap String String) :
    (add bucketOf a (.request name timings status error tags)).requests =
      upsert RequestStats.new (RequestStats.record bucketOf timings error) (fullName name tags) a.requests := by
  cases iteration : isIteration name <;> cases total : isIterationTotal name <;>
    simp [add,addRequest,iteration,total,tracked,recordGlobal,recordFailedIteration,recordEndpoint]

end StatsAggregator

end

end Fusillade.Stats
