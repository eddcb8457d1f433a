import Fusillade.Stats.Aggregator
import Fusillade.Lib.EntrySum

/-! `to_report`: the statistics that thresholds, the HTML report and the TUI read. What
`hdrhistogram` answers about the values it holds is a parameter. -/
namespace Fusillade

/-- `as_millis()`, in 128 bits. -/
def Duration.asMillis (d : Duration) : Nat := d / 1000000

namespace Stats

open FiniteMap

/-- The queries of `hdrhistogram` that a report makes. -/
structure HistogramReader where
  valueAtQuantile : ℚ → Histogram → Nat
  min : Histogram → Nat
  max : Histogram → Nat

structure RequestReport where
  totalRequests : Nat
  minLatencyMs : Nat
  maxLatencyMs : Nat
  avgLatencyMs : ℚ
  p95LatencyMs : ℚ
  p99LatencyMs : ℚ
  errorCount : Nat
  avgBlockedMs : ℚ
  avgConnectingMs : ℚ
  avgTlsHandshakingMs : ℚ
  avgSendingMs : ℚ
  avgWaitingMs : ℚ
  avgReceivingMs : ℚ
  avgResponseSize : ℚ

structure HistogramReport where
  avg : ℚ
  min : ℚ
  max : ℚ
  p90 : ℚ
  p95 : ℚ
  p99 : ℚ
  count : Nat

structure RateReport where
  total : Nat
  success : Nat
  rate : ℚ

structure ReportStats where
  totalRequests : Nat
  totalDurationMs : Nat
  avgLatencyMs : ℚ
  minLatencyMs : Nat
  maxLatencyMs : Nat
  p50LatencyMs : ℚ
  p90LatencyMs : ℚ
  p95LatencyMs : ℚ
  p99LatencyMs : ℚ
  statusCodes : HashMap UInt16 Nat
  errors : HashMap String Nat
  checks : HashMap String (Nat × Nat)
  groupedRequests : HashMap String RequestReport
  totalDataSent : Nat
  totalDataReceived : Nat
  histograms : HashMap String HistogramReport
  rates : HashMap String RateReport
  counters : HashMap String ℚ
  gauges : HashMap String ℚ
  poolHits : Nat
  poolMisses : Nat
  failedIterations : Nat

/-- A total over a count, and zero when nothing was counted. -/
def average (total : ℚ) (count : Nat) : ℚ := if count > 0 then total / count else 0

variable (reader : HistogramReader)

/-- `Duration::from_micros(value_at_quantile(q)).as_secs_f64() * 1000.0`. -/
def latencyMs (quantile : ℚ) (h : Histogram) : ℚ := reader.valueAtQuantile quantile h / 1000

def RequestStats.report (stats : RequestStats) : RequestReport where
  totalRequests := stats.totalRequests
  minLatencyMs := (stats.minDuration.getD 0).asMillis
  maxLatencyMs := stats.maxDuration.asMillis
  avgLatencyMs := average stats.totalDuration.asMillis stats.totalRequests
  p95LatencyMs := latencyMs reader (95/100) stats.histogram
  p99LatencyMs := latencyMs reader (99/100) stats.histogram
  errorCount := stats.errorCount
  avgBlockedMs := average stats.totalBlocked.asMillis stats.totalRequests
  avgConnectingMs := average stats.totalConnecting.asMillis stats.totalRequests
  avgTlsHandshakingMs := average stats.totalTlsHandshaking.asMillis stats.totalRequests
  avgSendingMs := average stats.totalSending.asMillis stats.totalRequests
  avgWaitingMs := average stats.totalWaiting.asMillis stats.totalRequests
  avgReceivingMs := average stats.totalReceiving.asMillis stats.totalRequests
  avgResponseSize := average stats.totalResponseSize stats.totalRequests

/-- The report of a custom histogram, whose values were stored as thousandths. -/
def histogramReport (sum : ℚ) (h : Histogram) : HistogramReport where
  avg := average sum h.card
  min := reader.min h / 1000
  max := reader.max h / 1000
  p90 := reader.valueAtQuantile (9/10) h / 1000
  p95 := reader.valueAtQuantile (95/100) h / 1000
  p99 := reader.valueAtQuantile (99/100) h / 1000
  count := h.card

def rateReport (entry : Nat × Nat) : RateReport := ⟨entry.1,entry.2,average entry.2 entry.1⟩

def StatsAggregator.toReport (a : StatsAggregator) : ReportStats where
  totalRequests := a.totalRequests
  totalDurationMs := a.totalDuration.asMillis
  avgLatencyMs := average a.totalDuration.asMillis a.totalRequests
  minLatencyMs := (a.minDuration.getD 0).asMillis
  maxLatencyMs := a.maxDuration.asMillis
  p50LatencyMs := latencyMs reader (5/10) a.histogram
  p90LatencyMs := latencyMs reader (9/10) a.histogram
  p95LatencyMs := latencyMs reader (95/100) a.histogram
  p99LatencyMs := latencyMs reader (99/100) a.histogram
  statusCodes := a.statusCodes
  errors := a.errors
  checks := a.checks
  groupedRequests := mapEntries (fun _ stats => stats.report reader) a.requests
  totalDataSent := a.totalDataSent
  totalDataReceived := a.totalDataReceived
  histograms := mapEntries (fun name h =>
    histogramReport reader ((a.histogramSums.lookup name).getD 0) h) a.histograms
  rates := mapEntries (fun _ => rateReport) a.rates
  counters := a.counters
  gauges := a.gauges
  poolHits := a.poolHits
  poolMisses := a.poolMisses
  failedIterations := a.failedIterations

/-- `report.errors.values().sum()`. -/
def ReportStats.totalErrors (report : ReportStats) : Nat := sumValues report.errors

/-- The width of a bucket of `new_with_bounds(1, _, 2)`, which has 256 sub-buckets. -/
def hdrUnit (value : Nat) : Nat := 2 ^ (value.log2 - 7)

def hdrLowest (value : Nat) : Nat := value / hdrUnit value * hdrUnit value

def hdrHighest (value : Nat) : Nat := hdrLowest value + hdrUnit value - 1

/-- The bucket of a value is its lowest equivalent one; an hour in microseconds needs 32 bits. -/
def hdrBucketOf (value : Nat) : Option Nat := if value < 2^32 then some (hdrLowest value) else none

/-- The first bucket that covers the share of the recorded values, and at least one of them. -/
def hdrQuantile (quantile : ℚ) (h : Histogram) : Nat :=
  let needed := max 1 (quantile * h.card).ceil.toNat
  if h.card = 0 then 0
  else ((h.filter fun bucket => needed ≤ (h.filter (· ≤ bucket)).card).map hdrHighest).fold min (2^64)

/-- The queries as `hdrhistogram` answers them for the bounds in use. -/
def hdrReader : HistogramReader where
  valueAtQuantile := hdrQuantile
  min h := if h.card = 0 then 0 else h.fold min (2^64)
  max h := if h.card = 0 then 0 else hdrHighest (h.fold max 0)

end Stats
end Fusillade
