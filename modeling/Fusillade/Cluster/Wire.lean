import Fusillade.Stats.Invariants
import Mathlib.Algebra.Order.BigOperators.Group.List
import Mathlib.Algebra.Order.Group.Nat

/-! Request metrics on the gRPC stream: the worker's conversion into the message of the
schema, and the controller's conversion back. The message has no field for the tags and none
for the reuse of a connection. -/
namespace Fusillade.Cluster

open Stats FiniteMap

structure ProtoMetric where
  name : String
  durationNs : UInt64
  status : UInt32
  error : Option String
  timestamp : UInt64
  blockedNs : UInt64
  connectingNs : UInt64
  tlsNs : UInt64
  sendingNs : UInt64
  waitingNs : UInt64
  receivingNs : UInt64
  responseSize : UInt64
  requestSize : UInt64
  deriving DecidableEq

/-- The casts keep the low 64 bits; other metrics are not sent. -/
def internalMetricToProto : Metric → Option ProtoMetric
  | .request name timings status error _ => some {
      name
      durationNs := .ofNat timings.duration
      status := status.toUInt32
      error
      timestamp := 0
      blockedNs := .ofNat timings.blocked
      connectingNs := .ofNat timings.connecting
      tlsNs := .ofNat timings.tlsHandshaking
      sendingNs := .ofNat timings.sending
      waitingNs := .ofNat timings.waiting
      receivingNs := .ofNat timings.receiving
      responseSize := .ofNat timings.responseSize
      requestSize := .ofNat timings.requestSize }
  | _ => none

/-- The conversion in the loop of `report_metrics`. -/
def reportedMetric (metric : ProtoMetric) : Metric :=
  .request metric.name
    { duration := metric.durationNs.toNat
      blocked := metric.blockedNs.toNat
      connecting := metric.connectingNs.toNat
      tlsHandshaking := metric.tlsNs.toNat
      sending := metric.sendingNs.toNat
      waiting := metric.waitingNs.toNat
      receiving := metric.receivingNs.toNat
      responseSize := metric.responseSize.toNat
      requestSize := metric.requestSize.toNat
      poolReused := false }
    metric.status.toUInt16 metric.error ∅

variable (bucketOf : Nat → Option Nat)

def reportMetrics (aggregator : StatsAggregator) (batch : List ProtoMetric) : StatsAggregator :=
  (batch.map reportedMetric).foldl (StatsAggregator.add bucketOf) aggregator

def overTheWire (metrics : List Metric) : StatsAggregator :=
  reportMetrics bucketOf .new (metrics.filterMap internalMetricToProto)

/-- The durations are within 64 bits of nanoseconds, the sizes within a `usize`. -/
structure FitsWire (timings : RequestTimings) : Prop where
  duration : timings.duration < 2^64
  blocked : timings.blocked < 2^64
  connecting : timings.connecting < 2^64
  tlsHandshaking : timings.tlsHandshaking < 2^64
  sending : timings.sending < 2^64
  waiting : timings.waiting < 2^64
  receiving : timings.receiving < 2^64
  responseSize : timings.responseSize < 2^64
  requestSize : timings.requestSize < 2^64

def Sendable : Metric → Prop
  | .request _ timings _ _ _ => FitsWire timings
  | _ => False

/-- What the controller makes of a metric: the tags and the reuse are gone. -/
def stripped : Metric → Metric
  | .request name timings status error _ =>
    .request name { timings with poolReused := false } status error ∅
  | metric => metric

/-- Nothing that the message leaves out shows in the statistics of this metric. -/
def Plain : Metric → Prop
  | .request name timings _ _ tags => tags = ∅ ∧ (isIteration name ∨ timings.poolReused = false)
  | _ => False

variable {bucketOf} {metric : Metric} {metrics : List Metric}

theorem reported_sent (sendable : Sendable metric) :
    (internalMetricToProto metric).map reportedMetric = some (stripped metric) := by
  cases metric with
  | request name timings status error tags =>
    obtain ⟨duration,blocked,connecting,tlsHandshaking,sending,waiting,receiving,responseSize,
      requestSize⟩ := sendable
    simp only [internalMetricToProto,reportedMetric,stripped,Option.map_some,UInt16.toUInt16_toUInt32,
      UInt64.toNat_ofNat_of_lt' duration,UInt64.toNat_ofNat_of_lt' blocked,
      UInt64.toNat_ofNat_of_lt' connecting,UInt64.toNat_ofNat_of_lt' tlsHandshaking,
      UInt64.toNat_ofNat_of_lt' sending,UInt64.toNat_ofNat_of_lt' waiting,
      UInt64.toNat_ofNat_of_lt' receiving,UInt64.toNat_ofNat_of_lt' responseSize,
      UInt64.toNat_ofNat_of_lt' requestSize]
  | check | log | histogram | rate | counter | gauge => exact absurd sendable id

theorem overTheWire_eq (sendable : ∀ metric ∈ metrics, Sendable metric) :
    overTheWire bucketOf metrics =
      StatsAggregator.addMetrics bucketOf false (metrics.map stripped) := by
  have sent : (metrics.filterMap internalMetricToProto).map reportedMetric = metrics.map stripped := by
    rw [List.map_filterMap,← List.filterMap_eq_map]
    apply List.filterMap_congr
    intro metric member
    exact reported_sent (sendable metric member)
  rw [overTheWire,reportMetrics,sent]
  rfl

theorem add_stripped (plain : Plain metric) (a : StatsAggregator) :
    a.add bucketOf (stripped metric) = a.add bucketOf metric := by
  cases metric with
  | request name timings status error tags =>
    obtain ⟨rfl,unused⟩ := plain
    rcases unused with internal | fresh
    · -- an iteration reaches the endpoint statistics alone, which keep no count of reuse
      have same (a : StatsAggregator) : a.recordEndpoint bucketOf name
          { timings with poolReused := false } error ∅ =
            a.recordEndpoint bucketOf name timings error ∅ := rfl
      simp only [stripped,StatsAggregator.add,StatsAggregator.addRequest,internal,Bool.not_true,
        Bool.false_eq_true,if_false,same]
    · have same : { timings with poolReused := false } = timings := by rw [← fresh]
      rw [stripped,same]
  | check | log | histogram | rate | counter | gauge => rfl

theorem addMetrics_stripped (plain : ∀ metric ∈ metrics, Plain metric) :
    StatsAggregator.addMetrics bucketOf false (metrics.map stripped) =
      StatsAggregator.addMetrics bucketOf false metrics := by
  simp only [StatsAggregator.addMetrics,List.foldl_map]
  apply List.foldl_ext
  intro a metric member
  exact add_stripped (plain metric member) a

/-- A request that is counted as a pool hit. -/
def reused : Metric → Bool
  | .request name timings _ _ _ => !isIteration name && timings.poolReused
  | _ => false

theorem addMetrics_poolHits (metrics : List Metric) :
    (StatsAggregator.addMetrics bucketOf false metrics).poolHits = metrics.countP reused := by
  apply StatsAggregator.addMetrics_countP bucketOf false (f := Summary.poolHits) rfl (fun _ _ => rfl)
  intro metric
  cases metric with
  | request name timings status error tags =>
    rw [StatsAggregator.weight_request,StatsAggregator.globalWeight,StatsAggregator.iterationWeight,
      StatsAggregator.endpointWeight,reused]
    split_ifs <;> simp_all [Summary.combine,Summary.empty,StatsAggregator.summary,
      StatsAggregator.recordGlobal,StatsAggregator.recordFailedIteration,
      StatsAggregator.recordEndpoint,StatsAggregator.new]
  | check | log | histogram | rate | counter | gauge => rfl

def groupLength : Metric → Nat
  | .request name _ _ _ tags => (fullName name tags).length
  | _ => 0

/-- The groups of an aggregator, each as long as its name and as heavy as its requests. -/
def groupLengths (a : StatsAggregator) : Nat :=
  sum (fun group (stats : RequestStats) => group.length * stats.totalRequests) a.requests

theorem addMetrics_groupLengths (metrics : List Metric) :
    groupLengths (StatsAggregator.addMetrics bucketOf false metrics) =
      (metrics.map groupLength).sum := by
  have each (metric : Metric) :
      sum (fun group (stats : RequestStats) => group.length * stats.totalRequests)
        (StatsAggregator.weight bucketOf false metric).requests = groupLength metric := by
    cases metric with
    | request name timings status error tags =>
      rw [StatsAggregator.weight_request_requests,if_neg (by decide),sum_upsert_empty,groupLength]
      simp [RequestStats.record,RequestStats.new]
    | check | log | histogram | rate | counter | gauge => exact sum_empty _
  have sums := StatsAggregator.addMetrics_sum bucketOf false
    (f := fun s => sum (fun group (stats : RequestStats) => group.length * stats.totalRequests) s.requests)
    (sum_empty _) (fun a b => sum_mergeWith _ RequestStats.combine (fun _ _ _ => Nat.mul_add _ _ _)
      a.requests b.requests) metrics
  simp only [each] at sums
  exact sums

theorem groupLength_tagged {name : String} {timings : RequestTimings} {status : UInt16}
    {error : Option String} {tags : HashMap String String} (tagged : tags ≠ ∅) :
    groupLength (stripped (.request name timings status error tags)) <
      groupLength (.request name timings status error tags) := by
  have brace : 0 < "\x7b".length := by decide
  simp only [stripped,groupLength,fullName,tagged,if_true,if_false,String.length_append]
  omega

theorem groupLength_stripped (metric : Metric) : groupLength (stripped metric) ≤ groupLength metric := by
  cases metric with
  | request name timings status error tags =>
    by_cases untagged : tags = ∅
    · subst tags; rfl
    · exact Nat.le_of_lt (groupLength_tagged untagged)
  | check | log | histogram | rate | counter | gauge => rfl

/-- What the controller aggregates is what the worker has exactly when every metric is plain. -/
theorem wire_faithful_iff (bucketOf : Nat → Option Nat) (metrics : List Metric)
    (sendable : ∀ metric ∈ metrics, Sendable metric) :
    overTheWire bucketOf metrics = StatsAggregator.addMetrics bucketOf false metrics ↔
      ∀ metric ∈ metrics, Plain metric := by
  rw [overTheWire_eq sendable]
  constructor
  · intro same metric member
    have hits := congrArg StatsAggregator.poolHits same
    have lengths := congrArg groupLengths same
    simp only [addMetrics_poolHits,addMetrics_groupLengths,List.map_map] at hits lengths
    cases metric with
    | request name timings status error tags =>
      constructor
      · by_contra tagged
        have shorter := List.sum_lt_sum (groupLength ∘ stripped) groupLength
          (fun metric _ => groupLength_stripped metric) ⟨_,member,groupLength_tagged tagged⟩
        exact absurd lengths (Nat.ne_of_lt shorter)
      · by_contra counted
        have none : (metrics.map stripped).countP reused = 0 := by
          rw [List.countP_eq_zero]
          intro metric there
          obtain ⟨original,_,rfl⟩ := List.mem_map.mp there
          cases original <;> simp [stripped,reused]
        rw [none,eq_comm,List.countP_eq_zero] at hits
        exact hits _ member (by simpa [reused] using counted)
    | check | log | histogram | rate | counter | gauge => exact absurd (sendable _ member) id
  · exact addMetrics_stripped

def plainRequest : Metric :=
  .request "GET /" { duration := 250000000, waiting := 200000000, responseSize := 12 } 200 none ∅

def taggedRequest : Metric :=
  .request "GET /" { duration := 250000000 } 200 none (FiniteMap.upsert "" (fun _ => "prod") "env" ∅)

def pooledRequest : Metric := .request "GET /" { duration := 250000000, poolReused := true } 200 none ∅

/-- Two requests of one group, of which the second fails, and one of another. -/
def plainRequests : List Metric :=
  [plainRequest,.request "GET /" { duration := 3000000000, blocked := 7 } 503 (some "Server error") ∅,
    .request "POST /cart" { duration := 90000000, requestSize := 300 } 201 none ∅]

theorem plain_requests_faithful : (∀ metric ∈ plainRequests, Sendable metric) ∧
    overTheWire some plainRequests = StatsAggregator.addMetrics some false plainRequests ∧
    ((overTheWire some plainRequests).requests.lookup "GET /").map (·.totalRequests) = some 2 := by
  have sendable : ∀ metric ∈ plainRequests, Sendable metric := by
    simp only [plainRequests,plainRequest,List.forall_mem_cons,Sendable]
    exact ⟨by constructor <;> decide,by constructor <;> decide,by constructor <;> decide,by simp⟩
  have plain : ∀ metric ∈ plainRequests, Plain metric := by
    simp only [plainRequests,plainRequest,List.forall_mem_cons]
    exact ⟨⟨rfl,.inr rfl⟩,⟨rfl,.inr rfl⟩,⟨rfl,.inr rfl⟩,by simp⟩
  exact ⟨sendable,(wire_faithful_iff some plainRequests sendable).mpr plain,by decide +kernel⟩

/-- The group loses its tag, and the reused connection counts as a miss. -/
theorem tags_and_reuse_lost :
    (Sendable taggedRequest ∧
      overTheWire some [taggedRequest] ≠ StatsAggregator.addMetrics some false [taggedRequest]) ∧
    Sendable pooledRequest ∧
      overTheWire some [pooledRequest] ≠ StatsAggregator.addMetrics some false [pooledRequest] := by
  refine ⟨⟨by constructor <;> decide,?_⟩,by constructor <;> decide,?_⟩ <;> decide +kernel

end Fusillade.Cluster
