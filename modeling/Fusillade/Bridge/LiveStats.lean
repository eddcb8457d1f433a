import Fusillade.Engine.SharedAggregator

/-! `stats.get`. The threads that take the metrics feed the sharded aggregator. The scripts are given
another one, which was kept for older code and which no thread feeds. -/
namespace Fusillade.Bridge.LiveStats

open Stats FiniteMap Cli Engine.SharedAggregator

/-- The object that a script gets. -/
structure Answer where
  p95 : ℚ
  p99 : ℚ
  avg : ℚ
  count : Nat
  min : Nat
  max : Nat
  deriving DecidableEq

def get (reader : HistogramReader) (agg : StatsAggregator) (name : String) : Answer :=
  match agg.requests.lookup name with
  | some s => {
    p95 := reader.valueAtQuantile (95/100) s.histogram / 1000
    p99 := reader.valueAtQuantile (99/100) s.histogram / 1000
    avg := s.totalDuration.asMillis / (max s.totalRequests 1 : Nat)
    count := s.totalRequests
    min := (s.minDuration.getD 0).asMillis
    max := s.maxDuration.asMillis }
  | none => ⟨0,0,0,0,0,0⟩

/-- What the threads and the scripts of a run hold. -/
structure State (n : Nat) where
  /-- `local_counter` of every aggregator thread. -/
  counters : Fin n → Nat
  shardedAggregator : ShardedAggregator
  /-- The old-style aggregator of the scripts. -/
  aggregator : StatsAggregator

/-- The aggregator that `main` supplies, or none. -/
def supply (supplied : Bool) (config : Config) : Option ShardedAggregator :=
  if supplied then some (commandLineAggregator config) else none

variable {n : Nat} (bucketOf : Nat → Option Nat)

def State.receive (numShards : Nat) (s : State n) (delivery : Fin n × Metric) : State n :=
  let fed := Engine.SharedAggregator.receive bucketOf numShards (s.counters,s.shardedAggregator) delivery
  { s with counters := fed.1, shardedAggregator := fed.2 }

def start (supplied : Bool) (config : Config) : State n :=
  ⟨fun aggId => aggId,selectAggregator config (supply supplied config),.new⟩

/-- Any point of a run: the metrics that were consumed so far, each with its thread. -/
def run (supplied : Bool) (config : Config) (deliveries : List (Fin n × Metric)) : State n :=
  deliveries.foldl (State.receive bucketOf (shardCount (totalWorkers config))) (start supplied config)

/-- Only the engine's own aggregator heeds the option. -/
def untracked (supplied : Bool) (config : Config) : Bool :=
  !supplied && config.noEndpointTracking.getD false

def durationUnder (name : String) : Metric → Option Duration
  | .request given timings _ _ tags => if fullName given tags = name then some timings.duration else none
  | _ => none

/-- The durations of the request metrics that were recorded under a name. -/
def recorded (untracked : Bool) (name : String) (metrics : List Metric) : List Duration :=
  if untracked then [] else metrics.filterMap (durationUnder name)

/-- The answer is over exactly these requests. -/
structure Answer.Covers (answer : Answer) (durations : List Duration) : Prop where
  count : answer.count = durations.length
  min : answer.min = (durations.min?.getD 0).asMillis
  max : answer.max = (durations.max?.getD 0).asMillis

variable {supplied : Bool} {config : Config} {deliveries : List (Fin n × Metric)}

theorem receive_aggregator (numShards : Nat) (s : State n) (delivery : Fin n × Metric) :
    (s.receive bucketOf numShards delivery).aggregator = s.aggregator := rfl

theorem run_aggregator : (run bucketOf supplied config deliveries).aggregator = .new := by
  induction deliveries using List.reverseRecOn with
  | nil => rfl
  | append_singleton deliveries delivery ih =>
    rw [run,List.foldl_append,← run,List.foldl_cons,List.foldl_nil,receive_aggregator,ih]

theorem run_shardedAggregator : (run bucketOf supplied config deliveries).shardedAggregator =
    feed bucketOf config (supply supplied config) deliveries := by
  have same (s : State n) (numShards : Nat) :
      (deliveries.foldl (State.receive bucketOf numShards) s).shardedAggregator =
        (deliveries.foldl (Engine.SharedAggregator.receive bucketOf numShards) (s.counters,s.shardedAggregator)).2 := by
    induction deliveries generalizing s with
    | nil => rfl
    | cons delivery rest ih => exact ih _
  exact same _ _

theorem select_supply : selectAggregator config (supply supplied config) =
    .create (untracked supplied config) (shardCount (totalWorkers config)) := by
  cases supplied
  · exact select_engine
  · exact select_commandLine

theorem min?_concat (durations : List Duration) (d : Duration) :
    (durations ++ [d]).min? = updateMin durations.min? d := by
  cases durations with
  | nil => rfl
  | cons first rest =>
    rw [updateMin_eq_merge,List.cons_append,List.min?_cons',List.min?_cons',List.foldl_append]
    rfl

theorem max?_concat (durations : List Duration) (d : Duration) :
    (durations ++ [d]).max?.getD 0 = updateMax (durations.max?.getD 0) d := by
  cases durations with
  | nil => simp [updateMax_eq_max]
  | cons first rest =>
    rw [updateMax_eq_max,List.cons_append,List.max?_cons',List.max?_cons',List.foldl_append]
    rfl

/-- What an entry says of the requests that were counted under it. -/
structure Entry (stats : RequestStats) (durations : List Duration) : Prop where
  count : stats.totalRequests = durations.length
  min : stats.minDuration = durations.min?
  max : stats.maxDuration = durations.max?.getD 0

theorem Entry.record {stats : RequestStats} {durations : List Duration} (entry : Entry stats durations)
    (timings : RequestTimings) (error : Option String) :
    Entry (stats.record bucketOf timings error) (durations ++ [timings.duration]) where
  count := by rw [List.length_append,← entry.count]; rfl
  min := by rw [min?_concat,← entry.min]; rfl
  max := by rw [max?_concat,← entry.max]; rfl

theorem add_entry {a : StatsAggregator} (tracked : a.noEndpointTracking = false) (metric : Metric) {name : String}
    {durations : List Duration} (entry : Entry ((a.requests.lookup name).getD .new) durations) :
    Entry (((a.add bucketOf metric).requests.lookup name).getD .new)
      (durations ++ (durationUnder name metric).toList) := by
  cases metric with
  | request given timings status error tags =>
    rw [StatsAggregator.add_request_requests bucketOf tracked,lookup_upsert]
    by_cases same : fullName given tags = name
    · subst same
      simpa [durationUnder] using entry.record bucketOf timings error
    · simpa [durationUnder,same,Ne.symm same] using entry
  | _ => simpa [durationUnder,StatsAggregator.add] using entry

theorem addMetrics_entry (metrics : List Metric) (name : String) :
    Entry (((StatsAggregator.addMetrics bucketOf false metrics).requests.lookup name).getD .new)
      (metrics.filterMap (durationUnder name)) := by
  induction metrics using List.reverseRecOn with
  | nil => exact ⟨rfl,rfl,rfl⟩
  | append_singleton metrics metric ih =>
    rw [StatsAggregator.addMetrics_snoc,List.filterMap_append]
    have added := add_entry bucketOf (StatsAggregator.addMetrics_noEndpointTracking bucketOf false metrics) metric ih
    cases taken : durationUnder name metric <;> simpa [taken] using added

theorem get_covers {reader : HistogramReader} {agg : StatsAggregator} {name : String} {durations : List Duration}
    (entry : Entry ((agg.requests.lookup name).getD .new) durations) : (get reader agg name).Covers durations := by
  obtain ⟨count,low,high⟩ := entry
  unfold get
  cases found : agg.requests.lookup name with
  | none =>
    rw [found] at count low high
    exact ⟨count,by rw [← low]; rfl,by rw [← high]; rfl⟩
  | some stats =>
    rw [found] at count low high
    exact ⟨count,by rw [← low]; rfl,by rw [← high]; rfl⟩

/-- The merge of the shards has the answer, at any point of the run. -/
theorem merge_covers (reader : HistogramReader) (name : String) :
    (get reader (run bucketOf supplied config deliveries).shardedAggregator.merge name).Covers
      (recorded (untracked supplied config) name (deliveries.map Prod.snd)) := by
  apply get_covers
  rw [run_shardedAggregator,grouped_feed _ _ select_supply,recorded]
  cases untracked supplied config
  · exact addMetrics_entry bucketOf _ name
  · rw [requests_untracked]
    exact ⟨rfl,rfl,rfl⟩

/-- A script is told of no request, at any point of the run. -/
theorem get_run (reader : HistogramReader) (name : String) :
    get reader (run bucketOf supplied config deliveries).aggregator name = ⟨0,0,0,0,0,0⟩ := by
  rw [run_aggregator]
  rfl

/-- The answer covers what was recorded as long as nothing was. -/
theorem get_covers_iff (reader : HistogramReader) (supplied : Bool) (config : Config)
    (deliveries : List (Fin n × Metric)) (name : String) :
    (get reader (run bucketOf supplied config deliveries).aggregator name).Covers
        (recorded (untracked supplied config) name (deliveries.map Prod.snd)) ↔
      recorded (untracked supplied config) name (deliveries.map Prod.snd) = [] := by
  rw [get_run]
  constructor
  · intro covers
    exact List.length_eq_zero_iff.mp covers.count.symm
  · intro none
    rw [none]
    exact ⟨rfl,rfl,rfl⟩

/-- The request of the documentation's script, which asks for it afterwards. -/
def getData : Metric := .request "getData" { duration := 5000000 } 200 none ∅

theorem getData_uncounted : recorded (untracked true {}) "getData" [getData] = [5000000] ∧
    ¬(get hdrReader (run hdrBucketOf true {} [((0 : Fin 1),getData)]).aggregator "getData").Covers
      (recorded (untracked true {}) "getData" [getData]) := by
  refine ⟨by decide +kernel,fun covers => ?_⟩
  exact absurd covers.count (by decide +kernel)

end Fusillade.Bridge.LiveStats
