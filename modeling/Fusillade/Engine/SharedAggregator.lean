import Fusillade.Cli.Config
import Fusillade.Stats.ScenarioThresholds

/-! The aggregator of a run, which the command line builds and hands to `run_load_test` and
which the engine builds for itself otherwise; the threads that feed its shards; and the
report made from its merge. -/
namespace Fusillade.Engine.SharedAggregator

open Stats FiniteMap Cli

/-- The workers of all scenarios, a `usize` sum that wraps. -/
def scenarioWorkers (scenarios : FiniteMap String ScenarioConfig) : Nat :=
  sum (fun _ scenario => scenario.workers.getD 1) scenarios % 2^64

/-- `(total_workers / 100).clamp(16, 256)` -/
def shardCount (totalWorkers : Nat) : Nat := max 16 (min 256 (totalWorkers / 100))

def commandLineAggregator (config : Config) : ShardedAggregator :=
  let initialWorkers := config.workers.getD 1
  let totalWorkersEst := match config.scenarios with
    | some scenarios => scenarioWorkers scenarios
    | none => initialWorkers
  .new (shardCount totalWorkersEst)

def totalWorkers (config : Config) : Nat :=
  match config.scenarios with
  | some scenarios => scenarioWorkers scenarios
  | none => config.workers.getD 1

/-- The supplied aggregator is taken as it is. -/
def selectAggregator (config : Config) (sharedAggregator : Option ShardedAggregator) :
    ShardedAggregator :=
  let numShards := shardCount (totalWorkers config)
  sharedAggregator.getD
    (if config.noEndpointTracking.getD false then .newNoEndpointTracking numShards
      else .new numShards)

section

variable {n : Nat} (bucketOf : Nat → Option Nat)

/-- One `rx.recv()` of an aggregator thread: the shard comes from its counter, which then
moves on by the number of threads. -/
def receive (numShards : Nat) (state : (Fin n → Nat) × ShardedAggregator)
    (delivery : Fin n × Metric) : (Fin n → Nat) × ShardedAggregator :=
  let (counters,aggregator) := state
  let counter := counters delivery.1
  (Function.update counters delivery.1 ((counter + n) % 2^64),
    aggregator.add bucketOf (counter % numShards) delivery.2)

/-- The aggregator after the run. A metric is delivered to one of the `n` threads, and the
deliveries are in the order of the `add` calls. -/
def feed (config : Config) (sharedAggregator : Option ShardedAggregator)
    (deliveries : List (Fin n × Metric)) : ShardedAggregator :=
  (deliveries.foldl (receive bucketOf (shardCount (totalWorkers config)))
    (fun aggId => aggId,selectAggregator config sharedAggregator)).2

end

abbrev IterationOrder := ∀ {ν : Type}, FiniteMap String ν → List (String × ν)

/-- The threshold failures of the criteria, then of every scenario with thresholds. -/
def thresholdFailures (entries : IterationOrder) (reader : HistogramReader) (config : Config)
    (mergedAgg : StatsAggregator) : List String :=
  (match config.criteria with
    | some criteria => mergedAgg.validateThresholds reader (entries criteria)
    | none => []) ++
  (match config.scenarios with
    | some scenarios => (entries scenarios).flatMap fun (scenarioName,scenarioConfig) =>
      match scenarioConfig.thresholds with
      | some thresholds => mergedAgg.validateScenarioThresholds reader (entries mergedAgg.requests)
          scenarioName (entries thresholds)
      | none => []
    | none => [])

structure RunReport where
  stats : ReportStats
  thresholdFailures : List String

def makeReport (entries : IterationOrder) (reader : HistogramReader) (config : Config)
    (mergedAgg : StatsAggregator) : RunReport where
  stats := mergedAgg.toReport reader
  thresholdFailures := thresholdFailures entries reader config mergedAgg

def isRequest : Metric → Bool
  | .request .. => true
  | _ => false

variable {n : Nat} {bucketOf : Nat → Option Nat} {config : Config}
  {deliveries : List (Fin n × Metric)}

theorem commandLineAggregator_eq (config : Config) :
    commandLineAggregator config = .new (shardCount (totalWorkers config)) := by
  unfold commandLineAggregator totalWorkers
  cases config.scenarios <;> rfl

def addCalls (numShards : Nat) : (Fin n → Nat) → List (Fin n × Metric) → List (Nat × Metric)
  | _, [] => []
  | counters, delivery :: rest =>
    let counter := counters delivery.1
    (counter % numShards,delivery.2) ::
      addCalls numShards (Function.update counters delivery.1 ((counter + n) % 2^64)) rest

theorem addCalls_metrics (numShards : Nat) (counters : Fin n → Nat)
    (deliveries : List (Fin n × Metric)) :
    (addCalls numShards counters deliveries).map Prod.snd = deliveries.map Prod.snd := by
  induction deliveries generalizing counters with
  | nil => rfl
  | cons delivery rest ih => simp [addCalls,ih]

theorem foldl_receive (numShards : Nat) (counters : Fin n → Nat) (aggregator : ShardedAggregator) :
    (deliveries.foldl (receive bucketOf numShards) (counters,aggregator)).2 =
      aggregator.addAll bucketOf (addCalls numShards counters deliveries) := by
  induction deliveries generalizing counters aggregator with
  | nil => rfl
  | cons delivery rest ih => exact ih _ _

theorem feed_eq (sharedAggregator : Option ShardedAggregator) :
    feed bucketOf config sharedAggregator deliveries =
      (selectAggregator config sharedAggregator).addAll bucketOf
        (addCalls (shardCount (totalWorkers config)) (fun aggId => aggId) deliveries) :=
  foldl_receive _ _ _

theorem shardCount_pos (workers : Nat) : 0 < shardCount workers := by
  unfold shardCount
  omega

theorem select_commandLine :
    selectAggregator config (some (commandLineAggregator config)) =
      .create false (shardCount (totalWorkers config)) :=
  commandLineAggregator_eq config

theorem select_engine :
    selectAggregator config none =
      .create (config.noEndpointTracking.getD false) (shardCount (totalWorkers config)) := rfl

theorem merge_requests (flag : Bool) (numShards : Nat) (positive : 0 < numShards)
    (calls : List (Nat × Metric)) :
    ((ShardedAggregator.create flag numShards).addAll bucketOf calls).merge.requests =
      (StatsAggregator.addMetrics bucketOf flag (calls.map Prod.snd)).requests :=
  congrArg Summary.requests (ShardedAggregator.merge_addAll_eq_foldl bucketOf flag numShards positive calls)

theorem add_requests_untracked (a : StatsAggregator) (metric : Metric)
    (untracked : a.noEndpointTracking = true) : (a.add bucketOf metric).requests = a.requests := by
  cases metric with
  | request name timings status error tags =>
    simp only [StatsAggregator.add,StatsAggregator.addRequest,StatsAggregator.recordGlobal,
      StatsAggregator.recordFailedIteration]
    split_ifs <;> simp_all
  | _ => rfl

theorem requests_untracked (metrics : List Metric) :
    (StatsAggregator.addMetrics bucketOf true metrics).requests = ∅ := by
  induction metrics using List.reverseRecOn with
  | nil => rfl
  | append_singleton metrics metric ih =>
    rw [StatsAggregator.addMetrics_snoc,add_requests_untracked _ _
      (StatsAggregator.addMetrics_noEndpointTracking bucketOf true metrics),ih]

theorem requests_tracked (bucketOf : Nat → Option Nat) (metrics : List Metric) :
    sum (fun _ stats => stats.totalRequests) (StatsAggregator.addMetrics bucketOf false metrics).requests =
      metrics.countP isRequest := by
  apply StatsAggregator.addMetrics_countP bucketOf false
    (f := fun summary => sum (fun _ stats => stats.totalRequests) summary.requests)
  · exact sum_empty _
  · exact fun a b => sum_mergeWith _ _ (fun _ _ _ => rfl) a.requests b.requests
  · intro metric
    cases metric with
    | request name timings status error tags =>
      rw [StatsAggregator.weight_request_requests,if_neg Bool.false_ne_true,sum_upsert_empty]
      rfl
    | _ => exact sum_empty _

def setTracking (flag : Bool) (a : StatsAggregator) : StatsAggregator :=
  { a with noEndpointTracking := flag }

/-- Only requests look at the flag, and no metric changes it. -/
theorem add_setTracking (flag : Bool) (a : StatsAggregator) {metric : Metric}
    (other : isRequest metric = false) :
    (setTracking flag a).add bucketOf metric = setTracking flag (a.add bucketOf metric) := by
  cases metric with
  | request => cases other
  | _ => rfl

/-- The merge starts from a new aggregator and takes no flag from the shards. -/
theorem merge_setTracking (flag : Bool) (shards : List StatsAggregator) (numShards other : Nat) :
    (ShardedAggregator.mk (shards.map (setTracking flag)) numShards).merge =
      (ShardedAggregator.mk shards other).merge := by
  have same : ∀ merged : StatsAggregator,
      (shards.map (setTracking flag)).foldl StatsAggregator.absorbShard merged =
        shards.foldl StatsAggregator.absorbShard merged := by
    intro merged
    rw [List.foldl_map]
    rfl
  unfold ShardedAggregator.merge
  rw [same]

/-- Without a request it makes no difference whether endpoints are tracked. -/
theorem merge_create (flag other : Bool) (numShards : Nat) {calls : List (Nat × Metric)}
    (others : ∀ call ∈ calls, isRequest call.2 = false) :
    ((ShardedAggregator.create flag numShards).addAll bucketOf calls).merge =
      ((ShardedAggregator.create other numShards).addAll bucketOf calls).merge := by
  have untracked (flag : Bool) : ((ShardedAggregator.create flag numShards).addAll bucketOf calls).merge =
      ((ShardedAggregator.new numShards).addAll bucketOf calls).merge := by
    have flagged : ShardedAggregator.create flag numShards =
        ⟨(List.replicate numShards StatsAggregator.new).map (setTracking flag),numShards⟩ := by
      rw [ShardedAggregator.create_eq,List.map_replicate]
      rfl
    rw [flagged,ShardedAggregator.addAll_eq_feed,ShardedAggregator.addAll_eq_feed,Sharding.feed_map]
    · exact merge_setTracking flag _ _ _
    · intro feed member a
      obtain ⟨call,called,rfl⟩ := List.mem_map.mp member
      exact add_setTracking flag a (others call called)
  rw [untracked flag,untracked other]

theorem merged_eq (bucketOf : Nat → Option Nat) (same : config.noEndpointTracking ≠ some true ∨
      ∀ delivery ∈ deliveries, isRequest delivery.2 = false) :
    (feed bucketOf config (some (commandLineAggregator config)) deliveries).merge =
      (feed bucketOf config none deliveries).merge := by
  rw [feed_eq,feed_eq,select_commandLine,select_engine]
  rcases same with tracked | others
  · have flag : config.noEndpointTracking.getD false = false := by
      rcases h : config.noEndpointTracking with _ | _ | _ <;> simp_all
    rw [flag]
  · apply merge_create
    intro call member
    have metric : call.2 ∈ deliveries.map Prod.snd :=
      addCalls_metrics (shardCount (totalWorkers config)) (fun aggId => aggId) deliveries ▸
        List.mem_map_of_mem member
    obtain ⟨delivery,delivered,same⟩ := List.mem_map.mp metric
    exact same ▸ others delivery delivered

/-- The report is that of the engine's own aggregator, and neither lists endpoints when they
are not to be tracked. -/
def Equivalent (bucketOf : Nat → Option Nat) (entries : IterationOrder) (reader : HistogramReader)
    (config : Config) (deliveries : List (Fin n × Metric)) : Prop :=
  let supplied := makeReport entries reader config
    (feed bucketOf config (some (commandLineAggregator config)) deliveries).merge
  let own := makeReport entries reader config (feed bucketOf config none deliveries).merge
  supplied = own ∧ (config.noEndpointTracking = some true →
    supplied.stats.groupedRequests = ∅ ∧ own.stats.groupedRequests = ∅)

theorem mapEntries_eq_empty {κ ν μ : Type} [DecidableEq κ] {f : κ → ν → μ} {m : FiniteMap κ ν} :
    mapEntries f m = ∅ ↔ m = ∅ := by
  constructor
  · intro same
    apply Finmap.ext_lookup
    intro key
    have := congrArg (Finmap.lookup key) same
    simpa [lookup_mapEntries] using this
  · rintro rfl
    exact Finmap.ext_lookup fun key => by simp [lookup_mapEntries]

theorem grouped_feed (sharedAggregator : Option ShardedAggregator) (flag : Bool)
    (selected : selectAggregator config sharedAggregator = .create flag (shardCount (totalWorkers config))) :
    (feed bucketOf config sharedAggregator deliveries).merge.requests =
      (StatsAggregator.addMetrics bucketOf flag (deliveries.map Prod.snd)).requests := by
  rw [feed_eq,selected,merge_requests flag _ (shardCount_pos _),addCalls_metrics]

/-- The aggregator of the command line tracks endpoints whatever the configuration says,
which shows unless there is no request at all. -/
theorem equivalent_iff (bucketOf : Nat → Option Nat) (entries : IterationOrder)
    (reader : HistogramReader) (config : Config) (deliveries : List (Fin n × Metric)) :
    Equivalent bucketOf entries reader config deliveries ↔
      config.noEndpointTracking ≠ some true ∨
        ∀ delivery ∈ deliveries, isRequest delivery.2 = false := by
  constructor
  · rintro ⟨-,empty⟩
    by_cases tracked : config.noEndpointTracking = some true
    · right
      have none := mapEntries_eq_empty.mp (empty tracked).1
      rw [grouped_feed _ false select_commandLine] at none
      have counted := requests_tracked bucketOf (deliveries.map Prod.snd)
      rw [none,sum_empty] at counted
      intro delivery delivered
      have := List.countP_eq_zero.mp counted.symm delivery.2 (List.mem_map_of_mem delivered)
      simpa using this
    · exact .inl tracked
  · intro same
    have merged := merged_eq bucketOf same
    refine ⟨congrArg _ merged,?_⟩
    intro untracked
    have own : (feed bucketOf config none deliveries).merge.requests = ∅ := by
      rw [grouped_feed none true (by rw [select_engine,untracked]; rfl),requests_untracked]
    exact ⟨mapEntries_eq_empty.mpr (merged ▸ own),mapEntries_eq_empty.mpr own⟩

theorem endpoint_listed :
    let config : Config := { noEndpointTracking := some true }
    let delivery : Fin 1 × Metric := (0,.request "/" { duration := 5000000 } 200 none ∅)
    let report (sharedAggregator : Option ShardedAggregator) :=
      (feed hdrBucketOf config sharedAggregator [delivery]).merge.toReport hdrReader
    ((report (some (commandLineAggregator config))).groupedRequests.lookup "/").isSome ∧
      (report none).groupedRequests.lookup "/" = none := by
  decide +kernel

end Fusillade.Engine.SharedAggregator
