import Fusillade.Stats.Summary

/-! `ShardedAggregator`: metrics spread over shards and merged for the report. -/
namespace Fusillade.Stats

open FiniteMap

structure ShardedAggregator where
  shards : List StatsAggregator
  numShards : Nat
  deriving DecidableEq

/-- The derived order of `Option<Duration>`: `None` is below every `Some`. -/
def optionLt : Option Duration → Option Duration → Bool
  | none, some _ => true
  | some a, some b => a < b
  | _, none => false

/-- One entry of a shard's `requests`, folded into the merged entry of its name. -/
def RequestStats.absorb (merged stats : RequestStats) : RequestStats where
  totalRequests := merged.totalRequests + stats.totalRequests
  totalDuration := merged.totalDuration + stats.totalDuration
  minDuration :=
    if merged.minDuration.isNone || optionLt stats.minDuration merged.minDuration
    then stats.minDuration else merged.minDuration
  maxDuration := if stats.maxDuration > merged.maxDuration then stats.maxDuration
    else merged.maxDuration
  errorCount := merged.errorCount + stats.errorCount
  histogram := merged.histogram + stats.histogram
  totalBlocked := merged.totalBlocked + stats.totalBlocked
  totalConnecting := merged.totalConnecting + stats.totalConnecting
  totalTlsHandshaking := merged.totalTlsHandshaking + stats.totalTlsHandshaking
  totalSending := merged.totalSending + stats.totalSending
  totalWaiting := merged.totalWaiting + stats.totalWaiting
  totalReceiving := merged.totalReceiving + stats.totalReceiving
  totalResponseSize := merged.totalResponseSize + stats.totalResponseSize
  totalRequestSize := merged.totalRequestSize + stats.totalRequestSize

def StatsAggregator.absorbShard (merged shard : StatsAggregator) : StatsAggregator :=
  { merged with
    totalRequests := merged.totalRequests + shard.totalRequests
    totalDuration := merged.totalDuration + shard.totalDuration
    totalDataSent := merged.totalDataSent + shard.totalDataSent
    totalDataReceived := merged.totalDataReceived + shard.totalDataReceived
    failedIterations := merged.failedIterations + shard.failedIterations
    minDuration := match shard.minDuration with
      | some shardMin =>
        if merged.minDuration.isNone || optionLt (some shardMin) merged.minDuration
        then some shardMin else merged.minDuration
      | none => merged.minDuration
    maxDuration := if shard.maxDuration > merged.maxDuration then shard.maxDuration
      else merged.maxDuration
    statusCodes := absorb (fun old count => old.getD 0 + count) merged.statusCodes shard.statusCodes
    errors := absorb (fun old count => old.getD 0 + count) merged.errors shard.errors
    checks := absorb (fun old entry => old.getD (0, 0) + entry) merged.checks shard.checks
    histogram := merged.histogram + shard.histogram
    requests := absorb (fun old stats => (old.getD RequestStats.new).absorb stats)
      merged.requests shard.requests
    histograms := absorb (fun old h => old.getD 0 + h) merged.histograms shard.histograms
    histogramSums := absorb (fun old sum => old.getD 0 + sum)
      merged.histogramSums shard.histogramSums
    rates := absorb (fun old entry => old.getD (0, 0) + entry) merged.rates shard.rates
    counters := absorb (fun old val => old.getD 0 + val) merged.counters shard.counters
    gauges := absorb (fun _ val => val) merged.gauges shard.gauges
    poolHits := merged.poolHits + shard.poolHits
    poolMisses := merged.poolMisses + shard.poolMisses
    logs := merged.logs ++ shard.logs }

namespace ShardedAggregator

def new (numShards : Nat) : ShardedAggregator :=
  ⟨List.replicate numShards StatsAggregator.new,numShards⟩

def newNoEndpointTracking (numShards : Nat) : ShardedAggregator :=
  ⟨List.replicate numShards { StatsAggregator.new with noEndpointTracking := true },numShards⟩

def add (bucketOf : Nat → Option Nat) (s : ShardedAggregator) (workerId : Nat)
    (metric : Metric) : ShardedAggregator :=
  { s with shards := s.shards.modify (workerId % s.numShards) (·.add bucketOf metric) }

/-- The loop over the shards, then the trim of the logs to the last hundred. -/
def merge (s : ShardedAggregator) : StatsAggregator :=
  let merged := s.shards.foldl StatsAggregator.absorbShard StatsAggregator.new
  { merged with logs := merged.logs.drop (merged.logs.length - 100) }

end ShardedAggregator

theorem optionLt_merge (old : Option Duration) (d : Duration) :
    (if old.isNone || optionLt (some d) old then some d else old) = old.merge min (some d) := by
  rw [← updateMin_eq_merge,updateMin]
  cases old <;> simp [optionLt]

theorem ite_gt_eq_max (a b : Duration) : (if b > a then b else a) = max a b :=
  updateMax_eq_max a b

theorem RequestStats.absorb_eq_combine (merged stats : RequestStats)
    (known : stats.minDuration.isSome) : merged.absorb stats = merged.combine stats := by
  obtain ⟨d,hd⟩ := Option.isSome_iff_exists.mp known
  ext1 <;> simp only [RequestStats.absorb,combine,ite_gt_eq_max]
  rw [hd,optionLt_merge]

theorem RequestStats.new_combine (stats : RequestStats) : new.combine stats = stats := by
  ext1 <;> simp [combine,new]

/-- Merging a shard combines the summaries. The entries of the shard must hold a minimum:
against an unknown one the comparison of options would erase the merged minimum. -/
theorem StatsAggregator.absorbShard_summary (flag : Bool) (merged shard : StatsAggregator)
    (valid : Valid flag shard) :
    (merged.absorbShard shard).summary = merged.summary.combine shard.summary := by
  ext1 <;> simp only [summary,absorbShard,Summary.combine,ite_gt_eq_max]
  · cases shard.minDuration with
    | none => simp
    | some d => exact optionLt_merge merged.minDuration d
  case requests =>
    apply absorb_eq_mergeWith _ _ _ _
    intro name stats found old
    have known := valid.2 name stats found
    cases old with
    | none => simp [RequestStats.absorb_eq_combine _ _ known,RequestStats.new_combine]
    | some entry => exact RequestStats.absorb_eq_combine entry stats known
  all_goals
    apply absorb_eq_mergeWith _ _ _ _
    intro _ value _ old
    cases old <;> simp

namespace ShardedAggregator

theorem foldl_absorbShard_summary (flag : Bool) (shards : List StatsAggregator)
    (merged : StatsAggregator) (valid : ∀ shard ∈ shards, shard.Valid flag) :
    (shards.foldl StatsAggregator.absorbShard merged).summary =
      merged.summary.combine
        (Sharding.total Summary.combine .empty (shards.map StatsAggregator.summary)) := by
  induction shards generalizing merged with
  | nil => exact (merged.summary.combine_empty).symm
  | cons shard rest ih =>
    rw [List.foldl_cons,ih _ fun s member => valid s (List.mem_cons_of_mem _ member),
      StatsAggregator.absorbShard_summary flag merged shard (valid shard List.mem_cons_self),
      Summary.combine_assoc]
    rfl

theorem merge_summary (flag : Bool) (s : ShardedAggregator)
    (valid : ∀ shard ∈ s.shards, shard.Valid flag) :
    s.merge.summary =
      Sharding.total Summary.combine .empty (s.shards.map StatsAggregator.summary) := by
  have folded := foldl_absorbShard_summary flag s.shards StatsAggregator.new valid
  exact folded.trans (Summary.empty_combine _)

section

variable (bucketOf : Nat → Option Nat)

def addAll (s : ShardedAggregator) (calls : List (Nat × Metric)) : ShardedAggregator :=
  calls.foldl (fun s call => s.add bucketOf call.1 call.2) s

theorem addAll_eq_feed (s : ShardedAggregator) (calls : List (Nat × Metric)) :
    s.addAll bucketOf calls =
      { s with shards := Sharding.feed (StatsAggregator.add bucketOf) s.shards
                (calls.map fun call => (call.1 % s.numShards, call.2)) } := by
  induction calls generalizing s with
  | nil => rfl
  | cons call rest ih => exact ih (s.add bucketOf call.1 call.2)

/-- The constructors of the engine: `no_endpoint_tracking` selects between them. -/
def create (noEndpointTracking : Bool) (numShards : Nat) : ShardedAggregator :=
  if noEndpointTracking then newNoEndpointTracking numShards else new numShards

theorem create_eq (flag : Bool) (numShards : Nat) :
    create flag numShards = ⟨List.replicate numShards
      { StatsAggregator.new with noEndpointTracking := flag },numShards⟩ := by
  cases flag <;> rfl

/-- The shards partition the stream, so the merge sums the weights of all its metrics. -/
theorem merge_addAll_summary (flag : Bool) (numShards : Nat) (positive : 0 < numShards)
    (calls : List (Nat × Metric)) :
    ((create flag numShards).addAll bucketOf calls).merge.summary =
      Sharding.total Summary.combine .empty
        (calls.map fun call => StatsAggregator.weight bucketOf flag call.2) := by
  have law := StatsAggregator.homomorphic bucketOf flag
  have start : ∀ shard ∈ (create flag numShards).shards, shard.Valid flag := by
    intro shard member
    rw [create_eq] at member
    rw [List.eq_of_mem_replicate member]
    exact StatsAggregator.new_valid flag
  have empty : Sharding.total Summary.combine .empty
      ((create flag numShards).shards.map StatsAggregator.summary) = .empty := by
    rw [create_eq]
    generalize numShards = n
    induction n with
    | zero => rfl
    | succ n ih =>
      simp only [List.replicate_succ,List.map_cons,Sharding.total,List.foldr_cons] at ih ⊢
      rw [ih]
      exact Summary.combine_empty _
  rw [addAll_eq_feed,merge_summary flag _ (Sharding.feed_valid law.keeps _ _ start),
    Sharding.total_feed law _ _ start,empty,Summary.empty_combine]
  · simp [List.map_map,Function.comp_def]
  · intro call member
    obtain ⟨original,_,rfl⟩ := List.mem_map.mp member
    simp [create_eq,Nat.mod_lt _ positive]

theorem foldl_add_summary (flag : Bool) (metrics : List Metric) :
    (metrics.foldl (StatsAggregator.add bucketOf)
      { StatsAggregator.new with noEndpointTracking := flag }).summary =
      Sharding.total Summary.combine .empty
        (metrics.map (StatsAggregator.weight bucketOf flag)) := by
  rw [Sharding.measure_foldl (StatsAggregator.homomorphic bucketOf flag) metrics _
    (StatsAggregator.new_valid flag)]
  exact Summary.empty_combine _

/-- The merge reports what one aggregator fed in the order of the calls would. -/
theorem merge_addAll_eq_foldl (flag : Bool) (numShards : Nat) (positive : 0 < numShards)
    (calls : List (Nat × Metric)) :
    ((create flag numShards).addAll bucketOf calls).merge.summary =
      ((calls.map Prod.snd).foldl (StatsAggregator.add bucketOf)
        { StatsAggregator.new with noEndpointTracking := flag }).summary := by
  rw [merge_addAll_summary bucketOf flag numShards positive calls,foldl_add_summary,List.map_map]
  rfl

theorem foldl_add_perm (flag : Bool) {xs ys : List Metric} (perm : xs.Perm ys) :
    (xs.foldl (StatsAggregator.add bucketOf)
      { StatsAggregator.new with noEndpointTracking := flag }).summary =
    (ys.foldl (StatsAggregator.add bucketOf)
      { StatsAggregator.new with noEndpointTracking := flag }).summary := by
  rw [foldl_add_summary,foldl_add_summary,Sharding.total_perm (perm.map _)]

/-- Any number of shards, any assignment of the metrics to them and any order of a single
`add` loop give the same report, on every field that does not depend on an order. -/
theorem merge_eq_single_aggregator (flag : Bool) (numShards : Nat) (positive : 0 < numShards)
    (calls : List (Nat × Metric)) (order : List Metric)
    (sameMetrics : order.Perm (calls.map Prod.snd)) :
    ((create flag numShards).addAll bucketOf calls).merge.summary =
      (order.foldl (StatsAggregator.add bucketOf)
        { StatsAggregator.new with noEndpointTracking := flag }).summary := by
  rw [merge_addAll_eq_foldl bucketOf flag numShards positive calls,
    foldl_add_perm bucketOf flag sameMetrics]

end

def fastRequest : Metric := .request "home" { duration := 90000 } 200 none ∅
def failedRequest : Metric := .request "home" { duration := 150000 } 0 (some "timeout") ∅

/-- Worker 0 and worker 3 feed different shards of two. -/
theorem merge_eq_single_aggregator_two_shards :
    ((create false 2).addAll some [(0,fastRequest),(3,failedRequest)]).merge.summary =
      ([failedRequest,fastRequest].foldl (StatsAggregator.add some) StatsAggregator.new).summary :=
  merge_eq_single_aggregator some false 2 (by decide) _ _ (List.Perm.swap _ _ _)

end ShardedAggregator

end Fusillade.Stats
