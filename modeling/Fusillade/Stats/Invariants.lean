import Fusillade.Stats.Sharded
import Fusillade.Lib.EntrySum

/-! What the counters of an aggregator say about each other. Every relation holds of the
summary of one metric and survives the combination of summaries, so it holds after any
sequence of `add` and after the merge of any shards; only the logs are not in the summary. -/
namespace Fusillade.Stats

open FiniteMap

/-- A count of durations next to their total, minimum and maximum. -/
structure Spread (count : Nat) (total : Duration) (low : Option Duration) (high : Duration) :
    Prop where
  known : low.isSome ↔ 0 < count
  total_le : total ≤ high * count
  le_total : ∀ d, low = some d → d ≤ high ∧ d * count ≤ total

/-- A `(total, passes)` pair that came from at least one outcome. -/
def Outcomes (entry : Nat × Nat) : Prop := entry.2 ≤ entry.1 ∧ 1 ≤ entry.1

structure RequestStats.Consistent (s : RequestStats) : Prop where
  requested : 1 ≤ s.totalRequests
  known : s.minDuration.isSome
  spread : Spread s.totalRequests s.totalDuration s.minDuration s.maxDuration
  errors : s.errorCount ≤ s.totalRequests

structure Summary.Consistent (noEndpointTracking : Bool) (s : Summary) : Prop where
  statuses : sumValues s.statusCodes = s.totalRequests
  pool : s.totalRequests = s.poolHits + s.poolMisses
  errors : sumValues s.errors ≤ s.totalRequests + s.failedIterations
  checks : Entries Outcomes s.checks
  rates : Entries Outcomes s.rates
  spread : Spread s.totalRequests s.totalDuration s.minDuration s.maxDuration
  entries : Entries RequestStats.Consistent s.requests
  groups : noEndpointTracking = false →
    s.totalRequests ≤ sum (fun _ stats => stats.totalRequests) s.requests

structure StatsAggregator.Consistent (noEndpointTracking : Bool) (a : StatsAggregator) : Prop where
  counters : a.summary.Consistent noEndpointTracking
  logs : a.logs.length ≤ 100

theorem Spread.zero : Spread 0 0 none 0 := ⟨by simp,by simp,by simp⟩

theorem Spread.once (d : Duration) : Spread 1 d (some d) d :=
  ⟨by simp,by simp,by simp⟩

theorem Spread.total_zero {total high : Duration} {low : Option Duration}
    (spread : Spread 0 total low high) : total = 0 := by
  simpa using spread.total_le

theorem Spread.combine {count count' : Nat} {total total' high high' : Duration}
    {low low' : Option Duration} (left : Spread count total low high)
    (right : Spread count' total' low' high') :
    Spread (count + count') (total + total') (low.merge min low') (max high high') := by
  refine ⟨?_,?_,?_⟩
  · rw [Option.isSome_merge,Bool.or_eq_true,left.known,right.known]
    omega
  · calc total + total' ≤ high * count + high' * count' := Nat.add_le_add left.total_le right.total_le
      _ ≤ max high high' * count + max high high' * count' :=
        Nat.add_le_add (Nat.mul_le_mul_right _ (le_max_left ..))
          (Nat.mul_le_mul_right _ (le_max_right ..))
      _ = max high high' * (count + count') := (Nat.mul_add ..).symm
  · intro d found
    cases low with
    | none =>
      have none : count = 0 := by simpa using left.known.not
      subst none
      rw [Option.merge_none_left] at found
      obtain ⟨below,least⟩ := right.le_total d found
      rw [left.total_zero,Nat.zero_add,Nat.zero_add]
      exact ⟨below.trans (le_max_right ..),least⟩
    | some m =>
      obtain ⟨below,least⟩ := left.le_total m rfl
      cases low' with
      | none =>
        have none : count' = 0 := by simpa using right.known.not
        subst none
        obtain rfl := Option.some.inj found
        rw [right.total_zero]
        exact ⟨below.trans (le_max_left ..),least⟩
      | some m' =>
        obtain rfl := Option.some.inj found
        obtain ⟨below',least'⟩ := right.le_total m' rfl
        refine ⟨(min_le_left ..).trans (below.trans (le_max_left ..)),?_⟩
        rw [Nat.mul_add]
        exact Nat.add_le_add ((Nat.mul_le_mul_right _ (min_le_left ..)).trans least)
          ((Nat.mul_le_mul_right _ (min_le_right ..)).trans least')

theorem Outcomes.add (a b : Nat × Nat) (left : Outcomes a) (right : Outcomes b) :
    Outcomes (a + b) := by
  obtain ⟨passes,total⟩ := left
  obtain ⟨passes',total'⟩ := right
  simp only [Outcomes,Prod.fst_add,Prod.snd_add]
  omega

theorem countOutcome_outcomes (success : Bool) : Outcomes (countOutcome success (0, 0)) := by
  cases success <;> simp [Outcomes,countOutcome]

theorem RequestStats.Consistent.combine (a b : RequestStats) (left : a.Consistent)
    (right : b.Consistent) : (a.combine b).Consistent where
  requested := left.requested.trans (Nat.le_add_right ..)
  known := by simp [RequestStats.combine,Option.isSome_merge,left.known]
  spread := left.spread.combine right.spread
  errors := Nat.add_le_add left.errors right.errors

theorem RequestStats.record_consistent (bucketOf : Nat → Option Nat) (timings : RequestTimings)
    (error : Option String) : (RequestStats.new.record bucketOf timings error).Consistent where
  requested := by simp [record,new]
  known := by simp [record,new,updateMin]
  spread := by
    have once := Spread.once timings.duration
    simpa [record,new,updateMin,updateMax_eq_max] using once
  errors := by
    cases error <;> simp [record,new]

namespace Summary

theorem empty_consistent (flag : Bool) : empty.Consistent flag where
  statuses := sumValues_empty
  pool := rfl
  errors := by simp [empty]
  checks := entries_empty _
  rates := entries_empty _
  spread := Spread.zero
  entries := entries_empty _
  groups := fun _ => Nat.zero_le _

theorem Consistent.combine {flag : Bool} {a b : Summary} (left : a.Consistent flag)
    (right : b.Consistent flag) : (a.combine b).Consistent flag where
  statuses := by
    simp only [Summary.combine,sumValues_mergeWith,left.statuses,right.statuses]
  pool := by
    have := left.pool
    have := right.pool
    simp only [Summary.combine]
    omega
  errors := by
    have := left.errors
    have := right.errors
    simp only [Summary.combine,sumValues_mergeWith]
    omega
  checks := left.checks.mergeWith Outcomes.add right.checks
  rates := left.rates.mergeWith Outcomes.add right.rates
  spread := left.spread.combine right.spread
  entries := left.entries.mergeWith RequestStats.Consistent.combine right.entries
  groups := by
    intro tracked
    have added := sum_mergeWith (fun _ stats => stats.totalRequests) RequestStats.combine
      (fun _ _ _ => rfl) a.requests b.requests
    have := left.groups tracked
    have := right.groups tracked
    simp only [Summary.combine]
    omega

theorem total_consistent {flag : Bool} (summaries : List Summary)
    (each : ∀ s ∈ summaries, s.Consistent flag) :
    (Sharding.total Summary.combine empty summaries).Consistent flag := by
  induction summaries with
  | nil => exact empty_consistent flag
  | cons s rest ih =>
    exact (each s List.mem_cons_self).combine (ih fun t member => each t (List.mem_cons_of_mem _ member))

end Summary

section

variable (bucketOf : Nat → Option Nat)

namespace StatsAggregator

theorem countError_sum (error : Option String) :
    sumValues (countError error ∅) = if error.isSome then 1 else 0 := by
  cases error with
  | none => exact sumValues_empty
  | some err => exact sumValues_upsert_empty 0 (· + 1) err

theorem recordGlobal_consistent (timings : RequestTimings) (status : UInt16)
    (error : Option String) :
    (recordGlobal bucketOf timings status error new).summary.Consistent true where
  statuses := sumValues_upsert_empty 0 (· + 1) status
  pool := by
    simp only [summary,recordGlobal,new]
    split <;> rfl
  errors := by
    simp only [summary,recordGlobal,new,countError_sum]
    split <;> omega
  checks := entries_empty _
  rates := entries_empty _
  spread := by
    have once := Spread.once timings.duration
    simpa [summary,recordGlobal,new,updateMin,updateMax_eq_max] using once
  entries := entries_empty _
  groups := by simp

theorem recordFailedIteration_consistent (error : Option String) :
    (recordFailedIteration error new).summary.Consistent true where
  statuses := sumValues_empty
  pool := rfl
  errors := by
    simp only [summary,recordFailedIteration,new,countError_sum]
    split <;> omega
  checks := entries_empty _
  rates := entries_empty _
  spread := Spread.zero
  entries := entries_empty _
  groups := by simp

theorem recordEndpoint_consistent (name : String) (timings : RequestTimings)
    (error : Option String) (tags : HashMap String String) :
    (recordEndpoint bucketOf name timings error tags new).summary.Consistent true where
  statuses := sumValues_empty
  pool := rfl
  errors := by simp [summary,recordEndpoint,new]
  checks := entries_empty _
  rates := entries_empty _
  spread := Spread.zero
  entries := entries_upsert_empty _ (RequestStats.record_consistent bucketOf timings error)
  groups := by simp

/-- The summaries of the three blocks, each as far as the metric takes it. -/
def globalWeight (name : String) (timings : RequestTimings) (status : UInt16)
    (error : Option String) : Summary :=
  if isIteration name then .empty else (recordGlobal bucketOf timings status error new).summary

def iterationWeight (name : String) (error : Option String) : Summary :=
  if isIteration name && !isIterationTotal name then (recordFailedIteration error new).summary
  else .empty

def endpointWeight (noEndpointTracking : Bool) (name : String) (timings : RequestTimings)
    (error : Option String) (tags : HashMap String String) : Summary :=
  if noEndpointTracking then .empty
  else (recordEndpoint bucketOf name timings error tags new).summary

theorem weight_request (flag : Bool) (name : String) (timings : RequestTimings)
    (status : UInt16) (error : Option String) (tags : HashMap String String) :
    weight bucketOf flag (.request name timings status error tags) =
      ((globalWeight bucketOf name timings status error).combine
        (iterationWeight name error)).combine
        (endpointWeight bucketOf flag name timings error tags) := by
  have endpoint := contributes_id.ite (flag = true)
    (recordEndpoint_contributes bucketOf name timings error tags)
  have failed := (recordFailedIteration_contributes error).ite
    ((isIteration name && !isIterationTotal name) = true) contributes_id
  rw [weight,add,addRequest_eq bucketOf flag name timings status error tags _ rfl,
    Function.comp_apply,endpoint.summary_eq,Function.comp_apply,failed.summary_eq,
    globalWeight,iterationWeight,endpointWeight]
  congr 2
  all_goals split_ifs <;> rfl

@[simp] theorem weight_request_totalRequests (flag : Bool) (name : String)
    (timings : RequestTimings) (status : UInt16) (error : Option String)
    (tags : HashMap String String) :
    (weight bucketOf flag (.request name timings status error tags)).totalRequests =
      if isIteration name then 0 else 1 := by
  rw [weight_request,globalWeight,iterationWeight,endpointWeight]
  split_ifs <;> rfl

theorem weight_request_requests (flag : Bool) (name : String) (timings : RequestTimings)
    (status : UInt16) (error : Option String) (tags : HashMap String String) :
    (weight bucketOf flag (.request name timings status error tags)).requests =
      if flag then ∅ else upsert RequestStats.new (RequestStats.record bucketOf timings error)
        (fullName name tags) ∅ := by
  have globally : (globalWeight bucketOf name timings status error).requests = ∅ := by
    unfold globalWeight
    split <;> rfl
  have failed : (iterationWeight name error).requests = ∅ := by
    unfold iterationWeight
    split <;> rfl
  rw [weight_request,Summary.combine,Summary.combine,globally,failed,empty_mergeWith,
    empty_mergeWith,endpointWeight]
  split <;> rfl

theorem weight_request_consistent (flag : Bool) (name : String) (timings : RequestTimings)
    (status : UInt16) (error : Option String) (tags : HashMap String String) :
    (weight bucketOf flag (.request name timings status error tags)).Consistent flag := by
  have counters : (weight bucketOf flag (.request name timings status error tags)).Consistent
      true := by
    rw [weight_request,globalWeight,iterationWeight,endpointWeight]
    refine .combine (.combine ?_ ?_) ?_
    · split
      · exact Summary.empty_consistent true
      · exact recordGlobal_consistent bucketOf timings status error
    · split
      · exact recordFailedIteration_consistent error
      · exact Summary.empty_consistent true
    · split
      · exact Summary.empty_consistent true
      · exact recordEndpoint_consistent bucketOf name timings error tags
  refine { counters with groups := ?_ }
  rintro rfl
  rw [weight_request_requests,if_neg (by decide),sum_upsert_empty,weight_request_totalRequests]
  split <;> simp [RequestStats.record,RequestStats.new]

theorem weight_consistent (flag : Bool) (metric : Metric) :
    (weight bucketOf flag metric).Consistent flag := by
  have start : ({ new with noEndpointTracking := flag } : StatsAggregator).summary.Consistent flag :=
    Summary.empty_consistent flag
  cases metric with
  | request name timings status error tags =>
    exact weight_request_consistent bucketOf flag name timings status error tags
  | check name success message =>
    exact { start with
      checks := entries_upsert_empty name (countOutcome_outcomes success) }
  | rate name success tags =>
    exact { start with
      rates := entries_upsert_empty name (countOutcome_outcomes success) }
  | log message => exact start
  | histogram name value tags => exact { start with }
  | counter name value tags => exact { start with }
  | gauge name value tags => exact start

theorem add_logs (a : StatsAggregator) (metric : Metric) (bounded : a.logs.length ≤ 100) :
    (add bucketOf a metric).logs.length ≤ 100 := by
  cases metric with
  | log message =>
    simp only [add]
    split
    next => simpa using bounded
    next => omega
  | request name timings status error tags =>
    have same : (add bucketOf a (.request name timings status error tags)).logs = a.logs := by
      simp only [add,addRequest]
      split_ifs <;> rfl
    exact same ▸ bounded
  | _ => exact bounded

/-- One step: a metric keeps the relations between the counters. -/
theorem add_consistent (flag : Bool) (a : StatsAggregator) (metric : Metric)
    (known : a.noEndpointTracking = flag) (consistent : a.Consistent flag) :
    (add bucketOf a metric).Consistent flag where
  counters := by
    rw [add_summary bucketOf flag a metric known]
    exact consistent.counters.combine (weight_consistent bucketOf flag metric)
  logs := add_logs bucketOf a metric consistent.logs

theorem new_consistent (flag : Bool) :
    ({ new with noEndpointTracking := flag } : StatsAggregator).Consistent flag :=
  ⟨Summary.empty_consistent flag,Nat.zero_le _⟩

/-- The aggregator after a sequence of `add` calls. -/
def addMetrics (noEndpointTracking : Bool) (metrics : List Metric) : StatsAggregator :=
  metrics.foldl (add bucketOf) { new with noEndpointTracking }

theorem addMetrics_snoc (flag : Bool) (metrics : List Metric) (metric : Metric) :
    addMetrics bucketOf flag (metrics ++ [metric]) = add bucketOf (addMetrics bucketOf flag metrics) metric := by
  simp [addMetrics,List.foldl_append]

theorem addMetrics_noEndpointTracking (flag : Bool) (metrics : List Metric) :
    (addMetrics bucketOf flag metrics).noEndpointTracking = flag := by
  induction metrics using List.reverseRecOn with
  | nil => rfl
  | append_singleton metrics metric ih => rw [addMetrics_snoc,add_noEndpointTracking,ih]

theorem addMetrics_consistent (flag : Bool) (metrics : List Metric) :
    (addMetrics bucketOf flag metrics).Consistent flag := by
  induction metrics using List.reverseRecOn with
  | nil => exact new_consistent flag
  | append_singleton metrics metric ih =>
    rw [addMetrics_snoc]
    exact add_consistent bucketOf flag _ metric (addMetrics_noEndpointTracking bucketOf flag metrics) ih

theorem addMetrics_valid (flag : Bool) (metrics : List Metric) :
    (addMetrics bucketOf flag metrics).Valid flag :=
  ⟨addMetrics_noEndpointTracking bucketOf flag metrics,fun name stats found =>
    ((addMetrics_consistent bucketOf flag metrics).counters.entries name stats found).known⟩

/-- A quantity of the summary that combining adds up is summed over the metrics. -/
theorem addMetrics_sum {M : Type} [AddCommMonoid M] (flag : Bool) {f : Summary → M}
    (empty : f .empty = 0) (additive : ∀ a b, f (a.combine b) = f a + f b) (metrics : List Metric) :
    f (addMetrics bucketOf flag metrics).summary =
      (metrics.map fun metric => f (weight bucketOf flag metric)).sum := by
  induction metrics using List.reverseRecOn with
  | nil => exact empty
  | append_singleton metrics metric ih =>
    rw [addMetrics_snoc,add_summary bucketOf flag _ _ (addMetrics_noEndpointTracking ..),additive,ih,
      List.map_append,List.sum_append,List.map_singleton,List.sum_singleton]

/-- A number that metrics move by one counts the metrics that do. -/
theorem addMetrics_countP (flag : Bool) {f : Summary → Nat} (empty : f .empty = 0)
    (additive : ∀ a b, f (a.combine b) = f a + f b) {p : Metric → Bool}
    (moved : ∀ metric, f (weight bucketOf flag metric) = if p metric then 1 else 0)
    (metrics : List Metric) : f (addMetrics bucketOf flag metrics).summary = metrics.countP p := by
  rw [addMetrics_sum bucketOf flag empty additive]
  simp only [moved]
  induction metrics with
  | nil => rfl
  | cons metric rest ih => rw [List.map_cons,List.sum_cons,ih,List.countP_cons,Nat.add_comm]

end StatsAggregator

/-- Shards that were each fed by `add`, under any constructor of the engine. -/
def ShardedAggregator.fed (noEndpointTracking : Bool) (streams : List (List Metric)) :
    ShardedAggregator :=
  ⟨streams.map (StatsAggregator.addMetrics bucketOf noEndpointTracking),streams.length⟩

theorem ShardedAggregator.merge_consistent (flag : Bool) (streams : List (List Metric)) :
    (fed bucketOf flag streams).merge.Consistent flag where
  counters := by
    rw [merge_summary flag]
    · apply Summary.total_consistent
      intro s member
      obtain ⟨shard,inside,rfl⟩ := List.mem_map.mp member
      obtain ⟨metrics,_,rfl⟩ := List.mem_map.mp inside
      exact (StatsAggregator.addMetrics_consistent bucketOf flag metrics).counters
    · intro shard inside
      obtain ⟨metrics,_,rfl⟩ := List.mem_map.mp inside
      exact StatsAggregator.addMetrics_valid bucketOf flag metrics
  logs := by
    simp only [merge,List.length_drop]
    omega

/-- The counters agree in every aggregator that a sequence of metrics reaches and in the
merge of any shards reached that way. -/
theorem reachable_consistent (flag : Bool) :
    (∀ metrics, (StatsAggregator.addMetrics bucketOf flag metrics).Consistent flag) ∧
      ∀ streams, (ShardedAggregator.fed bucketOf flag streams).merge.Consistent flag :=
  ⟨StatsAggregator.addMetrics_consistent bucketOf flag,
    ShardedAggregator.merge_consistent bucketOf flag⟩

end

end Fusillade.Stats
