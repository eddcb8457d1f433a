import Fusillade.Stats.Sharded

/-! Gauges over shards. Within a shard the last update wins; the merge visits the shards by
their index, so there the highest shard that has the gauge wins. -/
namespace Fusillade.Stats

open FiniteMap

def gaugeValue (gauge : String) : Metric → Option ℚ
  | .gauge name value _ => if name = gauge then some value else none
  | _ => none

def lastGauge (gauge : String) (metrics : List Metric) : Option ℚ :=
  (metrics.filterMap (gaugeValue gauge)).getLast?

/-- The updates of a gauge, each with the shard that takes it. -/
def gaugeUpdates (numShards : Nat) (gauge : String) (calls : List (Nat × Metric)) : List (Nat × ℚ) :=
  calls.filterMap fun call =>
    (gaugeValue gauge call.2).map fun value => (call.1 % numShards,value)

def highestShard (updates : List (Nat × ℚ)) : Nat := (updates.map Prod.fst).foldr max 0

/-- The last value in the highest shard that has the gauge is the last value of all. -/
def HighestIsLast (updates : List (Nat × ℚ)) : Prop :=
  (updates.filter (·.1 = highestShard updates)).getLast?.map Prod.snd =
    updates.getLast?.map Prod.snd

theorem le_highestShard {updates : List (Nat × ℚ)} {update : Nat × ℚ} (member : update ∈ updates) :
    update.1 ≤ highestShard updates := by
  induction updates with
  | nil => simp at member
  | cons first rest ih =>
    rcases List.mem_cons.mp member with rfl | later
    · exact le_max_left ..
    · exact (ih later).trans (le_max_right ..)

theorem highestShard_mem {updates : List (Nat × ℚ)} (some : updates ≠ []) :
    ∃ update ∈ updates, update.1 = highestShard updates := by
  induction updates with
  | nil => contradiction
  | cons first rest ih =>
    rcases le_total (highestShard rest) first.1 with lower | higher
    · exact ⟨first,List.mem_cons_self,(max_eq_left lower).symm⟩
    · cases rest with
      | nil => exact ⟨first,List.mem_cons_self,by simp [highestShard]⟩
      | cons second more =>
        obtain ⟨update,member,same⟩ := ih (by simp)
        exact ⟨update,List.mem_cons_of_mem _ member,same.trans (max_eq_right higher).symm⟩

/-- Among numbered values the last one present is that of the highest number. -/
theorem getLast?_filterMap_range {α : Type} {f : Nat → Option α} {n h : Nat} (inside : h < n)
    (present : (f h).isSome) (above : ∀ i, h < i → f i = none) :
    ((List.range n).filterMap f).getLast? = f h := by
  induction n with
  | zero => omega
  | succ n ih =>
    rw [List.range_succ,List.filterMap_append]
    rcases Nat.lt_or_eq_of_le (Nat.le_of_lt_succ inside) with below | rfl
    · simpa [above n below] using ih below
    · obtain ⟨value,has⟩ := Option.isSome_iff_exists.mp present
      simp [has]

section

variable (bucketOf : Nat → Option Nat)

theorem add_gauge (a : StatsAggregator) (metric : Metric) (gauge : String) :
    (a.add bucketOf metric).gauges.lookup gauge =
      (gaugeValue gauge metric).or (a.gauges.lookup gauge) := by
  cases metric with
  | gauge name value tags =>
    rw [StatsAggregator.add,lookup_insert,gaugeValue]
    by_cases same : gauge = name
    · simp [same]
    · simp [same,Ne.symm same]
  | request name timings status error tags =>
    have same : (a.add bucketOf (.request name timings status error tags)).gauges = a.gauges := by
      simp only [StatsAggregator.add,StatsAggregator.addRequest]
      split_ifs <;> rfl
    rw [same]
    rfl
  | _ => rfl

theorem foldl_add_gauge (a : StatsAggregator) (metrics : List Metric) (gauge : String) :
    (metrics.foldl (StatsAggregator.add bucketOf) a).gauges.lookup gauge =
      (lastGauge gauge metrics).or (a.gauges.lookup gauge) := by
  induction metrics generalizing a with
  | nil => rfl
  | cons metric rest ih =>
    rw [List.foldl_cons,ih,add_gauge,lastGauge,lastGauge,List.filterMap_cons]
    cases gaugeValue gauge metric with
    | none => rfl
    | some value =>
      rw [List.getLast?_cons]
      cases (rest.filterMap (gaugeValue gauge)).getLast? <;> rfl

theorem foldl_absorbShard_gauge (merged : StatsAggregator) (shards : List StatsAggregator)
    (gauge : String) :
    (shards.foldl StatsAggregator.absorbShard merged).gauges.lookup gauge =
      (shards.filterMap (·.gauges.lookup gauge)).getLast?.or (merged.gauges.lookup gauge) := by
  induction shards generalizing merged with
  | nil => rfl
  | cons shard rest ih =>
    rw [List.foldl_cons,ih,StatsAggregator.absorbShard,lookup_absorb,List.filterMap_cons]
    cases shard.gauges.lookup gauge with
    | none => rfl
    | some value =>
      rw [List.getLast?_cons]
      cases (rest.filterMap (·.gauges.lookup gauge)).getLast? <;> rfl

theorem stream_gauge (numShards : Nat) (calls : List (Nat × Metric)) (gauge : String) (i : Nat) :
    lastGauge gauge (Sharding.stream (calls.map fun call => (call.1 % numShards,call.2)) i) =
      ((gaugeUpdates numShards gauge calls).filter (·.1 = i)).getLast?.map Prod.snd := by
  rw [lastGauge,← List.getLast?_map]
  congr 1
  induction calls with
  | nil => rfl
  | cons call rest ih =>
    simp only [Sharding.stream,gaugeUpdates,List.map_cons,List.filterMap_cons] at ih ⊢
    by_cases here : call.1 % numShards = i
    · cases value : gaugeValue gauge call.2 <;> simp [here,ih,value]
    · cases value : gaugeValue gauge call.2 <;> simp [here,ih]

theorem merge_gauge (flag : Bool) (numShards : Nat) (calls : List (Nat × Metric)) (gauge : String) :
    ((ShardedAggregator.create flag numShards).addAll bucketOf calls).merge.gauges.lookup gauge =
      ((List.range numShards).filterMap fun i =>
        ((gaugeUpdates numShards gauge calls).filter (·.1 = i)).getLast?.map Prod.snd).getLast? := by
  have shards : ((ShardedAggregator.create flag numShards).addAll bucketOf calls).shards =
      (List.range numShards).map fun i =>
        (Sharding.stream (calls.map fun call => (call.1 % numShards,call.2)) i).foldl
          (StatsAggregator.add bucketOf) { StatsAggregator.new with noEndpointTracking := flag } := by
    rw [ShardedAggregator.addAll_eq_feed,ShardedAggregator.create_eq]
    exact Sharding.feed_replicate _ _ _
  have start : ∀ i, lastGauge gauge
      (Sharding.stream (calls.map fun call => (call.1 % numShards,call.2)) i) =
      ((Sharding.stream (calls.map fun call => (call.1 % numShards,call.2)) i).foldl
        (StatsAggregator.add bucketOf)
        { StatsAggregator.new with noEndpointTracking := flag }).gauges.lookup gauge := by
    intro i
    rw [foldl_add_gauge]
    exact Option.or_none.symm
  change (List.foldl _ StatsAggregator.new _).gauges.lookup gauge = _
  rw [foldl_absorbShard_gauge,shards,List.filterMap_map]
  simp only [Function.comp_def,← start,stream_gauge]
  exact Option.or_none

/-- The merge reports the value of the last update of a gauge, as one aggregator does, exactly
when the highest shard that has the gauge says the same. -/
theorem merged_gauge_last_iff (flag : Bool) (numShards : Nat) (positive : 0 < numShards)
    (calls : List (Nat × Metric)) (gauge : String) :
    ((calls.map Prod.snd).foldl (StatsAggregator.add bucketOf)
        { StatsAggregator.new with noEndpointTracking := flag }).gauges.lookup gauge =
      lastGauge gauge (calls.map Prod.snd) ∧
    (((ShardedAggregator.create flag numShards).addAll bucketOf calls).merge.gauges.lookup gauge =
        lastGauge gauge (calls.map Prod.snd) ↔
      HighestIsLast (gaugeUpdates numShards gauge calls)) := by
  constructor
  · rw [foldl_add_gauge]
    exact Option.or_none
  have last : lastGauge gauge (calls.map Prod.snd) =
      (gaugeUpdates numShards gauge calls).getLast?.map Prod.snd := by
    rw [lastGauge,← List.getLast?_map,gaugeUpdates,List.filterMap_map,List.map_filterMap]
    simp [Function.comp_def]
  have inRange : ∀ update ∈ gaugeUpdates numShards gauge calls, update.1 < numShards := by
    intro update member
    obtain ⟨call,_,made⟩ := List.mem_filterMap.mp member
    obtain ⟨value,_,rfl⟩ := Option.map_eq_some_iff.mp made
    exact Nat.mod_lt _ positive
  rw [merge_gauge,last,HighestIsLast]
  generalize gaugeUpdates numShards gauge calls = updates at inRange
  by_cases some : updates = []
  · subst some
    simp
  · obtain ⟨top,member,same⟩ := highestShard_mem some
    rw [getLast?_filterMap_range (h := highestShard updates)]
    · exact same ▸ inRange top member
    · have there : top ∈ updates.filter (·.1 = highestShard updates) :=
        List.mem_filter.mpr ⟨member,decide_eq_true same⟩
      rw [Option.isSome_map,List.getLast?_eq_some_getLast (List.ne_nil_of_mem there)]
      rfl
    · intro i above
      have none : updates.filter (·.1 = i) = [] := by
        rw [List.filter_eq_nil_iff]
        intro update inside reached
        have := le_highestShard inside
        have := of_decide_eq_true reached
        omega
      rw [none]
      rfl

end

def queueSize (value : ℚ) : Metric := .gauge "queue_size" value ∅

/-- Worker 3 is the last to write, to the higher of the two shards. -/
theorem merged_gauge_last_two_shards :
    ((ShardedAggregator.create false 2).addAll some
        [(0,queueSize 7),(3,queueSize 5)]).merge.gauges.lookup "queue_size" =
      lastGauge "queue_size" [queueSize 7,queueSize 5] :=
  (merged_gauge_last_iff some false 2 (by decide) [(0,queueSize 7),(3,queueSize 5)]
    "queue_size").2.mpr (by unfold HighestIsLast; decide +kernel)

/-- The lower shard is written last, and the merge reports the other one. -/
theorem merged_gauge_stale :
    ((ShardedAggregator.create false 2).addAll some
        [(1,queueSize 5),(0,queueSize 7)]).merge.gauges.lookup "queue_size" ≠
      lastGauge "queue_size" [queueSize 5,queueSize 7] := by decide +kernel

end Fusillade.Stats
