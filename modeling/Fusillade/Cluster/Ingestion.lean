import Fusillade.Stats.Invariants

/-! Metric batches that a controller receives over HTTP. A `Duration` addition past its
64 bits of seconds panics, and a panic under the write guard poisons the lock of the
aggregator for good; the integer counters wrap in a release build and stay exact here. -/
namespace Fusillade

namespace Cluster

open Stats FiniteMap

structure TimingField where
  measured : RequestTimings → Duration
  total : RequestStats → Duration

def timingFields : List TimingField := [
  ⟨(·.duration),(·.totalDuration)⟩,
  ⟨(·.blocked),(·.totalBlocked)⟩,
  ⟨(·.connecting),(·.totalConnecting)⟩,
  ⟨(·.tlsHandshaking),(·.totalTlsHandshaking)⟩,
  ⟨(·.sending),(·.totalSending)⟩,
  ⟨(·.waiting),(·.totalWaiting)⟩,
  ⟨(·.receiving),(·.totalReceiving)⟩]

variable (bucketOf : Nat → Option Nat)

/-- `none` when one of the seven additions panics. -/
def recordChecked (timings : RequestTimings) (error : Option String) (stats : RequestStats) :
    Option RequestStats := do
  let totalDuration ← Duration.addChecked stats.totalDuration timings.duration
  let totalBlocked ← Duration.addChecked stats.totalBlocked timings.blocked
  let totalConnecting ← Duration.addChecked stats.totalConnecting timings.connecting
  let totalTlsHandshaking ← Duration.addChecked stats.totalTlsHandshaking timings.tlsHandshaking
  let totalSending ← Duration.addChecked stats.totalSending timings.sending
  let totalWaiting ← Duration.addChecked stats.totalWaiting timings.waiting
  let totalReceiving ← Duration.addChecked stats.totalReceiving timings.receiving
  return { stats.record bucketOf timings error with
    totalDuration, totalBlocked, totalConnecting, totalTlsHandshaking, totalSending, totalWaiting,
    totalReceiving }

/-- `StatsAggregator::add`, `none` when it panics: the global total comes first, then those of
the request's group. -/
def addChecked (a : StatsAggregator) (metric : Metric) : Option StatsAggregator :=
  match metric with
  | .request name timings _ error tags =>
    let globally := isIteration name || (Duration.addChecked a.totalDuration timings.duration).isSome
    let stats := (a.requests.lookup (fullName name tags)).getD .new
    let grouped := a.noEndpointTracking || (recordChecked bucketOf timings error stats).isSome
    if globally && grouped then some (a.add bucketOf metric) else none
  | _ => some (a.add bucketOf metric)

structure MetricBatch where
  workerId : Nat
  metrics : List Metric

/-- What the lock guards, or none once it is poisoned: every later batch is dropped. -/
abbrev Lock := Option StatsAggregator

def handleMetrics (lock : Lock) (batch : MetricBatch) : Lock :=
  lock.bind fun guard => batch.metrics.foldlM (addChecked bucketOf) guard

def ingest (noEndpointTracking : Bool) (batches : List MetricBatch) : Lock :=
  batches.foldl (handleMetrics bucketOf) (some { StatsAggregator.new with noEndpointTracking })

def globalTime : Metric → Duration
  | .request name timings _ _ _ => if isIteration name then 0 else timings.duration
  | _ => 0

def groupTime (field : TimingField) (group : String) : Metric → Duration
  | .request name timings _ _ tags => if group = fullName name tags then field.measured timings else 0
  | _ => 0

/-- The times sent stay inside a `Duration`, over all requests and within every group. -/
structure Fits (noEndpointTracking : Bool) (metrics : List Metric) : Prop where
  globally : (metrics.map globalTime).sum < Duration.bound
  grouped : noEndpointTracking = false → ∀ group, ∀ field ∈ timingFields,
    (metrics.map (groupTime field group)).sum < Duration.bound

variable {bucketOf : Nat → Option Nat}

theorem recordChecked_isSome (timings : RequestTimings) (error : Option String)
    (stats : RequestStats) : (recordChecked bucketOf timings error stats).isSome ↔
      ∀ field ∈ timingFields, field.total stats + field.measured timings < Duration.bound := by
  simp [recordChecked,Option.isSome_iff_exists,Option.bind_eq_some_iff,Duration.addChecked_eq_some,
    timingFields,and_assoc]

theorem field_new {field : TimingField} (member : field ∈ timingFields) : field.total .new = 0 := by
  simp only [timingFields,List.mem_cons,List.not_mem_nil,or_false] at member
  rcases member with rfl | rfl | rfl | rfl | rfl | rfl | rfl <;> rfl

theorem field_combine {field : TimingField} (member : field ∈ timingFields) (a b : RequestStats) :
    field.total (a.combine b) = field.total a + field.total b := by
  simp only [timingFields,List.mem_cons,List.not_mem_nil,or_false] at member
  rcases member with rfl | rfl | rfl | rfl | rfl | rfl | rfl <;> rfl

theorem field_record {field : TimingField} (member : field ∈ timingFields) (timings : RequestTimings)
    (error : Option String) (stats : RequestStats) :
    field.total (stats.record bucketOf timings error) = field.total stats + field.measured timings := by
  simp only [timingFields,List.mem_cons,List.not_mem_nil,or_false] at member
  rcases member with rfl | rfl | rfl | rfl | rfl | rfl | rfl <;> rfl

def groupTotal (field : TimingField) (a : StatsAggregator) (group : String) : Duration :=
  part (fun _ => field.total) a.requests group

theorem groupTotal_eq {field : TimingField} (member : field ∈ timingFields) (a : StatsAggregator)
    (group : String) : groupTotal field a group = field.total ((a.requests.lookup group).getD .new) := by
  rw [groupTotal,part]
  cases a.requests.lookup group with
  | none => exact (field_new member).symm
  | some stats => rfl

theorem addMetrics_globalTime (flag : Bool) (metrics : List Metric) :
    (StatsAggregator.addMetrics bucketOf flag metrics).totalDuration =
      (metrics.map globalTime).sum := by
  have each (metric : Metric) :
      (StatsAggregator.weight bucketOf flag metric).totalDuration = globalTime metric := by
    cases metric with
    | request name timings status error tags =>
      rw [StatsAggregator.weight_request,StatsAggregator.globalWeight,
        StatsAggregator.iterationWeight,StatsAggregator.endpointWeight,globalTime]
      split_ifs <;> simp [Summary.combine,Summary.empty,StatsAggregator.summary,
        StatsAggregator.recordGlobal,StatsAggregator.recordFailedIteration,
        StatsAggregator.recordEndpoint,StatsAggregator.new]
    | check | log | histogram | rate | counter | gauge => rfl
  have sums := StatsAggregator.addMetrics_sum bucketOf flag (f := Summary.totalDuration) rfl
    (fun _ _ => rfl) metrics
  simp only [each] at sums
  exact sums

theorem addMetrics_groupTime {field : TimingField} (member : field ∈ timingFields)
    (metrics : List Metric) (group : String) :
    groupTotal field (StatsAggregator.addMetrics bucketOf false metrics) group =
      (metrics.map (groupTime field group)).sum := by
  have each (metric : Metric) : part (fun _ => field.total)
      (StatsAggregator.weight bucketOf false metric).requests group = groupTime field group metric := by
    cases metric with
    | request name timings status error tags =>
      rw [StatsAggregator.weight_request_requests,if_neg (by decide),part_upsert_empty,groupTime,
        field_record member,field_new member,Nat.zero_add]
    | check | log | histogram | rate | counter | gauge => rfl
  have sums := StatsAggregator.addMetrics_sum bucketOf false
    (f := fun s => part (fun _ => field.total) s.requests group) rfl
    (fun a b => part_mergeWith (fun _ => field_combine member) a.requests b.requests group) metrics
  simp only [each] at sums
  exact sums

theorem Fits.of_append {flag : Bool} {before after : List Metric} (fits : Fits flag (before ++ after)) :
    Fits flag before := by
  obtain ⟨globally,grouped⟩ := fits
  simp only [List.map_append,List.sum_append] at globally grouped
  exact ⟨Nat.lt_of_le_of_lt (Nat.le_add_right _ _) globally,fun tracked group field member =>
    Nat.lt_of_le_of_lt (Nat.le_add_right _ _) (grouped tracked group field member)⟩

structure FitsOn (a : StatsAggregator) (metric : Metric) : Prop where
  globally : a.totalDuration + globalTime metric < Duration.bound
  grouped : a.noEndpointTracking = false → ∀ group, ∀ field ∈ timingFields,
    groupTotal field a group + groupTime field group metric < Duration.bound

variable (bucketOf) in
theorem fits_snoc_iff (flag : Bool) (metrics : List Metric) (metric : Metric) :
    Fits flag (metrics ++ [metric]) ↔
      Fits flag metrics ∧ FitsOn (StatsAggregator.addMetrics bucketOf flag metrics) metric := by
  have tracking := StatsAggregator.addMetrics_noEndpointTracking bucketOf flag metrics
  constructor
  · intro fits
    have before := fits.of_append
    obtain ⟨globally,grouped⟩ := fits
    simp only [List.map_append,List.map_singleton,List.sum_append,List.sum_singleton] at globally grouped
    refine ⟨before,by rwa [addMetrics_globalTime],?_⟩
    intro tracked group field member
    obtain rfl : flag = false := tracking.symm.trans tracked
    rw [addMetrics_groupTime member]
    exact grouped rfl group field member
  · rintro ⟨_,globally,grouped⟩
    rw [addMetrics_globalTime] at globally
    refine ⟨by simpa using globally,?_⟩
    rintro rfl group field member
    have fits := grouped tracking group field member
    rw [addMetrics_groupTime member] at fits
    simpa using fits

variable (bucketOf) in
theorem fitsOn_of_timeless {flag : Bool} {metrics : List Metric} {metric : Metric}
    (fits : Fits flag metrics) (globally : globalTime metric = 0)
    (grouped : ∀ field group, groupTime field group metric = 0) :
    FitsOn (StatsAggregator.addMetrics bucketOf flag metrics) metric := by
  constructor
  · rw [globally,Nat.add_zero,addMetrics_globalTime]
    exact fits.globally
  · intro tracked group field member
    obtain rfl : flag = false :=
      (StatsAggregator.addMetrics_noEndpointTracking bucketOf flag metrics).symm.trans tracked
    rw [grouped,Nat.add_zero,addMetrics_groupTime member]
    exact fits.grouped rfl group field member

theorem request_fitsOn_iff {flag : Bool} {metrics : List Metric} (fits : Fits flag metrics)
    (name : String) (timings : RequestTimings) (status : UInt16) (error : Option String)
    (tags : HashMap String String) :
    FitsOn (StatsAggregator.addMetrics bucketOf flag metrics) (.request name timings status error tags) ↔
      (isIteration name ∨ (StatsAggregator.addMetrics bucketOf flag metrics).totalDuration +
        timings.duration < Duration.bound) ∧
      (flag ∨ ∀ field ∈ timingFields,
        groupTotal field (StatsAggregator.addMetrics bucketOf flag metrics) (fullName name tags) +
          field.measured timings < Duration.bound) := by
  have tracking := StatsAggregator.addMetrics_noEndpointTracking bucketOf flag metrics
  have idle : FitsOn (StatsAggregator.addMetrics bucketOf flag metrics) (.log "") :=
    fitsOn_of_timeless bucketOf fits rfl fun _ _ => rfl
  constructor
  · rintro ⟨globally,grouped⟩
    constructor
    · by_cases internal : isIteration name
      · exact .inl internal
      · simp only [globalTime,internal] at globally
        exact .inr globally
    · cases flag with
      | true => exact .inl rfl
      | false =>
        refine .inr fun field member => ?_
        simpa [groupTime] using grouped tracking (fullName name tags) field member
  · rintro ⟨globally,grouped⟩
    constructor
    · rw [globalTime]
      split
      next => exact idle.globally
      next external => exact globally.resolve_left external
    · intro tracked group field member
      have free := grouped.resolve_left (by simp [tracking.symm.trans tracked]) field member
      rw [groupTime]
      split
      next same => exact same ▸ free
      next => exact idle.grouped tracked group field member

theorem addChecked_eq_some_iff {flag : Bool} {metrics : List Metric} {b : StatsAggregator}
    (fits : Fits flag metrics) (metric : Metric) :
    addChecked bucketOf (StatsAggregator.addMetrics bucketOf flag metrics) metric = some b ↔
      FitsOn (StatsAggregator.addMetrics bucketOf flag metrics) metric ∧
        (StatsAggregator.addMetrics bucketOf flag metrics).add bucketOf metric = b := by
  cases metric with
  | request name timings status error tags =>
    have stats := fun field (member : field ∈ timingFields) => groupTotal_eq member
      (StatsAggregator.addMetrics bucketOf flag metrics) (fullName name tags)
    rw [request_fitsOn_iff fits]
    simp only [addChecked,Option.ite_none_right_eq_some,Option.some.injEq,Bool.and_eq_true,
      Bool.or_eq_true,Duration.addChecked_isSome,recordChecked_isSome,
      StatsAggregator.addMetrics_noEndpointTracking]
    refine and_congr_left fun _ => and_congr_right fun _ => or_congr_right ?_
    exact forall_congr' fun field => forall_congr' fun member => by rw [stats field member]
  | check | log | histogram | rate | counter | gauge =>
    simp only [addChecked,Option.some.injEq]
    exact (and_iff_right (fitsOn_of_timeless bucketOf fits rfl fun _ _ => rfl)).symm

theorem foldlM_addChecked_iff (flag : Bool) (metrics : List Metric) (b : StatsAggregator) :
    metrics.foldlM (addChecked bucketOf)
        { StatsAggregator.new with noEndpointTracking := flag } = some b ↔
      Fits flag metrics ∧ StatsAggregator.addMetrics bucketOf flag metrics = b := by
  induction metrics using List.reverseRecOn generalizing b with
  | nil =>
    have positive : 0 < Duration.bound := by decide
    have empty : Fits flag [] := ⟨positive,fun _ _ _ _ => positive⟩
    simp [empty,StatsAggregator.addMetrics]
  | append_singleton metrics metric ih =>
    rw [List.foldlM_append,Option.bind_eq_bind,Option.bind_eq_some_iff,fits_snoc_iff bucketOf,
      StatsAggregator.addMetrics_snoc]
    constructor
    · rintro ⟨c,before,last⟩
      obtain ⟨fits,rfl⟩ := (ih c).mp before
      simp only [List.foldlM_cons,List.foldlM_nil,bind_pure] at last
      obtain ⟨fitsOn,rfl⟩ := (addChecked_eq_some_iff fits metric).mp last
      exact ⟨⟨fits,fitsOn⟩,rfl⟩
    · rintro ⟨⟨fits,fitsOn⟩,rfl⟩
      refine ⟨_,(ih _).mpr ⟨fits,rfl⟩,?_⟩
      simp only [List.foldlM_cons,List.foldlM_nil,bind_pure]
      exact (addChecked_eq_some_iff fits metric).mpr ⟨fitsOn,rfl⟩

theorem ingest_eq (flag : Bool) (batches : List MetricBatch) :
    ingest bucketOf flag batches = (batches.flatMap (·.metrics)).foldlM (addChecked bucketOf)
      { StatsAggregator.new with noEndpointTracking := flag } := by
  induction batches using List.reverseRecOn with
  | nil => rfl
  | append_singleton batches batch ih =>
    rw [ingest,List.foldl_append,← ingest,ih,List.flatMap_append,List.foldlM_append]
    simp [handleMetrics]

/-- After each of the batches the lock is sound and every metric received is in it, exactly
when the times that were sent fit a `Duration`. -/
theorem ingestion_robust_iff (flag : Bool) (batches : List MetricBatch) :
    (∀ received, received <+: batches → ingest bucketOf flag received =
      some (StatsAggregator.addMetrics bucketOf flag (received.flatMap (·.metrics)))) ↔
      Fits flag (batches.flatMap (·.metrics)) := by
  have whole (batches : List MetricBatch) : ingest bucketOf flag batches =
      some (StatsAggregator.addMetrics bucketOf flag (batches.flatMap (·.metrics))) ↔
        Fits flag (batches.flatMap (·.metrics)) := by
    rw [ingest_eq,foldlM_addChecked_iff]
    exact and_iff_left rfl
  constructor
  · intro robust
    exact (whole batches).mp (robust batches (List.prefix_refl batches))
  · rintro fits received ⟨later,rfl⟩
    rw [whole]
    rw [List.flatMap_append] at fits
    exact fits.of_append

def endless : Metric := .request "/" { duration := Duration.bound - 1 } 200 none ∅

/-- Two such metrics poison the lock, and a log line sent later never arrives. -/
theorem lock_poisoned :
    ingest some false [⟨0,[endless,endless]⟩,⟨1,[.log "up"]⟩] = none := by decide +kernel

end Cluster

end Fusillade
