import Fusillade.Stats.Aggregator
import Fusillade.Lib.Sharding

/-! The abstract reading of an aggregator: what does not depend on the order of the
metrics, with a combination that knows neither shards nor updates. Adding a metric is
combining with the summary of that metric alone. -/
namespace Fusillade.Stats

open FiniteMap

def RequestStats.combine (a b : RequestStats) : RequestStats where
  totalRequests := a.totalRequests + b.totalRequests
  totalDuration := a.totalDuration + b.totalDuration
  minDuration := a.minDuration.merge min b.minDuration
  maxDuration := max a.maxDuration b.maxDuration
  histogram := a.histogram + b.histogram
  errorCount := a.errorCount + b.errorCount
  totalBlocked := a.totalBlocked + b.totalBlocked
  totalConnecting := a.totalConnecting + b.totalConnecting
  totalTlsHandshaking := a.totalTlsHandshaking + b.totalTlsHandshaking
  totalSending := a.totalSending + b.totalSending
  totalWaiting := a.totalWaiting + b.totalWaiting
  totalReceiving := a.totalReceiving + b.totalReceiving
  totalResponseSize := a.totalResponseSize + b.totalResponseSize
  totalRequestSize := a.totalRequestSize + b.totalRequestSize

@[ext] structure Summary where
  totalRequests : Nat
  totalDuration : Duration
  minDuration : Option Duration
  maxDuration : Duration
  statusCodes : HashMap UInt16 Nat
  errors : HashMap String Nat
  checks : HashMap String (Nat × Nat)
  histogram : Histogram
  requests : HashMap String RequestStats
  totalDataSent : Nat
  totalDataReceived : Nat
  histograms : HashMap String Histogram
  histogramSums : HashMap String ℚ
  rates : HashMap String (Nat × Nat)
  counters : HashMap String ℚ
  poolHits : Nat
  poolMisses : Nat
  failedIterations : Nat

namespace Summary

def empty : Summary :=
  ⟨0,0,none,0,∅,∅,∅,0,∅,0,0,∅,∅,∅,∅,0,0,0⟩

def combine (a b : Summary) : Summary where
  totalRequests := a.totalRequests + b.totalRequests
  totalDuration := a.totalDuration + b.totalDuration
  minDuration := a.minDuration.merge min b.minDuration
  maxDuration := max a.maxDuration b.maxDuration
  statusCodes := mergeWith (· + ·) a.statusCodes b.statusCodes
  errors := mergeWith (· + ·) a.errors b.errors
  checks := mergeWith (· + ·) a.checks b.checks
  histogram := a.histogram + b.histogram
  requests := mergeWith RequestStats.combine a.requests b.requests
  totalDataSent := a.totalDataSent + b.totalDataSent
  totalDataReceived := a.totalDataReceived + b.totalDataReceived
  histograms := mergeWith (· + ·) a.histograms b.histograms
  histogramSums := mergeWith (· + ·) a.histogramSums b.histogramSums
  rates := mergeWith (· + ·) a.rates b.rates
  counters := mergeWith (· + ·) a.counters b.counters
  poolHits := a.poolHits + b.poolHits
  poolMisses := a.poolMisses + b.poolMisses
  failedIterations := a.failedIterations + b.failedIterations

end Summary

def StatsAggregator.summary (a : StatsAggregator) : Summary where
  totalRequests := a.totalRequests
  totalDuration := a.totalDuration
  minDuration := a.minDuration
  maxDuration := a.maxDuration
  statusCodes := a.statusCodes
  errors := a.errors
  checks := a.checks
  histogram := a.histogram
  requests := a.requests
  totalDataSent := a.totalDataSent
  totalDataReceived := a.totalDataReceived
  histograms := a.histograms
  histogramSums := a.histogramSums
  rates := a.rates
  counters := a.counters
  poolHits := a.poolHits
  poolMisses := a.poolMisses
  failedIterations := a.failedIterations

instance : Std.Commutative RequestStats.combine where
  comm a b := by
    ext1 <;> simp only [RequestStats.combine,Nat.add_comm,Nat.max_comm,Multiset.add_comm]
    exact (Option.commutative_merge min).comm _ _

instance : Std.Associative RequestStats.combine where
  assoc a b c := by
    ext1 <;> simp only [RequestStats.combine,Nat.add_assoc,Nat.max_assoc,Multiset.add_assoc]
    exact (Option.associative_merge min).assoc _ _ _

namespace Summary

theorem combine_comm (a b : Summary) : combine a b = combine b a := by
  ext1 <;> simp only [combine,Nat.add_comm,Nat.max_comm,Multiset.add_comm]
  exact (Option.commutative_merge min).comm _ _
  all_goals exact mergeWith_comm _ _ _

theorem combine_assoc (a b c : Summary) : combine (combine a b) c = combine a (combine b c) := by
  ext1 <;> simp only [combine,Nat.add_assoc,Nat.max_assoc,Multiset.add_assoc]
  exact (Option.associative_merge min).assoc _ _ _
  all_goals exact mergeWith_assoc _ _ _ _

@[simp] theorem combine_empty (a : Summary) : combine a empty = a := by
  ext1 <;> simp [combine,empty]

@[simp] theorem empty_combine (a : Summary) : combine empty a = a := by
  ext1 <;> simp [combine,empty]

instance : Std.Commutative combine := ⟨combine_comm⟩
instance : Std.Associative combine := ⟨combine_assoc⟩
instance : Std.LawfulIdentity combine empty where
  left_id := empty_combine
  right_id := combine_empty

end Summary

theorem updateMin_eq_merge (old : Option Duration) (d : Duration) :
    updateMin old d = old.merge min (some d) := by
  cases old with
  | none => rfl
  | some m =>
    by_cases less : d < m
    · simp [updateMin,less,Nat.min_eq_right (Nat.le_of_lt less)]
    · simp [updateMin,less,Nat.min_eq_left (Nat.le_of_not_lt less)]

theorem updateMax_eq_max (old d : Duration) : updateMax old d = max old d := by
  unfold updateMax
  split
  next more => exact (Nat.max_eq_right (Nat.le_of_lt more)).symm
  next less => exact (Nat.max_eq_left (Nat.le_of_not_lt less)).symm

section

variable (bucketOf : Nat → Option Nat)

/-- A recorded request is a one-request entry combined into the old one. -/
theorem RequestStats.record_eq_combine (timings : RequestTimings) (error : Option String)
    (s : RequestStats) :
    s.record bucketOf timings error =
      s.combine (RequestStats.new.record bucketOf timings error) := by
  ext1 <;> simp only [record,combine,new,Nat.zero_add,updateMin_eq_merge,updateMax_eq_max,
    Option.merge_none_left,Nat.zero_max]
  · exact Histogram.record_eq_add _ _ _
  · split <;> rfl

theorem countOutcome_splits (success : Bool) (entry : Nat × Nat) :
    countOutcome success entry = entry + countOutcome success (0, 0) := by
  cases success <;> simp [countOutcome,Prod.ext_iff]

namespace StatsAggregator

/-- An update that combines the same summary into every aggregator. -/
def Contributes (update : StatsAggregator → StatsAggregator) : Prop :=
  ∃ weight, ∀ a, (update a).summary = a.summary.combine weight

theorem contributes_id : Contributes id :=
  ⟨.empty,fun a => (a.summary.combine_empty).symm⟩

theorem Contributes.comp {f g : StatsAggregator → StatsAggregator} (hf : Contributes f)
    (hg : Contributes g) : Contributes (f ∘ g) := by
  obtain ⟨w,hw⟩ := hf
  obtain ⟨v,hv⟩ := hg
  refine ⟨v.combine w,?_⟩
  intro a
  rw [Function.comp_apply,hw,hv,Summary.combine_assoc]

theorem Contributes.ite {f g : StatsAggregator → StatsAggregator} (c : Prop) [Decidable c]
    (hf : Contributes f) (hg : Contributes g) : Contributes (if c then f else g) := by
  split
  · exact hf
  · exact hg

theorem Contributes.summary_eq {update : StatsAggregator → StatsAggregator}
    (contributes : Contributes update) (a : StatsAggregator) :
    (update a).summary = a.summary.combine (update new).summary := by
  obtain ⟨w,hw⟩ := contributes
  rw [hw a,hw new]
  exact congrArg _ w.empty_combine.symm

theorem countError_eq_merge (error : Option String) (errors : HashMap String Nat) :
    countError error errors = mergeWith (· + ·) errors (countError error ∅) := by
  cases error with
  | none => simp [countError]
  | some err => exact upsert_eq_mergeWith 0 (· + 1) (· + ·) (by simp) err errors

theorem recordGlobal_contributes (timings : RequestTimings) (status : UInt16)
    (error : Option String) : Contributes (recordGlobal bucketOf timings status error) := by
  refine ⟨(recordGlobal bucketOf timings status error new).summary,?_⟩
  intro a
  ext1 <;> simp only [summary,recordGlobal,new,Summary.combine,mergeWith_empty,Nat.add_zero,
    Nat.zero_add,updateMin_eq_merge,updateMax_eq_max,Option.merge_none_left,
    Nat.zero_max]
  · exact upsert_eq_mergeWith 0 (· + 1) (· + ·) (by simp) status a.statusCodes
  · exact countError_eq_merge error a.errors
  · exact Histogram.record_eq_add _ _ _
  all_goals split <;> rfl

theorem recordFailedIteration_contributes (error : Option String) :
    Contributes (recordFailedIteration error) := by
  refine ⟨(recordFailedIteration error new).summary,?_⟩
  intro a
  have errors := countError_eq_merge error a.errors
  ext1 <;> simp [summary,recordFailedIteration,new,Summary.combine,errors]
  split <;> rfl

theorem recordEndpoint_contributes (name : String) (timings : RequestTimings)
    (error : Option String) (tags : HashMap String String) :
    Contributes (recordEndpoint bucketOf name timings error tags) := by
  refine ⟨(recordEndpoint bucketOf name timings error tags new).summary,?_⟩
  intro a
  have requests := upsert_eq_mergeWith _ _ _
    (RequestStats.record_eq_combine bucketOf timings error) (fullName name tags) a.requests
  ext1 <;> simp [summary,recordEndpoint,new,Summary.combine,requests]

/-- With the tracking flag known, a request is the composition of its enabled blocks. -/
theorem addRequest_eq (flag : Bool) (name : String) (timings : RequestTimings)
    (status : UInt16) (error : Option String) (tags : HashMap String String)
    (a : StatsAggregator) (known : a.noEndpointTracking = flag) :
    addRequest bucketOf name timings status error tags a =
      ((if flag then id else recordEndpoint bucketOf name timings error tags) ∘
        (if isIteration name && !isIterationTotal name then recordFailedIteration error else id) ∘
        (if isIteration name then id else recordGlobal bucketOf timings status error)) a := by
  subst known
  simp only [addRequest]
  split_ifs <;> simp_all [recordGlobal,recordFailedIteration]

theorem addRequest_contributes (flag : Bool) (name : String) (timings : RequestTimings)
    (status : UInt16) (error : Option String) (tags : HashMap String String) :
    Contributes ((if flag then id else recordEndpoint bucketOf name timings error tags) ∘
      (if isIteration name && !isIterationTotal name then recordFailedIteration error else id) ∘
      (if isIteration name then id else recordGlobal bucketOf timings status error)) := by
  have endpoint := contributes_id.ite (flag = true)
    (recordEndpoint_contributes bucketOf name timings error tags)
  have failed := (recordFailedIteration_contributes error).ite
    ((isIteration name && !isIterationTotal name) = true) contributes_id
  have globally := contributes_id.ite (isIteration name = true)
    (recordGlobal_contributes bucketOf timings status error)
  exact endpoint.comp (failed.comp globally)

/-- Every metric contributes the same summary to every aggregator of one tracking mode. -/
theorem add_contributes (flag : Bool) (metric : Metric) :
    ∃ weight : Summary, ∀ a : StatsAggregator, a.noEndpointTracking = flag →
      (add bucketOf a metric).summary = a.summary.combine weight := by
  cases metric with
  | request name timings status error tags =>
    obtain ⟨w,hw⟩ := addRequest_contributes bucketOf flag name timings status error tags
    refine ⟨w,?_⟩
    intro a known
    rw [add,addRequest_eq bucketOf flag name timings status error tags a known,hw]
  | log message =>
    exact ⟨.empty,fun a _ => (a.summary.combine_empty).symm⟩
  | gauge name value tags =>
    exact ⟨.empty,fun a _ => (a.summary.combine_empty).symm⟩
  | check name success message =>
    refine ⟨(add bucketOf new (.check name success message)).summary,?_⟩
    intro a _
    have checks := upsert_eq_mergeWith _ _ _ (countOutcome_splits success) name a.checks
    ext1 <;> simp [summary,add,new,Summary.combine,checks]
  | rate name success tags =>
    refine ⟨(add bucketOf new (.rate name success tags)).summary,?_⟩
    intro a _
    have rates := upsert_eq_mergeWith _ _ _ (countOutcome_splits success) name a.rates
    ext1 <;> simp [summary,add,new,Summary.combine,rates]
  | counter name value tags =>
    refine ⟨(add bucketOf new (.counter name value tags)).summary,?_⟩
    intro a _
    have counters := upsert_eq_mergeWith 0 (· + value) (· + ·) (by simp) name a.counters
    ext1 <;> simp [summary,add,new,Summary.combine,counters]
  | histogram name value tags =>
    refine ⟨(add bucketOf new (.histogram name value tags)).summary,?_⟩
    intro a _
    have histograms := upsert_eq_mergeWith _ _ _
      (Histogram.record_eq_add bucketOf (toMicros value)) name a.histograms
    have sums := upsert_eq_mergeWith 0 (· + value) (· + ·) (by simp) name a.histogramSums
    ext1 <;> simp [summary,add,new,Summary.combine,histograms,sums]

/-- The summary of one metric, added to an empty aggregator. -/
def weight (noEndpointTracking : Bool) (metric : Metric) : Summary :=
  (add bucketOf { new with noEndpointTracking } metric).summary

theorem add_summary (flag : Bool) (a : StatsAggregator) (metric : Metric)
    (known : a.noEndpointTracking = flag) :
    (add bucketOf a metric).summary = a.summary.combine (weight bucketOf flag metric) := by
  obtain ⟨w,hw⟩ := add_contributes bucketOf flag metric
  have alone := hw { new with noEndpointTracking := flag } rfl
  rw [hw a known,weight,alone]
  exact congrArg _ w.empty_combine.symm

/-- The group entries all hold at least one request, so their minimum is known. -/
def Valid (noEndpointTracking : Bool) (a : StatsAggregator) : Prop :=
  a.noEndpointTracking = noEndpointTracking ∧
  ∀ name stats, a.requests.lookup name = some stats → stats.minDuration.isSome

theorem new_valid (flag : Bool) : Valid flag { new with noEndpointTracking := flag } :=
  ⟨rfl,by simp [new]⟩

theorem recordEndpoint_known (name : String) (timings : RequestTimings)
    (error : Option String) (tags : HashMap String String) (a : StatsAggregator)
    (known : ∀ name stats, a.requests.lookup name = some stats → stats.minDuration.isSome)
    (key : String) (stats : RequestStats)
    (found : (recordEndpoint bucketOf name timings error tags a).requests.lookup key = some stats) :
    stats.minDuration.isSome := by
  simp only [recordEndpoint,lookup_upsert] at found
  split at found
  · obtain rfl := Option.some.inj found
    simp [RequestStats.record,updateMin_eq_merge,Option.isSome_merge]
  · exact known key stats found

theorem add_valid (flag : Bool) (a : StatsAggregator) (metric : Metric)
    (valid : Valid flag a) : Valid flag (add bucketOf a metric) := by
  refine ⟨(add_noEndpointTracking bucketOf a metric).trans valid.1,?_⟩
  cases metric with
  | request name timings status error tags =>
    rw [add,addRequest_eq bucketOf flag name timings status error tags a valid.1]
    have before : ((if isIteration name && !isIterationTotal name
        then recordFailedIteration error else id) ((if isIteration name then id
        else recordGlobal bucketOf timings status error) a)).requests = a.requests := by
      split_ifs <;> rfl
    simp only [Function.comp_apply]
    split
    · rw [id,before]; exact valid.2
    · apply recordEndpoint_known
      rw [before]
      exact valid.2
  | _ => exact valid.2

theorem homomorphic (flag : Bool) :
    Sharding.Homomorphic Summary.combine (Valid flag) (add bucketOf) summary
      (weight bucketOf flag) where
  keeps a metric := add_valid bucketOf flag a metric
  grows a metric valid := add_summary bucketOf flag a metric valid.1

end StatsAggregator

end

end Fusillade.Stats
