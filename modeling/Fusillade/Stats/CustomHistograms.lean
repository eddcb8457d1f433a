import Fusillade.Stats.Invariants
import Fusillade.Stats.Report
import Mathlib.Algebra.Order.Field.Rat
import Mathlib.Algebra.Order.BigOperators.Group.List
import Mathlib.Tactic.Linarith

/-! Custom histograms: the samples of a name, their number and their sum in the aggregator, and
the report. What `hdrhistogram` does with a value is a parameter that keeps to its documentation. -/
namespace Fusillade.Stats

open FiniteMap

def sample (name : String) : Metric → Option ℚ
  | .histogram other value _ => if other = name then some value else none
  | _ => none

def samples (name : String) (metrics : List Metric) : List ℚ := metrics.filterMap (sample name)

def resolution : ℚ := 1 / 1000

/-- The report counts the samples, and their average is between the extremes. -/
def Summarised (samples : List ℚ) (report : HistogramReport) : Prop :=
  report.count = samples.length ∧ report.min - resolution ≤ report.avg ∧ report.avg ≤ report.max + resolution

section

variable (bucketOf : Nat → Option Nat)

def recorded (values : List Nat) : Histogram := values.foldl (fun h value => h.record bucketOf value) 0

/-- `record` takes the values up to a limit, `min` is at most and `max` at least what was taken. -/
structure HdrLaws (reader : HistogramReader) (limit : Nat) : Prop where
  accepts : ∀ value, (bucketOf value).isSome ↔ value ≤ limit
  trackable : limit < 2^64 - 1
  min_le : ∀ values, ∀ value ∈ values, value ≤ limit → reader.min (recorded bucketOf values) ≤ value
  le_max : ∀ values, ∀ value ∈ values, value ≤ limit → value ≤ reader.max (recorded bucketOf values)

variable {bucketOf} {reader : HistogramReader} {limit : Nat}

theorem recorded_concat (values : List Nat) (value : Nat) :
    recorded bucketOf (values ++ [value]) = (recorded bucketOf values).record bucketOf value := by
  rw [recorded,List.foldl_concat,recorded]

theorem card_recorded (values : List Nat) :
    (recorded bucketOf values).card = (values.filter fun value => (bucketOf value).isSome).length := by
  induction values using List.reverseRecOn with
  | nil => rfl
  | append_singleton values value ih =>
    rw [recorded_concat,List.filter_append,List.length_append,← ih,Histogram.record]
    cases taken : bucketOf value <;> simp [taken]

theorem add_sample (a : StatsAggregator) (metric : Metric) (name : String) :
    (a.add bucketOf metric).histograms.lookup name =
        (match sample name metric with
          | some value => some (((a.histograms.lookup name).getD 0).record bucketOf (toMicros value))
          | none => a.histograms.lookup name) ∧
      (a.add bucketOf metric).histogramSums.lookup name =
        match sample name metric with
        | some value => some ((a.histogramSums.lookup name).getD 0 + value)
        | none => a.histogramSums.lookup name := by
  cases metric with
  | histogram other value tags =>
    simp only [StatsAggregator.add,sample,lookup_upsert,eq_comm (a := other)]
    by_cases same : name = other
    · subst same
      simp
    · simp [same]
  | request name timings status error tags =>
    simp only [StatsAggregator.add,StatsAggregator.addRequest,sample]
    split_ifs <;> exact ⟨rfl,rfl⟩
  | check | log | counter | gauge | rate => exact ⟨rfl,rfl⟩

def Holds (bucketOf : Nat → Option Nat) (name : String) (taken : List ℚ) (a : StatsAggregator) : Prop :=
  a.histograms.lookup name = (if taken = [] then none else some (recorded bucketOf (taken.map toMicros))) ∧
    a.histogramSums.lookup name = if taken = [] then none else some taken.sum

theorem samples_concat (name : String) (metrics : List Metric) (metric : Metric) :
    samples name (metrics ++ [metric]) = samples name metrics ++ (sample name metric).toList := by
  rw [samples,List.filterMap_append,samples]
  cases taken : sample name metric <;> simp [taken]

theorem addMetrics_holds (flag : Bool) (metrics : List Metric) (name : String) :
    Holds bucketOf name (samples name metrics) (StatsAggregator.addMetrics bucketOf flag metrics) := by
  induction metrics using List.reverseRecOn with
  | nil => exact ⟨rfl,rfl⟩
  | append_singleton metrics metric ih =>
    obtain ⟨values,sums⟩ := ih
    obtain ⟨taken,added⟩ := @add_sample bucketOf (StatsAggregator.addMetrics bucketOf flag metrics) metric name
    rw [Holds,StatsAggregator.addMetrics_snoc,taken,added,values,sums,samples_concat]
    cases sample name metric with
    | none => simp
    | some value =>
      by_cases first : samples name metrics = []
      · simp [first,recorded]
      · simp [first,recorded_concat]

theorem lookup_report (flag : Bool) (metrics : List Metric) (name : String) :
    ((StatsAggregator.addMetrics bucketOf flag metrics).toReport reader).histograms.lookup name =
      if samples name metrics = [] then none
      else some (histogramReport reader (samples name metrics).sum
        (recorded bucketOf ((samples name metrics).map toMicros))) := by
  obtain ⟨values,sums⟩ := @addMetrics_holds bucketOf flag metrics name
  rw [StatsAggregator.toReport,lookup_mapEntries,values,sums]
  split <;> rfl

/-- A stored sample is off by less than a unit, except from below zero. -/
theorem toMicros_bounds {value : ℚ} (inRange : toMicros value < 2^64 - 1) :
    value ≤ toMicros value * resolution + resolution ∧
      (0 < toMicros value → toMicros value * resolution ≤ value) := by
  have stored : toMicros value = (value * 1000).floor.toNat := by
    unfold toMicros at inRange ⊢
    omega
  have below : (((value * 1000).floor : ℤ) : ℚ) ≤ value * 1000 := Rat.floor_le _
  have above : value * 1000 < (((value * 1000).floor + 1 : ℤ) : ℚ) := Rat.lt_floor_add_one _
  rw [stored,resolution]
  push_cast at above
  constructor
  · have atLeast : (((value * 1000).floor : ℤ) : ℚ) ≤ ((value * 1000).floor.toNat : ℚ) := by
      exact_mod_cast Int.self_le_toNat _
    linarith
  · intro positive
    have same : (((value * 1000).floor.toNat : ℕ) : ℚ) = (((value * 1000).floor : ℤ) : ℚ) := by
      exact_mod_cast Int.toNat_of_nonneg (by omega)
    linarith

theorem resolution_pos : 0 < resolution := by norm_num [resolution]

theorem sum_le_max (laws : HdrLaws bucketOf reader limit) {values : List ℚ}
    (inRange : ∀ value ∈ values, toMicros value ≤ limit) :
    values.sum ≤
      values.length * (reader.max (recorded bucketOf (values.map toMicros)) * resolution + resolution) := by
  rw [← nsmul_eq_mul]
  refine List.sum_le_card_nsmul values _ ?_
  intro value member
  have greatest := laws.le_max _ _ (List.mem_map_of_mem member) (inRange value member)
  have fits : (toMicros value : ℚ) ≤ reader.max (recorded bucketOf (values.map toMicros)) := by
    exact_mod_cast greatest
  have scaled := mul_le_mul_of_nonneg_right fits resolution_pos.le
  have stored := (toMicros_bounds (Nat.lt_of_le_of_lt (inRange value member) laws.trackable)).1
  linarith

/-- A sample that is stored as zero makes `min` zero; without one nothing is below its stored value. -/
theorem min_le_sum (laws : HdrLaws bucketOf reader limit) {values : List ℚ}
    (inRange : ∀ value ∈ values, toMicros value ≤ limit) (total : -(values.length * resolution) ≤ values.sum) :
    values.length * (reader.min (recorded bucketOf (values.map toMicros)) * resolution - resolution) ≤
      values.sum := by
  have least : ∀ value ∈ values, reader.min (recorded bucketOf (values.map toMicros)) ≤ toMicros value :=
    fun value member => laws.min_le _ _ (List.mem_map_of_mem member) (inRange value member)
  by_cases zero : ∃ value ∈ values, toMicros value = 0
  · obtain ⟨value,member,absent⟩ := zero
    have nothing : reader.min (recorded bucketOf (values.map toMicros)) = 0 :=
      Nat.le_zero.mp (absent ▸ least value member)
    rw [nothing]
    push_cast
    linarith
  · have above : ∀ value ∈ values,
        reader.min (recorded bucketOf (values.map toMicros)) * resolution ≤ value := by
      intro value member
      have stored : 0 < toMicros value := Nat.pos_of_ne_zero fun nothing => zero ⟨value,member,nothing⟩
      have fits : (reader.min (recorded bucketOf (values.map toMicros)) : ℚ) ≤ toMicros value := by
        exact_mod_cast least value member
      have bounds := toMicros_bounds (Nat.lt_of_le_of_lt (inRange value member) laws.trackable)
      exact (mul_le_mul_of_nonneg_right fits resolution_pos.le).trans (bounds.2 stored)
    have sum := List.card_nsmul_le_sum values _ above
    rw [nsmul_eq_mul] at sum
    have units : (0 : ℚ) ≤ values.length * resolution := mul_nonneg (Nat.cast_nonneg _) resolution_pos.le
    linarith

theorem bounds_iff (laws : HdrLaws bucketOf reader limit) {values : List ℚ} (nonempty : values ≠ [])
    (inRange : ∀ value ∈ values, toMicros value ≤ limit) :
    let h := recorded bucketOf (values.map toMicros)
    (reader.min h * resolution - resolution ≤ values.sum / values.length ∧
        values.sum / values.length ≤ reader.max h * resolution + resolution) ↔
      -(values.length * resolution) ≤ values.sum := by
  intro h
  have positive : (0 : ℚ) < values.length := by exact_mod_cast List.length_pos_of_ne_nil nonempty
  have upper : values.sum / values.length ≤ reader.max h * resolution + resolution :=
    (div_le_iff₀' positive).mpr (sum_le_max laws inRange)
  rw [and_iff_left upper,le_div_iff₀' positive]
  constructor
  · intro lower
    have least : (0 : ℚ) ≤ reader.min h * resolution := mul_nonneg (Nat.cast_nonneg _) resolution_pos.le
    have scaled := mul_nonneg positive.le least
    linarith
  · exact min_le_sum laws inRange

/-- **The report of a custom histogram counts its samples, with their average between their
extremes, exactly when none is too large to record and the negative ones do not pull the sum
down by more than a unit a sample.** -/
theorem summarised_iff (laws : HdrLaws bucketOf reader limit) (flag : Bool) (metrics : List Metric)
    (name : String) :
    (∀ report, ((StatsAggregator.addMetrics bucketOf flag metrics).toReport reader).histograms.lookup name =
        some report → Summarised (samples name metrics) report) ↔
      (∀ value ∈ samples name metrics, toMicros value ≤ limit) ∧
        -((samples name metrics).length * resolution) ≤ (samples name metrics).sum := by
  rw [lookup_report]
  by_cases nonempty : samples name metrics = []
  · simp [nonempty]
  rw [if_neg nonempty]
  have counted : (recorded bucketOf ((samples name metrics).map toMicros)).card = (samples name metrics).length ↔
      ∀ value ∈ samples name metrics, toMicros value ≤ limit := by
    rw [card_recorded,← List.length_map toMicros,List.length_filter_eq_length_iff]
    simp [laws.accepts]
  have whole : (∀ report, some (histogramReport reader (samples name metrics).sum
        (recorded bucketOf ((samples name metrics).map toMicros))) = some report →
          Summarised (samples name metrics) report) ↔
      Summarised (samples name metrics) (histogramReport reader (samples name metrics).sum
        (recorded bucketOf ((samples name metrics).map toMicros))) := by
    simp
  rw [whole,Summarised]
  simp only [histogramReport,counted]
  refine and_congr_right fun inRange => ?_
  refine Iff.trans ?_ (bounds_iff laws nonempty inRange)
  rw [average,counted.mpr inRange,if_pos (List.length_pos_of_ne_nil nonempty)]
  simp only [resolution,div_eq_mul_inv,one_mul]

theorem mem_recorded {values : List Nat} {bucket : Nat} :
    bucket ∈ recorded bucketOf values ↔ ∃ value ∈ values, bucketOf value = some bucket := by
  induction values using List.reverseRecOn with
  | nil => simp [recorded]
  | append_singleton values value ih =>
    rw [recorded_concat,Histogram.record]
    cases taken : bucketOf value with
    | none => simp [ih,taken]
    | some other =>
      simp only [Multiset.mem_cons,ih,List.mem_append,List.mem_singleton,or_and_right,exists_or,
        exists_eq_left,taken,Option.some_inj]
      exact or_comm.trans (or_congr_right eq_comm)

end

theorem fold_min_le {h : Histogram} {bucket : Nat} (start : Nat) (member : bucket ∈ h) :
    h.fold min start ≤ bucket := by
  obtain ⟨others,rfl⟩ := Multiset.exists_cons_of_mem member
  rw [Multiset.fold_cons_left]
  exact Nat.min_le_left _ _

theorem le_fold_max {h : Histogram} {bucket : Nat} (start : Nat) (member : bucket ∈ h) :
    bucket ≤ h.fold max start := by
  obtain ⟨others,rfl⟩ := Multiset.exists_cons_of_mem member
  rw [Multiset.fold_cons_left]
  exact Nat.le_max_left _ _

theorem hdrUnit_dvd {a b : Nat} (le : a.log2 ≤ b.log2) : hdrUnit a ∣ hdrUnit b :=
  Nat.pow_dvd_pow 2 (by omega)

theorem log2_le_hdrLowest {value bucket : Nat} (le : hdrLowest value ≤ bucket) : value.log2 ≤ bucket.log2 := by
  by_cases zero : value = 0
  · rw [zero]
    exact Nat.zero_le _
  have power : 2^value.log2 ≤ hdrLowest value := by
    have multiple : hdrUnit value ∣ 2^value.log2 := Nat.pow_dvd_pow 2 (by omega)
    have inside := Nat.div_le_div_right (c := hdrUnit value) (Nat.log2_self_le zero)
    have scaled := Nat.mul_le_mul_right (hdrUnit value) inside
    rwa [Nat.div_mul_cancel multiple] at scaled
  have positive := Nat.two_pow_pos value.log2
  exact (Nat.le_log2 (by omega)).mpr (power.trans le)

theorem le_hdrHighest {value bucket : Nat} (le : hdrLowest value ≤ bucket) : value ≤ hdrHighest bucket := by
  obtain ⟨k,wider⟩ := hdrUnit_dvd (log2_le_hdrLowest le)
  have unit : 0 < hdrUnit value := Nat.two_pow_pos _
  have width : 0 < hdrUnit bucket := Nat.two_pow_pos _
  have inBucket := Nat.lt_div_mul_add (a := bucket) width
  have inValue := Nat.lt_div_mul_add (a := value) unit
  -- the end of the later bucket is a multiple of the width of the earlier one
  have ends : (value / hdrUnit value + 1) * hdrUnit value ≤ (bucket / hdrUnit bucket + 1) * hdrUnit bucket := by
    have started : value / hdrUnit value * hdrUnit value < (bucket / hdrUnit bucket + 1) * k * hdrUnit value :=
      calc value / hdrUnit value * hdrUnit value ≤ bucket := le
        _ < bucket / hdrUnit bucket * hdrUnit bucket + hdrUnit bucket := inBucket
        _ = (bucket / hdrUnit bucket + 1) * k * hdrUnit value := by
          rw [← Nat.succ_mul,Nat.mul_assoc,Nat.mul_comm k,← wider]
    have fewer := Nat.lt_of_mul_lt_mul_right started
    have scaled := Nat.mul_le_mul_right (hdrUnit value) (Nat.succ_le_of_lt fewer)
    rwa [Nat.mul_assoc _ k,Nat.mul_comm k,← wider] at scaled
  rw [Nat.succ_mul,Nat.succ_mul] at ends
  rw [hdrHighest,hdrLowest]
  omega

theorem hdrLaws : HdrLaws hdrBucketOf hdrReader (2^32 - 1) where
  accepts value := by
    unfold hdrBucketOf
    split <;> simp <;> omega
  trackable := by decide
  min_le values value member inRange := by
    have taken : hdrLowest value ∈ recorded hdrBucketOf values :=
      mem_recorded.mpr ⟨value,member,if_pos (by omega)⟩
    have nonempty : (recorded hdrBucketOf values).card ≠ 0 := Multiset.card_pos_iff_exists_mem.mpr ⟨_,taken⟩ |>.ne'
    simp only [hdrReader,if_neg nonempty]
    exact (fold_min_le _ taken).trans (Nat.div_mul_le_self _ _)
  le_max values value member inRange := by
    have taken : hdrLowest value ∈ recorded hdrBucketOf values :=
      mem_recorded.mpr ⟨value,member,if_pos (by omega)⟩
    have nonempty : (recorded hdrBucketOf values).card ≠ 0 := Multiset.card_pos_iff_exists_mem.mpr ⟨_,taken⟩ |>.ne'
    simp only [hdrReader,if_neg nonempty]
    exact le_hdrHighest (le_fold_max _ taken)

/-- A negative sample that the others make up for. -/
theorem summarised_offset :
    ∃ report, ((StatsAggregator.addMetrics hdrBucketOf false
        [.histogram "wait" (25/2) ∅,.histogram "wait" (-3/4) ∅]).toReport hdrReader).histograms.lookup "wait" =
      some report ∧ Summarised [25/2,-3/4] report := by
  have summarised := (summarised_iff hdrLaws false
    [.histogram "wait" (25/2) ∅,.histogram "wait" (-3/4) ∅] "wait").mpr ⟨by decide +kernel,by decide +kernel⟩
  exact ⟨_,lookup_report ..,summarised _ (lookup_report ..)⟩

/-- A sample of more than an hour is added to the sum alone. -/
theorem large_sample_uncounted :
    ¬∀ metrics name report,
      ((StatsAggregator.addMetrics hdrBucketOf false metrics).toReport hdrReader).histograms.lookup name =
        some report → Summarised (samples name metrics) report := by
  intro all
  have summarised := all [.histogram "wait" 5 ∅,.histogram "wait" 5000000 ∅] "wait" _ (lookup_report ..)
  exact absurd summarised.1 (by decide +kernel)

end Fusillade.Stats
