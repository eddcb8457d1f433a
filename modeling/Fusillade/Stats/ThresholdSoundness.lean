import Fusillade.Stats.Thresholds

/-! When a criterion that the report does not meet makes the run fail. A criterion is read
here as the help and the documentation spell it, `p95<500` with or without spaces; the
validation only hears the ones that it can split at spaces. -/
namespace Fusillade.Stats

open FiniteMap
open Binary64 (nearest nearest_zero)

def isOperatorChar (c : Char) : Bool := c ∈ ['<','>','=']

/-- The statistic up to the operator, the operator, and the word behind it. -/
def readCondition (text : String) : String × String × String :=
  let isName c := !(isWhitespace c || isOperatorChar c)
  let text := text.toList.dropWhile isWhitespace
  let behind := (text.dropWhile isName).dropWhile isWhitespace
  let number := (behind.dropWhile isOperatorChar).dropWhile isWhitespace
  (String.ofList (text.takeWhile isName),String.ofList (behind.takeWhile isOperatorChar),
    String.ofList (number.takeWhile (!isWhitespace ·)))

section

variable (report : ReportStats)

def reported : Known → Statistic → Option ℚ
  | .duration, .p50 => some report.p50LatencyMs
  | .duration, .p90 => some report.p90LatencyMs
  | known, statistic => handled report known statistic

/-- The criterion is understood, its statistic is reported, and the comparison holds. -/
def met (metricName threshold : String) : Bool :=
  let (statistic,operator,number) := readCondition threshold
  let outcome : Option Bool := do
    let known ← lookupMetric report metricName
    let statistic ← parseStatistic statistic
    let actual ← reported report known statistic
    let operator ← parseOperator operator
    let value ← parseF64 number.toList
    some (operator.holds (nearest actual) value)
  outcome.getD false

/-- The threshold has three words, and with a known operator between them both others are
understood, or zero in the place of what is not understood makes the comparison false. -/
def Heard (metricName threshold : String) : Prop :=
  ∃ checkType word number rest, splitWhitespace threshold = checkType :: word :: number :: rest ∧
    ∀ operator, parseOperator word = some operator →
      match handledStatistic report metricName checkType, parseF64 number.toList with
      | some _, some _ => True
      | none, some value => operator.holds 0 value = false
      | some actual, none => operator.holds (nearest actual) (.finite 0) = false
      | none, none => operator = .less ∨ operator = .greater

/-- Every criterion about a known metric that the report does not meet yields a failure. -/
def SoundOn (criteria : Criteria) : Prop :=
  ∀ entry ∈ criteria, ∀ threshold ∈ entry.2, (lookupMetric report entry.1).isSome →
    met report entry.1 threshold = false → ∃ failure ∈ report.validateThresholds criteria,
      thresholdFailure report entry.1 threshold = some failure

end

theorem statistic_chars {text : String} {statistic : Statistic}
    (parsed : parseStatistic text = some statistic) :
    text.toList.all (fun c => !(isWhitespace c || isOperatorChar c)) = true := by
  unfold parseStatistic at parsed
  split at parsed
  all_goals first
    | decide
    | contradiction

theorem operator_chars {text : String} {operator : Operator}
    (parsed : parseOperator text = some operator) : text.toList.all isOperatorChar = true := by
  unfold parseOperator at parsed
  split at parsed
  all_goals first
    | decide
    | contradiction

theorem operatorChar_not_whitespace (c : Char) (operator : isOperatorChar c = true) :
    isWhitespace c = false := by
  simp only [isOperatorChar,List.mem_cons,List.not_mem_nil,or_false,decide_eq_true_eq] at operator
  rcases operator with rfl | rfl | rfl <;> decide

theorem readCondition_of_words {threshold checkType operator number : String}
    {rest : List String} {statistic : Statistic} {op : Operator}
    (words : splitWhitespace threshold = checkType :: operator :: number :: rest)
    (isStatistic : parseStatistic checkType = some statistic)
    (isOperator : parseOperator operator = some op) :
    readCondition threshold = (checkType,operator,number) := by
  obtain ⟨first,behind,atFirst,rfl,later⟩ := List.map_eq_cons_iff.mp words
  obtain ⟨second,behind,rfl,rfl,last⟩ := List.map_eq_cons_iff.mp later
  obtain ⟨third,behind,rfl,rfl,_⟩ := List.map_eq_cons_iff.mp last
  obtain ⟨atFirst,atSecond⟩ := Words.words_eq_cons atFirst
  obtain ⟨atSecond,atThird⟩ := Words.words_eq_cons atSecond
  obtain ⟨atThird,_⟩ := Words.words_eq_cons atThird
  -- The characters of the first two words are known, so both readings stop where they do.
  have named := statistic_chars isStatistic
  have operated := operator_chars isOperator
  rw [String.toList_ofList,List.all_eq_true] at named operated
  obtain ⟨name,behindName⟩ := Words.span_eq_word
    (p := fun c => !(isWhitespace c || isOperatorChar c)) (by simp; tauto) (atFirst ▸ named)
  obtain ⟨sign,behindSign⟩ := Words.span_eq_word operatorChar_not_whitespace (atSecond ▸ operated)
  simp only [readCondition,name,behindName,sign,behindSign]
  exact Prod.ext (congrArg String.ofList atFirst)
    (Prod.ext (congrArg String.ofList atSecond) (congrArg String.ofList atThird))

variable {report : ReportStats} {metricName threshold : String}

theorem reported_of_handled {known : Known} {statistic : Statistic} {actual : ℚ}
    (has : handled report known statistic = some actual) :
    reported report known statistic = some actual := by
  unfold reported
  split
  · simp [handled] at has
  · simp [handled] at has
  · exact has

/-- A threshold that is understood passes only if it is met. -/
theorem met_of_passes {checkType word number : String} {rest : List String} {operator : Operator}
    (words : splitWhitespace threshold = checkType :: word :: number :: rest)
    (isOperator : parseOperator word = some operator) {actual : ℚ} {value : F64}
    (has : handledStatistic report metricName checkType = some actual)
    (parsed : parseF64 number.toList = some value) (holds : operator.holds (nearest actual) value = true) :
    met report metricName threshold = true := by
  obtain ⟨known,isKnown,has⟩ := Option.bind_eq_some_iff.mp has
  obtain ⟨statistic,isStatistic,has⟩ := Option.bind_eq_some_iff.mp has
  have reading := readCondition_of_words words isStatistic isOperator
  simp [met,reading,isKnown,isStatistic,isOperator,parsed,reported_of_handled has,holds]

theorem holds_zero (operator : Operator) :
    operator.holds 0 (.finite 0) = false ↔ operator = .less ∨ operator = .greater := by
  cases operator <;> simp [Operator.holds,epsilon]

theorem fails_iff {checkType word number : String} {rest : List String} {operator : Operator}
    (words : splitWhitespace threshold = checkType :: word :: number :: rest)
    (isOperator : parseOperator word = some operator) :
    (thresholdFailure report metricName threshold).isSome ↔
      operator.holds (nearest ((handledStatistic report metricName checkType).getD 0))
        ((parseF64 number.toList).getD (.finite 0)) = false := by
  rw [thresholdFailure_of_words words,passes,isOperator]
  rfl

theorem thresholdFailure_iff_heard (unmet : met report metricName threshold = false) :
    (thresholdFailure report metricName threshold).isSome ↔
      Heard report metricName threshold := by
  constructor
  · intro fails
    have words : ∃ checkType word number rest,
        splitWhitespace threshold = checkType :: word :: number :: rest := by
      unfold thresholdFailure at fails
      split at fails
      next words => exact ⟨_,_,_,_,words⟩
      next => simp at fails
    obtain ⟨checkType,word,number,rest,words⟩ := words
    refine ⟨checkType,word,number,rest,words,fun operator isOperator => ?_⟩
    have refused := (fails_iff words isOperator).mp fails
    cases has : handledStatistic report metricName checkType with
    | some actual =>
      cases parsed : parseF64 number.toList with
      | some value => trivial
      | none => simpa [has,parsed] using refused
    | none =>
      cases parsed : parseF64 number.toList with
      | some value => simpa [has,parsed] using refused
      | none => exact (holds_zero operator).mp (by simpa [has,parsed] using refused)
  · rintro ⟨checkType,word,number,rest,words,heard⟩
    cases isOperator : parseOperator word with
    | none =>
      rw [thresholdFailure_of_words words,passes,isOperator]
    | some operator =>
      have heard := heard operator isOperator
      rw [fails_iff words isOperator]
      cases has : handledStatistic report metricName checkType with
      | some actual =>
        cases parsed : parseF64 number.toList with
        | some value =>
          by_contra holds
          have holds : operator.holds (nearest actual) value = true := by simpa using holds
          exact absurd (met_of_passes words isOperator has parsed holds) (by simp [unmet])
        | none => simpa [has,parsed] using heard
      | none =>
        cases parsed : parseF64 number.toList with
        | some value => simpa [has,parsed] using heard
        | none =>
          rw [has,parsed] at heard
          simpa using (holds_zero operator).mpr heard

theorem failure_mem {criteria : Criteria} {entry : String × List String}
    (inCriteria : entry ∈ criteria) (inEntry : threshold ∈ entry.2) {failure : String}
    (fails : thresholdFailure report entry.1 threshold = some failure) :
    failure ∈ report.validateThresholds criteria :=
  List.mem_flatMap.mpr ⟨entry,inCriteria,List.mem_filterMap.mpr ⟨threshold,inEntry,fails⟩⟩

/-- No unmet criterion is passed over exactly when every one of them is heard. -/
theorem soundOn_iff_heard (reader : HistogramReader) (a : StatsAggregator) (criteria : Criteria) :
    SoundOn (a.toReport reader) criteria ↔
      ∀ entry ∈ criteria, ∀ threshold ∈ entry.2,
        (lookupMetric (a.toReport reader) entry.1).isSome →
        met (a.toReport reader) entry.1 threshold = false →
        Heard (a.toReport reader) entry.1 threshold := by
  constructor
  · intro sound entry inCriteria threshold inEntry isKnown unmet
    obtain ⟨failure,_,fails⟩ := sound entry inCriteria threshold inEntry isKnown unmet
    exact (thresholdFailure_iff_heard unmet).mp (by simp [fails])
  · intro heard entry inCriteria threshold inEntry isKnown unmet
    have fails := (thresholdFailure_iff_heard unmet).mpr
      (heard entry inCriteria threshold inEntry isKnown unmet)
    obtain ⟨failure,fails⟩ := Option.isSome_iff_exists.mp fails
    exact ⟨failure,failure_mem inCriteria inEntry fails,fails⟩

def slowRequest : Metric := .request "https://shop.test/" { duration := .fromMillis 900 } 200 none ∅

/-- The flag of the help text, on a run whose only request took 900 ms. -/
theorem unspaced_flag_passes : ∃ criteria,
    Lists (mergeCliThresholds ∅ ["http_req_duration:p95<500"]) criteria ∧
      ¬SoundOn ((StatsAggregator.new.add hdrBucketOf slowRequest).toReport hdrReader) criteria := by
  refine ⟨[("http_req_duration",["p95<500"])],by decide +kernel,?_⟩
  intro sound
  have silent : ((StatsAggregator.new.add hdrBucketOf slowRequest).toReport hdrReader).validateThresholds
      [("http_req_duration",["p95<500"])] = [] := by decide +kernel
  obtain ⟨failure,member,_⟩ := sound _ List.mem_cons_self _ List.mem_cons_self (by decide)
    (by decide +kernel)
  simp [silent] at member

end Fusillade.Stats
