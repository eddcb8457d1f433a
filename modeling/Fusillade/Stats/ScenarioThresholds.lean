import Fusillade.Stats.Figures

/-! Criteria of one scenario. `validate_scenario_thresholds` rebuilds an aggregator from the
groups whose key starts with the scenario's name, where iterations bear that name and HTTP
requests bear their segment and URL. The figures of its criteria add up over metrics on the
one side and over groups on the other. -/
namespace Fusillade.Stats

open FiniteMap Bridge

def startsWith (s start : String) : Bool := start.toList.isPrefixOf s.toList

/-- One group of the scenario, added to the sub-aggregator. -/
def StatsAggregator.absorbGroup (sub : StatsAggregator) (stats : RequestStats) : StatsAggregator :=
  { sub with
    totalRequests := sub.totalRequests + stats.totalRequests
    totalDuration := sub.totalDuration + stats.totalDuration
    minDuration := if sub.minDuration.isNone || optionLt stats.minDuration sub.minDuration
      then stats.minDuration else sub.minDuration
    maxDuration := if stats.maxDuration > sub.maxDuration then stats.maxDuration
      else sub.maxDuration
    histogram := sub.histogram + stats.histogram
    totalDataSent := sub.totalDataSent + stats.totalRequestSize
    totalDataReceived := sub.totalDataReceived + stats.totalResponseSize
    errors := upsert 0 (· + stats.errorCount) "error" sub.errors }

def absorbGroups (scenario : String) (groups : List (String × RequestStats)) : StatsAggregator :=
  groups.foldl (fun sub group =>
    if startsWith group.1 (scenario ++ "::") then sub.absorbGroup group.2 else sub) .new

/-- The sub-aggregator: custom metrics are copied, and a zero of the synthetic error goes. -/
def StatsAggregator.scenarioPart (a : StatsAggregator) (groups : List (String × RequestStats))
    (scenario : String) : StatsAggregator :=
  let sub := absorbGroups scenario groups
  { sub with
    checks := a.checks
    histograms := a.histograms
    histogramSums := a.histogramSums
    rates := a.rates
    counters := a.counters
    gauges := a.gauges
    errors := if sub.errors.lookup "error" = some 0 then sub.errors.erase "error" else sub.errors }

def scenarioMessage (scenario failure : String) : String :=
  "[scenario: " ++ scenario ++ "] " ++ failure

def StatsAggregator.validateScenarioThresholds (reader : HistogramReader) (a : StatsAggregator)
    (groups : List (String × RequestStats)) (scenario : String) (criteria : Criteria) : List String :=
  ((a.scenarioPart groups scenario).validateThresholds reader criteria).map (scenarioMessage scenario)

theorem absorbGroup_figures (sub : StatsAggregator) {stats : RequestStats}
    (known : stats.minDuration.isSome) :
    (sub.absorbGroup stats).figures = sub.figures + stats.figures := by
  obtain ⟨d,has⟩ := Option.isSome_iff_exists.mp known
  refine Figures.ext rfl rfl ?_ (ite_gt_eq_max ..) rfl (sumValues_upsert_add _ _ sub.errors)
  change (if sub.minDuration.isNone || optionLt stats.minDuration sub.minDuration
    then stats.minDuration else sub.minDuration) = sub.minDuration.merge min stats.minDuration
  rw [has]
  exact optionLt_merge sub.minDuration d

def groupFigures (scenario key : String) (stats : RequestStats) : Figures :=
  if startsWith key (scenario ++ "::") then stats.figures else 0

theorem absorbGroups_figures (scenario : String) (groups : List (String × RequestStats))
    (known : ∀ group ∈ groups, group.2.minDuration.isSome) :
    (absorbGroups scenario groups).figures =
      (groups.map fun group => groupFigures scenario group.1 group.2).sum := by
  have folded (sub : StatsAggregator) : (groups.foldl (fun sub group =>
      if startsWith group.1 (scenario ++ "::") then sub.absorbGroup group.2 else sub) sub).figures =
      sub.figures + (groups.map fun group => groupFigures scenario group.1 group.2).sum := by
    induction groups generalizing sub with
    | nil => exact (add_zero _).symm
    | cons group rest ih =>
      have later := ih fun g member => known g (List.mem_cons_of_mem _ member)
      rw [List.foldl_cons,later,List.map_cons,List.sum_cons,← add_assoc,groupFigures]
      split
      · rw [absorbGroup_figures sub (known group List.mem_cons_self)]
      · rw [add_zero]
  rw [absorbGroups,folded]
  exact zero_add _

theorem scenarioPart_figures (a : StatsAggregator) (groups : List (String × RequestStats))
    (scenario : String) :
    (a.scenarioPart groups scenario).figures = (absorbGroups scenario groups).figures := by
  refine Figures.ext rfl rfl rfl rfl rfl ?_
  change sumValues (if _ then _ else _) = sumValues (absorbGroups scenario groups).errors
  split
  next zero => exact sumValues_erase zero
  next => rfl

section

variable (bucketOf : Nat → Option Nat)

/-- What a metric adds to the groups of the scenario. -/
def selectedFigures (noEndpointTracking : Bool) (scenario : String) : Metric → Figures
  | .request name timings _ error tags =>
    if !noEndpointTracking && startsWith (fullName name tags) (scenario ++ "::")
    then requestFigures bucketOf timings error else 0
  | _ => 0

theorem weight_groups (flag : Bool) (scenario : String) (metric : Metric) :
    sum (groupFigures scenario) (StatsAggregator.weight bucketOf flag metric).requests =
      selectedFigures bucketOf flag scenario metric := by
  cases metric with
  | request name timings status error tags =>
    rw [StatsAggregator.weight_request_requests,selectedFigures]
    cases flag with
    | true => exact sum_empty _
    | false => exact sum_upsert_empty _ _ _ _
  | _ => exact sum_empty _

/-- The sub-aggregator sums the figures of the metrics whose key bears the scenario's name. -/
theorem scenarioPart_addMetrics (flag : Bool) (metrics : List Metric)
    {groups : List (String × RequestStats)}
    (lists : Lists (StatsAggregator.addMetrics bucketOf flag metrics).requests groups)
    (scenario : String) :
    ((StatsAggregator.addMetrics bucketOf flag metrics).scenarioPart groups scenario).figures =
      (metrics.map (selectedFigures bucketOf flag scenario)).sum := by
  have known : ∀ group ∈ groups, group.2.minDuration.isSome := by
    intro group member
    exact (StatsAggregator.addMetrics_valid bucketOf flag metrics).2 group.1 group.2
      ((lists.lookup group.1 group.2).mpr member)
  have summed := StatsAggregator.addMetrics_sum bucketOf flag
    (f := fun s => sum (groupFigures scenario) s.requests) (sum_empty _)
    (fun a b => sum_mergeWith _ _ (by
      intro key a b
      unfold groupFigures
      split
      · exact RequestStats.figures_combine a b
      · exact (add_zero 0).symm) a.requests b.requests) metrics
  rw [scenarioPart_figures,absorbGroups_figures scenario groups known,← sum_of_lists _ lists]
  simp only [weight_groups] at summed
  exact summed

end

/-- What a script sends under its scenario, before anything is measured. -/
inductive Source where
  | http (group : String) (nameTag : Option String) (url : String) (tags : HashMap String String)
  | iteration (tags : HashMap String String)
  deriving DecidableEq

structure Emission where
  scenario : String
  source : Source
  deriving DecidableEq

/-- What a run then finds. -/
structure Measured where
  timings : RequestTimings := {}
  elapsed : Duration := 0
  outcome : HttpOutcome := .response 200
  thrown : Option String := none

def Emission.event (e : Emission) (m : Measured) : Event :=
  match e.source with
  | .http group nameTag url tags => .http ⟨group,nameTag,url,m.timings,m.outcome,tags⟩
  | .iteration tags => .iteration ⟨some e.scenario,m.timings.duration,m.elapsed,m.thrown,tags⟩

def Emission.names (e : Emission) : List String :=
  match e.source with
  | .http group nameTag url _ => [metricName group nameTag url]
  | .iteration _ =>
    [iterationName (some e.scenario) "iteration",iterationName (some e.scenario) "iteration_total"]

def Emission.tags (e : Emission) : HashMap String String :=
  match e.source with
  | .http _ _ _ tags => tags
  | .iteration tags => tags

abbrev Run := List (Emission × Measured)

def Run.metrics (run : Run) : List Metric := run.flatMap fun r => (r.1.event r.2).metrics

def Run.only (run : Run) (scenario : String) : Run := run.filter (·.1.scenario = scenario)

def Selected (noEndpointTracking : Bool) (scenario : String) (e : Emission) (name : String) : Prop :=
  noEndpointTracking = false ∧ startsWith (fullName name e.tags) (scenario ++ "::") = true

def OwnRequest (scenario : String) (e : Emission) (name : String) : Prop :=
  e.scenario = scenario ∧ isIteration name = false

/-- The groups that bear the name are those of the scenario's requests, and no iteration that
throws could add to the errors of a scenario with requests. -/
structure Exact (noEndpointTracking : Bool) (scenario : String) (emissions : List Emission) :
    Prop where
  selected : ∀ e ∈ emissions, ∀ name ∈ e.names,
    Selected noEndpointTracking scenario e name ↔ OwnRequest scenario e name
  errors : (∀ e ∈ emissions, ∀ name ∈ e.names, ¬OwnRequest scenario e name) ∨
    ∀ e ∈ emissions, e.scenario = scenario → ∀ name ∈ e.names,
      ¬(isIteration name = true ∧ isIterationTotal name = false)

/-- Whatever the run measures and whatever the criteria on the built-in metrics, the scenario
fails as it would on an aggregator of its own. -/
def FailsAlike (bucketOf : Nat → Option Nat) (reader : HistogramReader) (noEndpointTracking : Bool)
    (scenario : String) (emissions : List Emission) : Prop :=
  ∀ run : Run, run.map Prod.fst = emissions → ∀ criteria, OnHttp criteria →
    ∀ groups, Lists (StatsAggregator.addMetrics bucketOf noEndpointTracking run.metrics).requests
        groups →
      (StatsAggregator.addMetrics bucketOf noEndpointTracking
          run.metrics).validateScenarioThresholds reader groups scenario criteria =
        ((StatsAggregator.addMetrics bucketOf noEndpointTracking
          (run.only scenario).metrics).validateThresholds reader criteria).map
            (scenarioMessage scenario)

variable {bucketOf : Nat → Option Nat} {reader : HistogramReader} {flag : Bool} {scenario : String}
  {emissions : List Emission} {e : Emission} {name other : String}

theorem event_metrics {m : Measured} {metric : Metric} (member : metric ∈ (e.event m).metrics) :
    ∃ name ∈ e.names, ∃ timings status error, metric = .request name timings status error e.tags := by
  obtain ⟨emitter,source⟩ := e
  cases source with
  | http group nameTag url tags =>
    obtain rfl := List.mem_singleton.mp member
    refine ⟨metricName group nameTag url,List.mem_singleton_self _,?_⟩
    cases m.outcome with
    | response status =>
      exact ⟨m.timings,status,none,by simp [HttpRequest.metric,HttpRequest.name,Emission.tags]⟩
    | transportError message =>
      exact ⟨m.timings,0,some message,by simp [HttpRequest.metric,HttpRequest.name,Emission.tags]⟩
  | iteration tags =>
    simp only [Emission.event,Event.metrics,Iteration.metrics,List.mem_cons,List.not_mem_nil,
      or_false] at member
    rcases member with rfl | rfl
    · exact ⟨_,List.mem_cons_self,_,_,_,rfl⟩
    · exact ⟨_,List.mem_cons_of_mem _ (List.mem_singleton_self _),_,_,_,rfl⟩

theorem names_iteration (there : name ∈ e.names) (also : other ∈ e.names) :
    isIteration name = isIteration other := by
  have primary := isIteration_iterationName (some e.scenario)
  have twin := isIteration_of_total (isIterationTotal_iterationName (some e.scenario))
  unfold Emission.names at there also
  cases source : e.source with
  | http group nameTag url tags =>
    simp only [source,List.mem_singleton] at there also
    rw [there,also]
  | iteration tags =>
    simp only [source,List.mem_cons,List.not_mem_nil,or_false] at there also
    rcases there with rfl | rfl <;> rcases also with rfl | rfl <;> simp only [primary,twin]

theorem names_request (there : name ∈ e.names) (request : isIteration name = false)
    (also : other ∈ e.names) : other = name := by
  have twin := isIteration_of_total (isIterationTotal_iterationName (some e.scenario))
  unfold Emission.names at there also
  cases source : e.source with
  | http group nameTag url tags =>
    simp only [source,List.mem_singleton] at there also
    rw [there,also]
  | iteration tags =>
    simp only [source,List.mem_cons,List.not_mem_nil,or_false] at there
    rcases there with rfl | rfl
    · simp [isIteration_iterationName] at request
    · simp [twin] at request

theorem selectedFigures_eq (timings : RequestTimings) (status : UInt16) (error : Option String)
    (exact : Selected flag scenario e name ↔ OwnRequest scenario e name) :
    selectedFigures bucketOf flag scenario (.request name timings status error e.tags) =
      if e.scenario = scenario then countedFigures bucketOf (.request name timings status error e.tags)
      else 0 := by
  have chosen : (!flag && startsWith (fullName name e.tags) (scenario ++ "::")) = true ↔
      e.scenario = scenario ∧ isIteration name = false := by
    rw [Bool.and_eq_true,Bool.not_eq_true']
    exact exact
  simp only [selectedFigures,countedFigures,chosen]
  by_cases own : e.scenario = scenario
  · cases isIteration name <;> simp [own]
  · simp [own]

theorem sum_only (scenario : String) {f g : Metric → Figures} (run : Run)
    (splits : ∀ r ∈ run, ∀ metric ∈ (r.1.event r.2).metrics,
      f metric = if r.1.scenario = scenario then g metric else 0) :
    (run.metrics.map f).sum = ((run.only scenario).metrics.map g).sum := by
  induction run with
  | nil => rfl
  | cons r rest ih =>
    have later := ih fun r' member => splits r' (List.mem_cons_of_mem _ member)
    have here := List.map_congr_left (splits r List.mem_cons_self)
    simp only [Run.metrics,Run.only,List.flatMap_cons,List.map_append,List.sum_append] at later ⊢
    rw [later,here]
    by_cases own : r.1.scenario = scenario
    · simp [own]
    · simp [own]

theorem mem_only {run : Run} {metric : Metric} (member : metric ∈ (run.only scenario).metrics) :
    ∃ r ∈ run, r.1.scenario = scenario ∧ metric ∈ (r.1.event r.2).metrics := by
  obtain ⟨r,inside,there⟩ := List.mem_flatMap.mp member
  obtain ⟨inRun,own⟩ := List.mem_filter.mp inside
  exact ⟨r,inRun,of_decide_eq_true own,there⟩

/-- With the groups exact, the figures differ by the errors of failed iterations at most. -/
theorem exact_failsAlike (exact : Exact flag scenario emissions) :
    FailsAlike bucketOf reader flag scenario emissions := by
  intro run shape criteria onHttp groups lists
  have emitted (r : Emission × Measured) (member : r ∈ run) : r.1 ∈ emissions :=
    shape ▸ List.mem_map_of_mem member
  have figures := scenarioPart_addMetrics bucketOf flag run.metrics lists scenario
  have split := sum_only scenario (f := selectedFigures bucketOf flag scenario)
    (g := countedFigures bucketOf) run (by
      intro r member metric inside
      obtain ⟨name,there,timings,status,error,rfl⟩ := event_metrics inside
      exact selectedFigures_eq timings status error
        (exact.selected r.1 (emitted r member) name there))
  rw [split] at figures
  refine congrArg (List.map (scenarioMessage scenario)) (validateThresholds_alike reader ?_ onHttp)
  rw [figures,addMetrics_figures]
  apply Figures.alike_ofErrors
  rcases exact.errors with noRequests | noIterations
  · left
    rw [List.sum_eq_zero]
    · rfl
    · intro x member
      obtain ⟨metric,inside,rfl⟩ := List.mem_map.mp member
      obtain ⟨r,inRun,own,made⟩ := mem_only inside
      obtain ⟨name,there,timings,status,error,rfl⟩ := event_metrics made
      have iteration : isIteration name = true := by
        by_contra request
        exact noRequests r.1 (emitted r inRun) name there ⟨own,Bool.eq_false_iff.mpr request⟩
      exact if_pos iteration
  · right
    rw [List.countP_eq_zero]
    intro metric inside failed
    obtain ⟨r,inRun,own,made⟩ := mem_only inside
    obtain ⟨name,there,timings,status,error,rfl⟩ := event_metrics made
    simp only [Metric.failedIteration,Bool.and_eq_true,Bool.not_eq_true'] at failed
    exact noIterations r.1 (emitted r inRun) own name there ⟨failed.1.1,failed.2⟩

def uniform (duration : Duration) (fails : Bool) : Measured where
  timings := { duration }
  elapsed := duration
  outcome := if fails then .transportError "" else .response 200
  thrown := if fails then some "" else none

theorem uniform_metrics (duration : Duration) (fails : Bool) :
    (e.event (uniform duration fails)).metrics = e.names.map fun name =>
      .request name { duration } (if fails then 0 else 200) (if fails then some "" else none) e.tags := by
  obtain ⟨emitter,source⟩ := e
  cases source <;> cases fails <;> rfl

def markedRun (emissions : List Emission) (marked : Emission) (here elsewhere : Measured) : Run :=
  emissions.map fun e => (e,if e = marked then here else elsewhere)

section

variable (bucketOf) (duration : Duration) (fails : Bool) (marked : Emission)

abbrev standOut (emissions : List Emission) : Run :=
  markedRun emissions marked (uniform duration fails) (uniform 0 false)

def standOutFigures (e : Emission) : Figures :=
  if e = marked then requestFigures bucketOf { duration } (if fails then some "" else none)
  else requestFigures bucketOf { duration := 0 } none

def pickedFigures (pick : Emission → String → Bool) (emissions : List Emission) : Figures :=
  (emissions.map fun e =>
    (e.names.map fun name => if pick e name then standOutFigures bucketOf duration fails marked e
      else 0).sum).sum

theorem sum_standOut {f : Metric → Figures} (pick : Emission → String → Bool)
    (picks : ∀ name timings status error, f (.request name timings status error e.tags) =
      if pick e name then requestFigures bucketOf timings error else 0) :
    ((e.event (if e = marked then uniform duration fails else uniform 0 false)).metrics.map f).sum =
      (e.names.map fun name => if pick e name then standOutFigures bucketOf duration fails marked e
        else 0).sum := by
  unfold standOutFigures
  split <;> simp [uniform_metrics,Function.comp_def,picks]

theorem standOut_selected (flag : Bool) (scenario : String) (emissions : List Emission) :
    ((standOut duration fails marked emissions).metrics.map
        (selectedFigures bucketOf flag scenario)).sum =
      pickedFigures bucketOf duration fails marked
        (fun e name => !flag && startsWith (fullName name e.tags) (scenario ++ "::")) emissions := by
  induction emissions with
  | nil => rfl
  | cons e rest ih =>
    have here := sum_standOut (e := e) bucketOf duration fails marked
      (f := selectedFigures bucketOf flag scenario)
      (fun e name => !flag && startsWith (fullName name e.tags) (scenario ++ "::"))
      fun _ _ _ _ => rfl
    simp only [standOut,markedRun,Run.metrics,pickedFigures,List.map_cons,List.flatMap_cons,
      List.map_append,List.sum_append,List.sum_cons] at ih ⊢
    rw [ih,here]

theorem standOut_own (scenario : String) (emissions : List Emission) :
    (((standOut duration fails marked emissions).only scenario).metrics.map
        (countedFigures bucketOf)).sum =
      pickedFigures bucketOf duration fails marked
        (fun e name => decide (e.scenario = scenario) && !isIteration name) emissions := by
  induction emissions with
  | nil => rfl
  | cons e rest ih =>
    have here := sum_standOut (e := e) bucketOf duration fails marked
      (f := countedFigures bucketOf) (fun _ name => !isIteration name) (by
        intro name timings status error
        cases iteration : isIteration name <;> simp [countedFigures,iteration])
    simp only [standOut,markedRun,Run.metrics,Run.only,pickedFigures,List.map_cons,
      List.filter_cons,List.sum_cons] at ih ⊢
    by_cases own : e.scenario = scenario
    · simp only [own,decide_true,if_true,List.flatMap_cons,List.map_append,List.sum_append,
        Bool.true_and,here,ih]
    · simp [own,ih]

theorem pickedFigures_eq_zero {f : Figures → Nat} (zero : f 0 = 0)
    (add : ∀ a b, f (a + b) = 0 ↔ f a = 0 ∧ f b = 0)
    (quiet : f (requestFigures bucketOf { duration := 0 } none) = 0)
    {pick : Emission → String → Bool} {emissions : List Emission} :
    f (pickedFigures bucketOf duration fails marked pick emissions) = 0 ↔
      (marked ∈ emissions → ∀ name ∈ marked.names, pick marked name = true →
        f (requestFigures bucketOf { duration } (if fails then some "" else none)) = 0) := by
  rw [pickedFigures,figure_sum_eq_zero zero add,List.forall_mem_map]
  simp only [figure_sum_eq_zero zero add,List.forall_mem_map]
  constructor
  · intro none there name named picked
    simpa [picked,standOutFigures] using none marked there name named
  · intro none e there name named
    cases picked : pick e name with
    | false => exact zero
    | true =>
      by_cases same : e = marked
      · subst same
        simpa [standOutFigures] using none there name named picked
      · simpa [standOutFigures,same] using quiet

theorem pickedFigures_count (pick : Emission → String → Bool) {emissions : List Emission}
    (there : e ∈ emissions) (named : name ∈ e.names) (picked : pick e name = true) :
    (pickedFigures bucketOf duration fails marked pick emissions).count ≠ 0 := by
  have add (a b : Figures) : (a + b).count = 0 ↔ a.count = 0 ∧ b.count = 0 := Nat.add_eq_zero_iff
  have one : (standOutFigures bucketOf duration fails marked e).count = 1 := by
    unfold standOutFigures
    split <;> rfl
  rw [pickedFigures,Ne,figure_sum_eq_zero Figures.zero_count add,List.forall_mem_map]
  simp only [figure_sum_eq_zero Figures.zero_count add,List.forall_mem_map]
  intro none
  have := none e there name named
  rw [picked,if_pos rfl,one] at this
  exact absurd this one_ne_zero

end

theorem FailsAlike.passes_iff (alike : FailsAlike bucketOf reader flag scenario emissions)
    {run : Run} (shape : run.map Prod.fst = emissions) {criteria : Criteria}
    (onHttp : OnHttp criteria) : ∃ sub : StatsAggregator,
      sub.figures = (run.metrics.map (selectedFigures bucketOf flag scenario)).sum ∧
      (sub.validateThresholds reader criteria = [] ↔
        (StatsAggregator.addMetrics bucketOf flag (run.only scenario).metrics).validateThresholds
          reader criteria = []) := by
  obtain ⟨groups,lists⟩ := exists_lists (StatsAggregator.addMetrics bucketOf flag run.metrics).requests
  refine ⟨_,scenarioPart_addMetrics bucketOf flag run.metrics lists scenario,?_⟩
  have same := alike run shape criteria onHttp groups lists
  rw [StatsAggregator.validateScenarioThresholds] at same
  rw [← List.map_eq_nil_iff (f := scenarioMessage scenario),same,List.map_eq_nil_iff]

theorem standOut_shape (duration : Duration) (fails : Bool) (marked : Emission) :
    (standOut duration fails marked emissions).map Prod.fst = emissions := by
  simp [standOut,markedRun,Function.comp_def]

/-- A slow emission shows on both sides or on neither. -/
theorem FailsAlike.selected_iff_own (alike : FailsAlike bucketOf reader flag scenario emissions)
    (there : e ∈ emissions) :
    (∃ name ∈ e.names, Selected flag scenario e name) ↔
      ∃ name ∈ e.names, OwnRequest scenario e name := by
  have onHttp : OnHttp [("http_req_duration",["max <= 0"])] := by simp [OnHttp]
  obtain ⟨sub,figures,same⟩ := alike.passes_iff (standOut_shape 1000000 false e) onHttp
  have millis (a b : Figures) :
      (a + b).high.asMillis = 0 ↔ a.high.asMillis = 0 ∧ b.high.asMillis = 0 := by
    simp only [Figures.add_high,Duration.asMillis]
    omega
  have slow : (requestFigures bucketOf { duration := 1000000 } none).high.asMillis ≠ 0 := by
    rw [requestFigures_high]
    decide
  have quiet : (requestFigures bucketOf { duration := 0 } none).high.asMillis = 0 := by
    rw [requestFigures_high]
    decide
  have unseen (n : Nat) : (Figures.ofErrors n).high.asMillis = 0 := Nat.zero_div _
  rw [validate_max,validate_max,figures,addMetrics_figures,millis,and_iff_left (unseen _),
    standOut_selected,standOut_own,
    pickedFigures_eq_zero bucketOf 1000000 false e (f := fun x => x.high.asMillis) (Nat.zero_div _)
      millis quiet,
    pickedFigures_eq_zero bucketOf 1000000 false e (f := fun x => x.high.asMillis) (Nat.zero_div _)
      millis quiet]
    at same
  simp only [there,forall_true_left,Bool.false_eq_true,if_false,slow,imp_false] at same
  have picked := not_congr same
  push Not at picked
  simpa [Selected,OwnRequest] using picked

/-- Where every group of the scenario is exact, a failed iteration shows on one side only. -/
theorem FailsAlike.no_errors (alike : FailsAlike bucketOf reader flag scenario emissions)
    (exact : ∀ e ∈ emissions, ∀ name ∈ e.names,
      Selected flag scenario e name ↔ OwnRequest scenario e name)
    (there : e ∈ emissions) (named : name ∈ e.names) (request : OwnRequest scenario e name)
    {failing : Emission} (inRun : failing ∈ emissions) (own : failing.scenario = scenario)
    (also : other ∈ failing.names) :
    ¬(isIteration other = true ∧ isIterationTotal other = false) := by
  rintro ⟨iteration,primary⟩
  have onHttp : OnHttp [("http_req_failed",["rate <= 0"])] := by simp [OnHttp]
  obtain ⟨sub,figures,same⟩ := alike.passes_iff (standOut_shape 0 true failing) onHttp
  have errors (a b : Figures) : (a + b).errors = 0 ↔ a.errors = 0 ∧ b.errors = 0 := Nat.add_eq_zero_iff
  have noErrors : sub.figures.errors = 0 := by
    rw [figures,standOut_selected,pickedFigures_eq_zero bucketOf 0 true failing
      (f := Figures.errors) rfl errors rfl]
    intro _ name' named' selected
    have ownName := (exact failing inRun name' named').mp (by simpa [Selected] using selected)
    exact absurd ownName.2 (by simp [names_iteration named' also,iteration])
  have passes := same.mp ((validate_rate sub).mpr (.inr noErrors))
  rw [validate_rate,addMetrics_figures,Figures.add_count,Figures.add_errors,standOut_own] at passes
  have counted := pickedFigures_count bucketOf 0 true failing
    (fun e name => decide (e.scenario = scenario) && !isIteration name) there named
    (by simpa [OwnRequest] using request)
  have failed : ((standOut 0 true failing emissions).only scenario).metrics.countP
      Metric.failedIteration ≠ 0 := by
    rw [Ne,List.countP_eq_zero]
    intro none
    apply none (.request other { duration := 0 } 0 (some "") failing.tags)
    · refine List.mem_flatMap.mpr ⟨(failing,uniform 0 true),?_,?_⟩
      · exact List.mem_filter.mpr ⟨List.mem_map.mpr ⟨failing,inRun,by simp⟩,decide_eq_true own⟩
      · rw [uniform_metrics]
        exact List.mem_map.mpr ⟨other,also,rfl⟩
    · simp [Metric.failedIteration,iteration,primary]
  rcases passes with none | none
  · exact counted (Nat.add_eq_zero_iff.mp none).1
  · exact failed (Nat.add_eq_zero_iff.mp none).2

/-- The criteria of a scenario fail as on its own metrics, under every measurement and every
criterion on the built-in metrics, exactly when the groups that bear its name are those of
its requests. -/
theorem scenario_thresholds_iff (bucketOf : Nat → Option Nat) (reader : HistogramReader)
    (flag : Bool) (scenario : String) (emissions : List Emission) :
    FailsAlike bucketOf reader flag scenario emissions ↔ Exact flag scenario emissions := by
  refine ⟨?_,exact_failsAlike⟩
  intro alike
  have selected : ∀ e ∈ emissions, ∀ name ∈ e.names,
      Selected flag scenario e name ↔ OwnRequest scenario e name := by
    intro e there name named
    constructor
    · intro selected
      obtain ⟨other,also,own,request⟩ := (alike.selected_iff_own there).mp ⟨name,named,selected⟩
      exact ⟨own,(names_iteration named also).trans request⟩
    · intro own
      obtain ⟨other,also,selected⟩ := (alike.selected_iff_own there).mpr ⟨name,named,own⟩
      exact names_request named own.2 also ▸ selected
  refine ⟨selected,?_⟩
  by_cases requests : ∀ e ∈ emissions, ∀ name ∈ e.names, ¬OwnRequest scenario e name
  · exact .inl requests
  · right
    push Not at requests
    obtain ⟨e,there,name,named,request⟩ := requests
    intro failing inRun own other also
    exact alike.no_errors selected there named request inRun own also

/-- A request of the scenario gets no response, and its iteration goes on. -/
def refusedRun : Run :=
  [(⟨"checkout",.http "" none "https://shop.test/" ∅⟩,{ outcome := .transportError "refused" }),
    (⟨"checkout",.iteration ∅⟩,{})]

/-- The scenario passes the criterion that its own requests fail. -/
theorem refused_requests_pass :
    let all := StatsAggregator.addMetrics hdrBucketOf false refusedRun.metrics
    let own := StatsAggregator.addMetrics hdrBucketOf false (refusedRun.only "checkout").metrics
    let groups := ["checkout::iteration","https://shop.test/","checkout::iteration_total"].map
      fun key => (key,(all.requests.lookup key).getD .new)
    Lists all.requests groups ∧
      all.validateScenarioThresholds hdrReader groups "checkout" [("http_req_failed",["rate < 0.01"])] ≠
        (own.validateThresholds hdrReader [("http_req_failed",["rate < 0.01"])]).map
          (scenarioMessage "checkout") := by decide +kernel

end Fusillade.Stats
