import Fusillade.Cli.Config
import Fusillade.Stats.Thresholds

/-! The configuration of a local run: the options that the script exports, under those of a
configuration file, under the flags of the command line; and the one of the watch mode. -/
namespace Fusillade.Cli

open Json Stats Engine.Executor

/-- Every field that is set in the overrides replaces the field of the configuration. -/
def Config.mergeFrom (config overrides : Config) : Config where
  workers := overrides.workers.or config.workers
  duration := overrides.duration.or config.duration
  schedule := overrides.schedule.or config.schedule
  executor := overrides.executor.or config.executor
  rate := overrides.rate.or config.rate
  timeUnit := overrides.timeUnit.or config.timeUnit
  criteria := overrides.criteria.or config.criteria
  minIterationDuration := overrides.minIterationDuration.or config.minIterationDuration
  warmup := overrides.warmup.or config.warmup
  stop := overrides.stop.or config.stop
  iterations := overrides.iterations.or config.iterations
  scenarios := overrides.scenarios.or config.scenarios
  jitter := overrides.jitter.or config.jitter
  drop := overrides.drop.or config.drop
  stackSize := overrides.stackSize.or config.stackSize
  heapSize := overrides.heapSize.or config.heapSize
  responseSink := overrides.responseSink.or config.responseSink
  noEndpointTracking := overrides.noEndpointTracking.or config.noEndpointTracking
  abortOnFail := overrides.abortOnFail.or config.abortOnFail
  memorySafe := overrides.memorySafe.or config.memorySafe
  insecure := overrides.insecure.or config.insecure
  maxRedirects := overrides.maxRedirects.or config.maxRedirects
  userAgent := overrides.userAgent.or config.userAgent
  noPool := overrides.noPool.or config.noPool
  envPassthrough := overrides.envPassthrough.or config.envPassthrough

structure RunFlags where
  workers : Option Nat := none
  duration : Option String := none
  jitter : Option String := none
  drop : Option ℚ := none
  noEndpointTracking : Bool := false
  memorySafe : Bool := false
  iterations : Option UInt64 := none
  warmup : Option String := none
  responseSink : Bool := false
  abortOnFail : Bool := false
  insecure : Bool := false
  noPool : Bool := false
  envPassthrough : Bool := false
  maxRedirects : Option UInt32 := none
  userAgent : Option String := none
  thresholds : List String := []
  deriving DecidableEq

/-- CLI flags override everything; thresholds are added to the criteria. -/
def Config.applyFlags (config : Config) (flags : RunFlags) : Config :=
  { config with
    workers := flags.workers.or config.workers
    duration := flags.duration.or config.duration
    jitter := flags.jitter.or config.jitter
    drop := flags.drop.or config.drop
    noEndpointTracking := if flags.noEndpointTracking then some true else config.noEndpointTracking
    memorySafe := if flags.memorySafe then some true else config.memorySafe
    iterations := flags.iterations.or config.iterations
    warmup := flags.warmup.or config.warmup
    responseSink := if flags.responseSink then some true else config.responseSink
    abortOnFail := if flags.abortOnFail then some true else config.abortOnFail
    insecure := if flags.insecure then some true else config.insecure
    noPool := if flags.noPool then some true else config.noPool
    envPassthrough := if flags.envPassthrough then some true else config.envPassthrough
    maxRedirects := flags.maxRedirects.or config.maxRedirects
    userAgent := flags.userAgent.or config.userAgent
    criteria :=
      if flags.thresholds = [] then config.criteria
      else some (mergeCliThresholds (config.criteria.getD ∅) flags.thresholds) }

/-- The `final_config` of a local run. -/
def finalConfig (script file : Option Config) (flags : RunFlags) : Config :=
  let config := script.getD {}
  let config := match file with
    | some file => config.mergeFrom file
    | none => config
  config.applyFlags flags

/-- The `watch_config`, which looks at no file and at five of the flags. -/
def watchConfig (script : Option Config) (flags : RunFlags) : Config :=
  let config := script.getD {}
  { config with
    workers := match flags.workers with
      | some workers => some workers
      | none => if config.workers.isNone then some 1 else config.workers
    duration := match flags.duration with
      | some duration => some duration
      | none => if config.duration.isNone then some "5s" else config.duration
    jitter := flags.jitter.or config.jitter
    drop := flags.drop.or config.drop
    noEndpointTracking := if flags.noEndpointTracking then some true else config.noEndpointTracking }

/-- The options with the types of their values. -/
inductive Field : Type → Type where
  | workers : Field Nat
  | duration : Field String
  | schedule : Field (List ScheduleStep)
  | executor : Field ExecutorType
  | rate : Field Nat
  | timeUnit : Field String
  | criteria : Field (FiniteMap String (List String))
  | minIterationDuration : Field String
  | warmup : Field String
  | stop : Field String
  | iterations : Field UInt64
  | scenarios : Field (FiniteMap String ScenarioConfig)
  | jitter : Field String
  | drop : Field ℚ
  | stackSize : Field Nat
  | heapSize : Field Nat
  | responseSink : Field Bool
  | noEndpointTracking : Field Bool
  | abortOnFail : Field Bool
  | memorySafe : Field Bool
  | insecure : Field Bool
  | maxRedirects : Field UInt32
  | userAgent : Field String
  | noPool : Field Bool
  | envPassthrough : Field Bool

def Config.get (config : Config) {α : Type} : Field α → Option α
  | .workers => config.workers
  | .duration => config.duration
  | .schedule => config.schedule
  | .executor => config.executor
  | .rate => config.rate
  | .timeUnit => config.timeUnit
  | .criteria => config.criteria
  | .minIterationDuration => config.minIterationDuration
  | .warmup => config.warmup
  | .stop => config.stop
  | .iterations => config.iterations
  | .scenarios => config.scenarios
  | .jitter => config.jitter
  | .drop => config.drop
  | .stackSize => config.stackSize
  | .heapSize => config.heapSize
  | .responseSink => config.responseSink
  | .noEndpointTracking => config.noEndpointTracking
  | .abortOnFail => config.abortOnFail
  | .memorySafe => config.memorySafe
  | .insecure => config.insecure
  | .maxRedirects => config.maxRedirects
  | .userAgent => config.userAgent
  | .noPool => config.noPool
  | .envPassthrough => config.envPassthrough

def Config.ofGet (get : {α : Type} → Field α → Option α) : Config where
  workers := get .workers
  duration := get .duration
  schedule := get .schedule
  executor := get .executor
  rate := get .rate
  timeUnit := get .timeUnit
  criteria := get .criteria
  minIterationDuration := get .minIterationDuration
  warmup := get .warmup
  stop := get .stop
  iterations := get .iterations
  scenarios := get .scenarios
  jitter := get .jitter
  drop := get .drop
  stackSize := get .stackSize
  heapSize := get .heapSize
  responseSink := get .responseSink
  noEndpointTracking := get .noEndpointTracking
  abortOnFail := get .abortOnFail
  memorySafe := get .memorySafe
  insecure := get .insecure
  maxRedirects := get .maxRedirects
  userAgent := get .userAgent
  noPool := get .noPool
  envPassthrough := get .envPassthrough

def RunFlags.toConfig (flags : RunFlags) : Config where
  workers := flags.workers
  duration := flags.duration
  jitter := flags.jitter
  drop := flags.drop
  noEndpointTracking := if flags.noEndpointTracking then some true else none
  memorySafe := if flags.memorySafe then some true else none
  iterations := flags.iterations
  warmup := flags.warmup
  responseSink := if flags.responseSink then some true else none
  abortOnFail := if flags.abortOnFail then some true else none
  insecure := if flags.insecure then some true else none
  noPool := if flags.noPool then some true else none
  envPassthrough := if flags.envPassthrough then some true else none
  maxRedirects := flags.maxRedirects
  userAgent := flags.userAgent

def RunFlags.watched (flags : RunFlags) : RunFlags where
  workers := flags.workers
  duration := flags.duration
  jitter := flags.jitter
  drop := flags.drop
  noEndpointTracking := flags.noEndpointTracking

def watchDefaults : Config := { workers := some 1, duration := some "5s" }

variable {a b : Config} {flags : RunFlags} {α : Type}

theorem Config.ofGet_get (config : Config) : Config.ofGet config.get = config := rfl

theorem Config.get_ofGet (get : {α : Type} → Field α → Option α) (field : Field α) :
    (Config.ofGet get).get field = get field := by
  cases field <;> rfl

/-- There is nothing more to a configuration than its options. -/
theorem Config.ext_get (same : ∀ {α : Type} (field : Field α), a.get field = b.get field) : a = b := by
  rw [← a.ofGet_get,← b.ofGet_get]
  simp only [Config.ofGet,same]

theorem Config.mergeFrom_eq :
    a.mergeFrom b = Config.ofGet fun field => (b.get field).or (a.get field) := rfl

theorem Config.get_mergeFrom (field : Field α) :
    (a.mergeFrom b).get field = (b.get field).or (a.get field) := by
  rw [mergeFrom_eq,get_ofGet]

theorem Config.get_empty (field : Field α) : ({} : Config).get field = none := by
  cases field <;> rfl

def layered (layers : List Config) : Config := layers.foldl Config.mergeFrom {}

/-- The last layer that sets an option decides. -/
theorem get_layered (layers : List Config) (field : Field α) :
    (layered layers).get field = layers.reverse.findSome? (·.get field) := by
  induction layers using List.reverseRecOn with
  | nil => exact Config.get_empty field
  | append_singleton layers last ih =>
    rw [layered,List.foldl_concat,Config.get_mergeFrom,← layered,ih,List.reverse_concat,
      List.findSome?_cons]
    cases last.get field <;> rfl

theorem or_flag (set : Bool) (value : Option Bool) :
    (if set then some true else none).or value = if set then some true else value := by
  cases set <;> rfl

theorem Config.applyFlags_eq (config : Config) (flags : RunFlags) :
    config.applyFlags flags = { config.mergeFrom flags.toConfig with
      criteria :=
        if flags.thresholds = [] then config.criteria
        else some (mergeCliThresholds (config.criteria.getD ∅) flags.thresholds) } := by
  simp only [mergeFrom,RunFlags.toConfig,or_flag]
  rfl

def below (script file : Option Config) : Config := layered [script.getD {},file.getD {}]

theorem Config.mergeFrom_empty (config : Config) : config.mergeFrom {} = config :=
  Config.ext_get fun field => by rw [get_mergeFrom,get_empty,Option.none_or]

theorem Config.empty_mergeFrom (config : Config) : Config.mergeFrom {} config = config :=
  Config.ext_get fun field => by rw [get_mergeFrom,get_empty,Option.or_none]

theorem below_eq (script file : Option Config) :
    below script file = (script.getD {}).mergeFrom (file.getD {}) := by
  rw [below,layered,List.foldl_cons,List.foldl_cons,List.foldl_nil,Config.empty_mergeFrom]

theorem finalConfig_eq (script file : Option Config) (flags : RunFlags) :
    finalConfig script file flags = (below script file).applyFlags flags := by
  rw [below_eq]
  cases file with
  | none => rw [Option.getD_none,Config.mergeFrom_empty,finalConfig]
  | some file => rfl

def addedFor (metric flag : String) : Option String :=
  match splitOnce ':' flag with
  | some (name,condition) =>
    if name = "" ∨ condition = "" ∨ name ≠ metric then none else some condition
  | none => none

theorem lookup_mergeCliThresholds (criteria : FiniteMap String (List String)) (flags : List String)
    (metric : String) : (mergeCliThresholds criteria flags).lookup metric =
      if flags.filterMap (addedFor metric) = [] then criteria.lookup metric
      else some ((criteria.lookup metric).getD [] ++ flags.filterMap (addedFor metric)) := by
  induction flags generalizing criteria with
  | nil => rfl
  | cons flag rest ih =>
    have first : (mergeCliThresholds criteria [flag]).lookup metric =
        (addedFor metric flag).elim (criteria.lookup metric)
          fun condition => some ((criteria.lookup metric).getD [] ++ [condition]) := by
      unfold mergeCliThresholds addedFor
      rw [List.foldl_cons,List.foldl_nil]
      rcases splitOnce ':' flag with _ | ⟨name,condition⟩
      · rfl
      · by_cases ignored : name = "" ∨ condition = ""
        · simp [ignored,← or_assoc]
        · rw [not_or] at ignored
          by_cases same : metric = name
          · subst same
            simp [ignored.1,ignored.2,FiniteMap.lookup_upsert]
          · simp [ignored.1,ignored.2,FiniteMap.lookup_upsert,same,Ne.symm same]
    have both : mergeCliThresholds criteria (flag :: rest) =
        mergeCliThresholds (mergeCliThresholds criteria [flag]) rest := rfl
    rw [both,ih,first,List.filterMap_cons]
    cases addedFor metric flag with
    | none => rfl
    | some condition =>
      by_cases last : rest.filterMap (addedFor metric) = [] <;> simp [last]

def Field.plain : Field α → Bool
  | .criteria => false
  | _ => true

theorem get_applyFlags (config : Config) (flags : RunFlags) (field : Field α) (plain : field.plain = true) :
    (config.applyFlags flags).get field = (flags.toConfig.get field).or (config.get field) := by
  rw [Config.applyFlags_eq,← Config.get_mergeFrom]
  cases field with
  | criteria => cases plain
  | _ => rfl

theorem criteria_applyFlags (config : Config) (flags : RunFlags) (metric : String) :
    ((config.applyFlags flags).criteria.getD ∅).lookup metric =
      if flags.thresholds.filterMap (addedFor metric) = [] then (config.criteria.getD ∅).lookup metric
      else some (((config.criteria.getD ∅).lookup metric).getD [] ++
        flags.thresholds.filterMap (addedFor metric)) := by
  by_cases none : flags.thresholds = []
  · simp [Config.applyFlags,none]
  · simp only [Config.applyFlags,none,if_false,Option.getD_some]
    exact lookup_mergeCliThresholds _ _ metric

theorem watchConfig_eq (script : Option Config) (flags : RunFlags) :
    watchConfig script flags = (watchDefaults.mergeFrom (script.getD {})).applyFlags flags.watched := by
  have workers : (watchConfig script flags).workers =
      flags.workers.or ((script.getD {}).workers.or (some 1)) := by
    simp only [watchConfig]
    cases flags.workers <;> cases (script.getD {}).workers <;> rfl
  have duration : (watchConfig script flags).duration =
      flags.duration.or ((script.getD {}).duration.or (some "5s")) := by
    simp only [watchConfig]
    cases flags.duration <;> cases (script.getD {}).duration <;> rfl
  apply Config.ext_get
  intro α field
  cases field with
  | workers => exact workers
  | duration => exact duration
  | criteria => exact (Option.or_none ..).symm
  | _ => simp [watchConfig,Config.applyFlags,Config.mergeFrom,watchDefaults,RunFlags.watched,Config.get]

/-- An option of a local run is the one of the last source that sets it, in the order of script,
file and flags, but for the thresholds, which are added to those of the last source; and the
watch mode is a local run without a file, with five of the flags, over two defaults. -/
theorem finalConfig_chain (script file : Option Config) (flags : RunFlags) :
    (∀ (α : Type) (field : Field α), field.plain = true →
      (finalConfig script file flags).get field =
        [flags.toConfig,file.getD {},script.getD {}].findSome? (·.get field)) ∧
    (∀ metric,
      let criteria := ((file.getD {}).criteria.or (script.getD {}).criteria).getD ∅
      let added := flags.thresholds.filterMap (addedFor metric)
      ((finalConfig script file flags).criteria.getD ∅).lookup metric =
        if added = [] then criteria.lookup metric
        else some ((criteria.lookup metric).getD [] ++ added)) ∧
    watchConfig script flags =
      finalConfig (some (watchDefaults.mergeFrom (script.getD {}))) none flags.watched := by
  refine ⟨fun α field plain => ?_,fun metric => ?_,?_⟩
  · rw [finalConfig_eq,get_applyFlags _ _ _ plain,below,get_layered,List.findSome?_cons]
    cases flags.toConfig.get field <;> rfl
  · rw [finalConfig_eq,criteria_applyFlags,below_eq]
    rfl
  · exact watchConfig_eq script flags

/-- What is read of two documents, the second over the first: what the second has, and is not
`null`, counts. -/
def overlay (script file : Source) : Source := fun names =>
  match file names with
  | some none => script names
  | found => found

section Overlay

variable {format : Format} {script file : Source}

theorem field_overlay {decode : Json → Option α} {names : List String} {x y : Option α}
    (under : field decode (script names) = some x) (above : field decode (file names) = some y) :
    field decode (overlay script file names) = some (y.or x) := by
  unfold overlay
  rcases found : file names with _ | _ | value
  · rw [found] at above
    cases above
  · rw [found] at above
    obtain rfl := Option.some.inj above
    rw [under,Option.none_or]
  · rw [found] at above
    obtain ⟨value,-,rfl⟩ := Option.map_eq_some_iff.mp above
    exact above

theorem load_overlay {x y : LoadOptions} (under : LoadOptions.read format script = some x)
    (above : LoadOptions.read format file = some y) :
    LoadOptions.read format (overlay script file) = some {
      executor := y.executor.or x.executor
      workers := y.workers.or x.workers
      duration := y.duration.or x.duration
      iterations := y.iterations.or x.iterations
      schedule := y.schedule.or x.schedule
      rate := y.rate.or x.rate
      timeUnit := y.timeUnit.or x.timeUnit } := by
  simp only [LoadOptions.read,Option.bind_eq_bind,Option.bind_eq_some_iff] at under above
  obtain ⟨_,executor,_,workers,_,duration,_,iterations,_,schedule,_,rate,_,timeUnit,same⟩ := under
  obtain rfl := Option.some.inj same
  obtain ⟨_,executor',_,workers',_,duration',_,iterations',_,schedule',_,rate',_,timeUnit',same⟩ := above
  obtain rfl := Option.some.inj same
  simp only [LoadOptions.read,field_overlay executor executor',field_overlay workers workers',
    field_overlay duration duration',field_overlay iterations iterations',
    field_overlay schedule schedule',field_overlay rate rate',field_overlay timeUnit timeUnit',
    Option.bind_eq_bind,Option.bind_some,Option.map_or]
  rfl

/-- Merging what was read of two documents is reading one document, overlaid option by option
before anything is decoded. -/
theorem read_overlay {a b : Config} (under : Config.read format script = some a)
    (above : Config.read format file = some b) :
    Config.read format (overlay script file) = some (a.mergeFrom b) := by
  obtain ⟨_,load,under⟩ := Option.bind_eq_some_iff.mp under
  obtain ⟨_,load',above⟩ := Option.bind_eq_some_iff.mp above
  refine Option.bind_eq_some_iff.mpr ⟨_,load_overlay load load',?_⟩
  iterate 18
    obtain ⟨_,first,under⟩ := Option.bind_eq_some_iff.mp under
    obtain ⟨_,second,above⟩ := Option.bind_eq_some_iff.mp above
    refine Option.bind_eq_some_iff.mpr ⟨_,field_overlay first second,?_⟩
  obtain rfl := Option.some.inj under
  obtain rfl := Option.some.inj above
  rfl

def optionsOfScript : Source := ofObject [("workers",.int 5),("heapSize",.int 65536)]
def optionsOfFile : Source := ofObject [("workers",.int 8),("heap_size",.null)]

theorem options_overlaid : ∃ a b, Config.read serdeJson optionsOfScript = some a ∧
    Config.read serdeJson optionsOfFile = some b ∧
      Config.read serdeJson (overlay optionsOfScript optionsOfFile) = some (a.mergeFrom b) ∧
        (a.mergeFrom b).workers = some 8 ∧ (a.mergeFrom b).heapSize = some 65536 :=
  ⟨_,_,rfl,rfl,read_overlay rfl rfl,rfl,rfl⟩

end Overlay

end Fusillade.Cli
