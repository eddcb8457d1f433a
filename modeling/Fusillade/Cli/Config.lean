import Fusillade.Engine.Executor
import Fusillade.Lib.Binary64
import Fusillade.Lib.Json

/-! The options of a test as `serde` reads them from JSON or YAML. A format says how it reads a
leaf, and whether it takes an array for a struct; every field is optional but those of a
schedule step. -/
namespace Fusillade.Cli

open Json Engine.Executor

structure Format where
  usize : Json → Option Nat
  u64 : Json → Option UInt64
  u32 : Json → Option UInt32
  f64 : Json → Option ℚ
  bool : Json → Option Bool
  string : Json → Option String
  /-- The name of a unit variant. -/
  variant : Json → Option String
  positional : Bool

def nat (bound : Nat) : Json → Option Nat
  | .int value => if 0 ≤ value ∧ value < bound then some value.toNat else none
  | _ => none

/-- The leaves as `serde_json` reads them. -/
def serdeJson : Format where
  usize := nat (2^64)
  u64 value := (nat (2^64) value).map UInt64.ofNat
  u32 value := (nat (2^32) value).map UInt32.ofNat
  f64
    | .int value => Binary64.round value
    | .float value => some value
    | _ => none
  bool
    | .bool value => some value
    | _ => none
  string
    | .str text => some text
    | _ => none
  variant
    | .str text => some text
    | .obj [(text,.null)] => some text
    | _ => none
  positional := true

structure ScenarioConfig extends LoadOptions where
  exec : Option String := none
  startTime : Option String := none
  thresholds : Option (FiniteMap String (List String)) := none
  stackSize : Option Nat := none
  responseSink : Option Bool := none
  noPool : Option Bool := none
  deriving DecidableEq

structure Config extends LoadOptions where
  criteria : Option (FiniteMap String (List String)) := none
  minIterationDuration : Option String := none
  warmup : Option String := none
  stop : Option String := none
  scenarios : Option (FiniteMap String ScenarioConfig) := none
  jitter : Option String := none
  drop : Option ℚ := none
  stackSize : Option Nat := none
  heapSize : Option Nat := none
  responseSink : Option Bool := none
  noEndpointTracking : Option Bool := none
  abortOnFail : Option Bool := none
  memorySafe : Option Bool := none
  insecure : Option Bool := none
  maxRedirects : Option UInt32 := none
  userAgent : Option String := none
  noPool : Option Bool := none
  envPassthrough : Option Bool := none
  deriving DecidableEq

/-- In kebab case, with the aliases. -/
def executorType (name : String) : Option ExecutorType :=
  if name = "constant-workers" ∨ name = "constant-vus" then some .constantWorkers
  else if name = "ramping-workers" ∨ name = "ramping-vus" then some .rampingWorkers
  else if name = "constant-arrival-rate" then some .constantArrivalRate
  else if name = "ramping-arrival-rate" then some .rampingArrivalRate
  else if name = "per-worker-iterations" ∨ name = "per-vu-iterations" then some .perWorkerIterations
  else if name = "shared-iterations" then some .sharedIterations
  else none

variable (format : Format)

def decodeExecutor (value : Json) : Option ExecutorType := (format.variant value).bind executorType

def decodeStep : Json → Option ScheduleStep :=
  decodeStruct format.positional [["duration"],["target"]] fun source => do
    let duration ← required format.string (source ["duration"])
    let target ← required format.usize (source ["target"])
    return { duration, target }

def decodeCriteria : Json → Option (FiniteMap String (List String)) :=
  decodeMap (decodeVec format.string)

/-- The fields that both structs have, under their names. -/
def LoadOptions.fields : List (List String) := [["executor"],["workers"],["duration"],["iterations"],
  ["schedule"],["rate"],["time_unit"]]

def LoadOptions.read (source : Source) : Option LoadOptions := do
  let executor ← field (decodeExecutor format) (source ["executor"])
  let workers ← field format.usize (source ["workers"])
  let duration ← field format.string (source ["duration"])
  let iterations ← field format.u64 (source ["iterations"])
  let schedule ← field (decodeVec (decodeStep format)) (source ["schedule"])
  let rate ← field format.u64 (source ["rate"])
  let timeUnit ← field format.string (source ["time_unit"])
  return { executor, workers, duration, iterations, schedule, rate := rate.map UInt64.toNat, timeUnit }

/-- In the order of the declaration. -/
def ScenarioConfig.fields : List (List String) := LoadOptions.fields ++ [["exec"],
  ["start_time","startTime"],["thresholds"],["stack_size"],["response_sink","responseSink"],
  ["no_pool","noPool"]]

def ScenarioConfig.read (source : Source) : Option ScenarioConfig := do
  let load ← LoadOptions.read format source
  let exec ← field format.string (source ["exec"])
  let startTime ← field format.string (source ["start_time","startTime"])
  let thresholds ← field (decodeCriteria format) (source ["thresholds"])
  let stackSize ← field format.usize (source ["stack_size"])
  let responseSink ← field format.bool (source ["response_sink","responseSink"])
  let noPool ← field format.bool (source ["no_pool","noPool"])
  return { load with exec, startTime, thresholds, stackSize, responseSink, noPool }

def decodeScenario : Json → Option ScenarioConfig :=
  decodeStruct format.positional ScenarioConfig.fields (ScenarioConfig.read format)

def decodeScenarios : Json → Option (FiniteMap String ScenarioConfig) :=
  decodeMap (decodeScenario format)

/-- All fields but the scenarios. -/
def Config.fields : List (List String) := LoadOptions.fields ++ [["criteria"],
  ["min_iteration_duration"],["warmup"],["stop"],["jitter"],["drop"],["stack_size"],
  ["heap_size","heapSize"],["response_sink","responseSink"],
  ["no_endpoint_tracking","noEndpointTracking"],["abort_on_fail","abortOnFail"],
  ["memory_safe","memorySafe"],["insecure"],["max_redirects","maxRedirects"],
  ["user_agent","userAgent"],["no_pool","noPool"],["env_passthrough","envPassthrough"]]

def Config.read (source : Source) : Option Config := do
  let load ← LoadOptions.read format source
  let criteria ← field (decodeCriteria format) (source ["criteria"])
  let minIterationDuration ← field format.string (source ["min_iteration_duration"])
  let warmup ← field format.string (source ["warmup"])
  let stop ← field format.string (source ["stop"])
  let scenarios ← field (decodeScenarios format) (source ["scenarios"])
  let jitter ← field format.string (source ["jitter"])
  let drop ← field format.f64 (source ["drop"])
  let stackSize ← field format.usize (source ["stack_size"])
  let heapSize ← field format.usize (source ["heap_size","heapSize"])
  let responseSink ← field format.bool (source ["response_sink","responseSink"])
  let noEndpointTracking ← field format.bool (source ["no_endpoint_tracking","noEndpointTracking"])
  let abortOnFail ← field format.bool (source ["abort_on_fail","abortOnFail"])
  let memorySafe ← field format.bool (source ["memory_safe","memorySafe"])
  let insecure ← field format.bool (source ["insecure"])
  let maxRedirects ← field format.u32 (source ["max_redirects","maxRedirects"])
  let userAgent ← field format.string (source ["user_agent","userAgent"])
  let noPool ← field format.bool (source ["no_pool","noPool"])
  let envPassthrough ← field format.bool (source ["env_passthrough","envPassthrough"])
  return { load with
    criteria, minIterationDuration, warmup, stop, scenarios, jitter, drop, stackSize, heapSize,
    responseSink, noEndpointTracking, abortOnFail, memorySafe, insecure, maxRedirects, userAgent,
    noPool, envPassthrough }

section Read

variable {format} {source source' : Source}

theorem LoadOptions.read_congr (same : ∀ names ∈ LoadOptions.fields, source' names = source names) :
    LoadOptions.read format source' = LoadOptions.read format source := by
  simp only [LoadOptions.fields,List.forall_mem_cons] at same
  simp only [LoadOptions.read,same]

theorem LoadOptions.read_eq_some {options : LoadOptions}
    (accepted : LoadOptions.read format source = some options) :
    field format.usize (source ["workers"]) = some options.workers ∧
      field (decodeVec (decodeStep format)) (source ["schedule"]) = some options.schedule ∧
      field format.string (source ["time_unit"]) = some options.timeUnit := by
  simp only [LoadOptions.read,Option.bind_eq_bind,Option.bind_eq_some_iff] at accepted
  obtain ⟨_,_,_,workers,_,_,_,_,_,schedule,_,_,_,timeUnit,same⟩ := accepted
  obtain rfl := Option.some.inj same
  exact ⟨workers,schedule,timeUnit⟩

theorem ScenarioConfig.read_congr
    (same : ∀ names ∈ ScenarioConfig.fields, source' names = source names) :
    ScenarioConfig.read format source' = ScenarioConfig.read format source := by
  obtain ⟨load,same⟩ := List.forall_mem_append.mp same
  simp only [List.forall_mem_cons] at same
  simp only [ScenarioConfig.read,LoadOptions.read_congr load,same]

theorem ScenarioConfig.read_eq_some {config : ScenarioConfig}
    (accepted : ScenarioConfig.read format source = some config) :
    LoadOptions.read format source = some config.toLoadOptions ∧
      field (decodeCriteria format) (source ["thresholds"]) = some config.thresholds := by
  simp only [ScenarioConfig.read,Option.bind_eq_bind,Option.bind_eq_some_iff] at accepted
  obtain ⟨_,load,_,_,_,_,_,thresholds,_,_,_,_,_,_,same⟩ := accepted
  obtain rfl := Option.some.inj same
  exact ⟨load,thresholds⟩

theorem Config.read_congr (same : ∀ names ∈ Config.fields, source' names = source names)
    (scenarios : field (decodeScenarios format) (source' ["scenarios"]) =
      field (decodeScenarios format) (source ["scenarios"])) :
    Config.read format source' = Config.read format source := by
  obtain ⟨load,same⟩ := List.forall_mem_append.mp same
  simp only [List.forall_mem_cons] at same
  obtain ⟨criteria,minimum,warmup,stop,jitter,drop,stack,heap,sink,same⟩ := same
  obtain ⟨tracking,abort,memory,insecure,redirects,agent,pool,passthrough,_⟩ := same
  rw [Config.read,Config.read,LoadOptions.read_congr load,criteria,minimum,warmup,stop,scenarios,
    jitter,drop,stack,heap,sink,tracking,abort,memory,insecure,redirects,agent,pool,passthrough]

theorem Config.read_eq_some {config : Config} (accepted : Config.read format source = some config) :
    LoadOptions.read format source = some config.toLoadOptions ∧
      field (decodeCriteria format) (source ["criteria"]) = some config.criteria ∧
      field format.string (source ["min_iteration_duration"]) = some config.minIterationDuration ∧
      field (decodeScenarios format) (source ["scenarios"]) = some config.scenarios := by
  obtain ⟨_,load,accepted⟩ := Option.bind_eq_some_iff.mp accepted
  obtain ⟨_,criteria,accepted⟩ := Option.bind_eq_some_iff.mp accepted
  obtain ⟨_,minimum,accepted⟩ := Option.bind_eq_some_iff.mp accepted
  iterate 2 obtain ⟨_,_,accepted⟩ := Option.bind_eq_some_iff.mp accepted
  obtain ⟨_,scenarios,accepted⟩ := Option.bind_eq_some_iff.mp accepted
  iterate 13 obtain ⟨_,_,accepted⟩ := Option.bind_eq_some_iff.mp accepted
  obtain rfl := Option.some.inj accepted
  exact ⟨load,criteria,minimum,scenarios⟩

end Read

end Fusillade.Cli
