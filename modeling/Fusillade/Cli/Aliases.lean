import Fusillade.Cli.Config

/-! Option names. `extract_config` moves the members of the script's options to other names
before it deserializes them; a configuration file and a dispatched test are deserialized as
they are, where only the aliases of the structs count. -/
namespace Fusillade.Cli

open Json

/-- A scenario under its name; only objects change. -/
def changeScenario (change : String → Members → Members) (scenario : String × Json) : Json :=
  match scenario.2 with
  | .obj members => .obj (change scenario.1 members)
  | other => other

def changeScenarios (change : String → Members → Members) : Json → Json
  | .obj scenarios => .obj (scenarios.map fun scenario => (scenario.1,changeScenario change scenario))
  | other => other

def mapScenarios (change : String → Members → Members) (options : Members) : Members :=
  match get options "scenarios" with
  | some scenarios => insert options "scenarios" (changeScenarios change scenarios)
  | none => options

/-- The moves of `extract_config`, in its order. -/
def optionKeys : List (String × String) := [("stages","schedule"),("thresholds","criteria"),
  ("executor","executor"),("rate","rate"),("timeUnit","time_unit"),
  ("minIterationDuration","min_iteration_duration"),("responseSink","response_sink")]

def scenarioKeys : List (String × String) := [("vus","workers"),("stages","schedule"),
  ("timeUnit","time_unit"),("responseSink","response_sink")]

/-- Every move of the table. -/
def translate (keys : List (String × String)) : Members → Members := rename (fun _ => true) keys

/-- `extract_config`, on the members of the exported options. -/
def extractConfig (options : Members) : Option Config :=
  Config.read serdeJson (ofObject
    (mapScenarios (fun _ => translate scenarioKeys) (translate optionKeys options)))

def configFile (format : Format) (options : Members) : Option Config :=
  Config.read format (ofObject options)

/-- The configuration of a `StartTest` command or a `/start` request. -/
def dispatchedConfig (options : Members) : Option Config := Config.read serdeJson (ofObject options)

inductive EntryPoint where
  | script
  | file (format : Format)
  | dispatched

namespace EntryPoint

def load : EntryPoint → Members → Option Config
  | .script => extractConfig
  | .file format => configFile format
  | .dispatched => dispatchedConfig

def format : EntryPoint → Format
  | .file format => format
  | _ => serdeJson

def optionKeys : EntryPoint → List (String × String)
  | .script => Cli.optionKeys
  | _ => []

def scenarioKeys : EntryPoint → List (String × String)
  | .script => Cli.scenarioKeys
  | _ => []

/-- The members that are deserialized. -/
def prepare : EntryPoint → Members → Members
  | .script,options =>
    mapScenarios (fun _ => translate Cli.scenarioKeys) (translate Cli.optionKeys options)
  | _,options => options

end EntryPoint

/-- The primary names, each with its alias. -/
def aliases : List (String × String) := [("workers","vus"),("schedule","stages"),
  ("criteria","thresholds"),("time_unit","timeUnit"),("response_sink","responseSink"),
  ("start_time","startTime"),("min_iteration_duration","minIterationDuration"),
  ("max_redirects","maxRedirects"),("user_agent","userAgent")]

/-- Some of the renamings. -/
abbrev Chosen := String × String → Bool

/-- The options with the chosen aliases for primary names, and in each scenario with its own. -/
def aliased (chosen : Chosen) (inScenario : String → Chosen) (options : Members) : Members :=
  mapScenarios (fun name => rename (inScenario name) aliases) (rename chosen aliases options)

/-- A member to be renamed is there under its primary name only. -/
def Renames (chosen : Chosen) (members : Members) : Prop :=
  ∀ pair ∈ aliases, chosen pair = true → get members pair.1 ≠ none → get members pair.2 = none

structure RenamesOptions (chosen : Chosen) (inScenario : String → Chosen) (options : Members) :
    Prop where
  top : Renames chosen options
  distinct : ∀ scenarios, get options "scenarios" = some (.obj scenarios) →
    (scenarios.map Prod.fst).Nodup
  scenarios : ∀ scenarios, get options "scenarios" = some (.obj scenarios) →
    ∀ name members, (name,.obj members) ∈ scenarios → Renames (inScenario name) members

/-- The renamings that an entry point does not undo. -/
def EntryPoint.lost : EntryPoint → List (String × String)
  | .script => [("workers","vus")]
  | _ => [("workers","vus"),("schedule","stages"),("criteria","thresholds"),("time_unit","timeUnit"),
    ("min_iteration_duration","minIterationDuration")]

/-- In a scenario only the alias of `criteria` is known. -/
def EntryPoint.lostInScenario : EntryPoint → List (String × String)
  | .script => [("criteria","thresholds")]
  | _ => [("workers","vus"),("schedule","stages"),("criteria","thresholds"),("time_unit","timeUnit")]

/-- None of these renamings is applied to a value. -/
def Spares (lost : List (String × String)) (chosen : Chosen) (members : Members) : Prop :=
  ∀ pair ∈ lost, chosen pair = true → (get members pair.1).bind nonNull = none

section Members

variable {members : Members} {chosen : Chosen} {name other : String}

theorem aliases_separate : Separate aliases := by unfold Separate aliases; decide

theorem optionKeys_separate : Separate optionKeys := by unfold Separate optionKeys; decide

theorem scenarioKeys_separate : Separate scenarioKeys := by unfold Separate scenarioKeys; decide

theorem get_mapScenarios (change : String → Members → Members) (options : Members) (key : String) :
    get (mapScenarios change options) key =
      if key = "scenarios" then (get options "scenarios").map (changeScenarios change)
      else get options key := by
  unfold mapScenarios
  split
  next scenarios found => rw [get_insert,found,Option.map_some]
  next found =>
    rw [found,Option.map_none]
    split
    next same => rw [same,found]
    next => rfl

/-- What the renamings make of the members beside the scenarios. -/
structure Aliased (chosen : Chosen) (members members' : Members) : Prop where
  primary : ∀ pair ∈ aliases,
    get members' pair.1 = if chosen pair then none else get members pair.1
  aliased : ∀ pair ∈ aliases, get members' pair.2 =
    if chosen pair then (get members pair.1).or (get members pair.2) else get members pair.2
  rest : ∀ key, key ≠ "scenarios" → (∀ pair ∈ aliases, key = pair.1 ↔ key = pair.2) →
    get members' key = get members key
  once : Renames chosen members

theorem rename_aliased (renames : Renames chosen members) :
    Aliased chosen members (rename chosen aliases members) where
  primary pair member := get_rename_old aliases_separate member (by revert pair; decide)
  aliased _ member := get_rename_new aliases_separate member
  rest _ _ fixed := get_rename_other fixed
  once := renames

theorem aliased_top (inScenario : String → Chosen) (renames : Renames chosen members) :
    Aliased chosen members (aliased chosen inScenario members) := by
  have renamed := rename_aliased renames
  have same (key : String) (other : key ≠ "scenarios") :
      get (aliased chosen inScenario members) key = get (rename chosen aliases members) key := by
    rw [aliased,get_mapScenarios,if_neg other]
  have plain : ∀ pair ∈ aliases, pair.1 ≠ "scenarios" ∧ pair.2 ≠ "scenarios" := by decide
  constructor
  · intro pair member
    rw [same _ (plain pair member).1,renamed.primary pair member]
  · intro pair member
    rw [same _ (plain pair member).2,renamed.aliased pair member]
  · intro key other fixed
    rw [same key other,renamed.rest key other fixed]
  · exact renames

section Aliased

variable {members' : Members} (after : Aliased chosen members members')
include after

theorem Aliased.values (member : (name,other) ∈ aliases) :
    get members' name = (if chosen (name,other) then none else get members name) ∧
    get members' other = (if chosen (name,other) then (get members name).or (get members other)
      else get members other) ∧
    (chosen (name,other) = true → get members name ≠ none → get members other = none) :=
  ⟨after.primary _ member,after.aliased _ member,after.once _ member⟩

/-- What is under one of the two names stays under one of them. -/
theorem Aliased.either (member : (name,other) ∈ aliases) :
    (get members' name).or (get members' other) = (get members name).or (get members other) := by
  obtain ⟨primary,aliased,once⟩ := after.values member
  rw [primary,aliased]
  cases taken : chosen (name,other) with
  | false => simp
  | true => simp

/-- The same in the order in which `extract_config` takes them. -/
theorem Aliased.either' (member : (name,other) ∈ aliases) :
    (get members' other).or (get members' name) = (get members other).or (get members name) := by
  obtain ⟨primary,aliased,once⟩ := after.values member
  rw [primary,aliased]
  cases taken : chosen (name,other) with
  | false => simp
  | true => cases there : get members name <;> simp [once,taken,there]

/-- A field with both names does not notice its renaming. -/
theorem Aliased.pair (member : (name,other) ∈ aliases) :
    ofObject members' [name,other] = ofObject members [name,other] := by
  obtain ⟨primary,aliased,once⟩ := after.values member
  cases taken : chosen (name,other) with
  | false => exact ofObject_congr (by simp [primary,aliased,taken])
  | true =>
    rw [ofObject_pair _ _ _ (once taken),ofObject_pair,after.either member]
    simp [primary,taken]

variable {keys : List (String × String)}

/-- No move of the table moves any of these names elsewhere. -/
def Fixed (keys : List (String × String)) (names : List String) : Prop :=
  ∀ name ∈ names, ∀ pair ∈ keys, name = pair.1 ↔ name = pair.2

instance (keys : List (String × String)) (names : List String) : Decidable (Fixed keys names) :=
  inferInstanceAs (Decidable (∀ name ∈ names, ∀ pair ∈ keys, name = pair.1 ↔ name = pair.2))

omit after in
theorem fixed_nil (names : List String) : Fixed [] names := fun _ _ _ member => nomatch member

omit after in
theorem ofObject_translate {names : List String} (fixed : Fixed keys names) (members : Members) :
    ofObject (translate keys members) names = ofObject members names :=
  ofObject_congr fun name member => get_rename_other (fixed name member)

theorem Aliased.plain {names : List String} (fixed : Fixed keys names)
    (plain : Fixed aliases names) (top : "scenarios" ∉ names) :
    ofObject (translate keys members') names = ofObject (translate keys members) names := by
  rw [ofObject_translate fixed,ofObject_translate fixed]
  refine ofObject_congr fun name member => after.rest name ?_ (plain name member)
  rintro rfl
  exact top member

theorem Aliased.pair_translate (fixed : Fixed keys [name,other]) (member : (name,other) ∈ aliases) :
    ofObject (translate keys members') [name,other] =
      ofObject (translate keys members) [name,other] := by
  rw [ofObject_translate fixed,ofObject_translate fixed,after.pair member]

omit after in
theorem get_translate_new (separate : Separate keys) (moved : (other,name) ∈ keys)
    (members : Members) :
    get (translate keys members) name = (get members other).or (get members name) :=
  get_rename_new separate moved

omit after in
theorem get_translate_old (separate : Separate keys) (moved : (other,name) ∈ keys)
    (distinct : other ≠ name) (members : Members) : get (translate keys members) other = none :=
  get_rename_old separate moved distinct

/-- An alias that is moved to its primary name. -/
theorem Aliased.moved (name other : String) (separate : Separate keys) (moved : (other,name) ∈ keys)
    (member : (name,other) ∈ aliases) (distinct : other ≠ name) {names : List String}
    (both : ∀ key ∈ names, key = name ∨ key = other) :
    ofObject (translate keys members') names = ofObject (translate keys members) names := by
  refine ofObject_congr fun key inside => ?_
  rcases both key inside with rfl | rfl
  · rw [get_translate_new separate moved,get_translate_new separate moved,after.either' member]
  · rw [get_translate_old separate moved distinct,get_translate_old separate moved distinct]

/-- A field that is only found under its primary name misses a renamed value. -/
theorem Aliased.lost (fixed : Fixed keys [name]) (member : (name,other) ∈ aliases) :
    ofObject (translate keys members') [name] =
      if chosen (name,other) then some none else ofObject (translate keys members) [name] := by
  rw [ofObject_translate fixed,ofObject_translate fixed,ofObject_single,ofObject_single,
    after.primary _ member]
  split <;> rfl

theorem Aliased.lost_iff (fixed : Fixed keys [name]) (member : (name,other) ∈ aliases) :
    ofObject (translate keys members') [name] = ofObject (translate keys members) [name] ↔
      (chosen (name,other) = true → (get members name).bind nonNull = none) := by
  rw [after.lost fixed member,ofObject_translate fixed,ofObject_single]
  cases chosen (name,other) with
  | false => simp
  | true => simp [eq_comm]

/-- A field that is only found under the alias of its name gains one. -/
theorem Aliased.gained (fixed : Fixed keys [other]) (member : (name,other) ∈ aliases) :
    ofObject (translate keys members') [other] = ofObject (translate keys members) [other] ∨
      ofObject (translate keys members) [other] = some none := by
  obtain ⟨_,aliased,once⟩ := after.values member
  rw [ofObject_translate fixed,ofObject_translate fixed,ofObject_single,ofObject_single,aliased]
  cases taken : chosen (name,other) with
  | false => simp
  | true => cases there : get members name <;> simp [once,taken,there]

theorem Aliased.gained_iff (fixed : Fixed keys [other]) (member : (name,other) ∈ aliases) :
    ofObject (translate keys members') [other] = ofObject (translate keys members) [other] ↔
      (chosen (name,other) = true → (get members name).bind nonNull = none) := by
  obtain ⟨_,aliased,once⟩ := after.values member
  rw [ofObject_translate fixed,ofObject_translate fixed,ofObject_single,ofObject_single,aliased]
  cases taken : chosen (name,other) with
  | false => simp
  | true => cases there : get members name <;> simp [once,taken,there]

/-- The names of fields that some renaming touches. -/
def touched (fields : List (List String)) : List (List String) :=
  fields.filter fun names => !decide (Fixed aliases names)

theorem Aliased.untouched {fields : List (List String)} (scenarios : ∀ names ∈ fields, "scenarios" ∉ names)
    (fixed : ∀ names ∈ fields, Fixed aliases names → Fixed keys names)
    (same : ∀ names ∈ touched fields,
      ofObject (translate keys members') names = ofObject (translate keys members) names) :
    ∀ names ∈ fields,
      ofObject (translate keys members') names = ofObject (translate keys members) names := by
  intro names member
  by_cases plain : Fixed aliases names
  · exact after.plain (fixed names member plain) plain (scenarios names member)
  · exact same names (List.mem_filter.mpr ⟨member,by simp [plain]⟩)

end Aliased

theorem touched_config : touched Config.fields = [["workers"],["schedule"],["time_unit"],["criteria"],
    ["min_iteration_duration"],["response_sink","responseSink"],["max_redirects","maxRedirects"],
    ["user_agent","userAgent"]] := by decide

theorem touched_scenario : touched ScenarioConfig.fields = [["workers"],["schedule"],["time_unit"],
    ["start_time","startTime"],["thresholds"],["response_sink","responseSink"]] := by decide

/-- A value that is lost or gained shows in what the field becomes. -/
theorem same_of_field {α : Type} {decode : Json → Option α} {found found' : Option (Option Json)}
    {value : Option α} (change : found' = found ∨ found' = some none ∨ found = some none)
    (before : field decode found = some value) (afterwards : field decode found' = some value) :
    found' = found := by
  rcases change with same | missing | missing
  · exact same
  · subst missing
    obtain rfl := Option.some.inj (show some none = some value from afterwards)
    exact (field_eq_some_none.mp before).symm
  · subst missing
    obtain rfl := Option.some.inj (show some none = some value from before)
    exact field_eq_some_none.mp afterwards

theorem changeScenarios_same (scenarios : Json) :
    changeScenarios (fun _ members => members) scenarios = scenarios := by
  have same (scenario : String × Json) :
      (scenario.1,changeScenario (fun _ members => members) scenario) = scenario := by
    obtain ⟨name,value⟩ := scenario
    cases value <;> rfl
  cases scenarios with
  | obj scenarios => simp [changeScenarios,same]
  | _ => rfl

theorem changeScenarios_twice (f g : String → Members → Members) (scenarios : Json) :
    changeScenarios f (changeScenarios g scenarios) =
      changeScenarios (fun name members => f name (g name members)) scenarios := by
  cases scenarios with
  | obj scenarios =>
    simp only [changeScenarios,List.map_map]
    congr 2
    funext scenario
    obtain ⟨name,value⟩ := scenario
    cases value <;> rfl
  | _ => rfl

theorem get_prepare (e : EntryPoint) (members : Members) (key : String) : get (e.prepare members) key =
    if key = "scenarios" then
      (get members key).map (changeScenarios fun _ => translate e.scenarioKeys)
    else get (translate e.optionKeys members) key := by
  have same : changeScenarios (fun _ => translate []) = id := funext changeScenarios_same
  cases e with
  | script =>
    rw [EntryPoint.prepare,get_mapScenarios]
    split
    next here =>
      rw [here]
      congr 1
      exact get_rename_other (by decide)
    next => rfl
  | _ =>
    split
    next => simp [EntryPoint.prepare,EntryPoint.scenarioKeys,same]
    next => rfl

theorem ofObject_prepare (e : EntryPoint) {names : List String} (plain : "scenarios" ∉ names)
    (members : Members) :
    ofObject (e.prepare members) names = ofObject (translate e.optionKeys members) names := by
  refine ofObject_congr fun name member => ?_
  rw [get_prepare,if_neg]
  rintro rfl
  exact plain member

section Levels

variable {members' : Members} (after : Aliased chosen members members') (e : EntryPoint)
include after

theorem Aliased.config_same_script (spares : Spares EntryPoint.script.lost chosen members) :
    ∀ names ∈ Config.fields, ofObject (translate optionKeys members') names =
      ofObject (translate optionKeys members) names := by
  have missing := (after.lost_iff (by decide : Fixed optionKeys ["workers"]) (by decide)).mpr
    (spares ("workers","vus") (by decide))
  refine after.untouched (by decide) (by decide) ?_
  rw [touched_config]
  simp only [List.forall_mem_cons]
  refine ⟨?_,?_,?_,?_,?_,?_,?_,?_,by simp⟩
  · exact missing
  · exact after.moved "schedule" "stages" optionKeys_separate (by decide) (by decide) (by decide) (by simp)
  · exact after.moved "time_unit" "timeUnit" optionKeys_separate (by decide) (by decide) (by decide) (by simp)
  · exact after.moved "criteria" "thresholds" optionKeys_separate (by decide) (by decide) (by decide) (by simp)
  · exact after.moved "min_iteration_duration" "minIterationDuration" optionKeys_separate (by decide)
      (by decide) (by decide) (by simp)
  · exact after.moved "response_sink" "responseSink" optionKeys_separate (by decide) (by decide)
      (by decide) (by simp)
  · exact after.pair_translate (by decide) (by decide)
  · exact after.pair_translate (by decide) (by decide)

theorem Aliased.config_same_plain (spares : Spares EntryPoint.dispatched.lost chosen members) :
    ∀ names ∈ Config.fields, ofObject (translate [] members') names =
      ofObject (translate [] members) names := by
  have missing (name other : String) (lost : (name,other) ∈ EntryPoint.dispatched.lost)
      (known : (name,other) ∈ aliases) :=
    (after.lost_iff (fixed_nil [name]) known).mpr (spares _ lost)
  refine after.untouched (by decide) (fun names _ _ => fixed_nil names) ?_
  rw [touched_config]
  simp only [List.forall_mem_cons]
  refine ⟨?_,?_,?_,?_,?_,?_,?_,?_,by simp⟩
  · exact missing "workers" "vus" (by decide) (by decide)
  · exact missing "schedule" "stages" (by decide) (by decide)
  · exact missing "time_unit" "timeUnit" (by decide) (by decide)
  · exact missing "criteria" "thresholds" (by decide) (by decide)
  · exact missing "min_iteration_duration" "minIterationDuration" (by decide) (by decide)
  · exact after.pair (by decide)
  · exact after.pair (by decide)
  · exact after.pair (by decide)

theorem Aliased.scenario_same_script (spares : Spares EntryPoint.script.lostInScenario chosen members) :
    ∀ names ∈ ScenarioConfig.fields, ofObject (translate scenarioKeys members') names =
      ofObject (translate scenarioKeys members) names := by
  have gained := (after.gained_iff (by decide : Fixed scenarioKeys ["thresholds"]) (by decide)).mpr
    (spares ("criteria","thresholds") (by decide))
  refine after.untouched (by decide) (by decide) ?_
  rw [touched_scenario]
  simp only [List.forall_mem_cons]
  refine ⟨?_,?_,?_,?_,gained,?_,by simp⟩
  · exact after.moved "workers" "vus" scenarioKeys_separate (by decide) (by decide) (by decide) (by simp)
  · exact after.moved "schedule" "stages" scenarioKeys_separate (by decide) (by decide) (by decide)
      (by simp)
  · exact after.moved "time_unit" "timeUnit" scenarioKeys_separate (by decide) (by decide) (by decide)
      (by simp)
  · exact after.pair_translate (by decide) (by decide)
  · exact after.moved "response_sink" "responseSink" scenarioKeys_separate (by decide) (by decide)
      (by decide) (by simp)

theorem Aliased.scenario_same_plain
    (spares : Spares EntryPoint.dispatched.lostInScenario chosen members) :
    ∀ names ∈ ScenarioConfig.fields, ofObject (translate [] members') names =
      ofObject (translate [] members) names := by
  have missing (name other : String) (lost : (name,other) ∈ EntryPoint.dispatched.lostInScenario)
      (known : (name,other) ∈ aliases) := (after.lost_iff (fixed_nil [name]) known).mpr (spares _ lost)
  have gained := (after.gained_iff (fixed_nil ["thresholds"]) (by decide)).mpr
    (spares ("criteria","thresholds") (by decide))
  refine after.untouched (by decide) (fun names _ _ => fixed_nil names) ?_
  rw [touched_scenario]
  simp only [List.forall_mem_cons]
  refine ⟨?_,?_,?_,?_,gained,?_,by simp⟩
  · exact missing "workers" "vus" (by decide) (by decide)
  · exact missing "schedule" "stages" (by decide) (by decide)
  · exact missing "time_unit" "timeUnit" (by decide) (by decide)
  · exact after.pair (by decide)
  · exact after.pair (by decide)

theorem Aliased.scenario_same (spares : Spares e.lostInScenario chosen members) :
    ∀ names ∈ ScenarioConfig.fields, ofObject (translate e.scenarioKeys members') names =
      ofObject (translate e.scenarioKeys members) names := by
  cases e with
  | script => exact after.scenario_same_script spares
  | file format => exact after.scenario_same_plain spares
  | dispatched => exact after.scenario_same_plain spares

variable {keys : List (String × String)} {format : Format}

/-- A struct that reads the same lost nothing and gained nothing. -/
theorem Aliased.lost_read {α : Type} {decode : Json → Option α} {value : Option α}
    (fixed : Fixed keys [name]) (member : (name,other) ∈ aliases)
    (before : field decode (ofObject (translate keys members) [name]) = some value)
    (afterwards : field decode (ofObject (translate keys members') [name]) = some value) :
    chosen (name,other) = true → (get members name).bind nonNull = none := by
  refine (after.lost_iff fixed member).mp (same_of_field ?_ before afterwards)
  rw [after.lost fixed member]
  split
  · exact .inr (.inl rfl)
  · exact .inl rfl

theorem Aliased.scenario_iff {config : ScenarioConfig}
    (accepted : ScenarioConfig.read format (ofObject (translate e.scenarioKeys members)) = some config) :
    ScenarioConfig.read format (ofObject (translate e.scenarioKeys members')) = some config ↔
      Spares e.lostInScenario chosen members := by
  constructor
  · intro accepted'
    obtain ⟨load,thresholds⟩ := ScenarioConfig.read_eq_some accepted
    obtain ⟨load',thresholds'⟩ := ScenarioConfig.read_eq_some accepted'
    obtain ⟨workers,schedule,timeUnit⟩ := LoadOptions.read_eq_some load
    obtain ⟨workers',schedule',timeUnit'⟩ := LoadOptions.read_eq_some load'
    have known : ("criteria","thresholds") ∈ aliases := by decide
    have gained (fixed : Fixed e.scenarioKeys ["thresholds"]) :
        chosen ("criteria","thresholds") = true → (get members "criteria").bind nonNull = none :=
      (after.gained_iff fixed known).mp (same_of_field
        ((after.gained fixed known).imp_right .inr) thresholds thresholds')
    have plain (nothing : e.scenarioKeys = []) :
        Spares EntryPoint.dispatched.lostInScenario chosen members := by
      have fixed (names : List String) : Fixed e.scenarioKeys names := nothing ▸ fixed_nil names
      intro pair member
      simp only [EntryPoint.lostInScenario,List.mem_cons,List.not_mem_nil,or_false] at member
      rcases member with rfl | rfl | rfl | rfl
      · exact after.lost_read (fixed _) (by decide) workers workers'
      · exact after.lost_read (fixed _) (by decide) schedule schedule'
      · exact gained (fixed _)
      · exact after.lost_read (fixed _) (by decide) timeUnit timeUnit'
    cases e with
    | script =>
      intro pair member
      obtain rfl := List.mem_singleton.mp member
      exact gained (by decide)
    | file format => exact plain rfl
    | dispatched => exact plain rfl
  · intro spares
    rw [← accepted]
    exact ScenarioConfig.read_congr (after.scenario_same e spares)

theorem Aliased.config_same (spares : Spares e.lost chosen members) : ∀ names ∈ Config.fields,
    ofObject (translate e.optionKeys members') names =
      ofObject (translate e.optionKeys members) names := by
  cases e with
  | script => exact after.config_same_script spares
  | file format => exact after.config_same_plain spares
  | dispatched => exact after.config_same_plain spares

theorem Aliased.config_iff {config : Config}
    (accepted : Config.read format (ofObject (e.prepare members)) = some config) :
    Config.read format (ofObject (e.prepare members')) = some config ↔
      Spares e.lost chosen members ∧ field (decodeScenarios format)
        (ofObject (e.prepare members') ["scenarios"]) = some config.scenarios := by
  have top : ∀ names ∈ Config.fields, ∀ members : Members,
      ofObject (e.prepare members) names = ofObject (translate e.optionKeys members) names := by
    have plain : ∀ names ∈ Config.fields, "scenarios" ∉ names := by decide
    exact fun names member members => ofObject_prepare e (plain names member) members
  obtain ⟨load,criteria,minimum,scenarios⟩ := Config.read_eq_some accepted
  constructor
  · intro accepted'
    obtain ⟨load',criteria',minimum',scenarios'⟩ := Config.read_eq_some accepted'
    refine ⟨?_,scenarios'⟩
    obtain ⟨workers,schedule,timeUnit⟩ := LoadOptions.read_eq_some load
    obtain ⟨workers',schedule',timeUnit'⟩ := LoadOptions.read_eq_some load'
    rw [top _ (by decide)] at workers schedule timeUnit criteria minimum
    rw [top _ (by decide)] at workers' schedule' timeUnit' criteria' minimum'
    have plain (nothing : e.optionKeys = []) : Spares EntryPoint.dispatched.lost chosen members := by
      have fixed (names : List String) : Fixed e.optionKeys names := nothing ▸ fixed_nil names
      intro pair member
      simp only [EntryPoint.lost,List.mem_cons,List.not_mem_nil,or_false] at member
      rcases member with rfl | rfl | rfl | rfl | rfl
      · exact after.lost_read (fixed _) (by decide) workers workers'
      · exact after.lost_read (fixed _) (by decide) schedule schedule'
      · exact after.lost_read (fixed _) (by decide) criteria criteria'
      · exact after.lost_read (fixed _) (by decide) timeUnit timeUnit'
      · exact after.lost_read (fixed _) (by decide) minimum minimum'
    cases e with
    | script =>
      intro pair member
      obtain rfl := List.mem_singleton.mp member
      have fixed : Fixed EntryPoint.script.optionKeys ["workers"] := by decide
      exact after.lost_read fixed (by decide) workers workers'
    | file format => exact plain rfl
    | dispatched => exact plain rfl
  · rintro ⟨spares,scenarios'⟩
    rw [← accepted]
    refine Config.read_congr (fun names member => ?_) (scenarios'.trans scenarios.symm)
    rw [top names member,top names member,after.config_same e spares names member]

end Levels

section Scenarios

variable {chosen : Chosen} {inScenario : String → Chosen} {options : Members} (e : EntryPoint)

theorem get_aliased_scenarios : get (e.prepare (aliased chosen inScenario options)) "scenarios" =
    (get options "scenarios").map (changeScenarios fun name members =>
      translate e.scenarioKeys (rename (inScenario name) aliases members)) := by
  have kept : get (rename chosen aliases options) "scenarios" = get options "scenarios" :=
    get_rename_other (by decide)
  rw [get_prepare,if_pos rfl,aliased,get_mapScenarios,if_pos rfl,kept,Option.map_map]
  congr 1
  funext scenarios
  exact changeScenarios_twice _ _ scenarios

/-- Both ways to one scenario of an accepted configuration give the same. -/
theorem decodeScenario_iff {format : Format} {scenario : String × Json}
    (renames : ∀ members, scenario.2 = .obj members → Renames (inScenario scenario.1) members)
    {config : ScenarioConfig} (accepted : decodeScenario format
      (changeScenario (fun _ => translate e.scenarioKeys) scenario) = some config) :
    decodeScenario format (changeScenario (fun name members =>
        translate e.scenarioKeys (rename (inScenario name) aliases members)) scenario) =
      decodeScenario format (changeScenario (fun _ => translate e.scenarioKeys) scenario) ↔
      ∀ members, scenario.2 = .obj members →
        Spares e.lostInScenario (inScenario scenario.1) members := by
  obtain ⟨name,value⟩ := scenario
  rw [accepted]
  cases value with
  | obj members =>
    have after := rename_aliased (renames members rfl)
    exact (after.scenario_iff e accepted).trans (by simp)
  | _ => simpa [changeScenario] using accepted

/-- The scenarios come out the same exactly when none of them loses or gains a value. -/
theorem scenarios_iff {format : Format} (renames : RenamesOptions chosen inScenario options)
    {decoded : Option (FiniteMap String ScenarioConfig)} (accepted : field (decodeScenarios format)
      (ofObject (e.prepare options) ["scenarios"]) = some decoded) :
    field (decodeScenarios format)
        (ofObject (e.prepare (aliased chosen inScenario options)) ["scenarios"]) = some decoded ↔
      ∀ scenarios, get options "scenarios" = some (.obj scenarios) →
        ∀ name members, (name,.obj members) ∈ scenarios →
          Spares e.lostInScenario (inScenario name) members := by
  rw [ofObject_single,get_prepare,if_pos rfl] at accepted
  rw [ofObject_single,get_aliased_scenarios]
  cases found : get options "scenarios" with
  | none =>
    rw [found] at accepted
    exact iff_of_true accepted (by simp)
  | some scenarios =>
    rw [found] at accepted
    cases scenarios with
    | obj scenarios =>
      obtain ⟨map,read,rfl⟩ := Option.map_eq_some_iff.mp accepted
      have distinct := renames.distinct scenarios found
      have pointwise := decodeMap_eq_iff distinct
        (changeScenario fun _ => translate e.scenarioKeys)
        (changeScenario fun name members =>
          translate e.scenarioKeys (rename (inScenario name) aliases members)) read
      have each (scenario : String × Json) (member : scenario ∈ scenarios) :
          decodeScenario format (changeScenario (fun name members =>
              translate e.scenarioKeys (rename (inScenario name) aliases members)) scenario) =
            decodeScenario format (changeScenario (fun _ => translate e.scenarioKeys) scenario) ↔
            ∀ members, scenario.2 = .obj members →
              Spares e.lostInScenario (inScenario scenario.1) members := by
        obtain ⟨config,decodes,_⟩ := lookup_decodeMap (nodup_prepared distinct _) read _
          (List.mem_map_of_mem member)
        exact decodeScenario_iff e
          (fun members same => renames.scenarios scenarios found scenario.1 members (same ▸ member))
          decodes
      refine Iff.trans ?_ (pointwise.trans ⟨?_,?_⟩)
      · exact ((Option.map_injective (Option.some_injective _)).eq_iff' (by rfl))
      · intro same others equal name members member
        obtain rfl := Json.obj.inj (Option.some.inj equal)
        exact (each _ member).mp (same _ member) members rfl
      · intro spares scenario member
        exact (each scenario member).mpr fun members same =>
          spares scenarios rfl scenario.1 members (same ▸ member)
    | _ => exact iff_of_true accepted (by simp)

end Scenarios

/-- An accepted configuration keeps its meaning under aliases exactly when no renaming that the
entry point does not undo hits a value. -/
theorem load_aliased_iff (e : EntryPoint) {chosen : Chosen} {inScenario : String → Chosen}
    {options : Members} (renames : RenamesOptions chosen inScenario options) {config : Config}
    (accepted : e.load options = some config) :
    e.load (aliased chosen inScenario options) = some config ↔
      Spares e.lost chosen options ∧
        ∀ scenarios, get options "scenarios" = some (.obj scenarios) →
          ∀ name members, (name,.obj members) ∈ scenarios →
            Spares e.lostInScenario (inScenario name) members := by
  have loads (options : Members) :
      e.load options = Config.read e.format (ofObject (e.prepare options)) := by
    cases e <;> rfl
  rw [loads] at accepted ⊢
  have after := aliased_top inScenario renames.top
  obtain ⟨_,_,_,scenarios⟩ := Config.read_eq_some accepted
  rw [after.config_iff e accepted,scenarios_iff e renames scenarios]

end Members

def tenWorkers : Members := [("workers",.int 10)]

/-- With `vus` for `workers`, and nothing else renamed. -/
def tenVus : Members := aliased (· == ("workers","vus")) (fun _ _ => false) tenWorkers

/-- No way in reads the number of workers under its alias. -/
theorem vus_ignored : tenVus = [("vus",.int 10)] ∧
    (EntryPoint.script.load tenWorkers = some { workers := some 10 } ∧
      EntryPoint.script.load tenVus = some {}) ∧
    ((EntryPoint.file serdeJson).load tenWorkers = some { workers := some 10 } ∧
      (EntryPoint.file serdeJson).load tenVus = some {}) ∧
    EntryPoint.dispatched.load tenWorkers = some { workers := some 10 } ∧
      EntryPoint.dispatched.load tenVus = some {} := by
  refine ⟨rfl,⟨?_,?_⟩,⟨?_,?_⟩,?_,?_⟩ <;> decide +kernel

def browse : Members := [("workers",.int 2),("start_time",.str "30s")]

def shop : Members := [("max_redirects",.int 5),("scenarios",.obj [("browse",.obj browse)])]

theorem shop_renames : RenamesOptions (fun _ => true) (fun _ _ => true) shop where
  top := by unfold Renames; decide
  distinct scenarios found := by
    obtain rfl := Json.obj.inj (Option.some.inj found)
    decide
  scenarios scenarios found name members member := by
    obtain rfl := Json.obj.inj (Option.some.inj found)
    obtain ⟨rfl,same⟩ := Prod.mk.inj (List.mem_singleton.mp member)
    obtain rfl := Json.obj.inj same
    unfold Renames
    decide

theorem shop_aliased : EntryPoint.script.load (aliased (fun _ => true) (fun _ _ => true) shop) =
    EntryPoint.script.load shop := by
  obtain ⟨config,accepted⟩ := Option.isSome_iff_exists.mp
    (show (EntryPoint.script.load shop).isSome = true by decide +kernel)
  rw [accepted,load_aliased_iff .script shop_renames accepted]
  refine ⟨by unfold Spares; decide,?_⟩
  intro scenarios found name members member
  obtain rfl := Json.obj.inj (Option.some.inj found)
  obtain ⟨rfl,same⟩ := Prod.mk.inj (List.mem_singleton.mp member)
  obtain rfl := Json.obj.inj same
  unfold Spares
  decide

end Fusillade.Cli
