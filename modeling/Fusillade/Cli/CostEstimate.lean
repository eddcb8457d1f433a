import Fusillade.Cli.Config
import Fusillade.Engine.Bounds
import Fusillade.Engine.SharedAggregator

/-! The dry run of `--estimate-cost`, before the user is asked. It is a load test of the final
configuration with one worker, three seconds and five iterations put in. But the engine looks
at the scenarios first, and at the schedule before the duration. -/
namespace Fusillade.Cli.CostEstimate

open Machine Engine Executor GracefulStop
open SharedAggregator (IterationOrder)

def dryConfig (finalConfig : Config) : Config :=
  { finalConfig with workers := some 1, duration := some "3s", iterations := some 5 }

/-- What `run_load_test` starts, or that it ends with an error before that. -/
inductive Started where
  | scenarios (scenarios : List ScenarioConfig)
  | legacy (settings : Settings)
  | refused

section

-- `char::is_alphanumeric`, which knows all of Unicode, and the order in which a map is iterated.
variable (isAlphanumeric : Char → Bool) (entries : IterationOrder)

def validateScenarioName (name : String) : Bool :=
  name ≠ "" && name.utf8ByteSize ≤ 64 &&
    name.toList.all fun c => isAlphanumeric c || c == '_' || c == '-' || c == '.'

def runLoadTest (config : Config) : Started :=
  match config.scenarios with
  | some scenarios =>
    if (entries scenarios).all fun entry => validateScenarioName isAlphanumeric entry.1 then
      .scenarios ((entries scenarios).map Prod.snd)
    else .refused
  | none => (IterationLimit.legacySettings config.toLoadOptions config.stop).elim .refused .legacy

def threads (stop : Option String) (scenarios : List ScenarioConfig) (i : Fin scenarios.length) : Watched :=
  (scenarioWatched stop (scenarios.get i).toLoadOptions).thread

/-- A dry run has no control channel. -/
def Uncontrolled (actions : List Action) : Prop :=
  ∀ command, .supervise (.command command) ∉ actions

/-- At any time of any run there is at most one worker, and at most five iterations have begun. -/
def Bounded (stop : Option String) : Started → Prop
  | .scenarios scenarios => ∀ actions s, Scenarios.Uncontrolled actions →
      exec Scenarios.step (Scenarios.initial fun i => (threads stop scenarios i).crew) actions = some s →
      Scenarios.Within (threads stop scenarios) 1 5 s
  | .legacy settings => ∀ actions s, Uncontrolled actions →
      exec (step settings) initial actions = some s →
      s.pool.workerIds.length ≤ 1 ∧ s.pool.load.begun ≤ 5
  | .refused => True

/-- Nothing in the configuration takes the place of what the dry run puts in. -/
def Harmless (config : Config) : Prop :=
  match config.scenarios with
  | some scenarios =>
    (∃ entry ∈ entries scenarios, validateScenarioName isAlphanumeric entry.1 = false) ∨
      let scenarios := (entries scenarios).map Prod.snd
      (∀ i, Idle (scenarios.get i).toLoadOptions ∨ Small 5 (scenarios.get i).toLoadOptions) ∧
        ∀ i j, ¬Idle (scenarios.get i).toLoadOptions → ¬Idle (scenarios.get j).toLoadOptions → i = j
  | none => ∀ steps ∈ config.schedule, ∀ schedule ∈ parseSteps steps, AsksForOne schedule

end

section Legacy

variable {settings : Settings} {s t : State} {a : Action}

/-- A pool that no command reaches and whose schedule does not ask for a second worker. -/
structure Alone (s : State) : Prop where
  schedule : s.dynamicTarget = none
  handles : s.pool.workers.length = s.pool.active.length
  one : s.pool.active.length ≤ 1

theorem legacyTick_alone {target : Nat} (throttled : Bool) (few : target ≤ 1) (alone : Alone s) :
    Alone { s with
      pool := s.pool.legacyTick s.dynamicTarget throttled target, supervisor := .loopTop } := by
  obtain ⟨schedule,handles,one⟩ := alone
  have tick : (s.pool.legacyTick none throttled target).workers.length =
      (s.pool.legacyTick none throttled target).active.length ∧
        (s.pool.legacyTick none throttled target).active.length ≤ 1 := by
    rw [Pool.legacyTick_eq]
    split
    · exact ⟨handles,one⟩
    · simp only [Option.getD_none,Option.map_none,Pool.grow_workers,List.length_append,
        List.length_replicate,Pool.grow_active_length]
      omega
  rw [← schedule] at tick
  exact ⟨schedule,tick.1,tick.2⟩

theorem supervise_alone {turn : Turn} (legacy : settings.mode = .legacy) (asks : AsksForOne settings.schedule)
    (uncontrolled : ∀ command, turn ≠ .command command) (alone : Alone s)
    (taken : supervise settings s turn = some t) : Alone t := by
  have kept (supervisor : Supervisor) (stopped : Bool) :
      Alone { s with supervisor := supervisor, stopped := stopped } :=
    ⟨alone.schedule,alone.handles,alone.one⟩
  unfold supervise at taken
  split at taken
  next => split at taken <;> (obtain rfl := Option.some.inj taken; exact kept _ _)
  next command _ => exact absurd rfl (uncontrolled command)
  next =>
    obtain rfl := Option.some.inj taken
    exact kept _ _
  next elapsed throttled _ =>
    obtain rfl := Option.some.inj taken
    simp only [scale,legacy]
    split
    · exact kept _ _
    · exact legacyTick_alone throttled (asks elapsed) alone
  next =>
    split at taken <;> obtain rfl := Option.some.inj taken
    · exact ⟨alone.schedule,by simpa [Pool.clear] using alone.handles,alone.one⟩
    · exact kept _ _
  next => split at taken <;> (obtain rfl := Option.some.inj taken; exact kept _ _)
  next =>
    split at taken
    · obtain rfl := Option.some.inj taken
      exact kept _ _
    · contradiction
  next =>
    obtain rfl := Option.some.inj taken
    exact kept _ _
  next => contradiction

theorem applied_alone (legacy : settings.mode = .legacy) (asks : AsksForOne settings.schedule)
    (uncontrolled : ∀ command, a ≠ .supervise (.command command)) (alone : Alone s)
    (taken : step settings s a = some t) : Alone t := by
  cases a with
  | supervise turn =>
    exact supervise_alone legacy asks (fun command same => uncontrolled command (same ▸ rfl)) alone taken
  | work i =>
    obtain ⟨worker,found,mapped⟩ := Option.bind_eq_some_iff.mp taken
    obtain ⟨next,advanced,rfl⟩ := Option.map_eq_some_iff.mp mapped
    exact ⟨alone.schedule,by simpa [State.setWorker] using alone.handles,alone.one⟩
  | fail i =>
    obtain ⟨worker,found,mapped⟩ := Option.bind_eq_some_iff.mp taken
    obtain ⟨next,failed,rfl⟩ := Option.map_eq_some_iff.mp mapped
    exact ⟨alone.schedule,by simpa [State.setWorker] using alone.handles,alone.one⟩
  | setPaused paused =>
    obtain rfl := Option.some.inj taken
    exact ⟨alone.schedule,alone.handles,alone.one⟩
  | stop =>
    obtain rfl := Option.some.inj taken
    exact ⟨alone.schedule,alone.handles,alone.one⟩
  | tick time =>
    obtain rfl := Option.some.inj taken
    exact ⟨alone.schedule,alone.handles,alone.one⟩

theorem legacy_within (legacy : settings.mode = .legacy) (limit : settings.maxIterations = some 5)
    (asks : AsksForOne settings.schedule) {actions : List Action} (uncontrolled : Uncontrolled actions)
    (run : exec (step settings) initial actions = some s) :
    s.pool.workerIds.length ≤ 1 ∧ s.pool.load.begun ≤ 5 := by
  have kept : Alone s ∧ ∀ worker ∈ s.pool.workers, worker.Below 5 := by
    refine exec_allowed (fun s => Alone s ∧ ∀ worker ∈ s.pool.workers, worker.Below 5)
      (fun a => ∀ command, a ≠ .supervise (.command command)) ?_ run ?_ ?_
    · intro s a t valid allowed taken
      exact ⟨applied_alone legacy asks allowed valid.1 taken,
        step_below (by decide) (Nat.le_refl 5) limit valid.2 taken⟩
    · rintro a member command rfl
      exact uncontrolled command member
    · exact ⟨⟨rfl,rfl,by decide⟩,fun worker member => absurd member List.not_mem_nil⟩
  have one : s.pool.workers.length ≤ 1 := kept.1.handles.trans_le kept.1.one
  have few := begun_le kept.2
  exact ⟨(workerIds_length_le s.pool).trans one,by omega⟩

/-- The loop looks once, when the schedule asks for more. -/
theorem legacy_exceeds (legacy : settings.mode = .legacy) (total : settings.duration = settings.schedule.total)
    (asks : ¬AsksForOne settings.schedule) : ∃ actions s, Uncontrolled actions ∧
      exec (step settings) initial actions = some s ∧ 1 < s.pool.workerIds.length := by
  obtain ⟨elapsed,more⟩ := not_forall.mp asks
  have early : ¬settings.duration ≤ elapsed := by
    intro past
    rw [calculateTarget_over (total ▸ past)] at more
    omega
  have grown : Pool.legacyTick none false (calculateTarget settings.schedule elapsed) .empty =
      Pool.empty.grow (calculateTarget settings.schedule elapsed) := by
    rw [Pool.legacyTick_eq]
    simp
  refine ⟨[.supervise (.check elapsed),.supervise .noCommand,.supervise (.scale elapsed false)],
    resting (Pool.empty.grow (calculateTarget settings.schedule elapsed)),?_,?_,?_⟩
  · simp [Uncontrolled]
  · simp [exec_cons,step,supervise,initial,early,legacy,scale,grown,resting]
  · change 1 < (Pool.empty.grow _).workerIds.length
    rw [grow_workerIds_length]
    omega

theorem legacy_bounded_iff (legacy : settings.mode = .legacy) (limit : settings.maxIterations = some 5)
    (total : settings.duration = settings.schedule.total) (stop : Option String) :
    Bounded stop (.legacy settings) ↔ AsksForOne settings.schedule := by
  constructor
  · intro bounded
    by_contra asks
    obtain ⟨actions,s,uncontrolled,run,two⟩ := legacy_exceeds legacy total asks
    exact absurd (bounded actions s uncontrolled run).1 (Nat.not_le.mpr two)
  · intro asks actions s uncontrolled run
    exact legacy_within legacy limit asks uncontrolled run

end Legacy

theorem scenarios_bounded_iff (stop : Option String) (scenarios : List ScenarioConfig) :
    Bounded stop (.scenarios scenarios) ↔
      (∀ i, Idle (scenarios.get i).toLoadOptions ∨ Small 5 (scenarios.get i).toLoadOptions) ∧
        ∀ i j, ¬Idle (scenarios.get i).toLoadOptions → ¬Idle (scenarios.get j).toLoadOptions → i = j :=
  Scenarios.within_iff fun i =>
    (scenario_sized (by decide) (by decide) stop (scenarios.get i).toLoadOptions).thread

theorem asksForOne_constant (duration : Duration) : AsksForOne [(0,1),(duration,1)] := by
  intro elapsed
  by_cases inside : elapsed < duration
  · exact ((calculateTarget_constant 1 inside).trans (castable_of_lt (by decide))).le
  · have past : Schedule.total [(0,1),(duration,1)] ≤ elapsed := by simpa [Schedule.total] using inside
    rw [calculateTarget_over past]
    exact Nat.zero_le 1

theorem dry_schedule (config : Config) :
    (∀ schedule ∈ scheduleLegacy (dryConfig config).toLoadOptions, AsksForOne schedule) ↔
      ∀ steps ∈ config.schedule, ∀ schedule ∈ parseSteps steps, AsksForOne schedule := by
  cases given : config.schedule with
  | none =>
    refine iff_of_true (fun schedule found => ?_) (by simp)
    have unscheduled : (dryConfig config).toLoadOptions.schedule = none := given
    obtain ⟨-,rfl⟩ := (scheduleLegacy_unscheduled unscheduled schedule).mp found
    exact asksForOne_constant _
  | some steps =>
    have parsed : scheduleLegacy (dryConfig config).toLoadOptions = parseSteps steps := by
      simp [scheduleLegacy,dryConfig,given]
    simp [parsed]

/-- The dry run keeps to one worker and five iterations just when nothing that the final
configuration brings along takes precedence over what it puts in. -/
theorem dryRun_bounded_iff (isAlphanumeric : Char → Bool) (entries : IterationOrder) (config : Config) :
    Bounded config.stop (runLoadTest isAlphanumeric entries (dryConfig config)) ↔
      Harmless isAlphanumeric entries config := by
  cases named : config.scenarios with
  | some scenarios =>
    simp only [runLoadTest,dryConfig,Harmless,named]
    split
    next valid =>
      rw [scenarios_bounded_iff]
      refine (or_iff_right ?_).symm
      rintro ⟨entry,member,refused⟩
      exact absurd (List.all_eq_true.mp valid entry member) (by simp [refused])
    next refused =>
      refine iff_of_true trivial (.inl ?_)
      simpa using refused
  | none =>
    have single : (dryConfig config).scenarios = none := named
    have started : runLoadTest isAlphanumeric entries (dryConfig config) =
        (IterationLimit.legacySettings (dryConfig config).toLoadOptions config.stop).elim .refused .legacy := by
      rw [runLoadTest,single]
      rfl
    rw [started,IterationLimit.legacySettings]
    simp only [Harmless,named]
    rw [← dry_schedule config]
    cases scheduleLegacy (dryConfig config).toLoadOptions with
    | none => exact iff_of_true trivial (by simp)
    | some schedule =>
      simp only [Option.map_some,Option.elim_some,Option.mem_some_iff,forall_eq']
      exact legacy_bounded_iff rfl rfl rfl config.stop

def toFifty : Config where
  schedule := some [⟨"10s",50⟩]

def half : List Action :=
  [.supervise (.check (Duration.fromSecs 5)),.supervise .noCommand,
    .supervise (.scale (Duration.fromSecs 5) false)]

/-- Five seconds into the dry run half of them are there, and nobody has been asked. -/
theorem schedule_before_consent :
    ¬∀ (isAlphanumeric : Char → Bool) (entries : IterationOrder) (config : Config), Bounded
      config.stop (runLoadTest isAlphanumeric entries (dryConfig config)) := by
  intro bounded
  have within := bounded (fun _ => true) (fun _ => []) toFifty half
  have reached : ∃ s, exec (step ⟨.legacy,[(Duration.fromSecs 10,50)],Duration.fromSecs 10,some 5,none⟩)
      initial half = some s ∧ s.pool.workerIds.length = 25 := by decide +kernel
  obtain ⟨s,run,workers⟩ := reached
  have few := (within s (by simp [Uncontrolled,half]) run).1
  omega

end Fusillade.Cli.CostEstimate
