import Fusillade.Engine.Pool
import Fusillade.Engine.ArrivalRate
import Fusillade.Engine.SharedIterations
import Mathlib.Tactic.NormNum

/-! The two readings of one set of load options: the legacy path for a configuration without
scenarios, and the executors of a scenario. The load of a run without control commands is
what its control loop keeps alive at the times it looks, what it dispatches, and the limit
it puts on iterations. Only a top-level configuration can ask for the memory guard, which
holds back the workers of a turn that finds memory short. -/
namespace Fusillade.Engine.Executor

inductive ExecutorType where
  | constantWorkers
  | rampingWorkers
  | constantArrivalRate
  | rampingArrivalRate
  | perWorkerIterations
  | sharedIterations
  deriving DecidableEq

structure ScheduleStep where
  duration : String
  target : Nat
  deriving DecidableEq

/-- The fields that `Config` and `ScenarioConfig` share and that shape the load. -/
structure LoadOptions where
  executor : Option ExecutorType := none
  workers : Option Nat := none
  duration : Option String := none
  iterations : Option UInt64 := none
  schedule : Option (List ScheduleStep) := none
  rate : Option Nat := none
  timeUnit : Option String := none
  deriving DecidableEq

inductive IterationLimit where
  | perWorker (iterations : Option Nat)
  | shared (total : Nat)
  | dispatched (iterations : Option Nat)
  deriving DecidableEq

/-- One turn of a control loop: the time it reads, and whether it finds memory short. -/
structure Look where
  elapsed : Duration
  throttled : Bool
  deriving DecidableEq

structure LoadBehaviour where
  duration : Duration
  /-- The workers alive after these turns of the control loop. -/
  live : List Look → Nat
  dispatch : Option ArrivalRate.Settings
  limit : IterationLimit

def workers (o : LoadOptions) : Nat := o.workers.getD 1
def durationText (o : LoadOptions) : String := o.duration.getD "10s"
def maxIterations (o : LoadOptions) : Option Nat := o.iterations.map UInt64.toNat

/-- A legacy run refuses durations that do not parse. -/
def parseSteps (steps : List ScheduleStep) : Option Schedule :=
  steps.mapM fun step => (parseDuration step.duration).map (·,step.target)

def scheduleLegacy (o : LoadOptions) : Option Schedule :=
  match o.schedule with
  | some steps => parseSteps steps
  | none => (parseDuration (durationText o)).map fun duration =>
      [(0,workers o),(duration,workers o)]

def legacyBehaviour (o : LoadOptions) (schedule : Schedule) : LoadBehaviour where
  duration := schedule.total
  live looks := (looks.foldl
    (fun pool look => pool.legacyTick none look.throttled (calculateTarget schedule look.elapsed))
    Pool.empty).active.length
  dispatch := none
  limit := .perWorker (maxIterations o)

/-- The top-level path of `run_load_test`. It does not look at the executor. -/
def legacyLoad (o : LoadOptions) : Option LoadBehaviour :=
  (scheduleLegacy o).map (legacyBehaviour o)

def executor (o : LoadOptions) : ExecutorType := o.executor.getD .constantWorkers

def scenarioDuration (o : LoadOptions) : Duration :=
  (parseDuration (durationText o)).getD (Duration.fromSecs 10)

/-- A scenario takes ten seconds for a duration that does not parse. -/
def scenarioSteps (steps : List ScheduleStep) : Schedule :=
  steps.map fun step => ((parseDuration step.duration).getD (Duration.fromSecs 10),step.target)

def workersSchedule (o : LoadOptions) : Schedule :=
  match o.schedule with
  | some steps => scenarioSteps steps
  | none => [(scenarioDuration o,workers o)]

def arrivalSettings (o : LoadOptions) : ArrivalRate.Settings where
  workers := workers o
  duration := scenarioDuration o
  maxIterations := maxIterations o
  isRamping := executor o == .rampingArrivalRate
  rate := o.rate.getD 1
  rateSchedule := match o.schedule with
    | some steps => scenarioSteps steps
    | none => [(scenarioDuration o,o.rate.getD 1)]
  timeUnit := (parseDurationStr (o.timeUnit.getD "1s")).getD (Duration.fromSecs 1)

def scenarioLoad (o : LoadOptions) : LoadBehaviour :=
  match executor o with
  | .constantArrivalRate | .rampingArrivalRate => {
      duration := scenarioDuration o
      live := fun _ => workers o
      dispatch := some (arrivalSettings o)
      limit := .dispatched (maxIterations o) }
  | .rampingWorkers => {
      duration := scenarioDuration o
      live := fun looks => (looks.foldl
        (fun pool look => pool.rampingTick (calculateTarget (workersSchedule o) look.elapsed))
        Pool.empty).active.length
      dispatch := none
      limit := .perWorker (maxIterations o) }
  | .sharedIterations => {
      duration := scenarioDuration o
      live := fun _ => workers o
      dispatch := none
      limit := .shared (SharedIterations.totalSharedIterations ⟨workers o,o.iterations⟩) }
  | .constantWorkers | .perWorkerIterations => {
      duration := scenarioDuration o
      live := fun _ => workers o
      dispatch := none
      limit := .perWorker (maxIterations o) }

/-- The turns of a control loop before the end. The first is taken at once, unless the run is
over at once; without the memory guard nothing is ever found short. -/
structure Looks (memorySafe : Bool) (duration : Duration) (looks : List Look) : Prop where
  looked : 0 < duration → looks ≠ []
  ordered : (looks.map Look.elapsed).Pairwise (· ≤ ·)
  before : ∀ look ∈ looks, look.elapsed < duration
  guarded : ∀ look ∈ looks, look.throttled → memorySafe

structure SameLoad (memorySafe : Bool) (a b : LoadBehaviour) : Prop where
  duration : a.duration = b.duration
  live : ∀ looks, Looks memorySafe a.duration looks → a.live looks = b.live looks
  dispatch : a.dispatch = b.dispatch
  limit : a.limit = b.limit

/-- The top-level run has the load of the executor it names. -/
def RunsAsNamed (o : LoadOptions) (memorySafe : Bool) : Prop :=
  ∃ load, legacyLoad o = some load ∧ SameLoad memorySafe load (scenarioLoad o)

def Follows (schedule : Option Schedule) (o : LoadOptions) (target : Schedule → Prop) : Prop :=
  ∃ parsed, schedule = some parsed ∧ parsed.total = scenarioDuration o ∧ target parsed

/-- A run that starts its workers, and cannot be held back from it. -/
def Starts (o : LoadOptions) (memorySafe : Bool) : Prop :=
  workers o = 0 ∨ 0 < scenarioDuration o ∧ memorySafe = false

/-- Fixed pools need a run that starts them and a schedule that stays at their size, ramps one
that never falls, and that asks for nobody where memory may be short; the arrival rates and
the shared pool have no legacy counterpart. -/
def Honoured (o : LoadOptions) (memorySafe : Bool) : Prop :=
  match executor o, o.schedule with
  | .constantWorkers, none | .perWorkerIterations, none =>
    (parseDuration (durationText o)).isSome ∧ Starts o memorySafe ∧ Castable (workers o)
  | .constantWorkers, some steps | .perWorkerIterations, some steps =>
    Starts o memorySafe ∧ Follows (parseSteps steps) o fun schedule =>
      ∀ elapsed < scenarioDuration o, calculateTarget schedule elapsed = workers o
  | .rampingWorkers, none =>
    (parseDuration (durationText o)).isSome ∧ (workers o = 0 ∨ scenarioDuration o = 0)
  | .rampingWorkers, some steps =>
    Follows (parseSteps steps) o fun schedule =>
      (∀ earlier later, earlier ≤ later → later < scenarioDuration o →
        calculateTarget schedule earlier ≤ calculateTarget schedule later) ∧
      (memorySafe → ∀ elapsed < scenarioDuration o, calculateTarget schedule elapsed = 0)
  | _, _ => False

variable {o : LoadOptions} {schedule : Schedule} {memorySafe : Bool}

def stays (target : Duration → Nat) (alive : Nat) (look : Look) : Nat :=
  if look.throttled then alive else max alive (target look.elapsed)

theorem legacy_live (target : Duration → Nat) (looks : List Look) (pool : Pool) :
    (looks.foldl (fun pool look => pool.legacyTick none look.throttled (target look.elapsed))
      pool).active.length = looks.foldl (stays target) pool.active.length := by
  induction looks generalizing pool with
  | nil => rfl
  | cons look rest ih => simp only [List.foldl_cons,ih,Pool.legacyTick_active_length,stays]

theorem ramping_live (target : Duration → Nat) (looks : List Look) (looked : looks ≠ []) (pool : Pool) :
    (looks.foldl (fun pool look => pool.rampingTick (target look.elapsed)) pool).active.length =
      target (looks.getLast looked).elapsed := by
  induction looks using List.reverseRecOn with
  | nil => exact absurd rfl looked
  | append_singleton before last =>
    simp [List.foldl_append,Pool.rampingTick_active_length]

theorem Looks.tail {duration : Duration} {first second : Look} {rest : List Look}
    (looks : Looks memorySafe duration (first :: second :: rest)) :
    Looks memorySafe duration (second :: rest) :=
  ⟨by simp,(List.pairwise_cons.mp looks.ordered).2,
    fun look member => looks.before look (List.mem_cons_of_mem _ member),
    fun look member => looks.guarded look (List.mem_cons_of_mem _ member)⟩

theorem Looks.single {elapsed duration : Duration} (inside : elapsed < duration) {throttled : Bool}
    (guarded : throttled → memorySafe) : Looks memorySafe duration [⟨elapsed,throttled⟩] :=
  ⟨by simp,by simp,by simpa using inside,by simpa using guarded⟩

theorem foldl_stays_of_monotone {target : Duration → Nat} {duration : Duration}
    (monotone : ∀ earlier later, earlier ≤ later → later < duration → target earlier ≤ target later)
    (first : Look) (rest : List Look) (looks : Looks false duration (first :: rest)) :
    rest.foldl (stays target) (target first.elapsed) =
      target ((first :: rest).getLast (by simp)).elapsed := by
  induction rest generalizing first with
  | nil => rfl
  | cons second rest ih =>
    have least : first.elapsed ≤ second.elapsed :=
      (List.pairwise_cons.mp looks.ordered).1 _ List.mem_cons_self
    have member : second ∈ first :: second :: rest := List.mem_cons_of_mem _ List.mem_cons_self
    have rises := monotone _ _ least (looks.before second member)
    have free : second.throttled = false := by
      simpa using looks.guarded second member
    rw [List.foldl_cons,stays,if_neg (by simp [free]),Nat.max_eq_right rises,ih second looks.tail]
    simp

theorem foldl_stays_of_zero {target : Duration → Nat} (looks : List Look)
    (zero : ∀ look ∈ looks, target look.elapsed = 0) : looks.foldl (stays target) 0 = 0 := by
  induction looks with
  | nil => rfl
  | cons look rest ih =>
    rw [List.foldl_cons,stays,zero look List.mem_cons_self,Nat.max_self,ite_self]
    exact ih fun other member => zero other (List.mem_cons_of_mem _ member)

/-- A pool that only grows shows the last target at all times exactly when it agrees at each
single time, the target never falls, and nobody is asked for where memory may be short. -/
theorem foldl_stays_eq_last_iff (target named : Duration → Nat) (duration : Duration) :
    (∀ looks, Looks memorySafe duration looks → (looked : looks ≠ []) →
      looks.foldl (stays target) 0 = named (looks.getLast looked).elapsed) ↔
    (∀ elapsed < duration, target elapsed = named elapsed) ∧
      (∀ earlier later, earlier ≤ later → later < duration → target earlier ≤ target later) ∧
      (memorySafe → ∀ elapsed < duration, target elapsed = 0) := by
  constructor
  · intro same
    have once (elapsed : Duration) (inside : elapsed < duration) : target elapsed = named elapsed := by
      simpa [stays] using same [⟨elapsed,false⟩] (.single inside (by simp)) (by simp)
    refine ⟨once,?_,?_⟩
    · intro earlier later ordered inside
      have twice := same [⟨earlier,false⟩,⟨later,false⟩] ⟨by simp,by simpa using ordered,
        by simpa using ⟨Nat.lt_of_le_of_lt ordered inside,inside⟩,by simp⟩ (by simp)
      have last : max (target earlier) (target later) = target later := by
        simpa [stays,once later inside] using twice
      omega
    · intro safe elapsed inside
      have short := same [⟨elapsed,true⟩] (.single inside fun _ => safe) (by simp)
      rw [once elapsed inside]
      simpa [stays] using short.symm
  · rintro ⟨once,monotone,zero⟩ looks valid looked
    have last := once _ (valid.before _ (List.getLast_mem looked))
    cases memorySafe with
    | true =>
      have nobody := foldl_stays_of_zero looks fun look member => zero rfl _ (valid.before look member)
      rw [nobody,← last,zero rfl _ (valid.before _ (List.getLast_mem looked))]
    | false =>
      cases looks with
      | nil => exact absurd rfl looked
      | cons first rest =>
        have free : first.throttled = false := by
          simpa using valid.guarded first List.mem_cons_self
        rw [← last,List.foldl_cons,stays,if_neg (by simp [free]),Nat.zero_max]
        exact foldl_stays_of_monotone monotone first rest valid

theorem forall_looks_iff {duration : Duration} {property : List Look → Prop} :
    (∀ looks, Looks memorySafe duration looks → property looks) ↔
      (duration = 0 → property []) ∧
        ∀ looks, Looks memorySafe duration looks → looks ≠ [] → property looks := by
  constructor
  · intro all
    refine ⟨fun atOnce => all [] ⟨by simp [atOnce],by simp,by simp,by simp⟩,fun looks valid _ => all looks valid⟩
  · rintro ⟨none,some⟩ looks valid
    rcases eq_or_ne looks [] with rfl | looked
    · exact none (Nat.eq_zero_of_not_pos fun positive => valid.looked positive rfl)
    · exact some looks valid looked

theorem scenarioSteps_eq {steps : List ScheduleStep} (parsed : parseSteps steps = some schedule) :
    scenarioSteps steps = schedule := by
  induction steps generalizing schedule with
  | nil => simpa [parseSteps,scenarioSteps] using parsed
  | cons step rest ih =>
    obtain ⟨duration,found,later,laterParsed,rfl⟩ : ∃ duration, parseDuration step.duration = some duration ∧
        ∃ later, parseSteps rest = some later ∧ (duration,step.target) :: later = schedule := by
      simpa [parseSteps,List.mapM_cons,Option.bind_eq_some_iff] using parsed
    have tail := ih laterParsed
    simp only [scenarioSteps] at tail ⊢
    rw [List.map_cons,tail,found,Option.getD_some]

theorem runsAsNamed_iff_schedule : RunsAsNamed o memorySafe ↔
    ∃ schedule, scheduleLegacy o = some schedule ∧
      SameLoad memorySafe (legacyBehaviour o schedule) (scenarioLoad o) := by
  constructor
  · rintro ⟨load,found,same⟩
    obtain ⟨schedule,parsed,rfl⟩ := Option.map_eq_some_iff.mp found
    exact ⟨schedule,parsed,same⟩
  · rintro ⟨schedule,parsed,same⟩
    exact ⟨_,Option.map_eq_some_iff.mpr ⟨schedule,parsed,rfl⟩,same⟩

/-- What a legacy run keeps alive is what this load does. -/
theorem sameLoad_iff {load : LoadBehaviour} (dispatch : load.dispatch = none)
    (limit : load.limit = .perWorker (maxIterations o)) :
    SameLoad memorySafe (legacyBehaviour o schedule) load ↔
      schedule.total = load.duration ∧ (load.duration = 0 → load.live [] = 0) ∧
        ∀ looks, Looks memorySafe load.duration looks → looks ≠ [] →
          looks.foldl (stays (calculateTarget schedule)) 0 = load.live looks := by
  have live (looks : List Look) : (legacyBehaviour o schedule).live looks =
      looks.foldl (stays (calculateTarget schedule)) 0 := legacy_live _ looks .empty
  constructor
  · rintro ⟨duration,same,_,_⟩
    have total : schedule.total = load.duration := duration
    obtain ⟨none,some⟩ := forall_looks_iff.mp same
    refine ⟨total,fun atOnce => ?_,fun looks valid looked => ?_⟩
    · exact (none (total.trans atOnce)).symm
    · exact (live looks).symm.trans (some looks (duration ▸ valid) looked)
  · rintro ⟨total,none,some⟩
    refine ⟨total,forall_looks_iff.mpr ⟨fun atOnce => ?_,fun looks valid looked => ?_⟩,dispatch.symm,limit.symm⟩
    · exact (none (total.symm.trans atOnce)).symm
    · have valid : Looks memorySafe load.duration looks := total ▸ valid
      exact (live looks).trans (some looks valid looked)

theorem same_as_fixed (kind : executor o = .constantWorkers ∨ executor o = .perWorkerIterations) :
    SameLoad memorySafe (legacyBehaviour o schedule) (scenarioLoad o) ↔
      schedule.total = scenarioDuration o ∧ Starts o memorySafe ∧
        ∀ elapsed < scenarioDuration o, calculateTarget schedule elapsed = workers o := by
  have fixed : scenarioLoad o =
      ⟨scenarioDuration o,fun _ => workers o,none,.perWorker (maxIterations o)⟩ := by
    rcases kind with kind | kind <;> simp [scenarioLoad,kind]
  rw [fixed,sameLoad_iff rfl rfl,
    foldl_stays_eq_last_iff (calculateTarget schedule) (fun _ => workers o) (scenarioDuration o)]
  refine and_congr_right fun _ => ?_
  constructor
  · rintro ⟨start,target,_,zero⟩
    refine ⟨?_,target⟩
    rcases Nat.eq_zero_or_pos (scenarioDuration o) with atOnce | positive
    · exact .inl (start atOnce)
    · cases memorySafe with
      | false => exact .inr ⟨positive,rfl⟩
      | true => exact .inl ((target 0 positive).symm.trans (zero rfl 0 positive))
  · rintro ⟨starts,target⟩
    refine ⟨fun atOnce => ?_,target,fun earlier later ordered inside => ?_,fun safe elapsed inside => ?_⟩
    · exact starts.resolve_right fun ⟨positive,_⟩ => absurd atOnce positive.ne'
    · rw [target earlier (Nat.lt_of_le_of_lt ordered inside),target later inside]
    · rw [target elapsed inside]
      exact starts.resolve_right fun ⟨_,unguarded⟩ => absurd (safe.symm.trans unguarded) (by decide)

theorem same_as_ramping (kind : executor o = .rampingWorkers) :
    SameLoad memorySafe (legacyBehaviour o schedule) (scenarioLoad o) ↔
      schedule.total = scenarioDuration o ∧
        (∀ elapsed < scenarioDuration o,
          calculateTarget schedule elapsed = calculateTarget (workersSchedule o) elapsed) ∧
        (∀ earlier later, earlier ≤ later → later < scenarioDuration o →
          calculateTarget schedule earlier ≤ calculateTarget schedule later) ∧
        (memorySafe → ∀ elapsed < scenarioDuration o, calculateTarget schedule elapsed = 0) := by
  have ramping : scenarioLoad o = ⟨scenarioDuration o,fun looks => (looks.foldl
      (fun pool look => pool.rampingTick (calculateTarget (workersSchedule o) look.elapsed))
      Pool.empty).active.length,none,.perWorker (maxIterations o)⟩ := by
    simp only [scenarioLoad,kind]
  rw [← foldl_stays_eq_last_iff (calculateTarget schedule) (calculateTarget (workersSchedule o))
    (scenarioDuration o),ramping,sameLoad_iff rfl rfl]
  refine and_congr_right fun _ => (and_iff_right fun _ => rfl).trans ?_
  refine forall_congr' fun looks => imp_congr_right fun _ => forall_congr' fun looked => ?_
  exact iff_of_eq (congrArg _ (ramping_live _ looks looked .empty))

theorem not_same_as_open (kind : executor o = .constantArrivalRate ∨
    executor o = .rampingArrivalRate ∨ executor o = .sharedIterations) :
    ¬SameLoad memorySafe (legacyBehaviour o schedule) (scenarioLoad o) := by
  rintro ⟨_,_,dispatch,limit⟩
  rcases kind with kind | kind | kind
  · simp [scenarioLoad,legacyBehaviour,kind] at dispatch
  · simp [scenarioLoad,legacyBehaviour,kind] at dispatch
  · simp [scenarioLoad,legacyBehaviour,kind] at limit

theorem scheduleLegacy_unscheduled (unscheduled : o.schedule = none) (schedule : Schedule) :
    scheduleLegacy o = some schedule ↔ (parseDuration (durationText o)).isSome ∧
      schedule = [(0,workers o),(scenarioDuration o,workers o)] := by
  unfold scheduleLegacy scenarioDuration
  rw [unscheduled]
  cases parseDuration (durationText o) <;> simp [eq_comm]

theorem constant_total (o : LoadOptions) :
    Schedule.total [(0,workers o),(scenarioDuration o,workers o)] = scenarioDuration o := by
  simp [Schedule.total]

theorem honoured_fixed (kind : executor o = .constantWorkers ∨ executor o = .perWorkerIterations) :
    RunsAsNamed o memorySafe ↔ Honoured o memorySafe := by
  rw [runsAsNamed_iff_schedule]
  simp only [same_as_fixed kind]
  cases scheduled : o.schedule with
  | some steps =>
    have parsed : scheduleLegacy o = parseSteps steps := by simp [scheduleLegacy,scheduled]
    have honoured : Honoured o memorySafe ↔ Starts o memorySafe ∧ Follows (parseSteps steps) o
        fun schedule => ∀ elapsed < scenarioDuration o, calculateTarget schedule elapsed = workers o := by
      rcases kind with kind | kind <;> simp [Honoured,kind,scheduled]
    rw [parsed,honoured,Follows,← exists_and_left]
    exact exists_congr fun schedule => by tauto
  | none =>
    have honoured : Honoured o memorySafe ↔ (parseDuration (durationText o)).isSome ∧
        Starts o memorySafe ∧ Castable (workers o) := by
      rcases kind with kind | kind <;> simp [Honoured,kind,scheduled]
    rw [honoured]
    constructor
    · rintro ⟨schedule,found,_,starts,target⟩
      obtain ⟨parses,rfl⟩ := (scheduleLegacy_unscheduled scheduled schedule).mp found
      refine ⟨parses,starts,?_⟩
      rcases starts with nobody | ⟨positive,_⟩
      · exact nobody ▸ castable_zero
      · exact (calculateTarget_constant _ positive).symm.trans (target 0 positive)
    · rintro ⟨parses,starts,castable⟩
      exact ⟨_,(scheduleLegacy_unscheduled scheduled _).mpr ⟨parses,rfl⟩,constant_total o,starts,
        fun _ inside => (calculateTarget_constant _ inside).trans castable⟩

theorem honoured_ramping (kind : executor o = .rampingWorkers) :
    RunsAsNamed o memorySafe ↔ Honoured o memorySafe := by
  rw [runsAsNamed_iff_schedule]
  simp only [same_as_ramping kind]
  cases scheduled : o.schedule with
  | some steps =>
    have parsed : scheduleLegacy o = parseSteps steps := by simp [scheduleLegacy,scheduled]
    have named : workersSchedule o = scenarioSteps steps := by simp [workersSchedule,scheduled]
    rw [parsed,named]
    simp only [Honoured,kind,scheduled,Follows]
    apply exists_congr
    intro schedule
    refine and_congr_right fun found => and_congr_right fun _ => ?_
    rw [scenarioSteps_eq found]
    simp
  | none =>
    have named : workersSchedule o = [(scenarioDuration o,workers o)] := by
      simp [workersSchedule,scheduled]
    rw [named]
    simp only [Honoured,kind,scheduled]
    constructor
    · rintro ⟨schedule,found,_,target,_⟩
      obtain ⟨parses,rfl⟩ := (scheduleLegacy_unscheduled scheduled schedule).mp found
      refine ⟨parses,Nat.eq_zero_or_pos (scenarioDuration o) |>.symm.imp_left ?_⟩
      intro positive
      have start := target 0 positive
      rwa [calculateTarget_constant _ positive,calculateTarget_start _ positive,
        toUsize_nearest_eq_zero] at start
    · rintro ⟨parses,empty⟩
      have nobody (elapsed : Duration) (inside : elapsed < scenarioDuration o) : workers o = 0 :=
        empty.resolve_right fun ended => absurd (ended ▸ inside) (Nat.not_lt_zero _)
      have zero (elapsed : Duration) (inside : elapsed < scenarioDuration o) :
          calculateTarget [(0,workers o),(scenarioDuration o,workers o)] elapsed = 0 := by
        rw [calculateTarget_constant _ inside,toUsize_nearest_eq_zero]
        exact nobody elapsed inside
      refine ⟨_,(scheduleLegacy_unscheduled scheduled _).mpr ⟨parses,rfl⟩,constant_total o,
        fun elapsed inside => ?_,fun earlier later ordered inside => ?_,fun _ => zero⟩
      · rw [zero elapsed inside,nobody elapsed inside,calculateTarget_zero inside]
      · rw [zero earlier (Nat.lt_of_le_of_lt ordered inside),zero later inside]

/-- The executor of a top-level run is honoured exactly when the legacy path happens to do
what it names. -/
theorem runs_as_named_iff (o : LoadOptions) (memorySafe : Bool) :
    RunsAsNamed o memorySafe ↔ Honoured o memorySafe := by
  cases kind : executor o with
  | constantWorkers => exact honoured_fixed (.inl kind)
  | perWorkerIterations => exact honoured_fixed (.inr kind)
  | rampingWorkers => exact honoured_ramping kind
  | constantArrivalRate | rampingArrivalRate | sharedIterations =>
    have refused : ¬RunsAsNamed o memorySafe := by
      rw [runsAsNamed_iff_schedule]
      rintro ⟨schedule,_,same⟩
      exact not_same_as_open (by simp [kind]) same
    simp [refused,Honoured,kind]

def fixedRate : LoadOptions where
  executor := some .constantArrivalRate
  rate := some 100
  timeUnit := some "1s"
  workers := some 20
  duration := some "2m"

/-- The run parses, and loops its twenty workers without any rate. -/
theorem arrival_rate_not_honoured :
    (legacyLoad fixedRate).isSome ∧ ¬RunsAsNamed fixedRate false := by
  refine ⟨by decide,fun ⟨load,found,same⟩ => ?_⟩
  obtain ⟨schedule,_,rfl⟩ := Option.map_eq_some_iff.mp found
  exact absurd same.dispatch (by simp [legacyBehaviour,scenarioLoad,executor,fixedRate])

end Fusillade.Engine.Executor
