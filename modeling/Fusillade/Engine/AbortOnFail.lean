import Fusillade.Engine.ControlLoop
import Fusillade.Engine.SharedAggregator

/-! The option `abort_on_fail` over a whole run: the control loop and what it supervises, the
threads that aggregate the metrics, and the report at the end, which is the one place where
the thresholds are looked at. -/
namespace Fusillade.Engine.AbortOnFail

open Stats Cli SharedAggregator

def controlLoop (entries : IterationOrder) (config : Config) : Option ControlLoop :=
  match config.scenarios with
  | some scenarios =>
    let scenarios := entries scenarios
    some (Scenarios.controlLoop fun i : Fin scenarios.length =>
      (scenarioCrew config.stop (scenarios.get i).2.toLoadOptions).thread)
  | none => (Executor.scheduleLegacy config.toLoadOptions).map fun schedule =>
      GracefulStop.legacyLoop {
        mode := .legacy
        schedule := schedule
        duration := schedule.total
        maxIterations := Executor.maxIterations config.toLoadOptions
        stop := config.stop } rfl

/-- The end of `run_load_test`: the failures make an error of it under `abort_on_fail`. -/
def conclude (config : Config) (report : RunReport) : Except String RunReport :=
  if config.abortOnFail.getD false && !report.thresholdFailures.isEmpty then
    .error ("Thresholds breached: " ++ toString report.thresholdFailures.length ++ " failure(s)")
  else .ok report

structure State (loop : ControlLoop) (n : Nat) where
  loop : loop.State
  aggregation : (Fin n → Nat) × ShardedAggregator
  result : Option (Except String RunReport)

inductive Action (loop : ControlLoop) (n : Nat) where
  | loop (action : loop.Action)
  /-- An aggregator thread takes a metric from the channel. -/
  | receive (delivery : Fin n × Metric)
  | conclude

section

variable (bucketOf : Nat → Option Nat) (entries : IterationOrder) (reader : HistogramReader)
  (config : Config) {loop : ControlLoop} {n : Nat}

def initial (loop : ControlLoop) (n : Nat) (sharedAggregator : Option ShardedAggregator) : State loop n where
  loop := loop.initial
  aggregation := (fun aggId => aggId,selectAggregator config sharedAggregator)
  result := none

def step (s : State loop n) : Action loop n → Option (State loop n)
  | .loop a => (loop.step s.loop a).map ({ s with loop := · })
  | .receive delivery => some { s with
      aggregation := receive bucketOf (shardCount (totalWorkers config)) s.aggregation delivery }
  | .conclude =>
    if loop.finished s.loop && s.result.isNone then
      some { s with
        result := some (conclude config (makeReport entries reader config s.aggregation.2.merge)) }
    else none

/-- The metrics aggregated so far breach a threshold. -/
def Breached (s : State loop n) : Prop :=
  thresholdFailures entries reader config s.aggregation.2.merge ≠ []

instance (s : State loop n) : Decidable (Breached entries reader config s) :=
  inferInstanceAs (Decidable (_ ≠ _))

/-- After a control tick that finds a breach no worker is spawned and no iteration begun. -/
def Aborts (start : State loop n) (actions : List (Action loop n)) : Prop :=
  ∀ before tick after s t u, actions = before ++ .loop tick :: after → loop.tick tick = true →
    Machine.exec (step bucketOf entries reader config) start before = some s →
    Breached entries reader config s → step bucketOf entries reader config s (.loop tick) = some t →
    Machine.exec (step bucketOf entries reader config) t after = some u →
    loop.load u.loop = loop.load t.loop

/-- A control tick that finds a breach is one that ends the load anyway. -/
def EndsAnyway (s : State loop n) : Action loop n → Prop
  | .loop tick => loop.tick tick = true → Breached entries reader config s → loop.Ends s.loop tick
  | _ => True

instance [∀ s a, Decidable (loop.Ends s a)] (s : State loop n) :
    ∀ a, Decidable (EndsAnyway entries reader config s a)
  | .loop _ => inferInstanceAs (Decidable (_ → _ → _))
  | .receive _ | .conclude => isTrue trivial

end

variable {bucketOf : Nat → Option Nat} {entries : IterationOrder} {reader : HistogramReader}
  {config : Config} {loop : ControlLoop} {n : Nat} {s t u : State loop n}

theorem step_settled {a : Action loop n} (valid : loop.Settled s.loop)
    (taken : step bucketOf entries reader config s a = some t) :
    loop.Settled t.loop ∧ loop.load t.loop = loop.load s.loop := by
  cases a with
  | loop a =>
    obtain ⟨next,stepped,rfl⟩ := Option.map_eq_some_iff.mp taken
    exact loop.step_settled s.loop a next valid stepped
  | receive delivery =>
    obtain rfl := Option.some.inj taken
    exact ⟨valid,rfl⟩
  | conclude =>
    simp only [step] at taken
    split at taken
    · obtain rfl := Option.some.inj taken
      exact ⟨valid,rfl⟩
    · contradiction

theorem run_settled {actions : List (Action loop n)} (valid : loop.Settled s.loop)
    (run : Machine.exec (step bucketOf entries reader config) s actions = some t) :
    loop.Settled t.loop ∧ loop.load t.loop = loop.load s.loop := by
  refine Machine.exec_invariant
    (fun now => loop.Settled now.loop ∧ loop.load now.loop = loop.load s.loop) ?_ run ⟨valid,rfl⟩
  rintro now a next ⟨valid,same⟩ taken
  have kept := step_settled valid taken
  exact ⟨kept.1,kept.2.trans same⟩

theorem exec_loop {actions : List loop.Action} {last : loop.State}
    (run : Machine.exec loop.step s.loop actions = some last) :
    Machine.exec (step bucketOf entries reader config) s (actions.map .loop) =
      some { s with loop := last } := by
  induction actions generalizing s with
  | nil =>
    obtain rfl := Option.some.inj run
    rfl
  | cons a rest ih =>
    obtain ⟨middle,first,later⟩ := Machine.exec_cons_iff.mp run
    exact Machine.exec_cons_iff.mpr ⟨{ s with loop := middle },by simp only [step,first,Option.map_some],
      ih later⟩

section Legacy

variable {cfg : GracefulStop.Settings} {elapsed : Duration}

theorem legacyTick_ramp (pool : Pool) (scheduledTarget : Nat) :
    pool.legacyTick (some (pool.active.length + 1)) false scheduledTarget = pool.spawn := by
  have grown : pool.grow (pool.active.length + 1) = pool.spawn := by
    rw [Pool.grow,Nat.add_sub_cancel_left]
    rfl
  simp only [Pool.legacyTick,Option.getD_some,Bool.and_false,Bool.false_eq_true,if_false,
    if_pos (Nat.lt_succ_self _),grown]
  rw [Pool.shrink,Pool.spawn_active_length,Nat.sub_self]
  rfl

/-- From any other tick of a legacy loop a `Ramp` command leads to another worker. -/
theorem legacy_goes_on {s t : GracefulStop.State} (legacy : cfg.mode = .legacy)
    (goesOn : ¬GracefulStop.Ends cfg s (.supervise (.check elapsed)))
    (ticked : GracefulStop.step cfg s (.supervise (.check elapsed)) = some t) :
    ∃ after u, Machine.exec (GracefulStop.crew cfg).step t after = some u ∧
      u.pool.load ≠ t.pool.load := by
  obtain ⟨within,unstopped⟩ := not_or.mp goesOn
  simp only [GracefulStop.step,GracefulStop.supervise] at ticked
  split at ticked
  next read reached =>
    cases read
    rw [if_neg (by simpa using ⟨not_le.mp within,Bool.eq_false_iff.mpr unstopped⟩)] at ticked
    obtain rfl := Option.some.inj ticked
    refine ⟨[.supervise (.command (.ramp (s.pool.active.length + 1))),.supervise .noCommand,
      .supervise (.scale 0 false)],{ s with
        pool := s.pool.spawn
        supervisor := .loopTop
        dynamicTarget := some (s.pool.active.length + 1) },?_,?_⟩
    · simp [Machine.exec_cons,GracefulStop.crew,GracefulStop.Action.own,GracefulStop.step,
        GracefulStop.supervise,GracefulStop.applyCommand,GracefulStop.scale,legacy,
        Bool.eq_false_iff.mpr unstopped,legacyTick_ramp]
    · intro same
      have count := congrArg Load.spawned same
      simp [Pool.load,Pool.spawn] at count
  all_goals contradiction

end Legacy

/-- Nothing in a run looks at the thresholds before its report, so a breach stops the run just
where a tick that finds one ends the load for a reason of its own. Any other tick of a legacy
run can be followed by another worker. -/
theorem aborts_of_guarded (bucketOf : Nat → Option Nat) (entries : IterationOrder)
    (reader : HistogramReader) (config : Config) (sharedAggregator : Option ShardedAggregator) (n : Nat) :
    ∀ loop ∈ controlLoop entries config,
      (∀ actions, Machine.Guarded (step bucketOf entries reader config)
          (EndsAnyway entries reader config) (initial config loop n sharedAggregator) actions →
        Aborts bucketOf entries reader config (initial config loop n sharedAggregator) actions) ∧
      (config.scenarios = none → ∀ before tick s t, loop.tick tick = true →
        Machine.exec (step bucketOf entries reader config) (initial config loop n sharedAggregator)
          before = some s → Breached entries reader config s → ¬loop.Ends s.loop tick →
        step bucketOf entries reader config s (.loop tick) = some t →
        ∃ after, ¬Aborts bucketOf entries reader config (initial config loop n sharedAggregator)
          (before ++ .loop tick :: after)) := by
  intro loop started
  constructor
  · intro actions guarded before tick after s t u split ticks reached breached ticked rest
    subst split
    have ends := guarded.guard reached ticks breached
    obtain ⟨next,stepped,rfl⟩ := Option.map_eq_some_iff.mp ticked
    exact (run_settled (loop.ends_settled s.loop tick next ticks ends stepped) rest).2
  · intro single before tick s t ticks reached breached goesOn ticked
    simp only [controlLoop,single] at started
    obtain ⟨schedule,-,rfl⟩ := Option.map_eq_some_iff.mp started
    obtain ⟨next,stepped,rfl⟩ := Option.map_eq_some_iff.mp ticked
    match tick, ticks with
    | .supervise (.check elapsed), _ =>
      obtain ⟨after,u,rest,more⟩ := legacy_goes_on rfl goesOn stepped
      refine ⟨after.map .loop,fun aborts => more ?_⟩
      exact aborts before _ _ s _ _ rfl rfl reached breached ticked (exec_loop rest)

def tenSeconds : Config where
  criteria := some (Finmap.singleton "http_req_failed" ["rate < 0.5"])
  abortOnFail := some true

def failures : IterationOrder := fun m =>
  (m.lookup "http_req_failed").toList.map ("http_req_failed",·)

def tenSecondsLoop : ControlLoop :=
  GracefulStop.legacyLoop {
    mode := .legacy
    schedule := [(0,1),(Duration.fromSecs 10,1)]
    duration := Duration.fromSecs 10
    maxIterations := none
    stop := none } rfl

def failed : Metric := .request "https://shop.test/" {} 0 (some "refused") ∅

def check (elapsed : Duration) : tenSecondsLoop.Action := GracefulStop.Action.supervise (.check elapsed)
def turn (a : GracefulStop.Turn) : Action tenSecondsLoop 1 := .loop (GracefulStop.Action.supervise a)
def work : Action tenSecondsLoop 1 := .loop (GracefulStop.Action.work 0)

instance : ∀ s a, Decidable (tenSecondsLoop.Ends s a)
  | s, .supervise (.check elapsed) =>
    inferInstanceAs (Decidable (Duration.fromSecs 10 ≤ elapsed ∨ GracefulStop.State.stopped s = true))
  | _, .supervise (.command _) | _, .supervise .noCommand | _, .supervise (.scale _ _)
  | _, .supervise .clear | _, .supervise .wait | _, .supervise .join | _, .supervise .merge
  | _, .work _ | _, .fail _ | _, .setPaused _ | _, .stop | _, .tick _ => isFalse id

def oneFailure : List (Action tenSecondsLoop 1) :=
  [.loop (check 0),turn .noCommand,turn (.scale 0 false),work,work,work,work,.receive (0,failed)]

def moreLoad : List (Action tenSecondsLoop 1) :=
  [work,work,work,work,work,work,turn (.command (.ramp 2)),turn .noCommand,
    turn (.scale (Duration.fromSecs 1) false)]

/-- A second into the run the loop finds the breach and goes on. -/
theorem tick_after_failure : ∃ s,
    Machine.exec (step hdrBucketOf failures hdrReader tenSeconds)
      (initial tenSeconds tenSecondsLoop 1 none) oneFailure = some s ∧
    Breached failures hdrReader tenSeconds s ∧
    ¬tenSecondsLoop.Ends s.loop (check (Duration.fromSecs 1)) ∧
    ∃ t, Machine.exec (step hdrBucketOf failures hdrReader tenSeconds) s
      [.loop (check (Duration.fromSecs 1))] = some t ∧
    ∃ u, Machine.exec (step hdrBucketOf failures hdrReader tenSeconds) t moreLoad = some u ∧
      tenSecondsLoop.load u.loop ≠ tenSecondsLoop.load t.loop := by
  decide +kernel

theorem aborts_of_guarded_oneFailure :
    Aborts hdrBucketOf failures hdrReader tenSeconds (initial tenSeconds tenSecondsLoop 1 none)
      (oneFailure ++ [.loop (check (Duration.fromSecs 10)),work,work,work,work]) ∧
    ∃ after, ¬Aborts hdrBucketOf failures hdrReader tenSeconds
      (initial tenSeconds tenSecondsLoop 1 none)
      (oneFailure ++ .loop (check (Duration.fromSecs 1)) :: after) := by
  have both := aborts_of_guarded hdrBucketOf failures hdrReader tenSeconds none 1 tenSecondsLoop rfl
  obtain ⟨s,reached,breached,goesOn,t,ticked,-⟩ := tick_after_failure
  obtain ⟨_,tick,-⟩ := Machine.exec_cons_iff.mp ticked
  exact ⟨both.1 _ (by decide +kernel),both.2 rfl oneFailure _ s _ rfl reached breached goesOn tick⟩

/-- The failure rate is one at a control tick, and the run takes no notice of it. -/
theorem breach_ignored : controlLoop failures tenSeconds = some tenSecondsLoop ∧
    ¬Aborts hdrBucketOf failures hdrReader tenSeconds (initial tenSeconds tenSecondsLoop 1 none)
      (oneFailure ++ .loop (check (Duration.fromSecs 1)) :: moreLoad) := by
  refine ⟨rfl,fun aborts => ?_⟩
  obtain ⟨s,reached,breached,-,t,ticked,u,rest,more⟩ := tick_after_failure
  obtain ⟨_,tick,last⟩ := Machine.exec_cons_iff.mp ticked
  obtain rfl := Option.some.inj last
  exact more (aborts _ _ _ s _ u rfl rfl reached breached tick rest)

end Fusillade.Engine.AbortOnFail
