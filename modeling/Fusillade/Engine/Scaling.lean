import Fusillade.Lib.Machine
import Fusillade.Engine.Handles
import Fusillade.Engine.Schedule

/-! The two control loops that follow a schedule of worker targets, each beside the workers
it has spawned. No command arrives and memory is not short, so a tick depends on the elapsed
time alone; between ticks the workers take their own steps. -/
namespace Fusillade.Engine

namespace Scaling

structure State where
  pool : Pool
  /-- The elapsed time that the last tick read. -/
  looked : Option Duration
  deriving DecidableEq

def State.start : State := ⟨.empty,none⟩

inductive Action where
  | tick (elapsed : Duration)
  | move (m : Pool.Move)

/-- What a control loop does with the target of a tick. -/
abbrev Tick := Nat → Pool → Pool

/-- Without a `Ramp` command and without throttling. -/
def legacy : Tick := Pool.legacyTick none false
def ramping : Tick := Pool.rampingTick

def step (tick : Tick) (schedule : Schedule) (s : State) : Action → Option State
  | .tick elapsed =>
    if ∀ last ∈ s.looked, last ≤ elapsed then
      some ⟨tick (calculateTarget schedule elapsed) s.pool,some elapsed⟩
    else none
  | .move m => (s.pool.move m).map fun pool => { s with pool := pool }

/-- As many workers run as the schedule asked for at the last tick. -/
def OnTarget (schedule : Schedule) (s : State) : Prop :=
  ∀ elapsed ∈ s.looked, s.pool.runningCount = calculateTarget schedule elapsed

instance (schedule : Schedule) : DecidablePred (OnTarget schedule) :=
  fun s => inferInstanceAs (Decidable (∀ elapsed ∈ s.looked, _))

/-- The elapsed times that the ticks of a run read. -/
def ticks (actions : List Action) : List Duration :=
  actions.filterMap fun
    | .tick elapsed => some elapsed
    | _ => none

def targets (schedule : Schedule) (actions : List Action) : List Nat :=
  (ticks actions).map (calculateTarget schedule)

/-- The target in force: none before the first tick. -/
def aim (schedule : Schedule) (s : State) : Nat := (s.looked.map (calculateTarget schedule)).getD 0

structure Invariant (schedule : Schedule) (s : State) : Prop where
  handled : s.pool.Handled
  aimed : s.pool.active.length = aim schedule s

variable {tick : Tick} {schedule : Schedule} {s t : State} {a : Action}

theorem start_invariant : Invariant schedule .start := ⟨Pool.empty_handled,rfl⟩

theorem Invariant.onTarget (valid : Invariant schedule s) : OnTarget schedule s := by
  intro elapsed looked
  rw [valid.handled.count,valid.aimed,aim,Option.mem_def.mp looked]
  rfl

/-- A step is a tick, or a move of one worker that leaves every flag and handle alone. -/
theorem step_cases (taken : step tick schedule s a = some t) :
    (∃ elapsed, a = .tick elapsed ∧
      t = ⟨tick (calculateTarget schedule elapsed) s.pool,some elapsed⟩) ∨
    ((∀ elapsed, a ≠ .tick elapsed) ∧ t.looked = s.looked ∧ t.pool.active = s.pool.active ∧
      (s.pool.Handled → t.pool.Handled)) := by
  cases a with
  | tick elapsed =>
    simp only [step] at taken
    split at taken
    next => exact .inl ⟨elapsed,rfl,(Option.some.inj taken).symm⟩
    next => contradiction
  | move m =>
    obtain ⟨pool,moved,rfl⟩ := Option.map_eq_some_iff.mp taken
    exact .inr ⟨by simp,rfl,Pool.move_active moved,Pool.move_handled moved⟩

/-- The executor follows every target. -/
theorem ramping_invariant (valid : Invariant schedule s) (taken : step ramping schedule s a = some t) :
    Invariant schedule t := by
  rcases step_cases taken with ⟨elapsed,_,rfl⟩ | ⟨_,looked,active,handled⟩
  · exact ⟨Pool.rampingTick_handled _ valid.handled,Pool.rampingTick_active_length _ _⟩
  · exact ⟨handled valid.handled,by rw [active,valid.aimed,aim,aim,looked]⟩

theorem ramping_onTarget (schedule : Schedule) (actions : List Action) :
    Machine.Along (step ramping schedule) (OnTarget schedule) .start actions :=
  Machine.along_invariant (fun _ _ _ => ramping_invariant) (fun _ => Invariant.onTarget)
    start_invariant actions

/-- A tick of the legacy loop does not ask for fewer workers than the one before. -/
def Rises (schedule : Schedule) (s : State) : Action → Prop
  | .tick elapsed => aim schedule s ≤ calculateTarget schedule elapsed
  | _ => True

theorem legacy_invariant (valid : Invariant schedule s) (rises : Rises schedule s a)
    (taken : step legacy schedule s a = some t) : Invariant schedule t := by
  rcases step_cases taken with ⟨elapsed,rfl,rfl⟩ | ⟨_,looked,active,handled⟩
  · refine ⟨Pool.legacyTick_handled _ _ _ valid.handled,?_⟩
    simp only [legacy,Pool.legacyTick_active_length,Bool.false_eq_true,if_false,valid.aimed]
    exact Nat.max_eq_right rises
  · exact ⟨handled valid.handled,by rw [active,valid.aimed,aim,aim,looked]⟩

/-- The legacy loop keeps the workers that a falling target gives up. -/
theorem falling_off_target (valid : Invariant schedule s) (falls : ¬Rises schedule s a)
    (taken : step legacy schedule s a = some t) : ¬OnTarget schedule t := by
  rcases step_cases taken with ⟨elapsed,rfl,rfl⟩ | ⟨other,_⟩
  · intro onTarget
    have running := onTarget elapsed rfl
    have handled := Pool.legacyTick_handled none false (calculateTarget schedule elapsed) valid.handled
    simp only [legacy,handled.count,Pool.legacyTick_active_length,Bool.false_eq_true,if_false,
      valid.aimed] at running
    exact falls (by rw [Rises]; omega)
  · cases a with
    | tick elapsed => exact absurd rfl (other elapsed)
    | move => exact absurd trivial falls

theorem legacy_onTarget_iff {actions : List Action}
    (run : Machine.exec (step legacy schedule) .start actions = some t) :
    Machine.Along (step legacy schedule) (OnTarget schedule) .start actions ↔
      Machine.Guarded (step legacy schedule) (Rises schedule) .start actions :=
  Machine.along_iff_guarded (fun _ _ _ => legacy_invariant) (fun _ => Invariant.onTarget)
    (fun _ _ _ => falling_off_target) start_invariant run

/-- The guard read off the targets of the run. -/
theorem guarded_iff_isChain {actions : List Action}
    (run : Machine.exec (step tick schedule) s actions = some t) :
    Machine.Guarded (step tick schedule) (Rises schedule) s actions ↔
      (aim schedule s :: targets schedule actions).IsChain (· ≤ ·) := by
  induction actions generalizing s with
  | nil => simp [Machine.Guarded,targets,ticks]
  | cons a rest ih =>
    obtain ⟨u,first,later⟩ := Machine.exec_cons_iff.mp run
    have next : (∀ v, step tick schedule s a = some v →
        Machine.Guarded (step tick schedule) (Rises schedule) v rest) ↔
        (aim schedule u :: targets schedule rest).IsChain (· ≤ ·) := by
      rw [← ih later]
      simp [first]
    rw [Machine.Guarded,next]
    rcases step_cases first with ⟨elapsed,rfl,rfl⟩ | ⟨other,looked,_⟩
    · simp [Rises,targets,ticks,aim]
    · have same : aim schedule u = aim schedule s := by rw [aim,aim,looked]
      cases a with
      | tick elapsed => exact absurd rfl (other elapsed)
      | move => simp [Rises,targets,ticks,same]

theorem legacy_rises_iff {actions : List Action}
    (run : Machine.exec (step legacy schedule) .start actions = some t) :
    Machine.Along (step legacy schedule) (OnTarget schedule) .start actions ↔
      (targets schedule actions).Pairwise (· ≤ ·) := by
  rw [legacy_onTarget_iff run,guarded_iff_isChain run,List.isChain_iff_pairwise,List.pairwise_cons]
  simp [aim,State.start]

/-- The legacy loop is at the schedule's target after every tick, as the executor is after the
same ticks, exactly when the targets it reads never fall. -/
theorem scaling_agrees_iff (schedule : Schedule) {actions : List Action}
    (run : Machine.exec (step legacy schedule) .start actions = some t) :
    (Machine.Along (step legacy schedule) (OnTarget schedule) .start actions ∧
      ∀ others, ticks others = ticks actions →
        Machine.Along (step ramping schedule) (OnTarget schedule) .start others) ↔
      (targets schedule actions).Pairwise (· ≤ ·) := by
  rw [legacy_rises_iff run]
  exact and_iff_left fun others _ => ramping_onTarget schedule others

/-- Up to two workers in ten seconds, and down again in ten. -/
def upAndDown : Schedule := [(Duration.fromSecs 10,2),(Duration.fromSecs 10,0)]

theorem climb_agrees :
    Machine.Along (step legacy upAndDown) (OnTarget upAndDown) .start
        [.tick 0,.tick (Duration.fromSecs 5),.move (.work 0 false false false),.tick (Duration.fromSecs 10)] ∧
      ∀ others, ticks others = [0,Duration.fromSecs 5,Duration.fromSecs 10] →
        Machine.Along (step ramping upAndDown) (OnTarget upAndDown) .start others := by
  obtain ⟨t,run,_⟩ : ∃ t, Machine.exec (step legacy upAndDown) .start
      [.tick 0,.tick (Duration.fromSecs 5),.move (.work 0 false false false),.tick (Duration.fromSecs 10)] =
        some t ∧ True := by decide +kernel
  exact (scaling_agrees_iff upAndDown run).mpr (by decide +kernel)

/-- After fifteen seconds one worker is due; the executor runs one, the legacy loop still two. -/
theorem descent_disagrees :
    (∃ t, Machine.exec (step legacy upAndDown) .start
        [.tick (Duration.fromSecs 10),.tick (Duration.fromSecs 15)] = some t ∧
      ¬OnTarget upAndDown t ∧ t.pool.runningCount = 2) ∧
    ∃ t, Machine.exec (step ramping upAndDown) .start
        [.tick (Duration.fromSecs 10),.tick (Duration.fromSecs 15)] = some t ∧
      OnTarget upAndDown t ∧ t.pool.runningCount = 1 := by decide +kernel

end Scaling

end Fusillade.Engine
