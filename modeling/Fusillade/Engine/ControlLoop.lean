import Fusillade.Engine.Crew

/-! The unified control loop of a run: in legacy mode it supervises the workers by itself, and
with scenarios it waits for the threads that run their executors. Tags, status lines and the
metrics that the loop sends touch neither workers nor flags and are left out. -/
namespace Fusillade.Engine

open Executor (LoadOptions)

namespace Crew

inductive Thread (crew : Crew) where
  | sleeping (paused stopped : Bool)
  | running (s : crew.State)

/-- The thread sleeps through the `startTime` and does not look at the flags when it wakes. -/
def thread (crew : Crew) : Crew where
  State := Thread crew
  Action := Option crew.Action
  launch := .sleeping
  step s a := match s, a with
    | .sleeping paused stopped, none => some (.running (crew.launch paused stopped))
    | .running s, some a => (crew.step s a).map .running
    | _, _ => none
  setPaused paused s := match s with
    | .sleeping _ stopped => .sleeping paused stopped
    | .running s => .running (crew.setPaused paused s)
  stop s := match s with
    | .sleeping paused _ => .sleeping paused true
    | .running s => .running (crew.stop s)
  finished s := match s with
    | .sleeping _ _ => false
    | .running s => crew.finished s
  load s := match s with
    | .sleeping _ _ => ⟨0,0⟩
    | .running s => crew.load s
  Settled s := match s with
    | .sleeping _ _ => False
    | .running s => crew.Settled s
  step_settled s a t valid taken := by
    cases s with
    | sleeping => exact valid.elim
    | running s =>
      cases a with
      | none => contradiction
      | some a =>
        obtain ⟨next,stepped,rfl⟩ := Option.map_eq_some_iff.mp taken
        exact crew.step_settled s a next valid stepped
  setPaused_settled paused s valid := by
    cases s with
    | sleeping => exact valid.elim
    | running s => exact crew.setPaused_settled paused s valid
  stop_settled s valid := by
    cases s with
    | sleeping => exact valid.elim
    | running s => exact crew.stop_settled s valid

/-- A property that every run of the crew keeps, whatever the threads outside set the flags to. -/
structure Keeps (crew : Crew) (holds : crew.State → Prop) : Prop where
  launch : ∀ paused stopped, holds (crew.launch paused stopped)
  step : ∀ s a t, holds s → crew.step s a = some t → holds t
  setPaused : ∀ paused s, holds s → holds (crew.setPaused paused s)
  stop : ∀ s, holds s → holds (crew.stop s)

/-- The property once the thread is awake. -/
def Thread.Awake {crew : Crew} (holds : crew.State → Prop) : crew.Thread → Prop
  | .sleeping _ _ => True
  | .running s => holds s

theorem Keeps.thread {crew : Crew} {holds : crew.State → Prop} (keeps : crew.Keeps holds) :
    crew.thread.Keeps (Thread.Awake holds) where
  launch _ _ := trivial
  step s a t valid taken := by
    match s, a with
    | .sleeping paused stopped, none =>
      obtain rfl := Option.some.inj taken
      exact keeps.launch paused stopped
    | .running s, some a =>
      obtain ⟨next,stepped,rfl⟩ := Option.map_eq_some_iff.mp taken
      exact keeps.step s a next valid stepped
  setPaused paused s valid := by
    cases s with
    | sleeping => trivial
    | running s => exact keeps.setPaused paused s valid
  stop s valid := by
    cases s with
    | sleeping => trivial
    | running s => exact keeps.stop s valid

theorem exec_thread {crew : Crew} {s t : crew.State} {actions : List crew.Action}
    (run : Machine.exec crew.step s actions = some t) :
    Machine.exec crew.thread.step (.running s) (actions.map some) = some (.running t) := by
  induction actions generalizing s with
  | nil =>
    obtain rfl := Option.some.inj run
    rfl
  | cons a rest ih =>
    obtain ⟨middle,first,later⟩ := Machine.exec_cons_iff.mp run
    exact Machine.exec_cons_iff.mpr ⟨.running middle,by simp [thread,first],ih later⟩

end Crew

/-- The executor that a scenario names, with the grace period of the configuration. -/
def scenarioCrew (stop : Option String) (o : LoadOptions) : Crew :=
  match Executor.executor o with
  | .constantArrivalRate | .rampingArrivalRate => ArrivalModel.crew (Executor.arrivalSettings o)
  | .rampingWorkers => GracefulStop.crew {
      mode := .rampingWorkers
      schedule := Executor.workersSchedule o
      duration := Executor.scenarioDuration o
      maxIterations := Executor.maxIterations o
      stop := stop }
  | .sharedIterations => ClosedModel.sharedCrew ⟨Executor.workers o,o.iterations⟩
  | .constantWorkers | .perWorkerIterations =>
    ClosedModel.perWorkerCrew (Executor.workers o) (Executor.maxIterations o)

/-- A control loop with everything it supervises. -/
structure ControlLoop where
  State : Type
  Action : Type
  initial : State
  step : State → Action → Option State
  load : State → Load
  /-- The report can be made. -/
  finished : State → Bool
  /-- The loop looks, at its top, whether the run goes on. -/
  tick : Action → Bool
  Settled : State → Prop
  /-- A tick in this state ends the load for a reason of its own. -/
  Ends : State → Action → Prop
  step_settled : ∀ s a t, Settled s → step s a = some t → Settled t ∧ load t = load s
  ends_settled : ∀ s a t, tick a = true → Ends s a → step s a = some t → Settled t

namespace GracefulStop

variable {cfg : Settings} {s t : State}

def Action.isCheck : Action → Bool
  | .supervise (.check _) => true
  | _ => false

def Ends (cfg : Settings) (s : State) : Action → Prop
  | .supervise (.check elapsed) => cfg.duration ≤ elapsed ∨ s.stopped = true
  | _ => False

theorem legacy_ends {a : Action} (legacy : cfg.mode = .legacy) (ends : Ends cfg s a)
    (taken : step cfg s a = some t) : Settled cfg t := by
  match a with
  | .supervise (.check elapsed) =>
    simp only [step,supervise] at taken
    split at taken
    next read reached =>
      cases read
      have leaves : (decide (elapsed ≥ cfg.duration) || s.stopped) = true := by
        rw [Bool.or_eq_true,decide_eq_true_eq]
        exact ends
      rw [if_pos leaves] at taken
      obtain rfl := Option.some.inj taken
      exact settled_of_stopped (.inl trivial) (by simp [leaveLoop,legacy])
    all_goals contradiction

/-- In legacy mode the control loop is the supervising thread. -/
def legacyLoop (cfg : Settings) (legacy : cfg.mode = .legacy) : ControlLoop where
  State := State
  Action := Action
  initial := initial
  step := (crew cfg).step
  load := (crew cfg).load
  finished := (crew cfg).finished
  tick := Action.isCheck
  Settled := Settled cfg
  Ends := Ends cfg
  step_settled := (crew cfg).step_settled
  ends_settled s a t _ ends taken := by
    simp only [crew] at taken
    split at taken
    · exact legacy_ends legacy ends taken
    · contradiction

end GracefulStop

namespace Scenarios

inductive Phase where
  | loopTop
  | commands
  | left
  deriving DecidableEq

variable {n : Nat}

structure State (crews : Fin n → Crew) where
  phase : Phase
  stopped : Bool
  threads : ∀ i, (crews i).State

inductive Action (crews : Fin n → Crew) where
  /-- The tick: the handles of the threads and the flag. -/
  | check
  | command (command : GracefulStop.Command)
  | noCommand
  | thread (i : Fin n) (action : (crews i).Action)

variable {crews : Fin n → Crew}

def initial (crews : Fin n → Crew) : State crews := ⟨.loopTop,false,fun i => (crews i).launch false false⟩

def allFinished (s : State crews) : Bool := decide (∀ i, (crews i).finished (s.threads i) = true)

def leaveLoop (s : State crews) : State crews :=
  ⟨.left,true,fun i => (crews i).stop (s.threads i)⟩

def setPaused (paused : Bool) (s : State crews) : State crews :=
  { s with threads := fun i => (crews i).setPaused paused (s.threads i) }

def step (s : State crews) : Action crews → Option (State crews)
  | .check =>
    if s.phase ≠ .loopTop then none
    else if allFinished s || s.stopped then some (leaveLoop s)
    else some { s with phase := .commands }
  | .command command =>
    if s.phase ≠ .commands then none
    else match command with
      -- A `Ramp` is warned about.
      | .ramp _ => some s
      | .pause => some (setPaused true s)
      | .resume => some (setPaused false s)
      | .stop => some (leaveLoop s)
  | .noCommand => if s.phase = .commands then some { s with phase := .loopTop } else none
  | .thread i a => ((crews i).step (s.threads i) a).map fun next =>
      { s with threads := Function.update s.threads i next }

def load (s : State crews) : Load :=
  ⟨∑ i, ((crews i).load (s.threads i)).spawned,∑ i, ((crews i).load (s.threads i)).begun⟩

def Settled (s : State crews) : Prop := ∀ i, (crews i).Settled (s.threads i)

variable {s t : State crews}

theorem settled_of_each (each : ∀ i, (crews i).Settled (t.threads i) ∧
    (crews i).load (t.threads i) = (crews i).load (s.threads i)) : Settled t ∧ load t = load s := by
  refine ⟨fun i => (each i).1,?_⟩
  simp only [load,(each _).2]

theorem step_settled (s : State crews) (a : Action crews) (t : State crews) (valid : Settled s)
    (taken : step s a = some t) : Settled t ∧ load t = load s := by
  have stops : Settled (leaveLoop s) ∧ load (leaveLoop s) = load s :=
    settled_of_each fun i => (crews i).stop_settled _ (valid i)
  have pauses (paused : Bool) : Settled (setPaused paused s) ∧ load (setPaused paused s) = load s :=
    settled_of_each fun i => (crews i).setPaused_settled paused _ (valid i)
  cases a with
  | check =>
    simp only [step] at taken
    split at taken
    · contradiction
    · split at taken <;> obtain rfl := Option.some.inj taken
      · exact stops
      · exact ⟨valid,rfl⟩
  | command command =>
    simp only [step] at taken
    split at taken
    · contradiction
    · cases command <;> obtain rfl := Option.some.inj taken
      · exact ⟨valid,rfl⟩
      · exact pauses true
      · exact pauses false
      · exact stops
  | noCommand =>
    simp only [step] at taken
    split at taken
    · obtain rfl := Option.some.inj taken
      exact ⟨valid,rfl⟩
    · contradiction
  | thread i a =>
    obtain ⟨next,stepped,rfl⟩ := Option.map_eq_some_iff.mp taken
    refine settled_of_each fun j => ?_
    by_cases here : j = i
    · subst j
      simpa using (crews i).step_settled _ _ _ (valid i) stepped
    · simpa [here] using valid j

theorem step_keeps {holds : ∀ i, (crews i).State → Prop} (keeps : ∀ i, (crews i).Keeps (holds i))
    (s : State crews) (a : Action crews) (t : State crews) (valid : ∀ i, holds i (s.threads i))
    (taken : step s a = some t) : ∀ i, holds i (t.threads i) := by
  have stops : ∀ i, holds i ((leaveLoop s).threads i) := fun i => (keeps i).stop _ (valid i)
  cases a with
  | check =>
    simp only [step] at taken
    split at taken
    · contradiction
    · split at taken <;> obtain rfl := Option.some.inj taken
      · exact stops
      · exact valid
  | command command =>
    simp only [step] at taken
    split at taken
    · contradiction
    · cases command <;> obtain rfl := Option.some.inj taken
      · exact valid
      · exact fun i => (keeps i).setPaused true _ (valid i)
      · exact fun i => (keeps i).setPaused false _ (valid i)
      · exact stops
  | noCommand =>
    simp only [step] at taken
    split at taken
    · obtain rfl := Option.some.inj taken
      exact valid
    · contradiction
  | thread i a =>
    obtain ⟨next,stepped,rfl⟩ := Option.map_eq_some_iff.mp taken
    intro j
    by_cases here : j = i
    · subst j
      simpa using (keeps i).step _ a _ (valid i) stepped
    · simpa [here] using valid j

/-- What every thread keeps holds of all of them in any run. -/
theorem run_keeps {holds : ∀ i, (crews i).State → Prop} (keeps : ∀ i, (crews i).Keeps (holds i))
    {actions : List (Action crews)} (run : Machine.exec step (initial crews) actions = some s) :
    ∀ i, holds i (s.threads i) :=
  Machine.exec_invariant (fun s : State crews => ∀ i, holds i (s.threads i)) (step_keeps keeps) run
    fun i => (keeps i).launch false false

theorem exec_threads {i : Fin n} {actions : List (crews i).Action} {next : (crews i).State}
    (run : Machine.exec (crews i).step (s.threads i) actions = some next) :
    Machine.exec step s (actions.map (Action.thread i)) = some { s with
      threads := Function.update s.threads i next } := by
  induction actions generalizing s with
  | nil =>
    obtain rfl := Option.some.inj run
    simp
  | cons a rest ih =>
    obtain ⟨middle,first,later⟩ := Machine.exec_cons_iff.mp run
    refine Machine.exec_cons_iff.mpr ⟨{ s with threads := Function.update s.threads i middle },
      by simp only [step,first,Option.map_some],?_⟩
    rw [ih (by simpa using later)]
    simp

def Action.isCheck : Action crews → Bool
  | .check => true
  | _ => false

/-- With scenarios the control loop waits for their threads. -/
def controlLoop (crews : Fin n → Crew) : ControlLoop where
  State := State crews
  Action := Action crews
  initial := initial crews
  step := step
  load := load
  finished s := s.phase = .left && allFinished s
  tick := Action.isCheck
  Settled := Settled
  -- The tick itself ends no more than the threads have.
  Ends s _ := Settled s
  step_settled := step_settled
  ends_settled s a t _ ends taken := (step_settled s a t ends taken).1

end Scenarios

end Fusillade.Engine
