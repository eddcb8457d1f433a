import Fusillade.Lib.Machine
import Fusillade.Engine.Pool
import Fusillade.Engine.Schedule
import Mathlib.Data.Nat.Basic

/-! The end of a run in legacy mode and in the ramping-workers executor: the supervising
thread clears the flags of the workers on its stack, waits, in the ramping executor joins
them, and the report is merged. -/
namespace Fusillade.Engine.GracefulStop

inductive Mode where
  | legacy
  | rampingWorkers
  deriving DecidableEq

structure Settings where
  mode : Mode
  schedule : Schedule
  duration : Duration
  maxIterations : Option Nat
  stop : Option String

def gracePeriod (cfg : Settings) : Duration :=
  (cfg.stop.bind parseDurationStr).getD (Duration.fromSecs 30)

inductive Supervisor where
  | loopTop
  | commands
  | scaling
  /-- The flags of the first `next` handles have been cleared. -/
  | clearing (next : Nat)
  | waiting (stopStart : Duration)
  | joining (stopStart : Duration)
  | finished (stopStart : Duration)
  | merged (stopStart : Duration)
  deriving DecidableEq

structure State where
  pool : Pool
  supervisor : Supervisor
  dynamicTarget : Option Nat
  paused : Bool
  stopped : Bool
  clock : Duration
  deriving DecidableEq

/-- The commands that reach the pool. -/
inductive Command where
  | ramp (workers : Nat)
  | pause
  | resume
  | stop
  deriving DecidableEq

/-- A step of the supervising thread, with what it reads of the clock and of the memory. -/
inductive Turn where
  | check (elapsed : Duration)
  | command (command : Command)
  | noCommand
  | scale (elapsed : Duration) (throttled : Bool)
  | clear
  | wait
  | join
  | merge
  deriving DecidableEq

/-- In the ramping executor another thread processes the commands: they set the shared
flags at any time. -/
inductive Action where
  | work (worker : Nat)
  | fail (worker : Nat)
  | supervise (turn : Turn)
  | setPaused (paused : Bool)
  | stop
  | tick (time : Duration)
  deriving DecidableEq

def initial : State where
  pool := .empty
  supervisor := .loopTop
  dynamicTarget := none
  paused := false
  stopped := false
  clock := 0

/-- A legacy run stops everything that looks at the shared flag. -/
def leaveLoop (cfg : Settings) (s : State) : State :=
  { s with stopped := s.stopped || cfg.mode == .legacy, supervisor := .clearing 0 }

def applyCommand (cfg : Settings) (s : State) : Command → State
  | .ramp 0 => { s with dynamicTarget := none }
  | .ramp workers => { s with dynamicTarget := some workers }
  | .pause => { s with paused := true }
  | .resume => { s with paused := false }
  | .stop => leaveLoop cfg { s with stopped := true }

def scale (cfg : Settings) (s : State) (elapsed : Duration) (throttled : Bool) : Pool :=
  let scheduledTarget := calculateTarget cfg.schedule elapsed
  match cfg.mode with
  | .legacy => if s.stopped then s.pool else s.pool.legacyTick s.dynamicTarget throttled scheduledTarget
  | .rampingWorkers => s.pool.rampingTick scheduledTarget

/-- The condition of the wait loop: the flag of every handle on the stack reads false. -/
def allStopped (pool : Pool) : Bool := pool.active.all pool.stopped

/-- Legacy goes on to the merge, the ramping executor joins its handles first. -/
def afterWait (cfg : Settings) (stopStart : Duration) : Supervisor :=
  match cfg.mode with
  | .legacy => .finished stopStart
  | .rampingWorkers => .joining stopStart

def supervise (cfg : Settings) (s : State) (turn : Turn) : Option State :=
  match turn, s.supervisor with
  | .check elapsed, .loopTop =>
    if elapsed ≥ cfg.duration || s.stopped then some (leaveLoop cfg s)
    else some { s with supervisor := if cfg.mode = .legacy then .commands else .scaling }
  | .command command, .commands => some (applyCommand cfg s command)
  | .noCommand, .commands => some { s with supervisor := .scaling }
  | .scale elapsed throttled, .scaling =>
    some { s with pool := scale cfg s elapsed throttled, supervisor := .loopTop }
  | .clear, .clearing next =>
    match s.pool.active[next]? with
    | some i => some { s with pool := s.pool.clear i, supervisor := .clearing (next + 1) }
    | none => some { s with supervisor := .waiting s.clock }
  | .wait, .waiting stopStart =>
    if stopStart + gracePeriod cfg ≤ s.clock || allStopped s.pool then
      some { s with supervisor := afterWait cfg stopStart }
    else some s
  | .join, .joining stopStart =>
    if s.pool.active.all s.pool.left then some { s with supervisor := .finished stopStart } else none
  | .merge, .finished stopStart => some { s with supervisor := .merged stopStart }
  | _, _ => none

def State.setWorker (s : State) (i : Nat) (worker : Worker) : State :=
  { s with pool := { s.pool with workers := s.pool.workers.set i worker } }

def limited (cfg : Settings) (worker : Worker) : Bool :=
  cfg.maxIterations.any (worker.iterationCount ≥ ·)

def step (cfg : Settings) (s : State) : Action → Option State
  | .work i => s.pool.workers[i]?.bind fun worker =>
      (worker.advance s.paused s.stopped (limited cfg worker)).map (s.setWorker i)
  | .fail i => s.pool.workers[i]?.bind fun worker => worker.fail.map (s.setWorker i)
  | .supervise turn => supervise cfg s turn
  | .setPaused paused => some { s with paused := paused }
  | .stop => some { s with stopped := true }
  | .tick time => some { s with clock := s.clock + time }

/-- The report is merged only after every worker ever spawned has left its loop, or after
the grace period. -/
def Graceful (cfg : Settings) (s : State) : Prop :=
  ∀ stopStart, s.supervisor = .merged stopStart →
    stopStart + gracePeriod cfg ≤ s.clock ∨ ∀ i < s.pool.workers.length, s.pool.left i

/-- The workers that nothing waits for have left already: in legacy mode all of them, in
the ramping executor those that a ramp-down took off the stack. -/
def Awaited (cfg : Settings) (s : State) (stopStart : Duration) : Prop :=
  stopStart + gracePeriod cfg ≤ s.clock ∨
    ∀ i < s.pool.workers.length, (cfg.mode = .rampingWorkers → i ∉ s.pool.active) → s.pool.left i

def Supervisor.waitStart : Supervisor → Option Duration
  | .waiting stopStart => some stopStart
  | _ => none

/-- The wait loop is left from such a state alone. -/
def WaitsEnough (cfg : Settings) (s : State) (a : Action) : Prop :=
  a = .supervise .wait → ∀ stopStart ∈ s.supervisor.waitStart, Awaited cfg s stopStart

instance (cfg : Settings) (s : State) (stopStart : Duration) :
    Decidable (Awaited cfg s stopStart) := inferInstanceAs (Decidable (_ ∨ ∀ _, _ → _ → _))

instance (cfg : Settings) (s : State) (a : Action) : Decidable (WaitsEnough cfg s a) :=
  inferInstanceAs (Decidable (_ → ∀ _ ∈ _, _))

variable {cfg : Settings} {s t : State} {stopStart : Duration}

/-- What a step outside the supervising thread leaves: flags stay cleared, workers stay
gone and time does not go back. -/
structure Settles (s t : State) : Prop where
  supervisor : t.supervisor = s.supervisor
  active : t.pool.active = s.pool.active
  length : t.pool.workers.length = s.pool.workers.length
  stopped : ∀ i, s.pool.stopped i → t.pool.stopped i
  left : ∀ i, s.pool.left i → t.pool.left i
  clock : s.clock ≤ t.clock

theorem setWorker_settles {i : Nat} {worker : Worker} (next : Worker)
    (found : s.pool.workers[i]? = some worker) (running : next.running = worker.running)
    (live : worker.pc ≠ .done) : Settles s (s.setWorker i next) := by
  have inside := (List.getElem?_eq_some_iff.mp found).1
  refine ⟨rfl,rfl,by simp [State.setWorker],?_,?_,Nat.le_refl _⟩
  · intro j cleared
    by_cases here : j = i
    · subst j
      simp only [Pool.stopped,found,Option.all_some] at cleared
      simp [Pool.stopped,State.setWorker,inside,running,cleared]
    · simpa [Pool.stopped,State.setWorker,Ne.symm here] using cleared
  · intro j gone
    by_cases here : j = i
    · subst j
      simp [Pool.left,found,live] at gone
    · simpa [Pool.left,State.setWorker,Ne.symm here] using gone

theorem step_settles {a : Action} (free : ∀ turn, a ≠ .supervise turn)
    (taken : step cfg s a = some t) : Settles s t := by
  cases a with
  | work i =>
    obtain ⟨worker,found,mapped⟩ := Option.bind_eq_some_iff.mp taken
    obtain ⟨next,advanced,rfl⟩ := Option.map_eq_some_iff.mp mapped
    exact setWorker_settles next found (Worker.advance_running advanced) (Worker.advance_live advanced)
  | fail i =>
    obtain ⟨worker,found,mapped⟩ := Option.bind_eq_some_iff.mp taken
    obtain ⟨next,failed,rfl⟩ := Option.map_eq_some_iff.mp mapped
    obtain ⟨pc,rfl⟩ := Worker.fail_cases failed
    exact setWorker_settles _ found rfl (by simp [pc])
  | supervise turn => exact absurd rfl (free turn)
  | setPaused paused =>
    obtain rfl := Option.some.inj taken
    exact ⟨rfl,rfl,rfl,fun _ => id,fun _ => id,Nat.le_refl _⟩
  | stop =>
    obtain rfl := Option.some.inj taken
    exact ⟨rfl,rfl,rfl,fun _ => id,fun _ => id,Nat.le_refl _⟩
  | tick time =>
    obtain rfl := Option.some.inj taken
    exact ⟨rfl,rfl,rfl,fun _ => id,fun _ => id,Nat.le_add_right _ _⟩

/-- The phases before a flag has been cleared. -/
def Supervisor.Controlling : Supervisor → Prop
  | .loopTop | .commands | .scaling | .clearing 0 => True
  | _ => False

/-- A turn of the supervising thread: it controls the pool, clears a flag, begins to wait,
looks again, or moves on towards the merge. -/
inductive Supervised (cfg : Settings) (s : State) (turn : Turn) : State → Prop where
  | controls (t : State) (phase : t.supervisor.Controlling) : Supervised cfg s turn t
  | clears (next i : Nat) (reached : s.supervisor = .clearing next)
      (found : s.pool.active[next]? = some i) :
      Supervised cfg s turn { s with pool := s.pool.clear i, supervisor := .clearing (next + 1) }
  | begins (next : Nat) (reached : s.supervisor = .clearing next)
      (cleared : s.pool.active[next]? = none) :
      Supervised cfg s turn { s with supervisor := .waiting s.clock }
  | stays : Supervised cfg s turn s
  | leaves (stopStart : Duration) (reached : s.supervisor = .waiting stopStart) (wait : turn = .wait) :
      Supervised cfg s turn { s with supervisor := afterWait cfg stopStart }
  | joins (stopStart : Duration) (reached : s.supervisor = .joining stopStart)
      (left : ∀ i ∈ s.pool.active, s.pool.left i) :
      Supervised cfg s turn { s with supervisor := .finished stopStart }
  | merges (stopStart : Duration) (reached : s.supervisor = .finished stopStart) :
      Supervised cfg s turn { s with supervisor := .merged stopStart }

theorem applyCommand_controlling {command : Command} (reached : s.supervisor = .commands) :
    (applyCommand cfg s command).supervisor.Controlling := by
  unfold applyCommand leaveLoop
  split <;> simp [reached,Supervisor.Controlling]

theorem supervise_cases {turn : Turn} (taken : supervise cfg s turn = some t) :
    Supervised cfg s turn t := by
  unfold supervise at taken
  split at taken
  next elapsed reached =>
    refine .controls t ?_
    split at taken <;> obtain rfl := Option.some.inj taken
    · simp [leaveLoop,Supervisor.Controlling]
    · dsimp only
      split <;> simp [Supervisor.Controlling]
  next command reached =>
    obtain rfl := Option.some.inj taken
    exact .controls _ (applyCommand_controlling reached)
  next reached =>
    obtain rfl := Option.some.inj taken
    exact .controls _ trivial
  next elapsed throttled reached =>
    obtain rfl := Option.some.inj taken
    exact .controls _ trivial
  next next reached =>
    split at taken
    next i found =>
      obtain rfl := Option.some.inj taken
      exact .clears next i reached found
    next cleared =>
      obtain rfl := Option.some.inj taken
      exact .begins next reached cleared
  next stopStart reached =>
    split at taken <;> obtain rfl := Option.some.inj taken
    · exact .leaves stopStart reached rfl
    · exact .stays
  next stopStart reached =>
    split at taken
    next left =>
      obtain rfl := Option.some.inj taken
      exact .joins stopStart reached (List.all_eq_true.mp left)
    next => contradiction
  next stopStart reached =>
    obtain rfl := Option.some.inj taken
    exact .merges stopStart reached
  next => contradiction

/-- The wait begins with the flag of every handle on the stack cleared. -/
structure Cleared (s : State) : Prop where
  clearing : ∀ next, s.supervisor = .clearing next → ∀ i ∈ s.pool.active.take next, s.pool.stopped i
  waiting : ∀ stopStart, s.supervisor = .waiting stopStart → ∀ i ∈ s.pool.active, s.pool.stopped i

theorem settles_cleared (settles : Settles s t) (valid : Cleared s) : Cleared t := by
  constructor
  · intro next reached i member
    rw [settles.supervisor] at reached
    rw [settles.active] at member
    exact settles.stopped i (valid.clearing next reached i member)
  · intro stopStart reached i member
    rw [settles.supervisor] at reached
    rw [settles.active] at member
    exact settles.stopped i (valid.waiting stopStart reached i member)

theorem supervised_cleared {turn : Turn} (supervised : Supervised cfg s turn t) (valid : Cleared s) :
    Cleared t := by
  cases supervised with
  | controls _ phase =>
    refine ⟨fun next reached => ?_,fun stopStart reached => ?_⟩ <;> rw [reached] at phase
    · cases next with
      | zero => simp
      | succ next => exact phase.elim
    · exact phase.elim
  | clears next i reached found =>
    refine ⟨?_,by simp⟩
    intro next' reached' j member
    obtain rfl : next + 1 = next' := by simpa using reached'
    change j ∈ s.pool.active.take (next + 1) at member
    rw [List.take_add_one,found,List.mem_append] at member
    rcases member with earlier | here
    · exact Pool.clear_stopped i (.inl (valid.clearing next reached j earlier))
    · exact Pool.clear_stopped i (.inr (by simpa using here))
  | begins next reached cleared =>
    refine ⟨by simp,fun _ _ i member => valid.clearing next reached i ?_⟩
    rwa [List.take_of_length_le (List.getElem?_eq_none_iff.mp cleared)]
  | stays => exact valid
  | leaves stopStart reached wait => constructor <;> simp [afterWait] <;> split <;> simp
  | joins stopStart reached left => exact ⟨by simp,by simp⟩
  | merges stopStart reached => exact ⟨by simp,by simp⟩

theorem step_cleared (s : State) (a : Action) (t : State) (valid : Cleared s)
    (taken : step cfg s a = some t) : Cleared t := by
  by_cases turning : ∃ turn, a = .supervise turn
  · obtain ⟨turn,rfl⟩ := turning
    exact supervised_cleared (supervise_cases taken) valid
  · exact settles_cleared (step_settles (fun turn same => turning ⟨turn,same⟩) taken) valid

theorem reachable_cleared {actions : List Action}
    (run : Machine.exec (step cfg) initial actions = some s) : Cleared s :=
  Machine.exec_invariant _ step_cleared run ⟨by simp [initial],by simp [initial]⟩

/-- The start of the wait that the supervising thread has left. -/
def Supervisor.waited : Supervisor → Option Duration
  | .joining stopStart | .finished stopStart | .merged stopStart => some stopStart
  | _ => none

structure Ending (cfg : Settings) (s : State) : Prop where
  awaited : ∀ stopStart, s.supervisor.waited = some stopStart → Awaited cfg s stopStart
  joined : cfg.mode = .rampingWorkers → ∀ stopStart,
    s.supervisor = .finished stopStart ∨ s.supervisor = .merged stopStart →
      ∀ i ∈ s.pool.active, s.pool.left i

theorem settles_awaited (settles : Settles s t) (valid : Awaited cfg s stopStart) :
    Awaited cfg t stopStart := by
  apply valid.imp (fun elapsed => elapsed.trans settles.clock)
  intro gone i inside removed
  rw [settles.length] at inside
  rw [settles.active] at removed
  exact settles.left i (gone i inside removed)

theorem settles_ending (settles : Settles s t) (valid : Ending cfg s) : Ending cfg t := by
  constructor
  · intro stopStart waited
    rw [settles.supervisor] at waited
    exact settles_awaited settles (valid.awaited stopStart waited)
  · intro mode stopStart reached i member
    rw [settles.supervisor] at reached
    rw [settles.active] at member
    exact settles.left i (valid.joined mode stopStart reached i member)

theorem waited_of_controlling {supervisor : Supervisor} (phase : supervisor.Controlling) :
    supervisor.waited = none := by
  cases supervisor <;> first | rfl | exact phase.elim

theorem supervised_ending {turn : Turn} (supervised : Supervised cfg s turn t)
    (allowed : WaitsEnough cfg s (.supervise turn)) (valid : Ending cfg s) : Ending cfg t := by
  cases supervised with
  | controls _ phase =>
    constructor
    · intro stopStart waited
      simp [waited_of_controlling phase] at waited
    · intro _ stopStart reached
      rcases reached with reached | reached <;> rw [reached] at phase <;> exact phase.elim
  | clears next i reached found => exact ⟨by simp [Supervisor.waited],by simp⟩
  | begins next reached cleared => exact ⟨by simp [Supervisor.waited],by simp⟩
  | stays => exact valid
  | leaves stopStart reached wait =>
    have enough := allowed (congrArg _ wait) stopStart (by rw [reached]; rfl)
    constructor
    · intro start waited
      have same : start = stopStart := by
        revert waited
        simp only [afterWait]
        split <;> exact fun waited => (Option.some.inj waited).symm
      exact same ▸ enough
    · intro mode start reached'
      simp [afterWait,mode] at reached'
  | joins stopStart reached left =>
    refine ⟨?_,fun _ _ _ => left⟩
    intro start waited
    exact valid.awaited start (by rw [reached]; exact waited)
  | merges stopStart reached =>
    refine ⟨?_,fun mode _ _ => valid.joined mode stopStart (.inl reached)⟩
    intro start waited
    exact valid.awaited start (by rw [reached]; exact waited)

theorem step_ending (s : State) (a : Action) (t : State) (valid : Ending cfg s)
    (allowed : WaitsEnough cfg s a) (taken : step cfg s a = some t) : Ending cfg t := by
  by_cases turning : ∃ turn, a = .supervise turn
  · obtain ⟨turn,rfl⟩ := turning
    exact supervised_ending (supervise_cases taken) allowed valid
  · exact settles_ending (step_settles (fun turn same => turning ⟨turn,same⟩) taken) valid

theorem graceful_of_ending (valid : Ending cfg s) : Graceful cfg s := by
  intro stopStart reached
  apply (valid.awaited stopStart (by rw [reached]; rfl)).imp_right
  intro gone i inside
  by_cases waitedFor : cfg.mode = .rampingWorkers ∧ i ∈ s.pool.active
  · exact valid.joined waitedFor.1 stopStart (.inr reached) i waitedFor.2
  · exact gone i inside fun mode member => waitedFor ⟨mode,member⟩

/-- The state `t` is `s` with some of the workers gone. -/
structure Leaves (leaving : List Nat) (s t : State) : Prop where
  supervisor : t.supervisor = s.supervisor
  active : t.pool.active = s.pool.active
  length : t.pool.workers.length = s.pool.workers.length
  clock : t.clock = s.clock
  others : ∀ j, j ∉ leaving → t.pool.workers[j]? = s.pool.workers[j]?
  stopped : ∀ i, s.pool.stopped i → t.pool.stopped i
  gone : ∀ i ∈ leaving, t.pool.left i

/-- A worker with a cleared flag can run to the end of its loop on its own. The induction
is on the steps it has left. -/
theorem worker_leaves (cfg : Settings) (i : Nat) (cleared : s.pool.stopped i) :
    ∃ later t, Machine.exec (step cfg) s later = some t ∧ Leaves [i] s t := by
  generalize bound : (s.pool.workers[i]?.map fun worker => Worker.remaining worker.pc).getD 0 = k
  induction k using Nat.strong_induction_on generalizing s with
  | _ k ih =>
    by_cases gone : s.pool.left i
    · exact ⟨[],s,rfl,rfl,rfl,rfl,rfl,fun _ _ => rfl,fun _ => id,by simpa using gone⟩
    · obtain ⟨worker,found,live⟩ : ∃ worker, s.pool.workers[i]? = some worker ∧ worker.pc ≠ .done := by
        cases found : s.pool.workers[i]? <;> simp [Pool.left,found] at gone ⊢
        exact gone
      have off : worker.running = false := by simpa [Pool.stopped,found] using cleared
      have inside := (List.getElem?_eq_some_iff.mp found).1
      obtain ⟨next,advanced,nextOff,closer⟩ :=
        Worker.advance_cleared s.paused s.stopped (limited cfg worker) off live
      have taken : step cfg s (.work i) = some (s.setWorker i next) := by
        simp [step,found,advanced]
      have settles := setWorker_settles next found (nextOff.trans off.symm) live
      rw [found,Option.map_some,Option.getD_some] at bound
      have nearer : ((s.setWorker i next).pool.workers[i]?.map fun worker =>
          Worker.remaining worker.pc).getD 0 < k := by
        simpa [State.setWorker,inside,← bound] using closer
      obtain ⟨later,t,run,leaves⟩ := ih _ nearer (settles.stopped i cleared) rfl
      refine ⟨.work i :: later,t,Machine.exec_cons_iff.mpr ⟨_,taken,run⟩,leaves.supervisor,
        leaves.active,leaves.length.trans settles.length,leaves.clock,fun j other => ?_,
        fun j off => leaves.stopped j (settles.stopped j off),leaves.gone⟩
      have apart : i ≠ j := fun same => other (by simp [same])
      rw [leaves.others j other]
      simp [State.setWorker,apart]

theorem workers_leave (cfg : Settings) (leaving : List Nat) (cleared : ∀ i ∈ leaving, s.pool.stopped i) :
    ∃ later t, Machine.exec (step cfg) s later = some t ∧ Leaves leaving s t := by
  induction leaving generalizing s with
  | nil =>
    exact ⟨[],s,rfl,rfl,rfl,rfl,rfl,fun _ _ => rfl,fun _ => id,fun _ => (absurd · List.not_mem_nil)⟩
  | cons i rest ih =>
    obtain ⟨first,u,runFirst,one⟩ := worker_leaves cfg i (cleared i List.mem_cons_self)
    obtain ⟨later,t,runLater,others⟩ :=
      ih fun j member => one.stopped j (cleared j (List.mem_cons_of_mem i member))
    refine ⟨first ++ later,t,Machine.exec_append_iff.mpr ⟨u,runFirst,runLater⟩,
      others.supervisor.trans one.supervisor,others.active.trans one.active,
      others.length.trans one.length,others.clock.trans one.clock,fun j outside => ?_,
      fun j off => others.stopped j (one.stopped j off),fun j member => ?_⟩
    · rw [List.mem_cons,not_or] at outside
      rw [others.others j outside.2,one.others j (by simpa using outside.1)]
    · by_cases later : j ∈ rest
      · exact others.gone j later
      · obtain rfl : j = i := by simpa [later] using member
        simpa [Pool.left,others.others j later] using one.gone j List.mem_cons_self

/-- A wait that begins with a worker at large that nothing waits for can end in a report
without it. -/
theorem merge_misses_worker {actions : List Action}
    (run : Machine.exec (step cfg) initial actions = some s)
    (reached : s.supervisor = .waiting stopStart) (short : ¬Awaited cfg s stopStart) :
    ∃ later t, Machine.exec (step cfg) s later = some t ∧ ¬Graceful cfg t := by
  have cleared := (reachable_cleared run).waiting stopStart reached
  simp only [Awaited,not_or,not_forall] at short
  obtain ⟨early,i,inside,removed,live⟩ := short
  have looked : step cfg s (.supervise .wait) =
      some { s with supervisor := afterWait cfg stopStart } := by
    have all : allStopped s.pool = true := List.all_eq_true.mpr cleared
    simp [step,supervise,reached,all]
  cases mode : cfg.mode with
  | legacy =>
    refine ⟨[.supervise .wait,.supervise .merge],{ s with supervisor := .merged stopStart },?_,?_⟩
    · refine Machine.exec_cons_iff.mpr ⟨_,looked,?_⟩
      simp [Machine.exec_cons,step,supervise,afterWait,mode]
    · intro graceful
      rcases graceful stopStart rfl with elapsed | gone
      · exact early elapsed
      · exact live (gone i inside)
  | rampingWorkers =>
    obtain ⟨later,t,runLater,leaves⟩ := workers_leave cfg
      (s := { s with supervisor := afterWait cfg stopStart }) s.pool.active cleared
    have joining : t.supervisor = .joining stopStart := by
      rw [leaves.supervisor]; simp [afterWait,mode]
    have joined : t.pool.active.all t.pool.left = true := by
      rw [leaves.active]; exact List.all_eq_true.mpr leaves.gone
    refine ⟨.supervise .wait :: (later ++ [.supervise .join,.supervise .merge]),
      { t with supervisor := .merged stopStart },?_,?_⟩
    · refine Machine.exec_cons_iff.mpr ⟨_,looked,Machine.exec_append_iff.mpr ⟨t,runLater,?_⟩⟩
      simp [Machine.exec_cons,step,supervise,joining,joined]
    · intro graceful
      rcases graceful stopStart rfl with elapsed | gone
      · exact early (elapsed.trans_eq leaves.clock)
      · refine live ?_
        have same := leaves.others i (removed mode)
        simpa [Pool.left,same] using gone i (inside.trans_eq leaves.length.symm)

/-- The report waits for the workers exactly as far as the wait loop begins with them gone:
runs whose waits begin so are graceful throughout, and any other wait can end too early. -/
theorem graceful_exactly (cfg : Settings) :
    (∀ actions, Machine.Guarded (step cfg) (WaitsEnough cfg) initial actions →
      Machine.Along (step cfg) (Graceful cfg) initial actions) ∧
    (∀ actions s stopStart, Machine.exec (step cfg) initial actions = some s →
      s.supervisor = .waiting stopStart → ¬Awaited cfg s stopStart →
      ∃ later t, Machine.exec (step cfg) initial (actions ++ later) = some t ∧ ¬Graceful cfg t) := by
  constructor
  · intro actions guarded
    refine Machine.Guarded.along step_ending (fun _ => graceful_of_ending) ?_ guarded
    exact ⟨by simp [initial,Supervisor.waited],by simp [initial]⟩
  · intro actions s stopStart run reached short
    obtain ⟨later,t,continued,missed⟩ := merge_misses_worker run reached short
    exact ⟨later,t,Machine.exec_append_iff.mpr ⟨s,run,continued⟩,missed⟩

/-- One worker for a second, with the default grace period of thirty. -/
def oneSecond (maxIterations : Option Nat) : Settings :=
  ⟨.legacy,[(0,1),(Duration.fromSecs 1,1)],Duration.fromSecs 1,maxIterations,none⟩

/-- The worker is still in its first iteration when the report is merged. -/
theorem merge_during_iteration :
    ∃ s, Machine.exec (step (oneSecond none)) initial
        [.supervise (.check 0),.supervise .noCommand,.supervise (.scale 0 false),.work 0,.work 0,
          .work 0,.work 0,.supervise (.check (Duration.fromSecs 1)),.supervise .clear,
          .supervise .clear,.supervise .wait,.supervise .merge] = some s ∧
      ¬Graceful (oneSecond none) s := by
  have early : ∃ s, Machine.exec (step (oneSecond none)) initial
      [.supervise (.check 0),.supervise .noCommand,.supervise (.scale 0 false),.work 0,.work 0,
        .work 0,.work 0,.supervise (.check (Duration.fromSecs 1)),.supervise .clear,
        .supervise .clear,.supervise .wait,.supervise .merge] = some s ∧
      s.supervisor = .merged 0 ∧ ¬(0 + gracePeriod (oneSecond none) ≤ s.clock ∨
        ∀ i < s.pool.workers.length, s.pool.left i) := by decide +kernel
  obtain ⟨s,run,merged,missed⟩ := early
  exact ⟨s,run,fun graceful => missed (graceful 0 merged)⟩

/-- A worker with a single iteration is gone when the wait begins. -/
theorem graceful_after_last_iteration :
    let actions : List Action :=
      [.supervise (.check 0),.supervise .noCommand,.supervise (.scale 0 false),.work 0,.work 0,
        .work 0,.work 0,.work 0,.work 0,.supervise (.check (Duration.fromSecs 1)),
        .supervise .clear,.supervise .clear,.supervise .wait,.supervise .merge]
    (Machine.exec (step (oneSecond (some 1))) initial actions).isSome ∧
      Machine.Along (step (oneSecond (some 1))) (Graceful (oneSecond (some 1))) initial actions := by
  intro actions
  exact ⟨by decide +kernel,(graceful_exactly (oneSecond (some 1))).1 actions (by decide +kernel)⟩

end Fusillade.Engine.GracefulStop
