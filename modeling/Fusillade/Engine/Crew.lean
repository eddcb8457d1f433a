import Fusillade.Engine.Executor
import Fusillade.Engine.GracefulStop

/-! The executors as crews: a supervising thread with its workers, of which one sees how many
workers have been spawned and how many iterations have been begun. A crew is settled in the
states from which neither number grows, whatever the threads outside set the flags to. -/
namespace Fusillade.Engine

open SharedIterations (executed)

/-- Workers spawned and iterations begun, since the run started. -/
structure Load where
  spawned : Nat
  begun : Nat
  deriving DecidableEq

/-- The flags that all threads share are kept with every crew. -/
structure Crew where
  State : Type
  Action : Type
  launch : (paused stopped : Bool) → State
  step : State → Action → Option State
  setPaused : Bool → State → State
  stop : State → State
  finished : State → Bool
  load : State → Load
  Settled : State → Prop
  step_settled : ∀ s a t, Settled s → step s a = some t → Settled t ∧ load t = load s
  setPaused_settled : ∀ paused s, Settled s →
    Settled (setPaused paused s) ∧ load (setPaused paused s) = load s
  stop_settled : ∀ s, Settled s → Settled (stop s) ∧ load (stop s) = load s

namespace Worker

/-- The worker begins no further iteration. -/
def Halted (stopped : Bool) (worker : Worker) : Prop :=
  stopped = true ∨ worker.running = false ∨ worker.pc = .done

variable {worker next : Worker} {paused stopped limited : Bool}

theorem advance_halted (halted : worker.Halted stopped)
    (taken : worker.advance paused stopped limited = some next) :
    next.Halted stopped ∧ executed next = executed worker := by
  have flags : stopped = true ∨ worker.running = false := by
    rcases halted with stopped | cleared | done
    · exact .inl stopped
    · exact .inr cleared
    · exact absurd done (advance_live taken)
  refine ⟨?_,?_⟩
  · rw [Halted,advance_running taken]
    exact flags.imp_right .inl
  · cases pc : worker.pc <;> simp only [advance,pc] at taken
    case done => contradiction
    all_goals obtain rfl := Option.some.inj taken
    case setup | iterating | pacing => simp [executed,pc]
    case loopHead | pausing | limitCheck => split <;> simp [executed,pc]
    case stopCheck =>
      have leaves : (stopped || !worker.running) = true := by
        rcases flags with rfl | cleared
        · rfl
        · rw [cleared,Bool.not_false,Bool.or_true]
      simp [executed,pc,leaves]

theorem fail_halted (stopped : Bool) (taken : worker.fail = some next) :
    next.Halted stopped ∧ executed next = executed worker := by
  obtain ⟨pc,rfl⟩ := fail_cases taken
  exact ⟨.inr (.inr rfl),by simp [executed,pc]⟩

end Worker

namespace Pool

def load (pool : Pool) : Load := ⟨pool.workers.length,(pool.workers.map executed).sum⟩

variable {pool : Pool} {worker next : Worker} {i : Nat}

theorem load_set (found : pool.workers[i]? = some worker) (same : executed next = executed worker) :
    load { pool with workers := pool.workers.set i next } = pool.load := by
  have sums := Family.sum_set (f := executed) next found
  rw [same] at sums
  simp only [load,List.length_set,Nat.add_right_cancel sums]

@[simp] theorem load_clear (pool : Pool) (i : Nat) : (pool.clear i).load = pool.load := by
  have kept : (pool.clear i).workers.map executed = pool.workers.map executed := by
    apply List.ext_getElem?
    intro j
    by_cases here : i = j
    · subst j
      simp only [clear,List.getElem?_map,List.getElem?_modify_eq]
      cases pool.workers[i]? <;> rfl
    · simp [clear,here]
  rw [load,kept]
  simp [load,clear]

theorem clear_halted {stopped : Bool} (i : Nat)
    (halted : ∀ worker ∈ pool.workers, worker.Halted stopped) :
    ∀ worker ∈ (pool.clear i).workers, worker.Halted stopped := by
  intro worker member
  obtain ⟨j,found⟩ := List.mem_iff_getElem?.mp member
  simp only [clear,List.getElem?_modify] at found
  obtain ⟨before,old,rfl⟩ := Option.map_eq_some_iff.mp found
  split
  · exact .inr (.inl rfl)
  · exact halted before (List.mem_of_getElem? old)

end Pool

namespace GracefulStop

/-- The scaling is over. -/
def Supervisor.Leaving : Supervisor → Prop
  | .loopTop | .commands | .scaling => False
  | _ => True

/-- No turn spawns a worker: a legacy loop looks at the shared flag when it scales, and the
ramping executor at the top of its loop alone. And no worker begins an iteration. -/
structure Settled (cfg : Settings) (s : State) : Prop where
  scaled : s.supervisor.Leaving ∨ s.stopped = true ∧ (cfg.mode = .legacy ∨ s.supervisor = .loopTop)
  halted : ∀ worker ∈ s.pool.workers, worker.Halted s.stopped

variable {cfg : Settings} {s t : State}

theorem setWorker_settled {i : Nat} {worker next : Worker} (valid : Settled cfg s)
    (found : s.pool.workers[i]? = some worker)
    (halts : next.Halted s.stopped ∧ executed next = executed worker) :
    Settled cfg (s.setWorker i next) ∧ (s.setWorker i next).pool.load = s.pool.load := by
  refine ⟨⟨valid.scaled,?_⟩,Pool.load_set found halts.2⟩
  intro other member
  rcases List.mem_or_eq_of_mem_set member with before | rfl
  · exact valid.halted other before
  · exact halts.1

/-- A stop lets nothing more begin. -/
theorem settled_of_stopped (scaled : s.supervisor.Leaving ∨ cfg.mode = .legacy ∨ s.supervisor = .loopTop)
    (stopped : s.stopped = true) : Settled cfg s where
  scaled := scaled.imp_right fun loop => ⟨stopped,loop⟩
  halted _ _ := .inl stopped

/-- A turn at the loop meets a stop that is set already. -/
theorem Settled.stopped (valid : Settled cfg s) (looping : ¬s.supervisor.Leaving) : s.stopped = true :=
  (valid.scaled.resolve_left looping).1

/-- Below the top of the loop the mode is legacy besides. -/
theorem Settled.legacy (valid : Settled cfg s) (looping : ¬s.supervisor.Leaving)
    (below : s.supervisor ≠ .loopTop) : cfg.mode = .legacy :=
  (valid.scaled.resolve_left looping).2.resolve_right below

theorem applyCommand_settled (command : Command) (legacy : cfg.mode = .legacy) (stopped : s.stopped = true) :
    Settled cfg (applyCommand cfg s command) ∧ (applyCommand cfg s command).pool = s.pool := by
  have kept : (applyCommand cfg s command).stopped = true ∧ (applyCommand cfg s command).pool = s.pool := by
    unfold applyCommand leaveLoop
    split <;> simp [stopped]
  exact ⟨settled_of_stopped (.inr (.inl legacy)) kept.1,kept.2⟩

theorem supervise_settled {turn : Turn} (valid : Settled cfg s)
    (taken : supervise cfg s turn = some t) : Settled cfg t ∧ t.pool.load = s.pool.load := by
  have leaves (supervisor : Supervisor) (leaving : supervisor.Leaving) :
      Settled cfg { s with supervisor := supervisor } := ⟨.inl leaving,valid.halted⟩
  unfold supervise at taken
  split at taken
  next elapsed reached =>
    have stopped := valid.stopped (by rw [reached]; exact id)
    rw [if_pos (by simp [stopped])] at taken
    obtain rfl := Option.some.inj taken
    exact ⟨settled_of_stopped (.inl trivial) (by simp [leaveLoop,stopped]),rfl⟩
  next command reached =>
    have looping : ¬s.supervisor.Leaving := by rw [reached]; exact id
    obtain ⟨settled,same⟩ :=
      applyCommand_settled command (valid.legacy looping (by simp [reached])) (valid.stopped looping)
    obtain rfl := Option.some.inj taken
    exact ⟨settled,congrArg Pool.load same⟩
  next reached =>
    have looping : ¬s.supervisor.Leaving := by rw [reached]; exact id
    have legacy := valid.legacy looping (by simp [reached])
    obtain rfl := Option.some.inj taken
    exact ⟨settled_of_stopped (.inr (.inl legacy)) (valid.stopped looping),rfl⟩
  next elapsed throttled reached =>
    have looping : ¬s.supervisor.Leaving := by rw [reached]; exact id
    have legacy := valid.legacy looping (by simp [reached])
    have same : scale cfg s elapsed throttled = s.pool := by simp [scale,legacy,valid.stopped looping]
    obtain rfl := Option.some.inj taken
    exact ⟨settled_of_stopped (.inr (.inl legacy)) (valid.stopped looping),congrArg Pool.load same⟩
  next next reached =>
    split at taken <;> obtain rfl := Option.some.inj taken
    · exact ⟨⟨.inl trivial,Pool.clear_halted _ valid.halted⟩,Pool.load_clear _ _⟩
    · exact ⟨leaves _ trivial,rfl⟩
  next stopStart reached =>
    split at taken <;> obtain rfl := Option.some.inj taken
    · refine ⟨leaves _ ?_,rfl⟩
      unfold afterWait
      split <;> exact trivial
    · exact ⟨valid,rfl⟩
  next stopStart reached =>
    split at taken
    · obtain rfl := Option.some.inj taken
      exact ⟨leaves _ trivial,rfl⟩
    · contradiction
  next stopStart reached =>
    obtain rfl := Option.some.inj taken
    exact ⟨leaves _ trivial,rfl⟩
  next => contradiction

theorem step_settled (s : State) (a : Action) (t : State) (valid : Settled cfg s)
    (taken : step cfg s a = some t) : Settled cfg t ∧ t.pool.load = s.pool.load := by
  cases a with
  | work i =>
    obtain ⟨worker,found,mapped⟩ := Option.bind_eq_some_iff.mp taken
    obtain ⟨next,advanced,rfl⟩ := Option.map_eq_some_iff.mp mapped
    have halted := valid.halted worker (List.mem_of_getElem? found)
    exact setWorker_settled valid found (Worker.advance_halted halted advanced)
  | fail i =>
    obtain ⟨worker,found,mapped⟩ := Option.bind_eq_some_iff.mp taken
    obtain ⟨next,failed,rfl⟩ := Option.map_eq_some_iff.mp mapped
    exact setWorker_settled valid found (Worker.fail_halted s.stopped failed)
  | supervise turn => exact supervise_settled valid taken
  | setPaused paused =>
    obtain rfl := Option.some.inj taken
    exact ⟨⟨valid.scaled,valid.halted⟩,rfl⟩
  | stop =>
    obtain rfl := Option.some.inj taken
    exact ⟨settled_of_stopped (valid.scaled.imp_right And.right) rfl,rfl⟩
  | tick time =>
    obtain rfl := Option.some.inj taken
    exact ⟨⟨valid.scaled,valid.halted⟩,rfl⟩

/-- The threads of a run set the flags, not the crew. -/
def Action.own : Action → Bool
  | .setPaused _ | .stop => false
  | _ => true

def crew (cfg : Settings) : Crew where
  State := State
  Action := Action
  launch paused stopped := { initial with paused := paused, stopped := stopped }
  step s a := if a.own then step cfg s a else none
  setPaused paused s := { s with paused := paused }
  stop s := { s with stopped := true }
  finished s := match s.supervisor with
    | .finished _ | .merged _ => true
    | _ => false
  load s := s.pool.load
  Settled := Settled cfg
  step_settled s a t valid taken := by
    split at taken
    · exact step_settled s a t valid taken
    · contradiction
  setPaused_settled paused s valid := step_settled s (.setPaused paused) _ valid rfl
  stop_settled s valid := step_settled s .stop _ valid rfl

end GracefulStop

namespace ClosedModel

open SharedIterations (State Action)

variable {n : Nat}

/-- Of the executors that spawn their workers at once, those without a shared pool: every worker
counts for itself, and the supervising loop does not look at a counter. -/
def perWorkerStep (maxIterations : Option Nat) (s : State n) : Action n → Option (State n)
  | .work i =>
    let worker := s.workers i
    (worker.advance s.paused s.stopped (maxIterations.any (worker.iterationCount ≥ ·))).map
      (s.setWorker i)
  | .supervise elapsed => match s.supervisor with
    | .polling =>
      if elapsed then some { s with supervisor := .clearing 0 .elapsed }
      else if s.stopped then some { s with supervisor := .clearing 0 .stopped }
      else some s
    | _ => SharedIterations.supervise ⟨n,none⟩ s elapsed
  | a => SharedIterations.step ⟨n,none⟩ s a

def Settled (s : State n) : Prop := ∀ i, (s.workers i).Halted s.stopped

def load (s : State n) : Load := ⟨n,Family.total executed s.workers⟩

variable {cfg : SharedIterations.Settings} {maxIterations : Option Nat} {s t : State n}

theorem setWorker_settled {i : Fin n} {next : Worker} (valid : Settled s)
    (halts : next.Halted s.stopped ∧ executed next = executed (s.workers i)) :
    Settled (s.setWorker i next) ∧ load (s.setWorker i next) = load s := by
  refine ⟨?_,congrArg (Load.mk n) (Family.total_same next halts.2)⟩
  intro j
  by_cases here : j = i
  · subst j
    simpa [State.setWorker] using halts.1
  · simpa [State.setWorker,here] using valid j

theorem supervise_settled {elapsed : Bool} (valid : Settled s)
    (taken : SharedIterations.supervise cfg s elapsed = some t) : Settled t ∧ load t = load s := by
  unfold SharedIterations.supervise at taken
  split at taken
  next =>
    (repeat' split at taken) <;> (obtain rfl := Option.some.inj taken; exact ⟨valid,rfl⟩)
  next next ending reached =>
    split at taken
    next inside =>
      obtain rfl := Option.some.inj taken
      have cleared : ({ s.workers ⟨next,inside⟩ with running := false } : Worker).Halted s.stopped :=
        .inr (.inl rfl)
      exact setWorker_settled valid ⟨cleared,rfl⟩
    next =>
      obtain rfl := Option.some.inj taken
      exact ⟨valid,rfl⟩
  next =>
    split at taken
    · obtain rfl := Option.some.inj taken
      exact ⟨valid,rfl⟩
    · contradiction
  next => contradiction

theorem shared_settled (s : State n) (a : Action n) (t : State n) (valid : Settled s)
    (taken : SharedIterations.step cfg s a = some t) : Settled t ∧ load t = load s := by
  cases a with
  | work i =>
    obtain ⟨next,advanced,rfl⟩ := Option.map_eq_some_iff.mp taken
    exact setWorker_settled valid (Worker.advance_halted (valid i) advanced)
  | fail i =>
    obtain ⟨next,failed,rfl⟩ := Option.map_eq_some_iff.mp taken
    exact setWorker_settled valid (Worker.fail_halted s.stopped failed)
  | supervise elapsed => exact supervise_settled valid taken
  | setPaused paused =>
    obtain rfl := Option.some.inj taken
    exact ⟨valid,rfl⟩
  | stop =>
    obtain rfl := Option.some.inj taken
    exact ⟨fun _ => .inl rfl,rfl⟩

theorem perWorker_settled (s : State n) (a : Action n) (t : State n) (valid : Settled s)
    (taken : perWorkerStep maxIterations s a = some t) : Settled t ∧ load t = load s := by
  cases a with
  | work i =>
    obtain ⟨next,advanced,rfl⟩ := Option.map_eq_some_iff.mp taken
    exact setWorker_settled valid (Worker.advance_halted (valid i) advanced)
  | supervise elapsed =>
    simp only [perWorkerStep] at taken
    split at taken
    next =>
      (repeat' split at taken) <;> (obtain rfl := Option.some.inj taken; exact ⟨valid,rfl⟩)
    next => exact supervise_settled valid taken
  | fail i => exact @shared_settled n ⟨n,none⟩ s (.fail i) t valid taken
  | setPaused paused => exact @shared_settled n ⟨n,none⟩ s (.setPaused paused) t valid taken
  | stop => exact @shared_settled n ⟨n,none⟩ s .stop t valid taken

def initial (n : Nat) (paused stopped : Bool) : State n where
  workers := fun _ => .spawned
  sharedIterationCounter := 0
  paused := paused
  stopped := stopped
  supervisor := .polling

def own : Action n → Bool
  | .setPaused _ | .stop => false
  | _ => true

/-- `limits` are the steps with the limit of the executor. -/
def crew (n : Nat) (limits : State n → Action n → Option (State n))
    (settles : ∀ s a t, Settled s → limits s a = some t → Settled t ∧ load t = load s) : Crew where
  State := State n
  Action := Action n
  launch := initial n
  step s a := if own a then limits s a else none
  setPaused paused s := { s with paused := paused }
  stop s := { s with stopped := true }
  finished s := match s.supervisor with
    | .finished _ => true
    | _ => false
  load := load
  Settled := Settled
  step_settled s a t valid taken := by
    split at taken
    · exact settles s a t valid taken
    · contradiction
  setPaused_settled _ _ valid := ⟨valid,rfl⟩
  stop_settled _ _ := ⟨fun _ => .inl rfl,rfl⟩

def sharedCrew (cfg : SharedIterations.Settings) : Crew :=
  crew cfg.workers (SharedIterations.step cfg) shared_settled

def perWorkerCrew (workers : Nat) (maxIterations : Option Nat) : Crew :=
  crew workers (perWorkerStep maxIterations) perWorker_settled

end ClosedModel

namespace ArrivalModel

open ArrivalRate (Settings)

/-- The executor with the flag of a stopped run beside it. -/
structure State (n : Nat) where
  base : ArrivalRate.State n
  stopped : Bool

inductive Action (n : Nat) where
  | base (action : ArrivalRate.Action n)
  /-- The grace period is over, and the rest is not joined. -/
  | leave

variable {n : Nat}

/-- Workers and the dispatcher look at the flag before they go on. -/
def step (cfg : Settings) (s : State n) : Action n → Option (State n)
  | .base (.work i) =>
    if s.stopped ∧ s.base.workers i = .stopCheck then some { s with base := s.base.setWorker i .done }
    else (ArrivalRate.work s.base i).map ({ s with base := · })
  | .base (.dispatch elapsed rampElapsed) =>
    if s.stopped ∧ s.base.dispatcher = .dispatching then
      some { s with base := { s.base with dispatcher := .signalling } }
    else (ArrivalRate.dispatch cfg s.base elapsed rampElapsed).map ({ s with base := · })
  | .base a => (ArrivalRate.step cfg s.base a).map ({ s with base := · })
  | .leave =>
    if s.base.dispatcher = .joining then
      some { s with base := { s.base with dispatcher := .complete } }
    else none

def inIteration : ArrivalRate.Worker → Nat
  | .executing _ => 1
  | _ => 0

def begun (s : ArrivalRate.State n) : Nat :=
  s.executed.length + Family.total inIteration s.workers

def load (s : State n) : Load := ⟨n,begun s.base⟩

/-- The worker is on no way to receive a number. -/
def Halted (s : State n) (worker : ArrivalRate.Worker) : Prop :=
  worker = .done ∨ (s.stopped = true ∨ s.base.running = false) ∧ worker ≠ .receiving

/-- No number is left to receive, or no worker to receive one. -/
def Settled (s : State n) : Prop :=
  s.base.dispatcher ≠ .dispatching ∧ s.base.queue = [] ∨ ∀ i, Halted s (s.base.workers i)

section Counting

variable {s t : ArrivalRate.State n} {i : Fin n}

theorem begun_moves {next : ArrivalRate.Worker} (moved : t.workers = Function.update s.workers i next)
    (kept : t.executed = s.executed) (same : inIteration next = inIteration (s.workers i)) :
    begun t = begun s := by
  rw [begun,begun,moved,kept,Family.total_same next same]

/-- An iteration that has been executed was begun before. -/
theorem begun_executes {iteration : Nat} (holding : s.workers i = .executing iteration)
    (moved : t.workers = Function.update s.workers i (.completing iteration))
    (executed : t.executed = s.executed ++ [iteration]) : begun t = begun s := by
  have spent := Family.total_spend (f := inIteration) (g := s.workers) (i := i) (.completing iteration) rfl
  rw [holding,inIteration] at spent
  rw [begun,begun,moved,executed,List.length_append,List.length_singleton]
  omega

theorem idle_inIteration {worker : ArrivalRate.Worker} (idle : worker.Idle) : inIteration worker = 0 := by
  cases worker with
  | executing iteration => exact absurd idle.1 (Multiset.singleton_ne_zero iteration)
  | _ => rfl

/-- With nothing to receive no iteration begins. -/
theorem work_drained (drained : s.queue = []) (taken : ArrivalRate.work s i = some t) :
    t.dispatcher = s.dispatcher ∧ t.queue = [] ∧ begun t = begun s := by
  obtain ⟨-,worked⟩ := ArrivalRate.work_cases taken
  cases worked with
  | moves next before after =>
    exact ⟨rfl,drained,
      begun_moves rfl rfl ((idle_inIteration after).trans (idle_inIteration before).symm)⟩
  | receives iteration rest front => simp [drained] at front
  | executes iteration holding => exact ⟨rfl,drained,begun_executes holding rfl rfl⟩
  | completes iteration holding => exact ⟨rfl,drained,begun_moves rfl rfl (by rw [holding]; rfl)⟩

/-- A worker that does not wait for a number moves on without one, and waits for one only
past its look at the flags. -/
theorem work_halted (away : s.workers i ≠ .receiving)
    (cleared : s.workers i = .stopCheck → s.running = false) (taken : ArrivalRate.work s i = some t) :
    t.running = s.running ∧ begun t = begun s ∧
      ∃ next, next ≠ .receiving ∧ t.workers = Function.update s.workers i next := by
  unfold ArrivalRate.work at taken
  cases reached : s.workers i <;> simp only [reached] at taken
  case done => contradiction
  case receiving => exact absurd reached away
  all_goals obtain rfl := Option.some.inj taken
  case setup =>
    exact ⟨rfl,begun_moves rfl rfl (by rw [reached]; rfl),.loopHead,by simp,rfl⟩
  case loopHead | pausing =>
    refine ⟨rfl,begun_moves rfl rfl ?_,_,?_,rfl⟩
    · rw [reached]
      split <;> rfl
    · split <;> simp
  case stopCheck =>
    have off := cleared reached
    refine ⟨rfl,begun_moves rfl rfl ?_,_,?_,rfl⟩
    · rw [reached,off]
      rfl
    · simp [off]
  case executing iteration =>
    exact ⟨rfl,begun_executes reached rfl rfl,.completing iteration,by simp,rfl⟩
  case completing iteration =>
    exact ⟨rfl,begun_moves rfl rfl (by rw [reached]; rfl),.loopHead,by simp,rfl⟩

end Counting

section Settling

variable {cfg : Settings} {s t : State n}

/-- A step that leaves the workers and their flags alone. -/
theorem halted_of_same (halted : ∀ i, Halted s (s.base.workers i)) (workers : t.base.workers = s.base.workers)
    (stopped : s.stopped = true → t.stopped = true)
    (running : s.base.running = false → t.base.running = false) :
    ∀ i, Halted t (t.base.workers i) := by
  intro i
  rw [workers]
  exact (halted i).imp_right fun flags => ⟨flags.1.imp stopped running,flags.2⟩

theorem setWorker_halted {i : Fin n} {next : ArrivalRate.Worker} (halted : ∀ i, Halted s (s.base.workers i))
    (stopped : t.stopped = s.stopped) (running : t.base.running = s.base.running)
    (moved : t.base.workers = Function.update s.base.workers i next) (halts : Halted s next) :
    ∀ i, Halted t (t.base.workers i) := by
  intro j
  have flags : Halted t = Halted s := by
    funext worker
    rw [Halted,Halted,stopped,running]
  rw [flags,moved]
  by_cases here : j = i
  · subst j
    simpa using halts
  · simpa [here] using halted j

/-- The statements after the dispatch loop leave the workers to themselves. -/
theorem finish_cases {s t : ArrivalRate.State n} (taken : ArrivalRate.finish s = some t) :
    t.dispatcher ≠ .dispatching ∧ t.queue = s.queue ∧ t.workers = s.workers ∧
      t.executed = s.executed ∧ (s.running = false → t.running = false) := by
  unfold ArrivalRate.finish at taken
  split at taken
  case h_6 =>
    split at taken
    · obtain rfl := Option.some.inj taken
      simp
    · contradiction
  case h_7 => contradiction
  all_goals
    obtain rfl := Option.some.inj taken
    simp

theorem dispatch_settled {elapsed rampElapsed : Duration} {base : ArrivalRate.State n}
    (valid : Settled s) (taken : ArrivalRate.dispatch cfg s.base elapsed rampElapsed = some base) :
    Settled { s with base := base } ∧ load { s with base := base } = load s := by
  obtain ⟨reached,dispatched⟩ := ArrivalRate.dispatch_cases taken
  have halted := valid.resolve_left fun drained => drained.1 reached
  cases dispatched <;> exact ⟨.inr (halted_of_same halted rfl id id),rfl⟩

theorem work_settled {i : Fin n} {base : ArrivalRate.State n} (valid : Settled s)
    (goes : ¬(s.stopped = true ∧ s.base.workers i = .stopCheck))
    (taken : ArrivalRate.work s.base i = some base) :
    Settled { s with base := base } ∧ load { s with base := base } = load s := by
  rcases valid with ⟨ended,drained⟩ | halted
  · obtain ⟨dispatcher,queue,same⟩ := work_drained drained taken
    exact ⟨.inl ⟨dispatcher ▸ ended,queue⟩,congrArg (Load.mk n) same⟩
  · rcases halted i with gone | ⟨flags,away⟩
    · simp [ArrivalRate.work,gone] at taken
    · obtain ⟨running,same,next,apart,moved⟩ := work_halted away
        (fun reached => flags.resolve_left fun stopped => goes ⟨stopped,reached⟩) taken
      exact ⟨.inr (setWorker_halted halted rfl running moved (.inr ⟨flags,apart⟩)),
        congrArg (Load.mk n) same⟩

/-- A worker that leaves without an iteration. -/
theorem done_settled {i : Fin n} (valid : Settled s) (free : inIteration (s.base.workers i) = 0) :
    Settled { s with base := s.base.setWorker i .done } ∧
      load { s with base := s.base.setWorker i .done } = load s := by
  constructor
  · rcases valid with drained | halted
    · exact .inl drained
    · exact .inr (setWorker_halted halted rfl rfl rfl (.inl rfl))
  · exact congrArg (Load.mk n) (begun_moves rfl rfl free.symm)

theorem step_settled (s : State n) (a : Action n) (t : State n) (valid : Settled s)
    (taken : step cfg s a = some t) : Settled t ∧ load t = load s := by
  match a with
  | .base (.work i) =>
    simp only [step] at taken
    split at taken
    next stops =>
      obtain rfl := Option.some.inj taken
      exact done_settled valid (by rw [stops.2]; rfl)
    next goes =>
      obtain ⟨base,worked,rfl⟩ := Option.map_eq_some_iff.mp taken
      exact work_settled valid goes worked
  | .base (.fail i) =>
    simp only [step,ArrivalRate.step] at taken
    split at taken
    next setup =>
      obtain rfl := Option.some.inj taken
      exact done_settled valid (by rw [setup]; rfl)
    next => contradiction
  | .base (.dispatch elapsed rampElapsed) =>
    simp only [step] at taken
    split at taken
    next stops =>
      obtain rfl := Option.some.inj taken
      have halted := valid.resolve_left fun drained => drained.1 stops.2
      exact ⟨.inr (halted_of_same halted rfl id id),rfl⟩
    next =>
      obtain ⟨base,dispatched,rfl⟩ := Option.map_eq_some_iff.mp taken
      exact dispatch_settled valid dispatched
  | .base .finish =>
    obtain ⟨base,finished,rfl⟩ := Option.map_eq_some_iff.mp taken
    obtain ⟨ended,queue,workers,executed,running⟩ := finish_cases finished
    refine ⟨valid.imp (fun drained => ⟨ended,queue.trans drained.2⟩)
      fun halted => halted_of_same halted workers id running,?_⟩
    exact congrArg (Load.mk n) (by rw [begun,begun,workers,executed])
  | .base (.setPaused paused) =>
    obtain rfl := Option.some.inj taken
    exact ⟨valid,rfl⟩
  | .leave =>
    simp only [step] at taken
    split at taken
    · obtain rfl := Option.some.inj taken
      exact ⟨valid.imp_left fun drained => ⟨by simp,drained.2⟩,rfl⟩
    · contradiction

end Settling

def initial (cfg : Settings) (paused stopped : Bool) : State cfg.workers :=
  ⟨{ ArrivalRate.initial cfg with paused := paused },stopped⟩

def own : Action n → Bool
  | .base (.setPaused _) => false
  | _ => true

def crew (cfg : Settings) : Crew where
  State := State cfg.workers
  Action := Action cfg.workers
  launch := initial cfg
  step s a := if own a then step cfg s a else none
  setPaused paused s := { s with base := { s.base with paused := paused } }
  stop s := { s with stopped := true }
  -- The thread ends with its last statement or by a panic.
  finished s := s.base.dispatcher = .complete ∨ s.base.dispatcher = .panicked
  load := load
  Settled := Settled
  step_settled s a t valid taken := by
    split at taken
    · exact step_settled s a t valid taken
    · contradiction
  setPaused_settled _ _ valid := ⟨valid,rfl⟩
  stop_settled s valid := by
    rcases valid with drained | halted
    · exact ⟨.inl drained,rfl⟩
    · exact ⟨.inr (halted_of_same halted rfl (fun _ => rfl) id),rfl⟩

end ArrivalModel

end Fusillade.Engine
