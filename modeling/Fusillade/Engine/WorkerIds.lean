import Fusillade.Engine.ControlLoop
import Fusillade.Engine.Handles

/-! `__WORKER_ID` in a run with scenarios. Every executor numbers its workers by itself: the
arrival-rate executors from zero, the others from one. -/
namespace Fusillade.Engine

open Machine Executor

/-- A crew with the numbers of its workers that are alive, and those it may ever give out. -/
structure NumberedCrew where
  crew : Crew
  workerIds : crew.State → List Nat
  Gives : Nat → Prop
  Valid : crew.State → Prop
  launch_valid : ∀ paused stopped, Valid (crew.launch paused stopped)
  step_valid : ∀ s a t, Valid s → crew.step s a = some t → Valid t
  setPaused_valid : ∀ paused s, Valid s → Valid (crew.setPaused paused s)
  stop_valid : ∀ s, Valid s → Valid (crew.stop s)
  nodup : ∀ s, (workerIds s).Nodup
  gives : ∀ s id, Valid s → id ∈ workerIds s → Gives id
  /-- Whoever gives out a positive number can have a worker with the number one. -/
  one : ∀ id, 0 < id → Gives id → Gives 1
  given : ∀ id ≤ 1, Gives id →
    ∃ actions t, exec crew.step (crew.launch false false) actions = some t ∧ id ∈ workerIds t

namespace Pool

/-- The counter starts at one and goes up with every spawn; a worker keeps its place. -/
def nextWorkerId (pool : Pool) : Nat := 1 + pool.workers.length

def workerIds (pool : Pool) : List Nat :=
  ((pool.workers.zipIdx 1).filter (·.1.pc ≠ .done)).map Prod.snd

variable {pool : Pool} {id : Nat}

theorem spawn_workerIds (pool : Pool) : pool.spawn.workerIds = pool.workerIds ++ [pool.nextWorkerId] := by
  simp [workerIds,spawn,nextWorkerId,List.zipIdx_append,Worker.spawned,Nat.add_comm]

theorem workerIds_sublist (pool : Pool) : pool.workerIds.Sublist (List.range' 1 pool.workers.length) := by
  rw [← List.zipIdx_map_snd 1 pool.workers]
  exact List.filter_sublist.map _

theorem workerIds_nodup (pool : Pool) : pool.workerIds.Nodup :=
  (workerIds_sublist pool).nodup List.nodup_range'

theorem mem_workerIds (member : id ∈ pool.workerIds) : 0 < id ∧ id ≤ pool.workers.length := by
  have inside := List.mem_range'_1.mp ((workerIds_sublist pool).subset member)
  omega

/-- The first worker of a pool has the number one. -/
theorem one_mem_grow_workerIds {target : Nat} (positive : 0 < target) :
    1 ∈ (empty.grow target).workerIds := by
  obtain ⟨more,rfl⟩ := Nat.exists_eq_succ_of_ne_zero positive.ne'
  simp [workerIds,grow_workers,empty,List.replicate_succ,Worker.spawned]

end Pool

namespace GracefulStop

/-- A worker has been spawned only if the schedule asks for one at some time of a run. -/
def Hires (cfg : Settings) : Prop :=
  0 < cfg.duration ∧ ∃ elapsed, 0 < calculateTarget cfg.schedule elapsed

structure Hired (cfg : Settings) (s : State) : Prop where
  begun : s.supervisor = .commands ∨ s.supervisor = .scaling → 0 < cfg.duration
  workers : s.pool.workers ≠ [] → Hires cfg

variable {cfg : Settings} {s t : State}

theorem scale_workers {elapsed : Duration} (ramping : cfg.mode = .rampingWorkers) (throttled : Bool)
    (nobody : s.pool.workers = []) (more : (scale cfg s elapsed throttled).workers ≠ []) :
    0 < calculateTarget cfg.schedule elapsed := by
  by_contra none
  simp only [scale,ramping,Nat.eq_zero_of_not_pos none,Pool.rampingTick,Nat.not_lt_zero,if_false] at more
  split at more
  · refine more (List.length_eq_zero_iff.mp ?_)
    rw [Pool.shrink_workers_length,nobody,List.length_nil]
  · exact more nobody

theorem supervise_hired {turn : Turn} (ramping : cfg.mode = .rampingWorkers) (valid : Hired cfg s)
    (taken : supervise cfg s turn = some t) : Hired cfg t := by
  unfold supervise at taken
  split at taken
  next elapsed reached =>
    split at taken
    next =>
      obtain rfl := Option.some.inj taken
      exact ⟨by simp [leaveLoop],valid.workers⟩
    next early =>
      obtain rfl := Option.some.inj taken
      refine ⟨fun _ => ?_,valid.workers⟩
      simp only [Bool.or_eq_true,decide_eq_true_eq,not_or,not_le] at early
      exact Nat.zero_lt_of_lt early.1
  next command reached =>
    obtain rfl := Option.some.inj taken
    have begun := valid.begun (.inl reached)
    unfold applyCommand leaveLoop
    split <;> exact ⟨fun _ => begun,valid.workers⟩
  next reached =>
    obtain rfl := Option.some.inj taken
    exact ⟨fun _ => valid.begun (.inl reached),valid.workers⟩
  next elapsed throttled reached =>
    obtain rfl := Option.some.inj taken
    refine ⟨by simp,fun more => ?_⟩
    by_cases nobody : s.pool.workers = []
    · exact ⟨valid.begun (.inr reached),elapsed,scale_workers ramping throttled nobody more⟩
    · exact valid.workers nobody
  next next reached =>
    split at taken
    · obtain rfl := Option.some.inj taken
      refine ⟨by simp,fun more => valid.workers fun nobody => more ?_⟩
      simp [Pool.clear,nobody]
    · obtain rfl := Option.some.inj taken
      exact ⟨by simp,valid.workers⟩
  next stopStart reached =>
    split at taken
    · obtain rfl := Option.some.inj taken
      exact ⟨by simp [afterWait,ramping],valid.workers⟩
    · obtain rfl := Option.some.inj taken
      exact valid
  next stopStart reached =>
    split at taken
    · obtain rfl := Option.some.inj taken
      exact ⟨by simp,valid.workers⟩
    · contradiction
  next stopStart reached =>
    obtain rfl := Option.some.inj taken
    exact ⟨by simp,valid.workers⟩
  next => contradiction

theorem step_hired {a : Action} (ramping : cfg.mode = .rampingWorkers) (valid : Hired cfg s)
    (taken : step cfg s a = some t) : Hired cfg t := by
  by_cases turns : ∃ turn, a = .supervise turn
  · obtain ⟨turn,rfl⟩ := turns
    exact supervise_hired ramping valid taken
  · have settles := step_settles (fun turn same => turns ⟨turn,same⟩) taken
    refine ⟨fun looping => valid.begun (settles.supervisor ▸ looping),fun more => valid.workers ?_⟩
    rintro nobody
    exact more (List.length_eq_zero_iff.mp (by rw [settles.length,nobody,List.length_nil]))

/-- The first turn can fall at any time. -/
def firstTurn (elapsed : Duration) : List Action := [.supervise (.check 0),.supervise (.scale elapsed false)]

theorem exec_firstTurn {elapsed : Duration} (ramping : cfg.mode = .rampingWorkers)
    (positive : 0 < cfg.duration) (asked : 0 < calculateTarget cfg.schedule elapsed) :
    exec (crew cfg).step ((crew cfg).launch false false) (firstTurn elapsed) = some { initial with
      pool := Pool.empty.grow (calculateTarget cfg.schedule elapsed) } := by
  have early : ¬cfg.duration ≤ 0 := Nat.not_le.mpr positive
  simp [exec,firstTurn,crew,Action.own,step,supervise,initial,early,ramping,scale,Pool.rampingTick,
    Pool.empty,asked]

theorem launch_hired (cfg : Settings) (paused stopped : Bool) :
    Hired cfg ((crew cfg).launch paused stopped) := by
  constructor
  · rintro (commands | scaling) <;> contradiction
  · exact fun somebody => absurd rfl somebody

theorem crew_step_hired (ramping : cfg.mode = .rampingWorkers) (s : State) (a : Action) (t : State)
    (valid : Hired cfg s) (taken : (crew cfg).step s a = some t) : Hired cfg t := by
  simp only [crew] at taken
  split at taken
  · exact step_hired ramping valid taken
  · contradiction

theorem hired_gives (s : State) (id : Nat) (valid : Hired cfg s) (member : id ∈ Pool.workerIds s.pool) :
    0 < id ∧ Hires cfg := by
  obtain ⟨positive,inside⟩ := Pool.mem_workerIds member
  refine ⟨positive,valid.workers fun nobody => ?_⟩
  rw [nobody,List.length_nil] at inside
  omega

theorem hires_given (ramping : cfg.mode = .rampingWorkers) (id : Nat) (small : id ≤ 1)
    (gives : 0 < id ∧ Hires cfg) : ∃ actions t,
      exec (crew cfg).step ((crew cfg).launch false false) actions = some t ∧ id ∈ Pool.workerIds t.pool := by
  obtain ⟨positive,duration,elapsed,asked⟩ := gives
  obtain rfl : id = 1 := by omega
  exact ⟨firstTurn elapsed,_,exec_firstTurn ramping duration asked,Pool.one_mem_grow_workerIds asked⟩

def numberedCrew (cfg : Settings) (ramping : cfg.mode = .rampingWorkers) : NumberedCrew where
  crew := crew cfg
  workerIds s := Pool.workerIds s.pool
  Gives id := 0 < id ∧ Hires cfg
  Valid := Hired cfg
  launch_valid := launch_hired cfg
  step_valid := crew_step_hired ramping
  setPaused_valid _ _ valid := ⟨valid.begun,valid.workers⟩
  stop_valid _ valid := ⟨valid.begun,valid.workers⟩
  nodup s := Pool.workerIds_nodup s.pool
  gives := hired_gives
  one _ _ gives := ⟨Nat.one_pos,gives.2⟩
  given := hires_given ramping

end GracefulStop

namespace ClosedModel

open SharedIterations (State Action)

/-- `next_worker_id + i`, where the first number is one. -/
def workerIds {n : Nat} (s : State n) : List Nat :=
  ((List.finRange n).filter fun i => (s.workers i).pc ≠ .done).map fun i : Fin n => 1 + i.val

theorem workerIds_nodup {n : Nat} (s : State n) : (workerIds s).Nodup := by
  refine List.Nodup.map ?_ ((List.nodup_finRange n).filter _)
  intro i j same
  exact Fin.ext (Nat.add_left_cancel same)

theorem mem_workerIds {n id : Nat} {s : State n} (member : id ∈ workerIds s) :
    0 < id ∧ id ≤ n := by
  obtain ⟨i,-,rfl⟩ := List.mem_map.mp member
  have := i.isLt
  omega

theorem mem_launch_workerIds {n id : Nat} (positive : 0 < id) (inside : id ≤ n) :
    id ∈ workerIds (initial n false false) := by
  refine List.mem_map.mpr ⟨⟨id - 1,by omega⟩,?_,by simp only; omega⟩
  simp [initial,Worker.spawned]

/-- The workers of a closed executor are all there when it starts. -/
def numberedCrew (n : Nat) (limits : State n → Action n → Option (State n))
    (settles : ∀ s a t, Settled s → limits s a = some t → Settled t ∧ load t = load s) : NumberedCrew where
  crew := crew n limits settles
  workerIds := workerIds
  Gives id := 0 < id ∧ id ≤ n
  Valid _ := True
  launch_valid _ _ := trivial
  step_valid _ _ _ _ _ := trivial
  setPaused_valid _ _ _ := trivial
  stop_valid _ _ := trivial
  nodup := workerIds_nodup
  gives _ _ _ member := mem_workerIds member
  one id positive gives := ⟨Nat.one_pos,by omega⟩
  given _ _ gives := ⟨[],_,rfl,mem_launch_workerIds gives.1 gives.2⟩

end ClosedModel

namespace ArrivalModel

def workerIds {n : Nat} (s : State n) : List Nat :=
  ((List.finRange n).filter fun i => s.base.workers i ≠ .done).map Fin.val

theorem workerIds_nodup {n : Nat} (s : State n) : (workerIds s).Nodup :=
  ((List.nodup_finRange n).filter _).map Fin.val_injective

theorem mem_workerIds {n id : Nat} {s : State n} (member : id ∈ workerIds s) : id < n := by
  obtain ⟨i,-,rfl⟩ := List.mem_map.mp member
  exact i.isLt

theorem mem_launch_workerIds {id : Nat} {cfg : ArrivalRate.Settings} (inside : id < cfg.workers) :
    id ∈ workerIds (initial cfg false false) := by
  refine List.mem_map.mpr ⟨⟨id,inside⟩,?_,rfl⟩
  simp [initial,ArrivalRate.initial]

def numberedCrew (cfg : ArrivalRate.Settings) : NumberedCrew where
  crew := crew cfg
  workerIds := workerIds
  Gives id := id < cfg.workers
  Valid _ := True
  launch_valid _ _ := trivial
  step_valid _ _ _ _ _ := trivial
  setPaused_valid _ _ _ := trivial
  stop_valid _ _ := trivial
  nodup := workerIds_nodup
  gives _ _ _ member := mem_workerIds member
  one _ positive gives := Nat.lt_of_le_of_lt positive gives
  given _ _ gives := ⟨[],_,rfl,mem_launch_workerIds gives⟩

end ArrivalModel

namespace NumberedCrew

theorem keeps (numbered : NumberedCrew) : numbered.crew.Keeps numbered.Valid :=
  ⟨numbered.launch_valid,numbered.step_valid,numbered.setPaused_valid,numbered.stop_valid⟩

/-- While the thread sleeps there are no workers. -/
def threadIds (numbered : NumberedCrew) : numbered.crew.thread.State → List Nat
  | .sleeping _ _ => []
  | .running s => numbered.workerIds s

def threadValid (numbered : NumberedCrew) : numbered.crew.thread.State → Prop
  | .sleeping _ _ => True
  | .running s => numbered.Valid s

def thread (numbered : NumberedCrew) : NumberedCrew where
  crew := numbered.crew.thread
  workerIds := numbered.threadIds
  Gives := numbered.Gives
  Valid := numbered.threadValid
  launch_valid _ _ := trivial
  step_valid s a t valid taken := by
    match s, a with
    | .sleeping paused stopped, none =>
      obtain rfl := Option.some.inj taken
      exact numbered.launch_valid paused stopped
    | .running s, some a =>
      obtain ⟨next,stepped,rfl⟩ := Option.map_eq_some_iff.mp taken
      exact numbered.step_valid s a next valid stepped
  setPaused_valid paused s valid := by
    cases s with
    | sleeping => trivial
    | running s => exact numbered.setPaused_valid paused s valid
  stop_valid s valid := by
    cases s with
    | sleeping => trivial
    | running s => exact numbered.stop_valid s valid
  nodup s := by
    cases s with
    | sleeping => exact List.nodup_nil
    | running s => exact numbered.nodup s
  gives s id valid member := by
    cases s with
    | sleeping => contradiction
    | running s => exact numbered.gives s id valid member
  one := numbered.one
  given id small gives := by
    obtain ⟨actions,t,run,member⟩ := numbered.given id small gives
    exact ⟨none :: actions.map some,.running t,exec_cons_iff.mpr ⟨_,rfl,Crew.exec_thread run⟩,member⟩

end NumberedCrew

namespace Scenarios

variable {n : Nat} (numbered : Fin n → NumberedCrew)

/-- The numbers of all workers alive, scenario by scenario. -/
def workerIds (s : State fun i => (numbered i).crew) : List Nat :=
  (List.finRange n).flatMap fun i => (numbered i).workerIds (s.threads i)

/-- No number is given out by two scenarios. -/
def Separate : Prop := ∀ i j id, (numbered i).Gives id → (numbered j).Gives id → i = j

def Valid (s : State fun i => (numbered i).crew) : Prop := ∀ i, (numbered i).Valid (s.threads i)

variable {numbered} {s t : State fun i => (numbered i).crew}

theorem run_valid {actions : List (Action fun i => (numbered i).crew)}
    (run : exec step (initial fun i => (numbered i).crew) actions = some s) : Valid numbered s :=
  run_keeps (fun i => (numbered i).keeps) run

theorem workerIds_nodup (separate : Separate numbered) (valid : Valid numbered s) :
    (workerIds numbered s).Nodup := by
  refine List.nodup_flatMap.mpr ⟨fun i _ => (numbered i).nodup _,?_⟩
  refine (List.nodup_finRange n).imp fun {i j} apart => ?_
  intro id here there
  exact apart (separate i j id ((numbered i).gives _ id (valid i) here)
    ((numbered j).gives _ id (valid j) there))

theorem shared_not_nodup {i j : Fin n} {id : Nat} (apart : i ≠ j)
    (here : id ∈ (numbered i).workerIds (s.threads i)) (there : id ∈ (numbered j).workerIds (s.threads j)) :
    ¬(workerIds numbered s).Nodup := by
  intro distinct
  have disjoint := (List.nodup_flatMap.mp distinct).2
  have symmetric : Std.Symm (Function.onFun List.Disjoint fun i => (numbered i).workerIds (s.threads i)) :=
    ⟨fun _ _ apart => apart.symm⟩
  exact disjoint.forall (List.mem_finRange i) (List.mem_finRange j) apart here there

/-- Two scenarios that may give out the same number do so at once in some run. -/
theorem exists_clash {i j : Fin n} {id : Nat} (apart : i ≠ j) (here : (numbered i).Gives id)
    (there : (numbered j).Gives id) :
    ∃ actions s, exec step (initial fun i => (numbered i).crew) actions = some s ∧
      ¬(workerIds numbered s).Nodup := by
  wlog small : id ≤ 1
  · have positive : 0 < id := by omega
    exact this apart ((numbered i).one id positive here) ((numbered j).one id positive there) (Nat.le_refl 1)
  obtain ⟨first,s,run,member⟩ := (numbered i).given id small here
  obtain ⟨second,t,run',member'⟩ := (numbered j).given id small there
  have begun := exec_threads (s := initial fun i => (numbered i).crew) run
  generalize met : ({ initial (fun i => (numbered i).crew) with
    threads := Function.update (initial fun i => (numbered i).crew).threads i s } :
      State fun i => (numbered i).crew) = middle at begun
  have mine : middle.threads i = s := by simp [← met]
  have yours : middle.threads j = (numbered j).crew.launch false false := by
    simp [← met,apart.symm,initial]
  have ended := @exec_threads n (fun i => (numbered i).crew) middle j second t (yours ▸ run')
  refine ⟨_,_,exec_append_iff.mpr ⟨middle,begun,ended⟩,?_⟩
  refine shared_not_nodup apart (?_ : id ∈ _) ?_
  · simpa [apart,mine] using member
  · simpa using member'

theorem nodup_iff_separate : (∀ actions s,
    exec step (initial fun i => (numbered i).crew) actions = some s → (workerIds numbered s).Nodup) ↔
      Separate numbered := by
  constructor
  · intro distinct i j id here there
    by_contra apart
    obtain ⟨actions,s,run,clash⟩ := exists_clash apart here there
    exact clash (distinct actions s run)
  · intro separate actions s run
    exact workerIds_nodup separate (run_valid run)

end Scenarios

/-- The crew of a scenario with its numbers: `0..workers` at an arrival rate, and from one on in
the other executors. -/
def numberedCrew (stop : Option String) (o : LoadOptions) : NumberedCrew :=
  match executor o with
  | .constantArrivalRate | .rampingArrivalRate => ArrivalModel.numberedCrew (arrivalSettings o)
  | .rampingWorkers => GracefulStop.numberedCrew {
      mode := .rampingWorkers
      schedule := workersSchedule o
      duration := scenarioDuration o
      maxIterations := maxIterations o
      stop := stop } rfl
  | .sharedIterations =>
    ClosedModel.numberedCrew (workers o) (SharedIterations.step ⟨workers o,o.iterations⟩) ClosedModel.shared_settled
  | .constantWorkers | .perWorkerIterations =>
    ClosedModel.numberedCrew (workers o) (ClosedModel.perWorkerStep (maxIterations o))
      ClosedModel.perWorker_settled

theorem numberedCrew_crew (stop : Option String) (o : LoadOptions) :
    (numberedCrew stop o).crew = scenarioCrew stop o := by
  unfold numberedCrew scenarioCrew
  cases executor o <;> rfl

/-- The numbers of a scenario. -/
def Numbers (o : LoadOptions) (id : Nat) : Prop :=
  match executor o with
  | .constantArrivalRate | .rampingArrivalRate => id < workers o
  | .rampingWorkers => 0 < id ∧ 0 < scenarioDuration o ∧
      ∃ elapsed, 0 < calculateTarget (workersSchedule o) elapsed
  | .sharedIterations | .constantWorkers | .perWorkerIterations => 0 < id ∧ id ≤ workers o

theorem numberedCrew_gives (stop : Option String) (o : LoadOptions) :
    (numberedCrew stop o).Gives = Numbers o := by
  funext id
  unfold numberedCrew Numbers
  cases executor o <;> rfl

/-- The thread of every scenario. -/
def scenarioThreads {n : Nat} (stop : Option String) (scenarios : Fin n → LoadOptions) (i : Fin n) :
    NumberedCrew :=
  (numberedCrew stop (scenarios i)).thread

theorem workerIds_distinct_iff {n : Nat} (stop : Option String) (scenarios : Fin n → LoadOptions) :
    (∀ actions s, exec Scenarios.step (Scenarios.initial fun i => (scenarioThreads stop scenarios i).crew)
        actions = some s → (Scenarios.workerIds (scenarioThreads stop scenarios) s).Nodup) ↔
      ∀ i j id, Numbers (scenarios i) id → Numbers (scenarios j) id → i = j := by
  rw [Scenarios.nodup_iff_separate]
  simp only [Scenarios.Separate,scenarioThreads,NumberedCrew.thread,numberedCrew_gives]

/-- Two scenarios with a worker each, as the defaults have it. -/
def twoScenarios : Fin 2 → LoadOptions := fun _ => {}

/-- Once both threads have woken up, two workers are number one. -/
theorem both_number_one : ¬∀ actions s, exec Scenarios.step
    (Scenarios.initial fun i => (scenarioThreads none twoScenarios i).crew) actions = some s →
      (Scenarios.workerIds (scenarioThreads none twoScenarios) s).Nodup := by
  intro distinct
  have clash := distinct [.thread 0 none,.thread 1 none] _ rfl
  revert clash
  decide

end Fusillade.Engine
