import Fusillade.Lib.Machine
import Fusillade.Lib.Family
import Fusillade.Engine.Worker

/-! The closed-model executor with a shared pool of iterations. The workers take their
iterations first and claim them on the shared counter afterwards; the supervising thread
reads the same counter to end the scenario. -/
namespace Fusillade.Engine.SharedIterations

inductive Ending where
  | elapsed
  | stopped
  | exhausted
  deriving DecidableEq

inductive Supervisor where
  | polling
  /-- The flags of the workers below `next` have been cleared. -/
  | clearing (next : Nat) (ending : Ending)
  | joining (ending : Ending)
  | finished (ending : Ending)
  deriving DecidableEq

structure Settings where
  workers : Nat
  iterations : Option UInt64

def totalSharedIterations (cfg : Settings) : Nat :=
  match cfg.iterations with
  | some iterations => iterations.toNat
  | none => cfg.workers * 10 % 2^64

structure State (n : Nat) where
  workers : Fin n → Worker
  sharedIterationCounter : Nat
  paused : Bool
  stopped : Bool
  supervisor : Supervisor

/-- `work` is the next step of a worker, `fail` a setup that returns early; `supervise`
carries whether the duration has elapsed. -/
inductive Action (n : Nat) where
  | work (worker : Fin n)
  | fail (worker : Fin n)
  | supervise (elapsed : Bool)
  | setPaused (paused : Bool)
  | stop
  deriving DecidableEq

def initial (cfg : Settings) : State cfg.workers where
  workers := fun _ => .spawned
  sharedIterationCounter := 0
  paused := false
  stopped := false
  supervisor := .polling

def State.setWorker (s : State n) (i : Fin n) (worker : Worker) : State n :=
  { s with workers := Function.update s.workers i worker }

def allDone (s : State n) : Prop := ∀ i, (s.workers i).pc = .done

instance (s : State n) : Decidable (allDone s) := inferInstanceAs (Decidable (∀ _, _))

/-- The limit check claims an iteration and stops the worker at a claim past the pool. -/
def work (cfg : Settings) (s : State n) (i : Fin n) : Option (State n) :=
  let worker := s.workers i
  let claimed := s.sharedIterationCounter
  (worker.advance s.paused s.stopped (claimed ≥ totalSharedIterations cfg)).map fun next =>
    { s.setWorker i next with
      sharedIterationCounter := if worker.pc = .limitCheck then (claimed + 1) % 2^64 else claimed }

/-- The graceful wait between `clearing` and `joining` watches the flags that were just
cleared, so it ends at its first look. -/
def supervise (cfg : Settings) (s : State n) (elapsed : Bool) : Option (State n) :=
  match s.supervisor with
  | .polling =>
    if elapsed then some { s with supervisor := .clearing 0 .elapsed }
    else if s.stopped then some { s with supervisor := .clearing 0 .stopped }
    else if s.sharedIterationCounter ≥ totalSharedIterations cfg then
      some { s with supervisor := .clearing 0 .exhausted }
    else some s
  | .clearing next ending =>
    if inside : next < n then
      let i : Fin n := ⟨next,inside⟩
      some { s.setWorker i { s.workers i with running := false } with
        supervisor := .clearing (next + 1) ending }
    else some { s with supervisor := .joining ending }
  | .joining ending => if allDone s then some { s with supervisor := .finished ending } else none
  | .finished _ => none

def step (cfg : Settings) (s : State n) : Action n → Option (State n)
  | .work i => work cfg s i
  | .fail i => (s.workers i).fail.map (s.setWorker i)
  | .supervise elapsed => supervise cfg s elapsed
  | .setPaused paused => some { s with paused := paused }
  | .stop => some { s with stopped := true }

def executed (worker : Worker) : Nat :=
  worker.iterationCount + if worker.pc = .iterating then 1 else 0

def inHand (worker : Worker) : Nat :=
  if worker.pc = .iterating ∨ worker.pc = .limitCheck then 1 else 0

/-- No more than the pool is executed, and all of it when the run ends by exhausting it. -/
def WithinPool (cfg : Settings) (s : State n) : Prop :=
  Family.total executed s.workers ≤ totalSharedIterations cfg ∧
  (s.supervisor = .finished .exhausted →
    Family.total executed s.workers = totalSharedIterations cfg)

def Begins (s : State n) (a : Action n) : Prop :=
  ∃ i, a = .work i ∧ (s.workers i).pc = .stopCheck ∧ s.stopped = false ∧ (s.workers i).running

/-- An iteration is begun only while the claimed ones and those in hand leave one over. -/
def Claimable (cfg : Settings) (s : State n) (a : Action n) : Prop :=
  Begins s a → s.sharedIterationCounter + Family.total inHand s.workers < totalSharedIterations cfg

instance (s : State n) (a : Action n) : Decidable (Begins s a) :=
  inferInstanceAs (Decidable (∃ _, _))

instance (cfg : Settings) (s : State n) (a : Action n) : Decidable (Claimable cfg s a) :=
  inferInstanceAs (Decidable (_ → _ < _))

instance (cfg : Settings) (s : State n) : Decidable (WithinPool cfg s) :=
  inferInstanceAs (Decidable (_ ≤ _ ∧ (_ → _ = _)))

variable {cfg : Settings} {s t : State n}

theorem totalSharedIterations_lt (cfg : Settings) : totalSharedIterations cfg < 2^64 := by
  unfold totalSharedIterations
  split
  · exact UInt64.toNat_lt _
  · exact Nat.mod_lt _ (by decide)

/-- What a worker's step does to the counts: it begins an iteration, claims one that it
has in hand, or leaves them alone. -/
inductive Moved (s : State n) (i : Fin n) (next : Worker) (counter : Nat) : Prop where
  | begins (begins : Begins s (.work i)) (more : executed next = executed (s.workers i) + 1)
      (taken : inHand next = inHand (s.workers i) + 1) (same : counter = s.sharedIterationCounter)
  | claims (holding : inHand (s.workers i) = 1) (released : inHand next = 0)
      (kept : executed next = executed (s.workers i))
      (claimed : counter = (s.sharedIterationCounter + 1) % 2^64)
  | moves (kept : executed next = executed (s.workers i))
      (held : inHand next = inHand (s.workers i)) (same : counter = s.sharedIterationCounter)

def outside (pc : WorkerPc) : Prop := pc ≠ .iterating ∧ pc ≠ .limitCheck

theorem outside_ite {p : Prop} [Decidable p] {yes no : WorkerPc} (first : outside yes)
    (second : outside no) : outside (if p then yes else no) := by split <;> assumption

theorem moves_outside {i : Fin n} {next : Worker} {counter : Nat}
    (before : outside (s.workers i).pc) (after : outside next.pc)
    (kept : next.iterationCount = (s.workers i).iterationCount)
    (same : counter = s.sharedIterationCounter) : Moved s i next counter :=
  .moves (by simp [executed,before.1,after.1,kept])
    (by simp [inHand,before.1,before.2,after.1,after.2]) same

theorem work_moved {i : Fin n} (taken : work cfg s i = some t) :
    ∃ next counter, (s.workers i).pc ≠ .done ∧ Moved s i next counter ∧
      t = { s.setWorker i next with sharedIterationCounter := counter } := by
  obtain ⟨next,advanced,rfl⟩ := Option.map_eq_some_iff.mp taken
  refine ⟨next,_,Worker.advance_live advanced,?_,rfl⟩
  unfold Worker.advance at advanced
  cases pc : (s.workers i).pc <;> simp only [pc] at advanced
  case done => contradiction
  all_goals obtain rfl := Option.some.inj advanced
  case setup | pacing => exact moves_outside (by simp [outside,pc]) (by simp [outside]) rfl rfl
  case loopHead | pausing =>
    exact moves_outside (by simp [outside,pc]) (outside_ite (by simp [outside]) (by simp [outside]))
      rfl rfl
  case stopCheck =>
    by_cases leaving : (s.stopped || !(s.workers i).running) = true
    · exact moves_outside (by simp [outside,pc]) (by simp [outside,leaving]) rfl rfl
    · refine .begins ⟨i,rfl,pc,?_⟩ (by simp [executed,pc,leaving]) (by simp [inHand,pc,leaving]) rfl
      simpa using leaving
  case iterating => exact .moves (by simp [executed,pc]) (by simp [inHand,pc]) rfl
  case limitCheck =>
    have after : outside (if decide (s.sharedIterationCounter ≥ totalSharedIterations cfg) then
        WorkerPc.done else .pacing) := outside_ite (by simp [outside]) (by simp [outside])
    exact .claims (by simp [inHand,pc]) (by simpa [inHand,outside] using after)
      (by simpa [executed,pc] using after.1) rfl

def Supervisor.ending : Supervisor → Option Ending
  | .polling => none
  | .clearing _ ending | .joining ending | .finished ending => some ending

structure Invariant (cfg : Settings) (s : State n) : Prop where
  accounted : Family.total executed s.workers =
    s.sharedIterationCounter + Family.total inHand s.workers
  bounded : Family.total executed s.workers ≤ totalSharedIterations cfg
  exhausted : s.supervisor.ending = some .exhausted →
    totalSharedIterations cfg ≤ s.sharedIterationCounter
  joined : ∀ ending, s.supervisor = .finished ending → allDone s

theorem initial_invariant (cfg : Settings) : Invariant cfg (initial cfg) where
  accounted := by
    rw [Family.total_zero (by simp [initial,executed,Worker.spawned]),Family.total_zero (by simp [initial,inHand,Worker.spawned])]
    rfl
  bounded := by
    rw [Family.total_zero (by simp [initial,executed,Worker.spawned])]
    exact Nat.zero_le _
  exhausted := by simp [initial,Supervisor.ending]
  joined := by simp [initial]

/-- A supervising step clears flags, which no count sees, and ends the loop as exhausted
only at a full counter. -/
theorem supervise_cases {elapsed : Bool} (taken : supervise cfg s elapsed = some t) :
    t.sharedIterationCounter = s.sharedIterationCounter ∧
    (∀ i, executed (t.workers i) = executed (s.workers i) ∧
      inHand (t.workers i) = inHand (s.workers i)) ∧
    (t.supervisor.ending = s.supervisor.ending ∨ t.supervisor.ending ≠ some .exhausted ∨
      totalSharedIterations cfg ≤ s.sharedIterationCounter) ∧
    (∀ ending, t.supervisor = .finished ending → allDone t) := by
  unfold supervise at taken
  cases reached : s.supervisor with
  | polling =>
    simp only [reached] at taken
    split at taken
    · obtain rfl := Option.some.inj taken
      exact ⟨rfl,fun _ => ⟨rfl,rfl⟩,.inr (.inl (by simp [Supervisor.ending])),by simp⟩
    · split at taken
      · obtain rfl := Option.some.inj taken
        exact ⟨rfl,fun _ => ⟨rfl,rfl⟩,.inr (.inl (by simp [Supervisor.ending])),by simp⟩
      · split at taken
        next full =>
          obtain rfl := Option.some.inj taken
          exact ⟨rfl,fun _ => ⟨rfl,rfl⟩,.inr (.inr full),by simp⟩
        next =>
          obtain rfl := Option.some.inj taken
          exact ⟨rfl,fun _ => ⟨rfl,rfl⟩,.inl (by rw [reached]),by simp [reached]⟩
  | clearing next ending =>
    simp only [reached] at taken
    split at taken
    next inside =>
      obtain rfl := Option.some.inj taken
      refine ⟨rfl,?_,.inl rfl,by simp⟩
      intro i
      by_cases here : i = ⟨next,inside⟩
      · subst i; simp [State.setWorker,executed,inHand]
      · simp [State.setWorker,here]
    next =>
      obtain rfl := Option.some.inj taken
      exact ⟨rfl,fun _ => ⟨rfl,rfl⟩,.inl rfl,by simp⟩
  | joining ending =>
    simp only [reached] at taken
    split at taken
    next done =>
      obtain rfl := Option.some.inj taken
      exact ⟨rfl,fun _ => ⟨rfl,rfl⟩,.inl rfl,fun _ _ => done⟩
    next => contradiction
  | finished ending => simp [reached] at taken

theorem step_invariant (s : State n) (a : Action n) (t : State n) (valid : Invariant cfg s)
    (allowed : Claimable cfg s a) (taken : step cfg s a = some t) : Invariant cfg t := by
  have small := totalSharedIterations_lt cfg
  obtain ⟨accounted,bounded,exhausted,joined⟩ := valid
  cases a with
  | work i =>
    obtain ⟨next,counter,live,moved,rfl⟩ := work_moved taken
    have executes := Family.total_update executed s.workers i next
    have holds := Family.total_update inHand s.workers i next
    have unjoined (ending : Ending) : s.supervisor ≠ .finished ending :=
      fun finished => live (joined ending finished i)
    refine ⟨?_,?_,fun full => ?_,fun ending finished => absurd finished (unjoined ending)⟩
    all_goals simp only [State.setWorker]
    all_goals cases moved with
    | begins begins more taken same =>
      have room := allowed begins
      first | omega | exact same ▸ exhausted full
    | claims holding released kept claimed =>
      have wraps : (s.sharedIterationCounter + 1) % 2^64 = s.sharedIterationCounter + 1 :=
        Nat.mod_eq_of_lt (by omega)
      first | omega | exact (exhausted full).trans (by omega)
    | moves kept held same => first | omega | exact same ▸ exhausted full
  | fail i =>
    obtain ⟨next,failed,rfl⟩ := Option.map_eq_some_iff.mp taken
    obtain ⟨pc,rfl⟩ := Worker.fail_cases failed
    have executes := Family.total_same (f := executed) (g := s.workers) (i := i)
      { s.workers i with pc := .done } (by simp [executed,pc])
    have holds := Family.total_same (f := inHand) (g := s.workers) (i := i)
      { s.workers i with pc := .done } (by simp [inHand,pc])
    refine ⟨?_,?_,exhausted,?_⟩
    · simpa only [State.setWorker,executes,holds] using accounted
    · simpa only [State.setWorker,executes] using bounded
    · intro ending finished
      have done := joined ending finished i
      simp [pc] at done
  | supervise elapsed =>
    obtain ⟨counter,counts,endings,finishes⟩ := supervise_cases taken
    have executes := Family.total_congr fun i => (counts i).1
    have holds := Family.total_congr fun i => (counts i).2
    refine ⟨by omega,by omega,?_,finishes⟩
    intro full
    rw [counter]
    rcases endings with same | other | full'
    · exact exhausted (same ▸ full)
    · exact absurd full other
    · exact full'
  | setPaused paused =>
    obtain rfl := Option.some.inj taken
    exact ⟨accounted,bounded,exhausted,joined⟩
  | stop =>
    obtain rfl := Option.some.inj taken
    exact ⟨accounted,bounded,exhausted,joined⟩

theorem within_pool_of_invariant (valid : Invariant cfg s) : WithinPool cfg s := by
  refine ⟨valid.bounded,?_⟩
  intro finished
  have done := valid.joined _ finished
  have idle : Family.total inHand s.workers = 0 := Family.total_zero fun i => by simp [inHand,done i]
  have full := valid.exhausted (by rw [finished]; rfl)
  have accounted := valid.accounted
  have bounded := valid.bounded
  omega

theorem unclaimable_exceeds (a : Action n) (valid : Invariant cfg s)
    (refused : ¬Claimable cfg s a) (taken : step cfg s a = some t) : ¬WithinPool cfg t := by
  simp only [Claimable,Classical.not_imp,Nat.not_lt] at refused
  obtain ⟨⟨i,rfl,pc,going,running⟩,full⟩ := refused
  let next : Worker := ⟨.iterating,(s.workers i).running,(s.workers i).iterationCount⟩
  have entered : t = s.setWorker i next := by
    simpa [step,work,Worker.advance,State.setWorker,next,pc,going,running] using taken.symm
  subst entered
  have executes := Family.total_update executed s.workers i next
  have more : executed next = executed (s.workers i) + 1 := by simp [next,executed,pc]
  have accounted := valid.accounted
  rintro ⟨bounded,_⟩
  simp only [State.setWorker] at bounded
  omega

/-- A run keeps to the pool exactly when every iteration is begun with one left over. The
workers do not look: they claim an iteration after its body. -/
theorem within_pool_iff {actions : List (Action cfg.workers)} {s : State cfg.workers}
    (run : Machine.exec (step cfg) (initial cfg) actions = some s) :
    Machine.Along (step cfg) (WithinPool cfg) (initial cfg) actions ↔
      Machine.Guarded (step cfg) (Claimable cfg) (initial cfg) actions :=
  Machine.along_iff_guarded step_invariant (fun _ => within_pool_of_invariant)
    (fun _ a _ => unclaimable_exceeds a) (initial_invariant cfg) run

def oneOfOne : Settings := ⟨1,some 1⟩
def only : Fin oneOfOne.workers := ⟨0,by decide⟩

/-- The worker claims the only iteration, finds its flag still set and runs another. -/
theorem second_iteration_exceeds_pool :
    ∃ s, Machine.exec (step oneOfOne) (initial oneOfOne)
        [.work only,.work only,.work only,.work only,.work only,.work only,.work only,
          .work only,.work only,.work only] = some s ∧ ¬WithinPool oneOfOne s := by
  decide +kernel

/-- The supervising loop looks in time, and the worker finds its flag cleared. -/
theorem within_pool_when_stopped_in_time :
    let actions : List (Action oneOfOne.workers) :=
      [.work only,.work only,.work only,.work only,.work only,.work only,.supervise false,
        .supervise false,.supervise false,.work only,.work only,.supervise false]
    ∃ s, Machine.exec (step oneOfOne) (initial oneOfOne) actions = some s ∧
      s.supervisor = .finished .exhausted ∧
      Machine.Along (step oneOfOne) (WithinPool oneOfOne) (initial oneOfOne) actions := by
  intro actions
  have ended : ∃ s, Machine.exec (step oneOfOne) (initial oneOfOne) actions = some s ∧
      s.supervisor = .finished .exhausted := by decide +kernel
  obtain ⟨s,run,finished⟩ := ended
  exact ⟨s,run,finished,(within_pool_iff run).mpr (by decide +kernel)⟩

end Fusillade.Engine.SharedIterations
