import Fusillade.Bridge.Emission
import Fusillade.Lib.Machine
import Mathlib.Logic.Function.Basic

/-! The two thread-local cells that the metrics of a worker are made from: the current group
and the accumulated sleep. Workers are coroutines, which keep a thread until they yield, in a
sleep or while the bridge waits, and may go on at any thread that is free then. -/
namespace Fusillade.Bridge.Attribution

structure Thread where
  group : String := ""
  sleepAccumulated : Duration := 0
  holder : Option Nat := none
  deriving DecidableEq, Repr

/-- An iteration that has been started, with the sleeps of its worker since then. -/
structure Started where
  iterStart : Duration
  ownSleep : Duration
  deriving DecidableEq, Repr

structure Worker where
  /-- The segments that the script is in, the innermost one first, each with its `prev`. -/
  segments : List (String × String) := []
  iteration : Option Started := none
  /-- The thread it runs on, until it yields. -/
  runsOn : Option Nat := none
  wakeAt : Duration := 0
  deriving DecidableEq, Repr

/-- A request metric, with what the script knows about it. -/
structure Request where
  enclosing : List String
  base : String
  name : String
  deriving DecidableEq, Repr

structure Timed where
  active : Duration
  elapsed : Duration
  ownSleep : Duration
  deriving DecidableEq, Repr

inductive Op where
  | beginIteration
  | finishIteration
  | enterSegment (name : String)
  | leaveSegment
  | sleep (duration : Duration)
  /-- A wait that is not tracked, as the one for a response. -/
  | ioWait
  /-- The metric of a request, sent when the wait for its response is over. -/
  | request (nameTag : Option String) (url : String)
  deriving DecidableEq, Repr

def Op.yields : Op → Bool
  | .sleep _ | .ioWait => true
  | .beginIteration | .finishIteration | .enterSegment _ | .leaveSegment | .request .. => false

structure State where
  clock : Duration
  threads : Nat → Thread
  workers : Nat → Worker
  requests : List Request
  iterations : List Timed

inductive Action where
  | tick (duration : Duration)
  | run (worker thread : Nat) (op : Op)
  deriving DecidableEq, Repr

def initial : State := ⟨0,fun _ => {},fun _ => {},[],[]⟩

structure Performed where
  thread : Thread
  worker : Worker
  requests : List Request := []
  iterations : List Timed := []

def perform (clock : Duration) (thread : Thread) (worker : Worker) : Op → Option Performed
  | .beginIteration =>
    if worker.segments = [] ∧ worker.iteration = none then some {
      thread := { thread with sleepAccumulated := 0 }
      worker := { worker with iteration := some ⟨clock,0⟩ } }
    else none
  | .finishIteration =>
    match worker.iteration with
    | some run =>
      if worker.segments = [] then
        let elapsed := clock - run.iterStart
        some {
          thread := thread
          worker := { worker with iteration := none }
          iterations := [⟨elapsed - thread.sleepAccumulated,elapsed,run.ownSleep⟩] }
      else none
    | none => none
  | .enterSegment name => some {
      thread := { thread with group := enterGroup thread.group name }
      worker := { worker with segments := (name,thread.group) :: worker.segments } }
  | .leaveSegment =>
    match worker.segments with
    | (_,prev) :: outer => some {
        thread := { thread with group := prev }
        worker := { worker with segments := outer } }
    | [] => none
  | .sleep duration => some {
      thread := { thread with sleepAccumulated := thread.sleepAccumulated + duration }
      worker := { worker with
        wakeAt := clock + duration
        iteration := worker.iteration.map fun run => { run with ownSleep := run.ownSleep + duration } } }
  | .ioWait => some { thread := thread, worker := worker }
  | .request nameTag url => some {
      thread := thread
      worker := worker
      requests := [⟨worker.segments.map Prod.fst,nameTag.getD url,metricName thread.group nameTag url⟩] }

/-- The worker is awake, and goes on where it runs or takes a thread that is free. -/
def mayRun (s : State) (worker thread : Nat) : Bool :=
  (s.workers worker).wakeAt ≤ s.clock &&
    match (s.workers worker).runsOn with
    | some current => current == thread
    | none => (s.threads thread).holder.isNone

def step (s : State) : Action → Option State
  | .tick duration => some { s with clock := s.clock + duration }
  | .run worker thread op =>
    if mayRun s worker thread then
      (perform s.clock (s.threads thread) (s.workers worker) op).map fun done => { s with
        threads := Function.update s.threads thread
          { done.thread with holder := if op.yields then none else some worker }
        workers := Function.update s.workers worker
          { done.worker with runsOn := if op.yields then none else some thread }
        requests := s.requests ++ done.requests
        iterations := s.iterations ++ done.iterations }
    else none

/-- The placement allows the worker at the thread where it runs. -/
def Placed (on : Nat → Nat → Prop) : Action → Prop
  | .tick _ => True
  | .run worker thread _ => on worker thread

def Reached (on : Nat → Nat → Prop) (s : State) : Prop :=
  ∃ actions, (∀ a ∈ actions, Placed on a) ∧ Machine.exec step initial actions = some s

/-- The prefix of a request is a function of the segments around it. -/
def PrefixesOwn (on : Nat → Nat → Prop) : Prop :=
  ∃ prefixOf : List String → String, ∀ s, Reached on s →
    ∀ request ∈ s.requests, request.name = prefixOf request.enclosing ++ request.base

/-- The active time leaves out exactly the sleeps of the worker in that iteration. -/
def TimesOwn (on : Nat → Nat → Prop) : Prop :=
  ∀ s, Reached on s → ∀ timed ∈ s.iterations, timed.active + timed.ownSleep = timed.elapsed

/-- No thread runs two workers, and no worker changes its thread. -/
structure OneToOne (on : Nat → Nat → Prop) : Prop where
  alone : ∀ thread worker other, on worker thread → on other thread → worker = other
  stays : ∀ worker thread other, on worker thread → on worker other → thread = other

def groupOf : List String → String
  | [] => ""
  | name :: outer => enterGroup (groupOf outer) name

def Saved : List (String × String) → Prop
  | [] => True
  | (_,prev) :: outer => prev = groupOf (outer.map Prod.fst) ∧ Saved outer

/-- The cells of a thread say what one worker has done. -/
structure Owned (clock : Duration) (thread : Thread) (worker : Worker) : Prop where
  group : thread.group = groupOf (worker.segments.map Prod.fst)
  saved : Saved worker.segments
  slept : ∀ run, worker.iteration = some run →
    thread.sleepAccumulated = run.ownSleep ∧
      (run.iterStart + run.ownSleep ≤ clock ∨ run.iterStart + run.ownSleep ≤ worker.wakeAt)

def Request.Own (request : Request) : Prop :=
  request.name = groupPrefix (groupOf request.enclosing) ++ request.base

def Timed.Own (timed : Timed) : Prop := timed.active + timed.ownSleep = timed.elapsed

structure Isolated (on : Nat → Nat → Prop) (s : State) : Prop where
  owned : ∀ worker thread, on worker thread → Owned s.clock (s.threads thread) (s.workers worker)
  requests : ∀ request ∈ s.requests, request.Own
  iterations : ∀ timed ∈ s.iterations, timed.Own

variable {on : Nat → Nat → Prop} {s t : State} {a : Action} {op : Op} {clock : Duration}
  {thread : Thread} {worker : Worker} {done : Performed}

theorem initial_isolated : Isolated on initial where
  owned _ _ _ := ⟨rfl,trivial,by simp [initial]⟩
  requests := by simp [initial]
  iterations := by simp [initial]

theorem Owned.later (owned : Owned clock thread worker) (duration : Duration) :
    Owned (clock + duration) thread worker where
  group := owned.group
  saved := owned.saved
  slept run running := by
    obtain ⟨slept,bound⟩ := owned.slept run running
    exact ⟨slept,bound.imp_left (Nat.le_add_right_of_le ·)⟩

theorem Owned.past (owned : Owned clock thread worker) (awake : worker.wakeAt ≤ clock) {run : Started}
    (running : worker.iteration = some run) : run.iterStart + run.ownSleep ≤ clock :=
  (owned.slept run running).2.elim id (Nat.le_trans · awake)

theorem perform_owned (owned : Owned clock thread worker) (awake : worker.wakeAt ≤ clock)
    (performed : perform clock thread worker op = some done) :
    Owned clock done.thread done.worker ∧ (∀ request ∈ done.requests, request.Own) ∧
      ∀ timed ∈ done.iterations, timed.Own := by
  cases op with
  | beginIteration =>
    simp only [perform] at performed
    split at performed
    · obtain rfl := Option.some.inj performed
      refine ⟨⟨owned.group,owned.saved,?_⟩,by simp,by simp⟩
      intro run started
      obtain rfl := Option.some.inj started
      exact ⟨rfl,.inl (Nat.le_refl _)⟩
    · contradiction
  | finishIteration =>
    simp only [perform] at performed
    split at performed
    · rename_i run running
      have slept := (owned.slept run running).1
      have fits := Nat.le_sub_of_add_le' (owned.past awake running)
      split at performed
      · obtain rfl := Option.some.inj performed
        refine ⟨⟨owned.group,owned.saved,by simp⟩,by simp,?_⟩
        simp only [List.mem_singleton,forall_eq,Timed.Own,slept]
        exact Nat.sub_add_cancel fits
      · contradiction
    · contradiction
  | enterSegment name =>
    obtain rfl := Option.some.inj performed
    refine ⟨⟨?_,⟨owned.group,owned.saved⟩,owned.slept⟩,by simp,by simp⟩
    simp [groupOf,owned.group]
  | leaveSegment =>
    simp only [perform] at performed
    split at performed
    · rename_i name prev outer segments
      obtain rfl := Option.some.inj performed
      have saved := owned.saved
      rw [segments] at saved
      exact ⟨⟨saved.1,saved.2,owned.slept⟩,by simp,by simp⟩
    · contradiction
  | sleep duration =>
    obtain rfl := Option.some.inj performed
    refine ⟨⟨owned.group,owned.saved,?_⟩,by simp,by simp⟩
    intro run sleeping
    obtain ⟨before,running,rfl⟩ := Option.map_eq_some_iff.mp sleeping
    have slept := (owned.slept before running).1
    have past := Nat.add_le_add_right (owned.past awake running) duration
    exact ⟨congrArg (· + duration) slept,.inr (Nat.add_assoc .. ▸ past)⟩
  | ioWait =>
    obtain rfl := Option.some.inj performed
    exact ⟨owned,by simp,by simp⟩
  | request nameTag url =>
    obtain rfl := Option.some.inj performed
    refine ⟨owned,?_,by simp⟩
    simp [Request.Own,metricName,owned.group]

theorem step_isolated (oneToOne : OneToOne on) (isolated : Isolated on s) (placed : Placed on a)
    (taken : step s a = some t) : Isolated on t := by
  cases a with
  | tick duration =>
    obtain rfl := Option.some.inj taken
    exact ⟨fun worker thread allowed => (isolated.owned worker thread allowed).later duration,
      isolated.requests,isolated.iterations⟩
  | run worker thread op =>
    simp only [step] at taken
    split at taken
    · rename_i enabled
      obtain ⟨done,performed,rfl⟩ := Option.map_eq_some_iff.mp taken
      have awake : (s.workers worker).wakeAt ≤ s.clock :=
        of_decide_eq_true (Bool.and_eq_true_iff.mp enabled).1
      obtain ⟨owned,requests,iterations⟩ :=
        perform_owned (isolated.owned worker thread placed) awake performed
      refine ⟨?_,?_,?_⟩
      · intro other place allowed
        by_cases same : place = thread
        · subst place
          obtain rfl := oneToOne.alone thread worker other placed allowed
          simp only [Function.update_self]
          exact ⟨owned.group,owned.saved,owned.slept⟩
        · have different : other ≠ worker := by
            rintro rfl
            exact same (oneToOne.stays other place thread allowed placed)
          simp only [Function.update_of_ne same,Function.update_of_ne different]
          exact isolated.owned other place allowed
      · intro request member
        rcases List.mem_append.mp member with old | new
        · exact isolated.requests request old
        · exact requests request new
      · intro timed member
        rcases List.mem_append.mp member with old | new
        · exact isolated.iterations timed old
        · exact iterations timed new
    · contradiction

theorem reached_isolated (oneToOne : OneToOne on) (reached : Reached on s) : Isolated on s := by
  obtain ⟨actions,placed,run⟩ := reached
  exact Machine.exec_allowed (Isolated on) (Placed on) (fun _ _ _ => step_isolated oneToOne) run
    placed initial_isolated

def requestMeanwhile (worker thread other place : Nat) : List Action :=
  [.run worker thread (.enterSegment "a"),.run worker thread .ioWait,
    .run other place (.request (some "x") "")]

def sleepMeanwhile (worker thread other place : Nat) : List Action :=
  [.run worker thread .beginIteration,.run worker thread .ioWait,.run other place (.sleep 5),.tick 5,
    .run worker thread .finishIteration]

theorem exec_request (worker thread : Nat) : ∃ s,
    Machine.exec step initial [.run worker thread (.request (some "x") "")] = some s ∧
      s.requests = [⟨[],"x","x"⟩] := by
  simp [Machine.exec,step,perform,mayRun,initial,metricName,groupPrefix]

theorem exec_enterSegment (worker thread : Nat) :
    Machine.exec step initial [.run worker thread (.enterSegment "a"),.run worker thread .ioWait] =
      some { initial with
        threads := Function.update initial.threads thread { group := "a" }
        workers := Function.update initial.workers worker { segments := [("a","")] } } := by
  simp [Machine.exec,step,perform,mayRun,initial,Op.yields,enterGroup]

theorem exec_beginIteration (worker thread : Nat) :
    Machine.exec step initial [.run worker thread .beginIteration,.run worker thread .ioWait] =
      some { initial with
        workers := Function.update initial.workers worker { iteration := some ⟨0,0⟩ } } := by
  simp [Machine.exec,step,perform,mayRun,initial,Op.yields]

theorem exec_requestMeanwhile (worker thread other place : Nat) : ∃ s,
    Machine.exec step initial (requestMeanwhile worker thread other place) = some s ∧
      s.requests = [⟨if other = worker then ["a"] else [],"x",
        if place = thread then "a::x" else "x"⟩] := by
  have parts : requestMeanwhile worker thread other place =
      [.run worker thread (.enterSegment "a"),.run worker thread .ioWait] ++
        [.run other place (.request (some "x") "")] := rfl
  rw [parts,Machine.exec_append,exec_enterSegment,Option.bind_some]
  by_cases sameWorker : other = worker <;> by_cases sameThread : place = thread <;>
    simp [Machine.exec,step,perform,mayRun,initial,metricName,groupPrefix,sameWorker,sameThread]

theorem exec_sleepMeanwhile (worker thread other place : Nat) : ∃ s,
    Machine.exec step initial (sleepMeanwhile worker thread other place) = some s ∧
      s.iterations = [⟨if place = thread then 0 else 5,5,if other = worker then 5 else 0⟩] := by
  have parts : sleepMeanwhile worker thread other place =
      [.run worker thread .beginIteration,.run worker thread .ioWait] ++
        [.run other place (.sleep 5),.tick 5,.run worker thread .finishIteration] := rfl
  rw [parts,Machine.exec_append,exec_beginIteration,Option.bind_some]
  by_cases sameWorker : other = worker <;> by_cases sameThread : place = thread <;>
    simp [Machine.exec,step,perform,mayRun,initial,Op.yields,
      @eq_comm _ worker other,@eq_comm _ thread place,sameWorker,sameThread]

variable {w w' place place' : Nat}

theorem reached_requestMeanwhile (here : on w place) (there : on w' place') : ∃ s, Reached on s ∧
    s.requests = [⟨if w' = w then ["a"] else [],"x",if place' = place then "a::x" else "x"⟩] := by
  obtain ⟨s,run,requests⟩ := exec_requestMeanwhile w place w' place'
  exact ⟨s,⟨_,by simp [requestMeanwhile,Placed,here,there],run⟩,requests⟩

theorem reached_sleepMeanwhile (here : on w place) (there : on w' place') : ∃ s, Reached on s ∧
    s.iterations = [⟨if place' = place then 0 else 5,5,if w' = w then 5 else 0⟩] := by
  obtain ⟨s,run,iterations⟩ := exec_sleepMeanwhile w place w' place'
  exact ⟨s,⟨_,by simp [sleepMeanwhile,Placed,here,there],run⟩,iterations⟩

/-- The prefixes are right in every run exactly when the placement is one to one. -/
theorem prefixesOwn_iff (on : Nat → Nat → Prop) : PrefixesOwn on ↔ OneToOne on := by
  constructor
  · rintro ⟨prefixOf,own⟩
    have named {s : State} {request : Request} (reached : Reached on s) (sent : s.requests = [request]) :
        request.name = prefixOf request.enclosing ++ request.base :=
      own s reached request (by simp [sent])
    refine ⟨?_,?_⟩
    · intro thread worker other here there
      by_contra different
      obtain ⟨s,run,sent⟩ := exec_request worker thread
      have plain := named ⟨_,by simp [Placed,here],run⟩ sent
      obtain ⟨t,reached,others⟩ := reached_requestMeanwhile here there
      have prefixed := named reached others
      simp only [if_neg (Ne.symm different),if_true] at plain prefixed
      exact absurd (plain.trans prefixed.symm) (by decide)
    · intro worker thread other here there
      by_contra different
      obtain ⟨s,reached,sent⟩ := reached_requestMeanwhile here here
      have stayed := named reached sent
      obtain ⟨t,reached,sent⟩ := reached_requestMeanwhile here there
      have moved := named reached sent
      simp only [if_neg (Ne.symm different),if_true] at stayed moved
      exact absurd (stayed.trans moved.symm) (by decide)
  · intro oneToOne
    exact ⟨fun names => groupPrefix (groupOf names),fun s reached =>
      (reached_isolated oneToOne reached).requests⟩

theorem timesOwn_iff (on : Nat → Nat → Prop) : TimesOwn on ↔ OneToOne on := by
  constructor
  · intro own
    refine ⟨?_,?_⟩
    · intro thread worker other here there
      by_contra different
      obtain ⟨s,reached,timed⟩ := reached_sleepMeanwhile here there
      have sum := own s reached _ (timed ▸ List.mem_singleton_self _)
      simp [Ne.symm different] at sum
    · intro worker thread other here there
      by_contra different
      obtain ⟨s,reached,timed⟩ := reached_sleepMeanwhile here there
      have sum := own s reached _ (timed ▸ List.mem_singleton_self _)
      simp [Ne.symm different] at sum
  · intro oneToOne s reached
    exact (reached_isolated oneToOne reached).iterations

/-- What the metrics of a worker say is its own in every run exactly when no thread is shared
and no worker moves. -/
theorem attributed_iff_oneToOne (on : Nat → Nat → Prop) :
    PrefixesOwn on ∧ TimesOwn on ↔ OneToOne on := by
  rw [prefixesOwn_iff,timesOwn_iff,and_self]

/-- Another worker of the thread sends a request before a segment of the first one and in it,
and sleeps in the iteration of the first one. -/
theorem shared_thread_attributes : ∃ s,
    Machine.exec step initial [.run 1 0 (.request (some "home") "/"),.run 1 0 .ioWait,
      .run 0 0 .beginIteration,.run 0 0 (.enterSegment "login"),.run 0 0 .ioWait,
      .run 1 0 (.request (some "home") "/"),.run 1 0 (.sleep 5),.tick 5,.run 0 0 .leaveSegment,
      .run 0 0 .finishIteration] = some s ∧
    (∃ request ∈ s.requests, ∃ other ∈ s.requests, request.enclosing = other.enclosing ∧
      request.base = other.base ∧ request.name ≠ other.name) ∧
    ∃ timed ∈ s.iterations, timed.active + timed.ownSleep ≠ timed.elapsed := by
  have run : (Machine.exec step initial [.run 1 0 (.request (some "home") "/"),.run 1 0 .ioWait,
      .run 0 0 .beginIteration,.run 0 0 (.enterSegment "login"),.run 0 0 .ioWait,
      .run 1 0 (.request (some "home") "/"),.run 1 0 (.sleep 5),.tick 5,.run 0 0 .leaveSegment,
      .run 0 0 .finishIteration]).map (fun s => (s.requests,s.iterations)) =
      some ([⟨[],"home","home"⟩,⟨[],"home","login::home"⟩],[⟨0,5,0⟩]) := by decide +kernel
  obtain ⟨s,taken,same⟩ := Option.map_eq_some_iff.mp run
  obtain ⟨requests,iterations⟩ := Prod.mk.inj same
  refine ⟨s,taken,?_,?_⟩
  · rw [requests]
    decide
  · rw [iterations]
    decide

end Fusillade.Bridge.Attribution
