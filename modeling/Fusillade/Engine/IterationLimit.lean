import Fusillade.Engine.Executor
import Fusillade.Engine.GracefulStop

/-! Runs with a number of iterations and without a duration. A worker looks at the limit after
each iteration, and the supervising thread ends the run after ten seconds all the same: in a
scenario it joins the workers then, and in legacy mode it does not. -/
namespace Fusillade.Engine.IterationLimit

open Machine Executor
open SharedIterations (executed)

/-- The iterations are done, and no other one is going on. -/
def Exactly (n : Nat) (worker : Worker) : Prop :=
  worker.iterationCount = n ∧ worker.pc ≠ .iterating

/-- A worker begins no iteration after the last one, and is not stopped before it. -/
structure OnSchedule (n : Nat) (stopped : Bool) (worker : Worker) : Prop where
  most : executed worker ≤ n
  enough : worker.running = false ∨ stopped = true ∨ worker.pc = .done → n ≤ executed worker

/-- The next step of the worker begins an iteration. -/
def Enters (stopped : Bool) (worker : Worker) : Prop :=
  worker.pc = .stopCheck ∧ stopped = false ∧ worker.running = true

section Worker

variable {n : Nat} {paused stopped : Bool} {worker next : Worker}

/-- What a step does to the count: it begins an iteration, or leaves the count alone. A worker
leaves the loop when it is told to or when it has reached the limit. -/
theorem advance_executed
    (taken : worker.advance paused stopped (decide (n ≤ worker.iterationCount)) = some next) :
    (Enters stopped worker ∧ executed next = executed worker + 1 ∧ next.pc ≠ .done) ∨
      (¬Enters stopped worker ∧ executed next = executed worker ∧
        (next.pc = .done → worker.running = false ∨ stopped = true ∨ n ≤ executed worker)) := by
  unfold Worker.advance at taken
  split at taken
  next pc =>
    obtain rfl := Option.some.inj taken
    simp [Enters,executed,pc]
  next pc =>
    obtain rfl := Option.some.inj taken
    cases on : worker.running <;> simp [Enters,executed,pc]
  next pc =>
    obtain rfl := Option.some.inj taken
    cases paused <;> cases on : worker.running <;> simp [Enters,executed,pc]
  next pc =>
    obtain rfl := Option.some.inj taken
    cases stopped <;> cases on : worker.running <;> simp [Enters,executed,pc,on]
  next pc =>
    obtain rfl := Option.some.inj taken
    simp [Enters,executed,pc]
  next pc =>
    obtain rfl := Option.some.inj taken
    by_cases limit : n ≤ worker.iterationCount <;> simp [Enters,executed,pc,limit]
  next pc =>
    obtain rfl := Option.some.inj taken
    simp [Enters,executed,pc]
  next => cases taken

theorem spawned_onSchedule (n : Nat) : OnSchedule n false .spawned :=
  ⟨Nat.zero_le n,by simp [Worker.spawned]⟩

theorem advance_onSchedule (kept : OnSchedule n stopped worker)
    (due : Enters stopped worker → executed worker < n)
    (taken : worker.advance paused stopped (decide (n ≤ worker.iterationCount)) = some next) :
    OnSchedule n stopped next := by
  have running := Worker.advance_running taken
  rcases advance_executed taken with ⟨enters,count,live⟩ | ⟨-,count,leaves⟩
  · have before := due enters
    refine ⟨by omega,?_⟩
    rintro (off | told | done)
    · exact absurd (running ▸ off) (by simp [enters.2.2])
    · exact absurd told (by simp [enters.2.1])
    · exact absurd done live
  · refine ⟨count ▸ kept.most,?_⟩
    rw [count,running]
    rintro (off | told | done)
    · exact kept.enough (.inl off)
    · exact kept.enough (.inr (.inl told))
    · rcases leaves done with off | told | enough
      · exact kept.enough (.inl off)
      · exact kept.enough (.inr (.inl told))
      · exact enough

/-- A worker that was stopped early or has begun too much does not get back on schedule. -/
theorem advance_late (late : ¬OnSchedule n stopped worker)
    (taken : worker.advance paused stopped (decide (n ≤ worker.iterationCount)) = some next) :
    ¬OnSchedule n stopped next := by
  intro kept
  have running := Worker.advance_running taken
  have live := Worker.advance_live taken
  refine late ⟨?_,?_⟩
  · have most := kept.most
    rcases advance_executed taken with ⟨-,count,-⟩ | ⟨-,count,-⟩ <;> omega
  · rintro told
    have asked : next.running = false ∨ stopped = true ∨ next.pc = .done := by
      rw [running]
      rcases told with off | told | done
      · exact .inl off
      · exact .inr (.inl told)
      · exact absurd done live
    have enough := kept.enough asked
    rcases advance_executed taken with ⟨enters,-,-⟩ | ⟨-,count,-⟩
    · obtain ⟨pc,go,on⟩ := enters
      simp [pc,go,on] at told
    · omega

theorem advance_over (enters : Enters stopped worker) (full : ¬executed worker < n)
    (taken : worker.advance paused stopped (decide (n ≤ worker.iterationCount)) = some next) :
    ¬OnSchedule n stopped next := by
  intro kept
  have most := kept.most
  rcases advance_executed taken with ⟨-,count,-⟩ | ⟨other,-,-⟩
  · omega
  · exact other enters

/-- A set-up that fails leaves the worker with no iterations. -/
theorem fail_onSchedule (failed : worker.fail = some next) (kept : OnSchedule n stopped worker) :
    OnSchedule n stopped next ↔ n ≤ executed worker := by
  obtain ⟨pc,rfl⟩ := Worker.fail_cases failed
  have same : executed { worker with pc := .done } = executed worker := by simp [executed,pc]
  refine ⟨fun after => same ▸ after.enough (.inr (.inr rfl)),fun enough => ?_⟩
  exact ⟨same ▸ kept.most,fun _ => same ▸ enough⟩

theorem fail_late (late : ¬OnSchedule n stopped worker) (failed : worker.fail = some next) :
    ¬OnSchedule n stopped next := by
  obtain ⟨pc,rfl⟩ := Worker.fail_cases failed
  have same : executed { worker with pc := .done } = executed worker := by simp [executed,pc]
  intro kept
  refine late ⟨same ▸ kept.most,fun _ => ?_⟩
  exact same ▸ kept.enough (.inr (.inr rfl))

/-- A worker that has left its loop has done its iterations exactly when it is on schedule. -/
theorem exactly_iff (stopped : Bool) (told : stopped = true ∨ worker.pc = .done) :
    Exactly n worker ↔ OnSchedule n stopped worker ∧ worker.pc ≠ .iterating := by
  constructor
  · rintro ⟨rfl,between⟩
    have same : executed worker = worker.iterationCount := by simp [executed,between]
    exact ⟨⟨same.le,fun _ => same.ge⟩,between⟩
  · rintro ⟨kept,between⟩
    have same : executed worker = worker.iterationCount := by simp [executed,between]
    have enough := kept.enough (told.elim (fun told => .inr (.inl told)) fun done => .inr (.inr done))
    exact ⟨by have := kept.most; omega,between⟩

end Worker

/-- All workers ever spawned are on schedule. -/
def AllOnSchedule (n : Nat) (stopped : Bool) (workers : List Worker) : Prop :=
  ∀ worker ∈ workers, OnSchedule n stopped worker

/-- Whoever is told to stop has begun its last iteration. -/
def StopsLast (n : Nat) (stopped : Bool) (workers : List Worker) : Prop :=
  ∀ worker ∈ workers, worker.running = false ∨ stopped = true → n ≤ executed worker

/-- What the supervising thread does to workers: it clears flags and spawns new ones. -/
structure Tended (workers later : List Worker) : Prop where
  origin : ∀ worker ∈ later, (worker.pc = .setup ∧ worker.iterationCount = 0) ∨
    ∃ old ∈ workers, worker.pc = old.pc ∧ worker.iterationCount = old.iterationCount
  kept : ∀ worker ∈ workers, ∃ next ∈ later, next.pc = worker.pc ∧
    next.iterationCount = worker.iterationCount ∧ (worker.running = false → next.running = false)

section Crew

variable {n i : Nat} {stopped : Bool} {workers later last : List Worker} {worker next : Worker}

theorem executed_congr (pc : next.pc = worker.pc) (count : next.iterationCount = worker.iterationCount) :
    executed next = executed worker := by
  rw [executed,executed,pc,count]

theorem Tended.refl (workers : List Worker) : Tended workers workers :=
  ⟨fun worker member => .inr ⟨worker,member,rfl,rfl⟩,fun worker member => ⟨worker,member,rfl,rfl,id⟩⟩

theorem Tended.trans (first : Tended workers later) (second : Tended later last) :
    Tended workers last := by
  constructor
  · intro worker member
    rcases second.origin worker member with fresh | ⟨middle,between,pc,count⟩
    · exact .inl fresh
    · rcases first.origin middle between with ⟨setup,none⟩ | ⟨old,there,pc',count'⟩
      · exact .inl ⟨pc.trans setup,count.trans none⟩
      · exact .inr ⟨old,there,pc.trans pc',count.trans count'⟩
  · intro worker member
    obtain ⟨middle,between,pc,count,off⟩ := first.kept worker member
    obtain ⟨next,there,pc',count',off'⟩ := second.kept middle between
    exact ⟨next,there,pc'.trans pc,count'.trans count,off' ∘ off⟩

theorem tended_clear (workers : List Worker) (i : Nat) :
    Tended workers (workers.modify i fun worker => { worker with running := false }) := by
  constructor
  · intro worker member
    obtain ⟨j,found⟩ := List.mem_iff_getElem?.mp member
    rw [List.getElem?_modify] at found
    obtain ⟨old,there,rfl⟩ := Option.map_eq_some_iff.mp found
    refine .inr ⟨old,List.mem_of_getElem? there,?_⟩
    split <;> exact ⟨rfl,rfl⟩
  · intro worker member
    obtain ⟨j,found⟩ := List.mem_iff_getElem?.mp member
    refine ⟨if i = j then { worker with running := false } else worker,?_,?_⟩
    · refine List.mem_iff_getElem?.mpr ⟨j,?_⟩
      rw [List.getElem?_modify,found]
      rfl
    · split
      · exact ⟨rfl,rfl,fun _ => rfl⟩
      · exact ⟨rfl,rfl,id⟩

theorem Tended.onSchedule {told : Bool} (tended : Tended workers later)
    (all : AllOnSchedule n stopped workers) (last : StopsLast n told later) :
    AllOnSchedule n told later := by
  intro worker member
  rcases tended.origin worker member with ⟨setup,none⟩ | ⟨old,there,pc,count⟩
  · have nothing : executed worker = 0 := by simp [executed,setup,none]
    refine ⟨by omega,?_⟩
    rintro (off | told | done)
    · exact last worker member (.inl off)
    · exact last worker member (.inr told)
    · simp [setup] at done
  · have same := executed_congr pc count
    refine ⟨same ▸ (all old there).most,?_⟩
    rintro (off | told | done)
    · exact last worker member (.inl off)
    · exact last worker member (.inr told)
    · exact same ▸ (all old there).enough (.inr (.inr (pc ▸ done)))

theorem Tended.late {told : Bool} (tended : Tended workers later) (keeps : stopped = true → told = true)
    (late : ¬AllOnSchedule n stopped workers) : ¬AllOnSchedule n told later := by
  intro all
  refine late fun worker member => ?_
  obtain ⟨next,there,pc,count,off⟩ := tended.kept worker member
  have same := executed_congr pc count
  have kept := all next there
  exact ⟨same ▸ kept.most,fun asked => same ▸ kept.enough
    (asked.imp off (Or.imp keeps fun done => pc ▸ done))⟩

theorem stopsLast_of_onSchedule (all : AllOnSchedule n stopped workers) : StopsLast n stopped workers :=
  fun worker member told => (all worker member).enough (told.imp_right .inl)

theorem set_onSchedule (all : AllOnSchedule n stopped workers) (kept : OnSchedule n stopped next) :
    AllOnSchedule n stopped (workers.set i next) := by
  intro worker member
  rcases List.mem_or_eq_of_mem_set member with there | rfl
  · exact all worker there
  · exact kept

theorem set_late (found : workers[i]? = some worker)
    (stays : ¬OnSchedule n stopped worker → ¬OnSchedule n stopped next)
    (late : ¬AllOnSchedule n stopped workers) : ¬AllOnSchedule n stopped (workers.set i next) := by
  intro all
  have inside := (List.getElem?_eq_some_iff.mp found).1
  refine late fun other member => ?_
  obtain ⟨j,there⟩ := List.mem_iff_getElem?.mp member
  by_cases here : i = j
  · subst here
    obtain rfl := Option.some.inj (found.symm.trans there)
    by_contra broken
    exact stays broken (all next (List.mem_of_getElem? (List.getElem?_set_self inside)))
  · exact all other (List.mem_of_getElem? ((List.getElem?_set_ne here).trans there))

/-- A worker that is still on schedule after a step began its iteration in time. -/
theorem due_of_set {paused : Bool} (after : AllOnSchedule n stopped (workers.set i next))
    (found : workers[i]? = some worker)
    (advanced : worker.advance paused stopped (decide (n ≤ worker.iterationCount)) = some next)
    (enters : Enters stopped worker) : executed worker < n := by
  by_contra full
  have inside := (List.getElem?_eq_some_iff.mp found).1
  exact advance_over enters full advanced (after next (List.mem_of_getElem? (List.getElem?_set_self inside)))

theorem enough_of_set (after : AllOnSchedule n stopped (workers.set i next))
    (all : AllOnSchedule n stopped workers) (found : workers[i]? = some worker)
    (failed : worker.fail = some next) : n ≤ executed worker := by
  have inside := (List.getElem?_eq_some_iff.mp found).1
  exact (fail_onSchedule failed (all worker (List.mem_of_getElem? found))).mp
    (after next (List.mem_of_getElem? (List.getElem?_set_self inside)))

end Crew

/-- The limit check of a worker, after an iteration. -/
def limited (o : LoadOptions) (worker : Worker) : Bool :=
  (maxIterations o).any (· ≤ worker.iterationCount)

section Scenario

/-- The phases of the thread of a scenario. -/
inductive Supervisor where
  | polling
  /-- The flags of the workers below `next` have been cleared. -/
  | clearing (next : Nat)
  | joining
  | finished
  deriving DecidableEq

/-- A scenario whose workers each have their own limit. -/
structure State where
  workers : List Worker
  paused : Bool := false
  stopped : Bool := false
  /-- Since the start of the scenario. -/
  clock : Duration := 0
  supervisor : Supervisor := .polling

inductive Action where
  | work (worker : Nat)
  | fail (worker : Nat)
  | supervise
  | setPaused (paused : Bool)
  | stop
  | tick (time : Duration)
  deriving DecidableEq

def initial (o : LoadOptions) : State where
  workers := List.replicate (workers o) .spawned

/-- The graceful wait before `joining` watches the flags that were just cleared, so it ends at
its first look. -/
def supervise (o : LoadOptions) (s : State) : Option State :=
  match s.supervisor with
  | .polling =>
    if scenarioDuration o ≤ s.clock ∨ s.stopped = true then some { s with supervisor := .clearing 0 }
    else some s
  | .clearing next =>
    if next < s.workers.length then
      some { s with
        workers := s.workers.modify next fun worker => { worker with running := false }
        supervisor := .clearing (next + 1) }
    else some { s with supervisor := .joining }
  | .joining => if ∀ worker ∈ s.workers, worker.pc = .done then some { s with supervisor := .finished } else none
  | .finished => none

def State.setWorker (s : State) (i : Nat) (worker : Worker) : State :=
  { s with workers := s.workers.set i worker }

def step (o : LoadOptions) (s : State) : Action → Option State
  | .work i => s.workers[i]?.bind fun worker =>
      (worker.advance s.paused s.stopped (limited o worker)).map (s.setWorker i)
  | .fail i => s.workers[i]?.bind fun worker => worker.fail.map (s.setWorker i)
  | .supervise => supervise o s
  | .setPaused paused => some { s with paused }
  | .stop => some { s with stopped := true }
  | .tick time => some { s with clock := s.clock + time }

/-- No worker begins an iteration after its last one, and the thread stops no worker before. -/
def InTime (o : LoadOptions) (n : Nat) (s : State) : Action → Prop
  | .work i => ∀ worker, s.workers[i]? = some worker → Enters s.stopped worker → executed worker < n
  | .fail i => ∀ worker, s.workers[i]? = some worker → n ≤ executed worker
  | .supervise => ∀ t, supervise o s = some t → StopsLast n t.stopped t.workers
  | .stop => StopsLast n true s.workers
  | .setPaused _ | .tick _ => True

def State.OnSchedule (n : Nat) (s : State) : Prop := AllOnSchedule n s.stopped s.workers

variable {o : LoadOptions} {n : Nat} {s t : State} {a : Action}

theorem limited_eq (limit : maxIterations o = some n) (worker : Worker) :
    limited o worker = decide (n ≤ worker.iterationCount) := by
  rw [limited,limit]
  rfl

theorem supervise_tended (taken : supervise o s = some t) :
    Tended s.workers t.workers ∧ t.stopped = s.stopped := by
  unfold supervise at taken
  split at taken
  · split at taken <;> (obtain rfl := Option.some.inj taken; exact ⟨.refl _,rfl⟩)
  · split at taken <;> obtain rfl := Option.some.inj taken
    · exact ⟨tended_clear _ _,rfl⟩
    · exact ⟨.refl _,rfl⟩
  · split at taken
    · obtain rfl := Option.some.inj taken
      exact ⟨.refl _,rfl⟩
    · cases taken
  · cases taken

theorem step_onSchedule (limit : maxIterations o = some n) (kept : s.OnSchedule n)
    (inTime : InTime o n s a) (taken : step o s a = some t) : t.OnSchedule n := by
  cases a with
  | work i =>
    obtain ⟨worker,found,mapped⟩ := Option.bind_eq_some_iff.mp taken
    obtain ⟨next,advanced,rfl⟩ := Option.map_eq_some_iff.mp mapped
    rw [limited_eq limit] at advanced
    exact set_onSchedule kept (advance_onSchedule (kept worker (List.mem_of_getElem? found))
      (inTime worker found) advanced)
  | fail i =>
    obtain ⟨worker,found,mapped⟩ := Option.bind_eq_some_iff.mp taken
    obtain ⟨next,failed,rfl⟩ := Option.map_eq_some_iff.mp mapped
    exact set_onSchedule kept ((fail_onSchedule failed (kept worker (List.mem_of_getElem? found))).mpr
      (inTime worker found))
  | supervise => exact (supervise_tended taken).1.onSchedule kept (inTime t taken)
  | stop =>
    obtain rfl := Option.some.inj taken
    exact (Tended.refl _).onSchedule kept inTime
  | setPaused paused =>
    obtain rfl := Option.some.inj taken
    exact kept
  | tick time =>
    obtain rfl := Option.some.inj taken
    exact kept

theorem step_late (limit : maxIterations o = some n) (late : ¬s.OnSchedule n)
    (taken : step o s a = some t) : ¬t.OnSchedule n := by
  cases a with
  | work i =>
    obtain ⟨worker,found,mapped⟩ := Option.bind_eq_some_iff.mp taken
    obtain ⟨next,advanced,rfl⟩ := Option.map_eq_some_iff.mp mapped
    rw [limited_eq limit] at advanced
    exact set_late found (advance_late · advanced) late
  | fail i =>
    obtain ⟨worker,found,mapped⟩ := Option.bind_eq_some_iff.mp taken
    obtain ⟨next,failed,rfl⟩ := Option.map_eq_some_iff.mp mapped
    exact set_late found (fail_late · failed) late
  | supervise =>
    obtain ⟨tended,same⟩ := supervise_tended taken
    exact tended.late (fun stopped => same.trans stopped) late
  | stop =>
    obtain rfl := Option.some.inj taken
    exact (Tended.refl _).late (fun _ => rfl) late
  | setPaused paused =>
    obtain rfl := Option.some.inj taken
    exact late
  | tick time =>
    obtain rfl := Option.some.inj taken
    exact late

theorem step_breaks (limit : maxIterations o = some n) (kept : s.OnSchedule n)
    (untimely : ¬InTime o n s a) (taken : step o s a = some t) : ¬t.OnSchedule n := by
  intro after
  apply untimely
  cases a with
  | work i =>
    intro worker found enters
    obtain ⟨other,found',mapped⟩ := Option.bind_eq_some_iff.mp taken
    obtain ⟨next,advanced,rfl⟩ := Option.map_eq_some_iff.mp mapped
    obtain rfl := Option.some.inj (found.symm.trans found')
    rw [limited_eq limit] at advanced
    exact due_of_set after found advanced enters
  | fail i =>
    intro worker found
    obtain ⟨other,found',mapped⟩ := Option.bind_eq_some_iff.mp taken
    obtain ⟨next,failed,rfl⟩ := Option.map_eq_some_iff.mp mapped
    obtain rfl := Option.some.inj (found.symm.trans found')
    exact enough_of_set after kept found failed
  | supervise =>
    intro u taken'
    obtain rfl := Option.some.inj (taken.symm.trans taken')
    exact stopsLast_of_onSchedule after
  | stop =>
    obtain rfl := Option.some.inj taken
    exact stopsLast_of_onSchedule after
  | setPaused paused => trivial
  | tick time => trivial

theorem initial_onSchedule (o : LoadOptions) (n : Nat) : (initial o).OnSchedule n := by
  intro worker member
  obtain ⟨-,rfl⟩ := List.mem_replicate.mp member
  exact spawned_onSchedule n

/-- The thread is through only when all workers have left their loops. -/
def State.Joined (s : State) : Prop :=
  s.supervisor = .finished → ∀ worker ∈ s.workers, worker.pc = .done

theorem set_joined {i : Nat} {worker next : Worker} (joined : s.Joined)
    (found : s.workers[i]? = some worker) (live : worker.pc ≠ .done) : (s.setWorker i next).Joined := by
  intro finished
  exact absurd (joined finished worker (List.mem_of_getElem? found)) live

theorem step_joined (s : State) (a : Action) (t : State) (joined : s.Joined)
    (taken : step o s a = some t) : t.Joined := by
  cases a with
  | work i =>
    obtain ⟨worker,found,mapped⟩ := Option.bind_eq_some_iff.mp taken
    obtain ⟨next,advanced,rfl⟩ := Option.map_eq_some_iff.mp mapped
    exact set_joined joined found (Worker.advance_live advanced)
  | fail i =>
    obtain ⟨worker,found,mapped⟩ := Option.bind_eq_some_iff.mp taken
    obtain ⟨next,failed,rfl⟩ := Option.map_eq_some_iff.mp mapped
    exact set_joined joined found (by simp [(Worker.fail_cases failed).1])
  | supervise =>
    simp only [step,supervise] at taken
    split at taken
    · split at taken <;> obtain rfl := Option.some.inj taken
      · simp [State.Joined]
      · exact joined
    · split at taken <;> (obtain rfl := Option.some.inj taken; simp [State.Joined])
    · split at taken
      next left =>
        obtain rfl := Option.some.inj taken
        exact fun _ => left
      next => cases taken
    · cases taken
  | stop =>
    obtain rfl := Option.some.inj taken
    exact joined
  | setPaused paused =>
    obtain rfl := Option.some.inj taken
    exact joined
  | tick time =>
    obtain rfl := Option.some.inj taken
    exact joined

/-- In a scenario every worker does its iterations exactly when all steps are in time. -/
theorem scenario_exactly {actions : List Action} (limit : maxIterations o = some n)
    (run : exec (step o) (initial o) actions = some s) (finished : s.supervisor = .finished) :
    (∀ worker ∈ s.workers, Exactly n worker) ↔ Guarded (step o) (InTime o n) (initial o) actions := by
  have done := exec_invariant State.Joined step_joined run (by simp [State.Joined,initial]) finished
  rw [← last_iff_guarded (fun s a t => step_onSchedule limit) (fun s a t => step_breaks limit)
    (fun s a t => step_late limit) (initial_onSchedule o n) run]
  refine forall₂_congr fun worker member => ?_
  rw [exactly_iff s.stopped (.inr (done worker member)),and_iff_left]
  simp [done worker member]

end Scenario

section Legacy

open GracefulStop (Settings)

theorem spawn_tended (pool : Pool) : Tended pool.workers pool.spawn.workers := by
  constructor
  · intro worker member
    rcases List.mem_append.mp member with there | fresh
    · exact .inr ⟨worker,there,rfl,rfl⟩
    · obtain rfl := List.mem_singleton.mp fresh
      exact .inl ⟨rfl,rfl⟩
  · intro worker member
    exact ⟨worker,List.mem_append_left _ member,rfl,rfl,id⟩

theorem pop_tended (pool : Pool) : Tended pool.workers pool.pop.workers := by
  unfold Pool.pop
  split
  · exact tended_clear _ _
  · exact .refl _

theorem iterate_tended {change : Pool → Pool} (tends : ∀ pool, Tended pool.workers (change pool).workers)
    (k : Nat) (pool : Pool) : Tended pool.workers (change^[k] pool).workers := by
  induction k generalizing pool with
  | zero => exact .refl _
  | succ k ih =>
    rw [Function.iterate_succ_apply]
    exact (tends pool).trans (ih _)

theorem grow_tended (target : Nat) (pool : Pool) : Tended pool.workers (pool.grow target).workers :=
  iterate_tended spawn_tended _ pool

theorem shrink_tended (target : Nat) (pool : Pool) : Tended pool.workers (pool.shrink target).workers :=
  iterate_tended pop_tended _ pool

theorem rampingTick_tended (target : Nat) (pool : Pool) :
    Tended pool.workers (pool.rampingTick target).workers := by
  unfold Pool.rampingTick
  split
  · exact grow_tended target pool
  · split
    · exact shrink_tended target pool
    · exact .refl _

theorem legacyTick_tended (dynamicTarget : Option Nat) (throttled : Bool) (target : Nat) (pool : Pool) :
    Tended pool.workers (pool.legacyTick dynamicTarget throttled target).workers := by
  have grows (target : Nat) : Tended pool.workers
      (if target > pool.active.length then pool.grow target else pool).workers := by
    split
    · exact grow_tended target pool
    · exact .refl _
  unfold Pool.legacyTick
  dsimp only
  split
  · exact .refl _
  · cases dynamicTarget with
    | none => exact grows _
    | some target => exact (grows _).trans (shrink_tended target _)

def legacySettings (o : LoadOptions) (stop : Option String) : Option Settings :=
  (scheduleLegacy o).map fun schedule =>
    { mode := .legacy, schedule, duration := schedule.total, maxIterations := maxIterations o, stop }

/-- In legacy mode a turn may end the run for all workers, or take some down. -/
def LegacyInTime (cfg : Settings) (n : Nat) (s : GracefulStop.State) : GracefulStop.Action → Prop
  | .work i => ∀ worker, s.pool.workers[i]? = some worker → Enters s.stopped worker → executed worker < n
  | .fail i => ∀ worker, s.pool.workers[i]? = some worker → n ≤ executed worker
  | .supervise turn => ∀ t, GracefulStop.supervise cfg s turn = some t → StopsLast n t.stopped t.pool.workers
  | .stop => StopsLast n true s.pool.workers
  | .setPaused _ | .tick _ => True

def LegacyOnSchedule (n : Nat) (s : GracefulStop.State) : Prop := AllOnSchedule n s.stopped s.pool.workers

variable {cfg : Settings} {n : Nat} {s t : GracefulStop.State} {a : GracefulStop.Action}

theorem legacyLimited_eq (limit : cfg.maxIterations = some n) (worker : Worker) :
    GracefulStop.limited cfg worker = decide (n ≤ worker.iterationCount) := by
  rw [GracefulStop.limited,limit]
  rfl

theorem applyCommand_tended (command : GracefulStop.Command) :
    (GracefulStop.applyCommand cfg s command).pool = s.pool ∧
      (s.stopped = true → (GracefulStop.applyCommand cfg s command).stopped = true) := by
  unfold GracefulStop.applyCommand GracefulStop.leaveLoop
  split <;> exact ⟨rfl,by simp⟩

theorem scale_tended (elapsed : Duration) (throttled : Bool) :
    Tended s.pool.workers (GracefulStop.scale cfg s elapsed throttled).workers := by
  unfold GracefulStop.scale
  dsimp only
  split
  · split
    · exact .refl _
    · exact legacyTick_tended _ _ _ _
  · exact rampingTick_tended _ _

theorem legacySupervise_tended {turn : GracefulStop.Turn}
    (taken : GracefulStop.supervise cfg s turn = some t) :
    Tended s.pool.workers t.pool.workers ∧ (s.stopped = true → t.stopped = true) := by
  unfold GracefulStop.supervise at taken
  split at taken
  · split at taken <;> obtain rfl := Option.some.inj taken
    · exact ⟨.refl _,fun stopped => by simp [GracefulStop.leaveLoop,stopped]⟩
    · exact ⟨.refl _,id⟩
  next command _ =>
    obtain rfl := Option.some.inj taken
    obtain ⟨same,told⟩ := @applyCommand_tended cfg s command
    exact ⟨same ▸ .refl _,told⟩
  · obtain rfl := Option.some.inj taken
    exact ⟨.refl _,id⟩
  · obtain rfl := Option.some.inj taken
    exact ⟨scale_tended _ _,id⟩
  · split at taken <;> obtain rfl := Option.some.inj taken
    · exact ⟨tended_clear _ _,id⟩
    · exact ⟨.refl _,id⟩
  · split at taken <;> (obtain rfl := Option.some.inj taken; exact ⟨.refl _,id⟩)
  · split at taken
    · obtain rfl := Option.some.inj taken
      exact ⟨.refl _,id⟩
    · cases taken
  · obtain rfl := Option.some.inj taken
    exact ⟨.refl _,id⟩
  · cases taken

theorem legacy_onSchedule (limit : cfg.maxIterations = some n) (kept : LegacyOnSchedule n s)
    (inTime : LegacyInTime cfg n s a) (taken : GracefulStop.step cfg s a = some t) :
    LegacyOnSchedule n t := by
  cases a with
  | work i =>
    obtain ⟨worker,found,mapped⟩ := Option.bind_eq_some_iff.mp taken
    obtain ⟨next,advanced,rfl⟩ := Option.map_eq_some_iff.mp mapped
    rw [legacyLimited_eq limit] at advanced
    exact set_onSchedule kept (advance_onSchedule (kept worker (List.mem_of_getElem? found))
      (inTime worker found) advanced)
  | fail i =>
    obtain ⟨worker,found,mapped⟩ := Option.bind_eq_some_iff.mp taken
    obtain ⟨next,failed,rfl⟩ := Option.map_eq_some_iff.mp mapped
    exact set_onSchedule kept ((fail_onSchedule failed (kept worker (List.mem_of_getElem? found))).mpr
      (inTime worker found))
  | supervise turn => exact (legacySupervise_tended taken).1.onSchedule kept (inTime t taken)
  | stop =>
    obtain rfl := Option.some.inj taken
    exact (Tended.refl _).onSchedule kept inTime
  | setPaused paused =>
    obtain rfl := Option.some.inj taken
    exact kept
  | tick time =>
    obtain rfl := Option.some.inj taken
    exact kept

theorem legacy_late (limit : cfg.maxIterations = some n) (late : ¬LegacyOnSchedule n s)
    (taken : GracefulStop.step cfg s a = some t) : ¬LegacyOnSchedule n t := by
  cases a with
  | work i =>
    obtain ⟨worker,found,mapped⟩ := Option.bind_eq_some_iff.mp taken
    obtain ⟨next,advanced,rfl⟩ := Option.map_eq_some_iff.mp mapped
    rw [legacyLimited_eq limit] at advanced
    exact set_late found (advance_late · advanced) late
  | fail i =>
    obtain ⟨worker,found,mapped⟩ := Option.bind_eq_some_iff.mp taken
    obtain ⟨next,failed,rfl⟩ := Option.map_eq_some_iff.mp mapped
    exact set_late found (fail_late · failed) late
  | supervise turn =>
    obtain ⟨tended,told⟩ := legacySupervise_tended taken
    exact tended.late told late
  | stop =>
    obtain rfl := Option.some.inj taken
    exact (Tended.refl _).late (fun _ => rfl) late
  | setPaused paused =>
    obtain rfl := Option.some.inj taken
    exact late
  | tick time =>
    obtain rfl := Option.some.inj taken
    exact late

theorem legacy_breaks (limit : cfg.maxIterations = some n) (kept : LegacyOnSchedule n s)
    (untimely : ¬LegacyInTime cfg n s a) (taken : GracefulStop.step cfg s a = some t) :
    ¬LegacyOnSchedule n t := by
  intro after
  apply untimely
  cases a with
  | work i =>
    intro worker found enters
    obtain ⟨other,found',mapped⟩ := Option.bind_eq_some_iff.mp taken
    obtain ⟨next,advanced,rfl⟩ := Option.map_eq_some_iff.mp mapped
    obtain rfl := Option.some.inj (found.symm.trans found')
    rw [legacyLimited_eq limit] at advanced
    exact due_of_set after found advanced enters
  | fail i =>
    intro worker found
    obtain ⟨other,found',mapped⟩ := Option.bind_eq_some_iff.mp taken
    obtain ⟨next,failed,rfl⟩ := Option.map_eq_some_iff.mp mapped
    obtain rfl := Option.some.inj (found.symm.trans found')
    exact enough_of_set after kept found failed
  | supervise turn =>
    intro u taken'
    obtain rfl := Option.some.inj (taken.symm.trans taken')
    exact stopsLast_of_onSchedule after
  | stop =>
    obtain rfl := Option.some.inj taken
    exact stopsLast_of_onSchedule after
  | setPaused paused => trivial
  | tick time => trivial

/-- A legacy run that is over has told all workers to stop. -/
def ToldAll (s : GracefulStop.State) : Prop :=
  s.stopped = true ∨ s.supervisor = .loopTop ∨ s.supervisor = .commands ∨ s.supervisor = .scaling

theorem ToldAll.of_ending (told : ToldAll s) (ending : s.supervisor ≠ .loopTop ∧
    s.supervisor ≠ .commands ∧ s.supervisor ≠ .scaling) : s.stopped = true := by
  simpa [ToldAll,ending] using told

theorem supervise_toldAll {turn : GracefulStop.Turn} (legacy : cfg.mode = .legacy) (told : ToldAll s)
    (taken : GracefulStop.supervise cfg s turn = some t) : ToldAll t := by
  unfold GracefulStop.supervise at taken
  split at taken
  next elapsed reached =>
    split at taken <;> obtain rfl := Option.some.inj taken
    · exact .inl (by simp [GracefulStop.leaveLoop,legacy])
    · exact .inr (.inr (.inl rfl))
  next command reached =>
    obtain rfl := Option.some.inj taken
    unfold GracefulStop.applyCommand
    split
    · exact told
    · exact told
    · exact told
    · exact told
    · exact .inl (by simp [GracefulStop.leaveLoop])
  next reached =>
    obtain rfl := Option.some.inj taken
    exact .inr (.inr (.inr rfl))
  next elapsed throttled reached =>
    obtain rfl := Option.some.inj taken
    exact .inr (.inl rfl)
  next next reached =>
    have stopped := told.of_ending (by simp [reached])
    split at taken <;> (obtain rfl := Option.some.inj taken; exact .inl stopped)
  next stopStart reached =>
    have stopped := told.of_ending (by simp [reached])
    split at taken <;> (obtain rfl := Option.some.inj taken; exact .inl stopped)
  next stopStart reached =>
    have stopped := told.of_ending (by simp [reached])
    split at taken
    · obtain rfl := Option.some.inj taken
      exact .inl stopped
    · cases taken
  next stopStart reached =>
    obtain rfl := Option.some.inj taken
    exact .inl (told.of_ending (by simp [reached]))
  next => cases taken

theorem step_toldAll (legacy : cfg.mode = .legacy) (s : GracefulStop.State) (a : GracefulStop.Action)
    (t : GracefulStop.State) (told : ToldAll s) (taken : GracefulStop.step cfg s a = some t) :
    ToldAll t := by
  cases a with
  | work i =>
    obtain ⟨worker,-,mapped⟩ := Option.bind_eq_some_iff.mp taken
    obtain ⟨next,-,rfl⟩ := Option.map_eq_some_iff.mp mapped
    exact told
  | fail i =>
    obtain ⟨worker,-,mapped⟩ := Option.bind_eq_some_iff.mp taken
    obtain ⟨next,-,rfl⟩ := Option.map_eq_some_iff.mp mapped
    exact told
  | supervise turn => exact supervise_toldAll legacy told taken
  | stop =>
    obtain rfl := Option.some.inj taken
    exact .inl rfl
  | setPaused paused =>
    obtain rfl := Option.some.inj taken
    exact told
  | tick time =>
    obtain rfl := Option.some.inj taken
    exact told

/-- In legacy mode nothing waits for the last iterations, so that they have to be over when the
report is merged. -/
theorem legacy_exactly {actions : List GracefulStop.Action} (legacy : cfg.mode = .legacy)
    (limit : cfg.maxIterations = some n)
    (run : exec (GracefulStop.step cfg) GracefulStop.initial (actions ++ [.supervise .merge]) = some s) :
    (∀ worker ∈ s.pool.workers, Exactly n worker) ↔
      Guarded (GracefulStop.step cfg) (LegacyInTime cfg n) GracefulStop.initial
        (actions ++ [.supervise .merge]) ∧
      ∀ worker ∈ s.pool.workers, worker.pc ≠ .iterating := by
  have start : LegacyOnSchedule n GracefulStop.initial := by
    intro worker member
    cases member
  have told : ToldAll s := exec_invariant ToldAll (step_toldAll legacy) run (.inr (.inl rfl))
  obtain ⟨u,-,merged⟩ := exec_snoc_iff.mp run
  have stopped : s.stopped = true := by
    cases supervisor : u.supervisor <;>
      simp only [GracefulStop.step,GracefulStop.supervise,supervisor,Option.some.injEq,reduceCtorEq] at merged
    subst merged
    exact told.of_ending (by simp)
  rw [← last_iff_guarded (fun s a t => legacy_onSchedule limit) (fun s a t => legacy_breaks limit)
    (fun s a t => legacy_late limit) start run,LegacyOnSchedule,AllOnSchedule,← forall₂_and]
  refine forall₂_congr fun worker member => ?_
  exact exactly_iff s.stopped (.inl stopped)

/-- A run that is limited to `n` iterations and has no duration and no schedule. -/
def bounded (workers : Option Nat) (n : UInt64) : LoadOptions where
  executor := some .perWorkerIterations
  workers
  iterations := some n

/-- Every worker does exactly `n` iterations in the runs whose steps are all in time, and in no
others: in a scenario, and in legacy mode with the last iterations over at the end. -/
theorem exactly_iff_inTime (workers : Option Nat) (n : UInt64) :
    (∀ actions s, exec (step (bounded workers n)) (initial (bounded workers n)) actions = some s →
      s.supervisor = .finished →
      ((∀ worker ∈ s.workers, Exactly n.toNat worker) ↔
        Guarded (step (bounded workers n)) (InTime (bounded workers n) n.toNat)
          (initial (bounded workers n)) actions)) ∧
    (∀ stop, ∃ cfg, legacySettings (bounded workers n) stop = some cfg ∧ ∀ actions s,
      exec (GracefulStop.step cfg) GracefulStop.initial (actions ++ [.supervise .merge]) = some s →
      ((∀ worker ∈ s.pool.workers, Exactly n.toNat worker) ↔
        Guarded (GracefulStop.step cfg) (LegacyInTime cfg n.toNat) GracefulStop.initial
          (actions ++ [.supervise .merge]) ∧
        ∀ worker ∈ s.pool.workers, worker.pc ≠ .iterating)) := by
  constructor
  · intro actions s run finished
    exact scenario_exactly rfl run finished
  · intro stop
    have parsed : parseDuration "10s" = some (Duration.fromSecs 10) := by decide +kernel
    refine ⟨_,by rw [legacySettings,scheduleLegacy]; simp [bounded,durationText,parsed]; rfl,?_⟩
    intro actions s run
    exact legacy_exactly rfl rfl run

instance (n : Nat) (worker : Worker) : Decidable (Exactly n worker) :=
  inferInstanceAs (Decidable (_ ∧ _))

/-- One worker begins the first of two iterations, which takes longer than ten seconds. -/
def slowIterations : List Action :=
  [.work 0,.work 0,.work 0,.work 0,.tick (Duration.fromSecs 11),.supervise,.supervise,.supervise,
    .work 0,.work 0,.work 0,.work 0,.supervise]

theorem slow_iterations_cut :
    ∃ s, exec (step (bounded none 2)) (initial (bounded none 2)) slowIterations = some s ∧
      s.supervisor = .finished ∧ (∀ a ∈ slowIterations, a ≠ .stop) ∧
      ¬∀ worker ∈ s.workers, Exactly 2 worker := by
  decide +kernel

/-- One worker has done its only iteration when the time is over. -/
def fastIteration : List Action :=
  [.work 0,.work 0,.work 0,.work 0,.work 0,.work 0,.tick (Duration.fromSecs 10),.supervise,
    .supervise,.supervise,.supervise]

def legacyIteration : List GracefulStop.Action :=
  [.supervise (.check 0),.supervise .noCommand,.supervise (.scale 0 false),.work 0,.work 0,.work 0,
    .work 0,.work 0,.work 0,.supervise (.check (Duration.fromSecs 10)),.supervise .clear,
    .supervise .clear,.supervise .wait]

theorem fast_iteration_inTime :
    Guarded (step (bounded none 1)) (InTime (bounded none 1) 1) (initial (bounded none 1)) fastIteration ∧
    ∃ cfg, legacySettings (bounded none 1) none = some cfg ∧
      Guarded (GracefulStop.step cfg) (LegacyInTime cfg 1) GracefulStop.initial
        (legacyIteration ++ [.supervise .merge]) := by
  constructor
  · have ended : ∃ s, exec (step (bounded none 1)) (initial (bounded none 1)) fastIteration = some s ∧
        s.supervisor = .finished ∧ ∀ worker ∈ s.workers, Exactly 1 worker := by decide +kernel
    obtain ⟨s,run,finished,exactly⟩ := ended
    exact ((exactly_iff_inTime none 1).1 fastIteration s run finished).mp exactly
  · obtain ⟨cfg,same,iff⟩ := (exactly_iff_inTime none 1).2 none
    have settings : legacySettings (bounded none 1) none = some ⟨.legacy,
      [(0,1),(Duration.fromSecs 10,1)],Duration.fromSecs 10,some 1,none⟩ := by rfl
    obtain rfl := Option.some.inj (same.symm.trans settings)
    have ended : ∃ s, exec (GracefulStop.step ⟨.legacy,
        [(0,1),(Duration.fromSecs 10,1)],Duration.fromSecs 10,some 1,none⟩) GracefulStop.initial
          (legacyIteration ++ [.supervise .merge]) = some s ∧
        ∀ worker ∈ s.pool.workers, Exactly 1 worker := by decide +kernel
    obtain ⟨s,run,exactly⟩ := ended
    exact ⟨_,settings,((iff legacyIteration s run).mp exactly).1⟩

end Legacy

end Fusillade.Engine.IterationLimit
