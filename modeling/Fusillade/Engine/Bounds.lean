import Fusillade.Engine.WorkerIds
import Fusillade.Engine.IterationLimit

/-! How many workers of a run are alive at once, and how many iterations they begin. The clock
of a supervising thread does not go back, and a sleep can end late but not early: the bounds of
the executors that look at the clock rest on that alone. -/
namespace Fusillade.Engine

open Machine Executor
open SharedIterations (executed)

/-- What a turn reads of the clock, first and last, and how long it sleeps after that. -/
structure Reading where
  first : Duration
  last : Duration
  sleep : Duration

namespace Crew

/-- The first component is the time before which the next turn does not begin. -/
def pacedStep (crew : Crew) (reading : crew.Action → Option Reading) (s : Duration × crew.State)
    (a : crew.Action) : Option (Duration × crew.State) :=
  match reading a with
  | none => (crew.step s.2 a).map (s.1,·)
  | some turn =>
    if s.1 ≤ turn.first ∧ turn.first ≤ turn.last then
      (crew.step s.2 a).map (turn.last + turn.sleep,·)
    else none

variable {crew : Crew} {reading : crew.Action → Option Reading} {s t : Duration × crew.State}
  {a : crew.Action}

/-- A step of a paced crew is a step of the crew, at its time. -/
theorem pacedStep_cases (taken : crew.pacedStep reading s a = some t) :
    crew.step s.2 a = some t.2 ∧ ((reading a = none ∧ t.1 = s.1) ∨ ∃ turn, reading a = some turn ∧
      s.1 ≤ turn.first ∧ turn.first ≤ turn.last ∧ t.1 = turn.last + turn.sleep) := by
  unfold pacedStep at taken
  split at taken
  next free =>
    obtain ⟨next,stepped,rfl⟩ := Option.map_eq_some_iff.mp taken
    exact ⟨stepped,.inl ⟨free,rfl⟩⟩
  next turn read =>
    split at taken
    next ordered =>
      obtain ⟨next,stepped,rfl⟩ := Option.map_eq_some_iff.mp taken
      exact ⟨stepped,.inr ⟨turn,read,ordered.1,ordered.2,rfl⟩⟩
    next => contradiction

theorem pacedStep_settled (s : Duration × crew.State) (a : crew.Action) (t : Duration × crew.State)
    (valid : crew.Settled s.2) (taken : crew.pacedStep reading s a = some t) :
    crew.Settled t.2 ∧ crew.load t.2 = crew.load s.2 :=
  crew.step_settled s.2 a t.2 valid (pacedStep_cases taken).1

def paced (crew : Crew) (reading : crew.Action → Option Reading) : Crew where
  State := Duration × crew.State
  Action := crew.Action
  launch paused stopped := (0,crew.launch paused stopped)
  step := crew.pacedStep reading
  setPaused paused s := (s.1,crew.setPaused paused s.2)
  stop s := (s.1,crew.stop s.2)
  finished s := crew.finished s.2
  load s := crew.load s.2
  Settled s := crew.Settled s.2
  step_settled := pacedStep_settled
  setPaused_settled paused s := crew.setPaused_settled paused s.2
  stop_settled s := crew.stop_settled s.2

theorem Keeps.paced {holds : crew.State → Prop} (keeps : crew.Keeps holds)
    (reading : crew.Action → Option Reading) : (crew.paced reading).Keeps fun s => holds s.2 where
  launch := keeps.launch
  step s a t valid taken := keeps.step s.2 a t.2 valid (pacedStep_cases taken).1
  setPaused paused s := keeps.setPaused paused s.2
  stop s := keeps.stop s.2

end Crew

/-- A crew of which one sees how many workers are alive. -/
structure Watched where
  crew : Crew
  alive : crew.State → Nat

namespace Watched

variable {watched : Watched} {workers iterations : Nat}

def Within (watched : Watched) (workers iterations : Nat) (s : watched.crew.State) : Prop :=
  watched.alive s ≤ workers ∧ (watched.crew.load s).begun ≤ iterations

def Bounded (watched : Watched) (workers iterations : Nat) : Prop :=
  ∃ holds, watched.crew.Keeps holds ∧ ∀ s, holds s → watched.Within workers iterations s

/-- A run of the crew by itself leads there. -/
def Reaches (watched : Watched) (property : watched.crew.State → Prop) : Prop :=
  ∃ actions s, exec watched.crew.step (watched.crew.launch false false) actions = some s ∧ property s

/-- While the thread sleeps there are no workers. -/
def threadAlive (watched : Watched) : watched.crew.Thread → Nat
  | .sleeping _ _ => 0
  | .running s => watched.alive s

def thread (watched : Watched) : Watched := ⟨watched.crew.thread,watched.threadAlive⟩

theorem Bounded.thread (bounded : watched.Bounded workers iterations) :
    watched.thread.Bounded workers iterations := by
  obtain ⟨holds,keeps,within⟩ := bounded
  refine ⟨_,keeps.thread,fun s valid => ?_⟩
  cases s with
  | sleeping => exact ⟨Nat.zero_le _,Nat.zero_le _⟩
  | running s => exact within s valid

theorem Reaches.thread {property : watched.crew.State → Prop}
    {later : watched.thread.crew.State → Prop} (reaches : watched.Reaches property)
    (same : ∀ s, property s → later (Crew.Thread.running s)) : watched.thread.Reaches later := by
  obtain ⟨actions,s,run,reached⟩ := reaches
  refine ⟨none :: actions.map some,.running s,?_,same s reached⟩
  exact exec_cons_iff.mpr ⟨_,rfl,Crew.exec_thread run⟩

/-- When a crew never has a worker, and when it keeps to one worker and `most` iterations. -/
structure Sized (watched : Watched) (most : Nat) (Idle Small : Prop) : Prop where
  idle : Idle → watched.Bounded 0 0
  hires : ¬Idle → watched.Reaches fun s => 1 ≤ watched.alive s
  small : Small → watched.Bounded 1 most
  exceeds : ¬Idle → ¬Small → watched.Reaches fun s => ¬watched.Within 1 most s

theorem Sized.thread {most : Nat} {Idle Small : Prop} (sized : watched.Sized most Idle Small) :
    watched.thread.Sized most Idle Small where
  idle idle := (sized.idle idle).thread
  hires busy := (sized.hires busy).thread fun _ => id
  small small := (sized.small small).thread
  exceeds busy large := (sized.exceeds busy large).thread fun _ => id

end Watched

namespace Scenarios

variable {n : Nat} (watched : Fin n → Watched)

def alive (s : State fun i => (watched i).crew) : Nat := ∑ i, (watched i).alive (s.threads i)

def Within (workers iterations : Nat) (s : State fun i => (watched i).crew) : Prop :=
  alive watched s ≤ workers ∧ (load s).begun ≤ iterations

variable {watched} {most : Nat} {Idle Small : Fin n → Prop}

/-- A sum of which all terms but one are zero. -/
theorem sum_le_of_single {f : Fin n → Nat} {bound : Nat} (zero : ∀ i, f i = 0 ∨ f i ≤ bound)
    (single : ∀ i j, f i ≠ 0 → f j ≠ 0 → i = j) : ∑ i, f i ≤ bound := by
  by_cases nobody : ∀ i, f i = 0
  · rw [Finset.sum_eq_zero fun i _ => nobody i]
    exact Nat.zero_le _
  · obtain ⟨i,busy⟩ := not_forall.mp nobody
    rw [Fintype.sum_eq_single i fun j other => not_not.mp fun also => other (single j i also busy)]
    exact (zero i).resolve_left busy

theorem within_of_sized (sized : ∀ i, (watched i).Sized most (Idle i) (Small i))
    (each : ∀ i, Idle i ∨ Small i) (single : ∀ i j, ¬Idle i → ¬Idle j → i = j)
    {actions : List (Action fun i => (watched i).crew)} {s : State fun i => (watched i).crew}
    (run : exec step (initial fun i => (watched i).crew) actions = some s) : Within watched 1 most s := by
  have kept : ∀ i, ∃ holds, (watched i).crew.Keeps holds ∧ ∀ s, holds s →
      (Idle i ∧ (watched i).Within 0 0 s ∨ ¬Idle i ∧ (watched i).Within 1 most s) := by
    intro i
    by_cases idle : Idle i
    · obtain ⟨holds,keeps,within⟩ := (sized i).idle idle
      exact ⟨holds,keeps,fun s valid => .inl ⟨idle,within s valid⟩⟩
    · obtain ⟨holds,keeps,within⟩ := (sized i).small ((each i).resolve_left idle)
      exact ⟨holds,keeps,fun s valid => .inr ⟨idle,within s valid⟩⟩
  choose holds keeps within using kept
  have every i := within i _ (run_keeps keeps run i)
  have busy : ∀ i, (watched i).alive (s.threads i) ≠ 0 ∨
      ((watched i).crew.load (s.threads i)).begun ≠ 0 → ¬Idle i := by
    intro i positive idle
    rcases every i with ⟨-,alive,begun⟩ | ⟨other,-⟩
    · omega
    · exact other idle
  constructor
  · refine sum_le_of_single (fun i => ?_) fun i j here there =>
      single i j (busy i (.inl here)) (busy j (.inl there))
    exact (every i).imp (fun idle => Nat.le_zero.mp idle.2.1) fun small => small.2.1
  · refine sum_le_of_single (fun i => ?_) fun i j here there =>
      single i j (busy i (.inr here)) (busy j (.inr there))
    exact (every i).imp (fun idle => Nat.le_zero.mp idle.2.2) fun small => small.2.2

/-- What one thread has reached is a part of the whole. -/
theorem exceeds_of_thread {i : Fin n} {s : State fun i => (watched i).crew}
    (large : ¬(watched i).Within 1 most (s.threads i)) : ¬Within watched 1 most s := by
  rintro ⟨workers,iterations⟩
  refine large ⟨?_,?_⟩
  · exact (Finset.single_le_sum (f := fun i => (watched i).alive (s.threads i))
      (fun _ _ => Nat.zero_le _) (Finset.mem_univ i)).trans workers
  · exact (Finset.single_le_sum (f := fun i => ((watched i).crew.load (s.threads i)).begun)
      (fun _ _ => Nat.zero_le _) (Finset.mem_univ i)).trans iterations

theorem two_le_alive {i j : Fin n} {s : State fun i => (watched i).crew} (apart : i ≠ j)
    (here : 1 ≤ (watched i).alive (s.threads i)) (there : 1 ≤ (watched j).alive (s.threads j)) :
    2 ≤ alive watched s := by
  have both : ∑ k ∈ {i,j}, (watched k).alive (s.threads k) ≤ alive watched s :=
    Finset.sum_le_sum_of_subset (Finset.subset_univ _)
  rw [Finset.sum_pair apart] at both
  omega

/-- From the start, the run of one thread by itself. -/
theorem exec_initial_thread {crews : Fin n → Crew} {s : State crews} {i : Fin n}
    {actions : List (crews i).Action} {next : (crews i).State}
    (start : s.threads i = (crews i).launch false false)
    (run : exec (crews i).step ((crews i).launch false false) actions = some next) :
    exec step s (actions.map (Action.thread i)) = some { s with
      threads := Function.update s.threads i next } := exec_threads (start ▸ run)

/-- No command arrives. -/
def Uncontrolled (actions : List (Action fun i => (watched i).crew)) : Prop :=
  ∀ command, Action.command command ∉ actions

theorem exists_exceeding (sized : ∀ i, (watched i).Sized most (Idle i) (Small i))
    (large : ¬((∀ i, Idle i ∨ Small i) ∧ ∀ i j, ¬Idle i → ¬Idle j → i = j)) :
    ∃ actions s, Uncontrolled actions ∧
      exec step (initial fun i => (watched i).crew) actions = some s ∧ ¬Within watched 1 most s := by
  rcases not_and_or.mp large with one | two
  · obtain ⟨i,neither⟩ := not_forall.mp one
    obtain ⟨busy,large⟩ := not_or.mp neither
    obtain ⟨actions,next,run,reached⟩ := (sized i).exceeds busy large
    refine ⟨_,_,?_,exec_initial_thread rfl run,exceeds_of_thread (i := i) ?_⟩
    · simp [Uncontrolled]
    · simpa using reached
  · obtain ⟨i,j,here,there,apart⟩ : ∃ i j, ¬Idle i ∧ ¬Idle j ∧ i ≠ j := by simpa using two
    obtain ⟨first,s,run,mine⟩ := (sized i).hires here
    obtain ⟨second,t,run',yours⟩ := (sized j).hires there
    have begun := exec_initial_thread (s := initial fun i => (watched i).crew) rfl run
    generalize met : ({ initial (fun i => (watched i).crew) with
      threads := Function.update (initial fun i => (watched i).crew).threads i s } :
        State fun i => (watched i).crew) = middle at begun
    have mine' : middle.threads i = s := by simp [← met]
    have waiting : middle.threads j = (watched j).crew.launch false false := by
      simp [← met,apart.symm,initial]
    have ended := exec_initial_thread waiting run'
    refine ⟨_,_,by simp [Uncontrolled],exec_append_iff.mpr ⟨middle,begun,ended⟩,?_⟩
    rintro ⟨workers,-⟩
    refine absurd (Nat.le_trans (two_le_alive apart ?_ ?_) workers) (by decide)
    · simpa [apart,mine'] using mine
    · simpa using yours

/-- A run keeps to one worker and `most` iterations just when at most one scenario ever has a
worker, and that one keeps to them. -/
theorem within_iff (sized : ∀ i, (watched i).Sized most (Idle i) (Small i)) :
    (∀ actions s, Uncontrolled actions →
      exec step (initial fun i => (watched i).crew) actions = some s → Within watched 1 most s) ↔
    (∀ i, Idle i ∨ Small i) ∧ ∀ i j, ¬Idle i → ¬Idle j → i = j := by
  constructor
  · intro within
    by_contra large
    obtain ⟨actions,s,uncontrolled,run,exceeds⟩ := exists_exceeding sized large
    exact exceeds (within actions s uncontrolled run)
  · rintro small actions s - run
    exact within_of_sized sized small.1 small.2 run

end Scenarios

namespace Worker

/-- At most `most` iterations are done, and fewer while another one can begin. -/
def Below (most : Nat) (worker : Worker) : Prop :=
  worker.iterationCount ≤ most ∧
    (worker.pc ≠ .limitCheck → worker.pc ≠ .done → worker.iterationCount < most)

/-- What becomes of a worker between its own steps. -/
def Rests (worker next : Worker) : Prop :=
  next.iterationCount = worker.iterationCount ∧
    (next.pc = worker.pc ∨ worker.pc = .setup ∧ next.pc = .done)

variable {most : Nat} {worker next : Worker} {paused stopped limited : Bool}

theorem spawned_below (positive : 0 < most) : spawned.Below most := ⟨Nat.zero_le _,fun _ _ => positive⟩

theorem Below.executed_le (below : worker.Below most) : executed worker ≤ most := by
  unfold executed
  split
  next iterating =>
    have left := below.2 (by simp [iterating]) (by simp [iterating])
    omega
  next => exact below.1

theorem Below.rests (below : worker.Below most) (rests : worker.Rests next) : next.Below most := by
  obtain ⟨count,same | ⟨-,gone⟩⟩ := rests
  · rw [Below,count,same]
    exact below
  · exact ⟨count ▸ below.1,fun _ live => absurd gone live⟩

/-- The limit check lets no worker through that has done `most` iterations. -/
theorem Below.advance (below : worker.Below most)
    (limit : worker.pc = .limitCheck → worker.iterationCount = most → limited = true)
    (taken : worker.advance paused stopped limited = some next) : next.Below most := by
  obtain ⟨within,left⟩ := below
  unfold Worker.advance at taken
  split at taken
  case h_8 => contradiction
  case h_5 pc =>
    obtain rfl := Option.some.inj taken
    have more := left (by simp [pc]) (by simp [pc])
    exact ⟨more,by simp⟩
  case h_6 pc =>
    obtain rfl := Option.some.inj taken
    refine ⟨within,fun _ live => ?_⟩
    have going : limited = false := by
      by_contra on
      exact live (by simp [on])
    refine lt_of_le_of_ne within fun full => ?_
    rw [limit pc full] at going
    contradiction
  all_goals
    rename_i pc
    obtain rfl := Option.some.inj taken
    exact ⟨within,fun _ _ => left (by simp [pc]) (by simp [pc])⟩

def between (done : Nat) : Worker := ⟨.loopHead,true,done⟩

section Alone

variable {S A : Type} {own : S → A → Option S} {act : A} {alone : Nat → Worker → S}
  {limit : Nat → Worker → Bool} {claim : Nat → Nat}

/-- The step of the only worker of a crew, where the limit check reads and moves a counter. -/
def Works (own : S → A → Option S) (act : A) (alone : Nat → Worker → S)
    (limit : Nat → Worker → Bool) (claim : Nat → Nat) : Prop :=
  ∀ counter worker, own (alone counter worker) act =
    (worker.advance false false (limit counter worker)).map
      (alone (if worker.pc = .limitCheck then claim counter else counter))

theorem exec_iteration (works : Works own act alone limit claim) {counter k : Nat}
    (goes : limit counter ⟨.limitCheck,true,k + 1⟩ = false) :
    exec own (alone counter (between k)) (List.replicate 6 act) =
      some (alone (claim counter) (between (k + 1))) := by
  rw [Works] at works
  simp [List.replicate,exec_cons,between,Worker.advance,works,goes]

/-- The limit check comes after an iteration: the worker begins one more than it lets through. -/
theorem exec_past_limit (works : Works own act alone limit claim) (counter : Nat → Nat)
    (claims : ∀ k < most, claim (counter k) = counter (k + 1))
    (goes : ∀ k < most, limit (counter k) ⟨.limitCheck,true,k + 1⟩ = false) :
    ∃ actions, exec own (alone (counter 0) .spawned) actions =
      some (alone (counter most) ⟨.iterating,true,most⟩) := by
  have rounds := @exec_rounds _ _ own (fun k => alone (counter k) (between k)) (List.replicate 6 act) most
    fun k less => by rw [exec_iteration works (goes k less),claims k less]
  rw [Works] at works
  have first : exec own (alone (counter 0) .spawned) [act] = some (alone (counter 0) (between 0)) := by
    simp [exec_cons,works,spawned,Worker.advance,between]
  have last : exec own (alone (counter most) (between most)) (List.replicate 3 act) =
      some (alone (counter most) ⟨.iterating,true,most⟩) := by
    simp [List.replicate,exec_cons,works,Worker.advance,between]
  exact ⟨_,exec_append_iff.mpr ⟨_,first,exec_append_iff.mpr ⟨_,rounds,last⟩⟩⟩

end Alone

end Worker

namespace ClosedModel

open SharedIterations (State Action)

variable {n most : Nat} {cfg : SharedIterations.Settings} {limit : Option Nat} {s t : State n}
  {a : Action n}

theorem supervise_rests {elapsed : Bool} (taken : SharedIterations.supervise cfg s elapsed = some t) :
    t.sharedIterationCounter = s.sharedIterationCounter ∧ ∀ i, (s.workers i).Rests (t.workers i) := by
  have still : ∀ i, (s.workers i).Rests (s.workers i) := fun i => ⟨rfl,.inl rfl⟩
  unfold SharedIterations.supervise at taken
  split at taken
  next => (repeat' split at taken) <;> (obtain rfl := Option.some.inj taken; exact ⟨rfl,still⟩)
  next next ending reached =>
    split at taken
    next inside =>
      obtain rfl := Option.some.inj taken
      refine ⟨rfl,fun i => ?_⟩
      by_cases here : i = ⟨next,inside⟩
      · subst i
        simp [State.setWorker,Worker.Rests]
      · simp [State.setWorker,here,Worker.Rests]
    next =>
      obtain rfl := Option.some.inj taken
      exact ⟨rfl,still⟩
  next =>
    split at taken
    · obtain rfl := Option.some.inj taken
      exact ⟨rfl,still⟩
    · contradiction
  next => contradiction

/-- All steps but those of the workers leave the counts alone. -/
theorem shared_rests (other : ∀ i, a ≠ .work i) (taken : SharedIterations.step cfg s a = some t) :
    t.sharedIterationCounter = s.sharedIterationCounter ∧ ∀ i, (s.workers i).Rests (t.workers i) := by
  have still : ∀ i, (s.workers i).Rests (s.workers i) := fun i => ⟨rfl,.inl rfl⟩
  cases a with
  | work i => exact absurd rfl (other i)
  | fail i =>
    obtain ⟨next,failed,rfl⟩ := Option.map_eq_some_iff.mp taken
    obtain ⟨pc,rfl⟩ := Worker.fail_cases failed
    refine ⟨rfl,fun j => ?_⟩
    by_cases here : j = i
    · subst j
      simp [State.setWorker,Worker.Rests,pc]
    · simp [State.setWorker,here,Worker.Rests]
  | supervise elapsed => exact supervise_rests taken
  | setPaused paused =>
    obtain rfl := Option.some.inj taken
    exact ⟨rfl,still⟩
  | stop =>
    obtain rfl := Option.some.inj taken
    exact ⟨rfl,still⟩

theorem perWorker_rests (other : ∀ i, a ≠ .work i) (taken : perWorkerStep limit s a = some t) :
    ∀ i, (s.workers i).Rests (t.workers i) := by
  cases a with
  | work i => exact absurd rfl (other i)
  | supervise elapsed =>
    simp only [perWorkerStep] at taken
    split at taken
    next =>
      (repeat' split at taken) <;> (obtain rfl := Option.some.inj taken; exact fun i => ⟨rfl,.inl rfl⟩)
    next => exact (supervise_rests taken).2
  | fail i => exact (@shared_rests n ⟨n,none⟩ s t (.fail i) (by simp) taken).2
  | setPaused paused => exact (@shared_rests n ⟨n,none⟩ s t (.setPaused paused) (by simp) taken).2
  | stop => exact (@shared_rests n ⟨n,none⟩ s t .stop (by simp) taken).2

theorem setWorker_below {i : Fin n} {next : Worker} (all : ∀ i, (s.workers i).Below most)
    (below : next.Below most) : ∀ j, ((s.setWorker i next).workers j).Below most := by
  intro j
  by_cases here : j = i
  · subst j
    simpa [State.setWorker] using below
  · simpa [State.setWorker,here] using all j

theorem perWorker_keeps {m : Nat} (positive : 0 < most) (within : m ≤ most) :
    (perWorkerCrew n (some m)).Keeps fun s => ∀ i, (s.workers i).Below most where
  launch _ _ _ := Worker.spawned_below positive
  step s a t all taken := by
    simp only [perWorkerCrew,crew] at taken
    split at taken
    next =>
      by_cases works : ∃ i, a = .work i
      · obtain ⟨i,rfl⟩ := works
        obtain ⟨next,advanced,rfl⟩ := Option.map_eq_some_iff.mp taken
        refine setWorker_below all ((all i).advance (fun _ full => ?_) advanced)
        simpa [full] using within
      · exact fun i => (all i).rests (perWorker_rests (fun i same => works ⟨i,same⟩) taken i)
    next => contradiction
  setPaused _ _ all := all
  stop _ all := all

/-- The only worker of a shared pool has claimed its iterations, but for the one it is checking. -/
structure Claimed (most : Nat) (s : State n) : Prop where
  below : ∀ i, (s.workers i).Below most
  claimed : ∀ i, s.sharedIterationCounter + (if (s.workers i).pc = .limitCheck then 1 else 0) =
    (s.workers i).iterationCount

theorem shared_work_claimed [Subsingleton (Fin n)] {i : Fin n} (fits : most < 2^64)
    (small : SharedIterations.totalSharedIterations cfg < most) (valid : Claimed most s)
    (taken : SharedIterations.work cfg s i = some t) : Claimed most t := by
  obtain ⟨next,advanced,rfl⟩ := Option.map_eq_some_iff.mp taken
  have claimed := valid.claimed i
  have below : next.Below most := by
    refine (valid.below i).advance (fun pc full => ?_) advanced
    rw [if_pos pc] at claimed
    simp only [ge_iff_le,decide_eq_true_eq]
    omega
  have within := (valid.below i).1
  refine ⟨setWorker_below valid.below below,fun j => ?_⟩
  obtain rfl := Subsingleton.elim j i
  simp only [State.setWorker,Function.update_self]
  unfold Worker.advance at advanced
  cases pc : (s.workers j).pc <;> simp only [pc] at advanced claimed ⊢
  case done => contradiction
  all_goals obtain rfl := Option.some.inj advanced
  case limitCheck =>
    have wraps : (s.sharedIterationCounter + 1) % 2^64 = s.sharedIterationCounter + 1 :=
      Nat.mod_eq_of_lt (by simp only [if_true] at claimed; omega)
    simp only [if_true,wraps] at claimed ⊢
    split <;> simpa using claimed
  case loopHead | pausing | stopCheck =>
    simp only [reduceCtorEq,if_false] at claimed ⊢
    split <;> simpa using claimed
  all_goals simpa using claimed

theorem shared_keeps [Subsingleton (Fin n)] (positive : 0 < most) (fits : most < 2^64)
    {iterations : Option UInt64} (small : SharedIterations.totalSharedIterations ⟨n,iterations⟩ < most) :
    (sharedCrew ⟨n,iterations⟩).Keeps (Claimed most) where
  launch _ _ := ⟨fun _ => Worker.spawned_below positive,fun _ => rfl⟩
  step s a t valid taken := by
    simp only [sharedCrew,crew] at taken
    split at taken
    next =>
      by_cases works : ∃ i, a = .work i
      · obtain ⟨i,rfl⟩ := works
        exact shared_work_claimed fits small valid taken
      · obtain ⟨counter,rests⟩ := shared_rests (fun i same => works ⟨i,same⟩) taken
        refine ⟨fun i => (valid.below i).rests (rests i),fun i => ?_⟩
        have claimed := valid.claimed i
        obtain ⟨count,same | ⟨setup,gone⟩⟩ := rests i
        · rw [counter,count,same]
          exact claimed
        · rw [counter,count,gone]
          simpa [setup] using claimed
    next => contradiction
  setPaused _ _ valid := ⟨valid.below,valid.claimed⟩
  stop _ valid := ⟨valid.below,valid.claimed⟩

theorem workerIds_length_le (s : State n) : (workerIds s).length ≤ n := by
  rw [workerIds,List.length_map]
  exact (List.length_filter_le _ _).trans (List.length_finRange).le

theorem workerIds_launch (n : Nat) : (workerIds (initial n false false)).length = n := by
  simp [workerIds,initial,Worker.spawned]

theorem begun_le (below : ∀ i, (s.workers i).Below most) : (load s).begun ≤ n * most := by
  have each : ∀ i ∈ Finset.univ, executed (s.workers i) ≤ most := fun i _ => (below i).executed_le
  simpa [load,Family.total] using Finset.sum_le_card_nsmul Finset.univ _ most each

def watched (n : Nat) (limits : State n → Action n → Option (State n))
    (settles : ∀ s a t, Settled s → limits s a = some t → Settled t ∧ load t = load s) : Watched :=
  ⟨crew n limits settles,fun s : State n => (workerIds s).length⟩

def sharedWatched (cfg : SharedIterations.Settings) : Watched :=
  ⟨sharedCrew cfg,fun s : State cfg.workers => (workerIds s).length⟩

def perWorkerWatched (workers : Nat) (maxIterations : Option Nat) : Watched :=
  ⟨perWorkerCrew workers maxIterations,fun s : State workers => (workerIds s).length⟩

section Watched

variable {limits : State n → Action n → Option (State n)}
  {settles : ∀ s a t, Settled s → limits s a = some t → Settled t ∧ load t = load s} {Fits : Prop}

theorem watched_idle (nobody : n = 0) : (watched n limits settles).Bounded 0 0 := by
  subst nobody
  refine ⟨fun _ => True,⟨fun _ _ => trivial,fun _ _ _ _ _ => trivial,fun _ _ _ => trivial,
    fun _ _ => trivial⟩,fun s _ => ⟨workerIds_length_le s,?_⟩⟩
  have none : (load s).begun ≤ 0 * 0 := begun_le fun i => i.elim0
  exact none.trans_eq (Nat.zero_mul 0)

theorem watched_launch {count : Nat} (more : count < n) :
    (watched n limits settles).Reaches fun s => count < (watched n limits settles).alive s := by
  refine ⟨[],_,rfl,?_⟩
  change count < (workerIds (initial n false false)).length
  rwa [workerIds_launch]

/-- The workers are all there from the start, so that all depends on the only one. -/
theorem watched_sized
    (keeps : n ≤ 1 → Fits → ∃ holds, (crew n limits settles).Keeps holds ∧
      ∀ s : State n, holds s → ∀ i, (s.workers i).Below most)
    (exceeds : n = 1 → ¬Fits →
      (watched n limits settles).Reaches fun s : State n => most < (load s).begun) :
    (watched n limits settles).Sized most (n = 0) (n ≤ 1 ∧ Fits) where
  idle := watched_idle
  hires somebody := watched_launch (Nat.pos_of_ne_zero somebody)
  small := by
    rintro ⟨one,fits⟩
    obtain ⟨holds,keeps,below⟩ := keeps one fits
    refine ⟨holds,keeps,fun s valid => ⟨(workerIds_length_le s).trans one,?_⟩⟩
    have few : (load s).begun ≤ n * most := begun_le (below s valid)
    exact few.trans ((Nat.mul_le_mul_right most one).trans_eq (Nat.one_mul most))
  exceeds := by
    intro somebody large
    by_cases two : 1 < n
    · obtain ⟨actions,s,run,more⟩ := @watched_launch n limits settles 1 two
      exact ⟨actions,s,run,fun within => absurd within.1 (Nat.not_le.mpr more)⟩
    · obtain ⟨actions,s,run,more⟩ := exceeds (by omega) fun fits => large ⟨by omega,fits⟩
      exact ⟨actions,s,run,fun within => absurd within.2 (Nat.not_le.mpr more)⟩

end Watched

/-- A crew of one worker, while nothing stops it. -/
def alone (counter : Nat) (worker : Worker) : State 1 where
  workers _ := worker
  sharedIterationCounter := counter
  paused := false
  stopped := false
  supervisor := .polling

theorem alone_setWorker (counter : Nat) (worker next : Worker) :
    (alone counter worker).setWorker 0 next = alone counter next := by
  rw [State.setWorker,alone,Function.update_eq_const_of_subsingleton]
  rfl

theorem alone_begun (counter : Nat) : most < (load (alone counter ⟨.iterating,true,most⟩)).begun := by
  simp [load,Family.total,alone,executed]

theorem perWorker_works (limit : Option Nat) :
    Worker.Works (S := State 1) (A := Action 1) (perWorkerCrew 1 limit).step (.work 0) alone
      (fun _ worker => limit.any (worker.iterationCount ≥ ·)) id := by
  intro counter worker
  change (worker.advance false false (limit.any (worker.iterationCount ≥ ·))).map
    ((alone counter worker).setWorker 0) = _
  rw [funext (alone_setWorker counter worker),id,ite_self]

theorem shared_works (iterations : Option UInt64) :
    Worker.Works (S := State 1) (A := Action 1) (sharedCrew ⟨1,iterations⟩).step (.work 0) alone
      (fun counter _ => decide (counter ≥ SharedIterations.totalSharedIterations ⟨1,iterations⟩))
      (fun counter => (counter + 1) % 2^64) := by
  intro counter worker
  change (worker.advance false false
    (decide (counter ≥ SharedIterations.totalSharedIterations ⟨1,iterations⟩))).map (fun next : Worker =>
      { (alone counter worker).setWorker 0 next with
        sharedIterationCounter :=
          if worker.pc = WorkerPc.limitCheck then (counter + 1) % 2^64 else counter }) = _
  simp only [alone_setWorker]
  rfl

theorem perWorker_sized (positive : 0 < most) :
    (perWorkerWatched n limit).Sized most (n = 0) (n ≤ 1 ∧ ∃ m ≤ most, limit = some m) := by
  refine @watched_sized n most (perWorkerStep limit) perWorker_settled _ ?_ ?_
  · rintro - ⟨m,within,rfl⟩
    exact ⟨_,perWorker_keeps positive within,fun _ => id⟩
  · rintro rfl unlimited
    have goes : ∀ k < most, limit.any (k + 1 ≥ ·) = false := by
      intro k less
      cases limit with
      | none => rfl
      | some m =>
        have large : most < m := by
          by_contra fits
          exact unlimited ⟨m,by omega,rfl⟩
        simp only [Option.any_some,decide_eq_false_iff_not]
        omega
    obtain ⟨actions,run⟩ :=
      Worker.exec_past_limit (perWorker_works limit) (fun _ => 0) (fun _ _ => rfl) goes
    exact ⟨actions,_,run,alone_begun 0⟩

theorem shared_sized (positive : 0 < most) (fits : most < 2^64) {iterations : Option UInt64} :
    (sharedWatched ⟨n,iterations⟩).Sized most (n = 0)
      (n ≤ 1 ∧ SharedIterations.totalSharedIterations ⟨n,iterations⟩ < most) := by
  refine @watched_sized n most (SharedIterations.step ⟨n,iterations⟩) shared_settled _ ?_ ?_
  · intro one small
    have single : Subsingleton (Fin n) := Fin.subsingleton_iff_le_one.mpr one
    exact ⟨_,shared_keeps positive fits small,fun _ => Claimed.below⟩
  · rintro rfl large
    have total := SharedIterations.totalSharedIterations_lt ⟨1,iterations⟩
    have claims : ∀ k < most, (k + 1) % 2^64 = k + 1 := fun k less => Nat.mod_eq_of_lt (by omega)
    have goes : ∀ k < most,
        decide (k ≥ SharedIterations.totalSharedIterations ⟨1,iterations⟩) = false := by
      intro k less
      simp only [decide_eq_false_iff_not]
      omega
    obtain ⟨actions,run⟩ := Worker.exec_past_limit (shared_works iterations) id claims goes
    exact ⟨actions,_,run,alone_begun most⟩

end ClosedModel

namespace ArrivalModel

open ArrivalRate (Settings dispatchInterval currentRate Attempts afterAttempt)

variable {n most : Nat} {cfg : Settings}

/-- A turn of the dispatcher ends with a sleep of the interval. -/
def reading (cfg : Settings) : Action n → Option Reading
  | .base (.dispatch elapsed rampElapsed) => some {
      first := elapsed
      last := rampElapsed
      sleep := (dispatchInterval cfg.timeUnit (currentRate cfg rampElapsed)).getD 0 }
  | _ => none

def watched (cfg : Settings) : Watched :=
  ⟨(crew cfg).paced (reading cfg),fun s : Duration × State cfg.workers => (workerIds s.2).length⟩

/-- The dispatcher can make so many turns within the duration, and the next one from `due` on. -/
inductive Dispatches (cfg : Settings) : Nat → Duration → Prop where
  | start : Dispatches cfg 0 0
  | turn {count : Nat} {due elapsed rampElapsed interval : Duration} (before : Dispatches cfg count due)
      (slept : due ≤ elapsed) (ordered : elapsed ≤ rampElapsed) (within : elapsed < cfg.duration)
      (found : dispatchInterval cfg.timeUnit (currentRate cfg rampElapsed) = some interval) :
      Dispatches cfg (count + 1) (rampElapsed + interval)

theorem Dispatches.fewer {count : Nat} {due : Duration} (dispatches : Dispatches cfg count due) :
    ∀ fewer ≤ count, ∃ due, Dispatches cfg fewer due := by
  induction dispatches with
  | start =>
    intro fewer none
    obtain rfl := Nat.le_zero.mp none
    exact ⟨0,.start⟩
  | @turn count _ _ _ _ before slept ordered within found ih =>
    intro fewer most
    rcases Nat.le_succ_iff.mp most with less | rfl
    · exact ih fewer less
    · exact ⟨_,before.turn slept ordered within found⟩

/-- Nothing is dispatched, and no more is begun than was waiting. -/
structure Stays (s t : ArrivalRate.State n) : Prop where
  load : begun t + t.queue.length ≤ begun s + s.queue.length
  counter : t.iterationCounter = s.iterationCounter
  dispatching : t.dispatcher = .dispatching → s.dispatcher = .dispatching

section Base

variable {s t : ArrivalRate.State n} {i : Fin n}

theorem stays_of_same (load : begun t = begun s) (queue : t.queue = s.queue)
    (counter : t.iterationCounter = s.iterationCounter) (dispatcher : t.dispatcher = s.dispatcher) :
    Stays s t :=
  ⟨by rw [load,queue],counter,fun reached => dispatcher ▸ reached⟩

theorem setWorker_stays {next : ArrivalRate.Worker} (same : inIteration next = inIteration (s.workers i)) :
    Stays s (s.setWorker i next) := stays_of_same (begun_moves rfl rfl same) rfl rfl rfl

theorem worked_stays (worked : ArrivalRate.Worked s i t) : Stays s t := by
  cases worked with
  | moves next before after =>
    exact setWorker_stays ((idle_inIteration after).trans (idle_inIteration before).symm)
  | receives iteration rest front before =>
    have gained := Family.total_gain (f := inIteration) (g := s.workers) (i := i) (.executing iteration)
      (idle_inIteration before)
    refine ⟨?_,rfl,id⟩
    simp only [begun,ArrivalRate.State.setWorker,gained,front,List.length_cons,inIteration]
    omega
  | executes iteration holding => exact stays_of_same (begun_executes holding rfl rfl) rfl rfl rfl
  | completes iteration holding =>
    exact stays_of_same (@begun_moves _ s _ i .loopHead rfl rfl (by rw [holding]; rfl)) rfl rfl rfl

theorem finish_stays (taken : ArrivalRate.finish s = some t) : Stays s t := by
  obtain ⟨ended,queue,workers,executed,-⟩ := finish_cases taken
  refine ⟨by rw [begun,begun,queue,workers,executed],?_,fun reached => absurd reached ended⟩
  unfold ArrivalRate.finish at taken
  split at taken
  case h_6 =>
    split at taken
    · obtain rfl := Option.some.inj taken
      rfl
    · contradiction
  case h_7 => contradiction
  all_goals
    obtain rfl := Option.some.inj taken
    rfl

end Base

variable {s t : State n} {a : Action n}

/-- A step dispatches a number, or none. -/
theorem step_cases (taken : step cfg s a = some t) : Stays s.base t.base ∨
    ∃ elapsed rampElapsed, a = .base (.dispatch elapsed rampElapsed) ∧
      Attempts cfg s.base (.dispatch elapsed rampElapsed) ∧
      begun t.base + t.base.queue.length ≤ begun s.base + s.base.queue.length + 1 ∧
      t.base.iterationCounter = s.base.iterationCounter + 1 ∧
      t.base.dispatcher = afterAttempt cfg (s.base.iterationCounter + 1) := by
  match a with
  | .base (.work i) =>
    simp only [step] at taken
    split at taken
    next stops =>
      obtain rfl := Option.some.inj taken
      exact .inl (setWorker_stays (by rw [stops.2]; rfl))
    next =>
      obtain ⟨base,worked,rfl⟩ := Option.map_eq_some_iff.mp taken
      exact .inl (worked_stays (ArrivalRate.work_cases worked).2)
  | .base (.fail i) =>
    simp only [step,ArrivalRate.step] at taken
    split at taken
    next setup =>
      obtain rfl := Option.some.inj taken
      exact .inl (setWorker_stays (by rw [setup]; rfl))
    next => contradiction
  | .base (.dispatch elapsed rampElapsed) =>
    simp only [step] at taken
    split at taken
    next stops =>
      obtain rfl := Option.some.inj taken
      exact .inl ⟨Nat.le_refl _,rfl,fun _ => stops.2⟩
    next =>
      obtain ⟨base,dispatched,rfl⟩ := Option.map_eq_some_iff.mp taken
      obtain ⟨reached,dispatched⟩ := ArrivalRate.dispatch_cases dispatched
      cases dispatched with
      | leaves => exact .inl ⟨Nat.le_refl _,rfl,fun _ => reached⟩
      | panics => exact .inl ⟨Nat.le_refl _,rfl,fun _ => reached⟩
      | accepts attempts =>
        refine .inr ⟨_,_,rfl,attempts,?_,rfl,rfl⟩
        simp only [begun,List.length_append,List.length_singleton]
        omega
      | drops attempts => exact .inr ⟨_,_,rfl,attempts,Nat.le_succ _,rfl,rfl⟩
  | .base .finish =>
    obtain ⟨base,finished,rfl⟩ := Option.map_eq_some_iff.mp taken
    exact .inl (finish_stays finished)
  | .base (.setPaused paused) =>
    obtain rfl := Option.some.inj taken
    exact .inl ⟨Nat.le_refl _,rfl,id⟩
  | .leave =>
    simp only [step] at taken
    split at taken
    next joining =>
      obtain rfl := Option.some.inj taken
      exact .inl ⟨Nat.le_refl _,rfl,by simp⟩
    next => contradiction

/-- What the dispatcher has counted by the time of its next turn. -/
structure Metered (cfg : Settings) (s : Duration × State n) : Prop where
  begun : begun s.2.base + s.2.base.queue.length ≤ s.2.base.iterationCounter
  paced : ∃ due ≤ s.1, Dispatches cfg s.2.base.iterationCounter due
  staffed : 0 < s.2.base.iterationCounter → 0 < n
  limited : ∀ m, cfg.maxIterations = some m → s.2.base.iterationCounter ≤ max m 1 ∧
    (s.2.base.dispatcher = .dispatching → s.2.base.iterationCounter < max m 1)

theorem metered_of_stays {s t : Duration × State n} (later : s.1 ≤ t.1) (stays : Stays s.2.base t.2.base)
    (valid : Metered cfg s) : Metered cfg t := by
  obtain ⟨load,counter,dispatching⟩ := stays
  obtain ⟨due,passed,dispatches⟩ := valid.paced
  rw [← counter] at dispatches
  refine ⟨?_,⟨due,passed.trans later,dispatches⟩,fun positive => valid.staffed (counter ▸ positive),?_⟩
  · have begun := valid.begun
    omega
  · intro m limit
    rw [counter]
    exact (valid.limited m limit).imp id fun more reached => more (dispatching reached)

theorem pacedStep_metered {s t : Duration × State cfg.workers} {a : Action cfg.workers}
    (valid : Metered cfg s) (taken : (crew cfg).pacedStep (reading cfg) s a = some t) : Metered cfg t := by
  obtain ⟨stepped,clock⟩ := Crew.pacedStep_cases taken
  have stepped : step cfg s.2 a = some t.2 := by
    simp only [crew] at stepped
    split at stepped
    · exact stepped
    · contradiction
  have later : s.1 ≤ t.1 := by
    rcases clock with ⟨-,same⟩ | ⟨turn,-,due,ordered,next⟩
    · exact same.ge
    · rw [next]
      exact (due.trans ordered).trans (Nat.le_add_right _ _)
  rcases step_cases stepped with stays | ⟨elapsed,rampElapsed,rfl,attempts,load,counter,dispatcher⟩
  · exact metered_of_stays later stays valid
  obtain ⟨reached,within,-,interval,somebody⟩ := attempts
  obtain ⟨interval,found⟩ := Option.isSome_iff_exists.mp interval
  rcases clock with ⟨free,-⟩ | ⟨turn,read,slept,ordered,next⟩
  · contradiction
  obtain rfl := Option.some.inj read
  obtain ⟨due,passed,dispatches⟩ := valid.paced
  simp only [found,Option.getD_some] at next
  refine ⟨?_,⟨t.1,Nat.le_refl _,?_⟩,fun _ => ?_,?_⟩
  · have begun := valid.begun
    omega
  · rw [counter,next]
    exact dispatches.turn (passed.trans slept) ordered within found
  · obtain ⟨i,-⟩ := not_forall.mp somebody
    exact Nat.zero_lt_of_lt i.isLt
  · intro m limit
    have before := (valid.limited m limit).2 reached
    rw [counter]
    refine ⟨before,fun goes => ?_⟩
    simp only [dispatcher,afterAttempt,limit] at goes
    split at goes
    · contradiction
    · omega

theorem watched_keeps (cfg : Settings) : (watched cfg).crew.Keeps (Metered cfg) where
  launch _ _ := by
    refine ⟨?_,⟨0,Nat.le_refl _,.start⟩,fun positive => absurd positive (Nat.lt_irrefl 0),fun m _ => ?_⟩
    · change begun (ArrivalRate.initial cfg) + 0 ≤ 0
      simp [begun,ArrivalRate.initial,Family.total,inIteration]
    · change 0 ≤ max m 1 ∧ (_ → 0 < max m 1)
      omega
  step _ _ _ := pacedStep_metered
  setPaused paused s valid := @metered_of_stays cfg.workers cfg s ((watched cfg).crew.setPaused paused s)
    (Nat.le_refl _) ⟨Nat.le_refl _,rfl,id⟩ valid
  stop s valid := @metered_of_stays cfg.workers cfg s ((watched cfg).crew.stop s)
    (Nat.le_refl _) ⟨Nat.le_refl _,rfl,id⟩ valid

theorem workerIds_length_le (s : State n) : (workerIds s).length ≤ n := by
  rw [workerIds,List.length_map]
  exact (List.length_filter_le _ _).trans (List.length_finRange).le

theorem watched_launch {count : Nat} (more : count < cfg.workers) :
    (watched cfg).Reaches fun s => count < (watched cfg).alive s := by
  refine ⟨[],_,rfl,?_⟩
  change count < (workerIds (initial cfg false false)).length
  simpa [workerIds,initial,ArrivalRate.initial] using more

/-- The only worker waits for its next number, and has served those below `count`. -/
def served (count : Nat) : State 1 where
  base := {
    workers := fun _ => .loopHead
    dispatcher := .dispatching
    queue := []
    running := true
    connected := true
    paused := false
    iterationCounter := count
    started := count
    dropped := 0
    completed := count
    reported := ⟨none,none,none⟩
    accepted := List.range count
    executed := List.range count }
  stopped := false

theorem setWorker_only (s : ArrivalRate.State 1) (next : ArrivalRate.Worker) :
    s.setWorker 0 next = { s with workers := fun _ => next } := by
  rw [ArrivalRate.State.setWorker,Function.update_eq_const_of_subsingleton]
  rfl

/-- With another number waiting. -/
def waiting (cfg : Settings) (count : Nat) : State 1 :=
  { served count with base := { (served count).base with
      queue := [count]
      accepted := List.range (count + 1)
      started := count + 1
      iterationCounter := count + 1
      dispatcher := afterAttempt cfg (count + 1) } }

def one (cfg : Settings) : Crew := (crew { cfg with workers := 1 }).paced (reading { cfg with workers := 1 })

section One

variable {count : Nat} {due elapsed rampElapsed interval : Duration}

theorem one_dispatch (slept : due ≤ elapsed) (ordered : elapsed ≤ rampElapsed)
    (within : elapsed < cfg.duration)
    (found : dispatchInterval cfg.timeUnit (currentRate cfg rampElapsed) = some interval) :
    exec (S := Duration × State 1) (A := Action 1) (one cfg).step (due,served count)
      [.base (.dispatch elapsed rampElapsed)] = some (rampElapsed + interval,waiting cfg count) := by
  have found' : dispatchInterval cfg.timeUnit (currentRate { cfg with workers := 1 } rampElapsed) =
      some interval := found
  simp [exec_cons,one,Crew.paced,Crew.pacedStep,reading,crew,own,step,ArrivalRate.dispatch,served,
    ArrivalRate.attempt,ArrivalRate.allDone,waiting,slept,ordered,within,found',List.range_succ]
  rfl

theorem one_begins (count : Nat) :
    exec (S := Duration × State 1) (A := Action 1) (one cfg).step (due,waiting cfg count)
      (List.replicate 4 (.base (.work 0))) = some (due,{ waiting cfg count with base :=
        { (waiting cfg count).base with workers := fun _ => .executing count, queue := [] } }) := by
  simp [exec_cons,List.replicate,one,Crew.paced,Crew.pacedStep,reading,crew,own,step,ArrivalRate.work,
    setWorker_only,waiting,served]

theorem one_serves (goes : afterAttempt cfg (count + 1) = .dispatching) :
    exec (S := Duration × State 1) (A := Action 1) (one cfg).step (due,waiting cfg count)
      (List.replicate 6 (.base (.work 0))) = some (due,served (count + 1)) := by
  simp [exec_cons,List.replicate,one,Crew.paced,Crew.pacedStep,reading,crew,own,step,ArrivalRate.work,
    setWorker_only,waiting,served,goes,List.range_succ]

theorem exec_dispatches (dispatches : Dispatches cfg count due)
    (goes : ∀ k < count, afterAttempt cfg (k + 1) = .dispatching) :
    ∃ actions, exec (S := Duration × State 1) (A := Action 1) (one cfg).step (0,served 0) actions =
      some (due,served count) := by
  induction dispatches with
  | start => exact ⟨[],rfl⟩
  | @turn count due elapsed rampElapsed interval before slept ordered within found ih =>
    obtain ⟨actions,run⟩ := ih fun k less => goes k (Nat.lt_succ_of_lt less)
    refine ⟨_,exec_append_iff.mpr ⟨_,run,exec_append_iff.mpr
      ⟨_,one_dispatch slept ordered within found,one_serves (goes count (Nat.lt_succ_self count))⟩⟩⟩

theorem one_starts : exec (S := Duration × State 1) (A := Action 1) (one cfg).step
    ((one cfg).launch false false) [.base (.work 0)] = some (0,served 0) := by
  simp [exec_cons,one,Crew.paced,Crew.pacedStep,reading,crew,own,step,ArrivalRate.work,setWorker_only,
    served,initial,ArrivalRate.initial]

/-- Every number that is dispatched can be served before the next one. -/
theorem one_exceeds (dispatches : Dispatches cfg (most + 1) due)
    (unlimited : ∀ m, cfg.maxIterations = some m → most < m) :
    ∃ actions s, exec (S := Duration × State 1) (A := Action 1) (one cfg).step
      ((one cfg).launch false false) actions = some s ∧ most < begun s.2.base := by
  have goes : ∀ k < most, afterAttempt cfg (k + 1) = .dispatching := by
    intro k less
    unfold afterAttempt
    split
    next m limit =>
      have large := unlimited m limit
      exact if_neg (by omega)
    next => rfl
  cases dispatches with
  | turn before slept ordered within found =>
    obtain ⟨actions,run⟩ := exec_dispatches before goes
    refine ⟨_,_,exec_append_iff.mpr ⟨_,one_starts,exec_append_iff.mpr ⟨_,run,exec_append_iff.mpr
      ⟨_,one_dispatch slept ordered within found,one_begins most⟩⟩⟩,?_⟩
    simp [begun,waiting,served,Family.total,inIteration]

end One

theorem watched_sized (positive : 0 < most) :
    (watched cfg).Sized most (cfg.workers = 0)
      (cfg.workers ≤ 1 ∧
        ((∃ m ≤ most, cfg.maxIterations = some m) ∨ ∀ due, ¬Dispatches cfg (most + 1) due)) where
  idle nobody := by
    refine ⟨_,watched_keeps cfg,fun s valid => ⟨(workerIds_length_le s.2).trans nobody.le,?_⟩⟩
    have none : s.2.base.iterationCounter = 0 := by
      by_contra started
      have staffed := valid.staffed (Nat.pos_of_ne_zero started)
      omega
    have few := valid.begun
    change begun s.2.base ≤ 0
    omega
  hires somebody := watched_launch (Nat.pos_of_ne_zero somebody)
  small := by
    rintro ⟨single,few⟩
    refine ⟨_,watched_keeps cfg,fun s valid => ⟨(workerIds_length_le s.2).trans single,?_⟩⟩
    have counted : s.2.base.iterationCounter ≤ most := by
      rcases few with ⟨m,small,limit⟩ | short
      · have within := (valid.limited m limit).1
        omega
      · by_contra more
        obtain ⟨due,-,dispatches⟩ := valid.paced
        obtain ⟨due,late⟩ := dispatches.fewer (most + 1) (by omega)
        exact short due late
    have load := valid.begun
    change begun s.2.base ≤ most
    omega
  exceeds := by
    intro somebody large
    by_cases two : 1 < cfg.workers
    · obtain ⟨actions,s,run,more⟩ := watched_launch two
      exact ⟨actions,s,run,fun within => absurd within.1 (Nat.not_le.mpr more)⟩
    · obtain ⟨workers,duration,maxIterations,isRamping,rate,rateSchedule,timeUnit⟩ := cfg
      obtain rfl : workers = 1 := by
        simp only at somebody two
        omega
      obtain ⟨unlimited,long⟩ := not_or.mp fun fits => large ⟨Nat.le_refl 1,fits⟩
      obtain ⟨due,dispatches⟩ := not_forall_not.mp long
      obtain ⟨actions,s,run,more⟩ := one_exceeds dispatches fun m limit => by
        by_contra small
        exact unlimited ⟨m,by omega,limit⟩
      exact ⟨actions,s,run,fun within => absurd within.2 (Nat.not_le.mpr more)⟩

end ArrivalModel

namespace GracefulStop

variable {cfg : Settings} {most : Nat}

/-- The ramping loop looks at the clock for its condition, and for the target before it sleeps. -/
def reading : Action → Option Reading
  | .supervise (.check elapsed) => some ⟨elapsed,elapsed,0⟩
  | .supervise (.scale elapsed _) => some ⟨elapsed,elapsed,Duration.fromSecs 1⟩
  | _ => none

def watched (cfg : Settings) : Watched :=
  ⟨(crew cfg).paced reading,fun s : Duration × State => (Pool.workerIds s.2.pool).length⟩

/-- The schedule never asks for a second worker. -/
def AsksForOne (schedule : Schedule) : Prop := ∀ elapsed, calculateTarget schedule elapsed ≤ 1

/-- A worker is let go and another one asked for, in turns that are a second apart. -/
def Rehires (schedule : Schedule) (duration : Duration) : Prop :=
  ∃ hire dismiss again, hire + Duration.fromSecs 1 ≤ dismiss ∧
    dismiss + Duration.fromSecs 1 < duration ∧ dismiss + Duration.fromSecs 1 ≤ again ∧
    0 < calculateTarget schedule hire ∧ calculateTarget schedule dismiss = 0 ∧
    0 < calculateTarget schedule again

/-- No turn asks for a second worker. -/
structure HiresOne (schedule : Schedule) (duration : Duration) : Prop where
  most : AsksForOne schedule
  once : ¬Rehires schedule duration

section Below

variable {s t : State} {a : Action} {m : Nat}

theorem tended_below {workers later : List Worker} (positive : 0 < most)
    (tended : IterationLimit.Tended workers later) (all : ∀ worker ∈ workers, worker.Below most) :
    ∀ worker ∈ later, worker.Below most := by
  intro worker member
  rcases tended.origin worker member with ⟨setup,none⟩ | ⟨old,there,pc,count⟩
  · exact ⟨none ▸ Nat.zero_le _,fun _ _ => none ▸ positive⟩
  · exact (all old there).rests ⟨count,.inl pc⟩

theorem set_below {workers : List Worker} {i : Nat} {next : Worker}
    (all : ∀ worker ∈ workers, worker.Below most) (below : next.Below most) :
    ∀ worker ∈ workers.set i next, worker.Below most := by
  intro worker member
  rcases List.mem_or_eq_of_mem_set member with there | rfl
  · exact all worker there
  · exact below

/-- In legacy mode and in the ramping executor every worker has the limit to itself. -/
theorem step_below (positive : 0 < most) (within : m ≤ most) (limit : cfg.maxIterations = some m)
    (all : ∀ worker ∈ s.pool.workers, worker.Below most) (taken : step cfg s a = some t) :
    ∀ worker ∈ t.pool.workers, worker.Below most := by
  cases a with
  | work i =>
    obtain ⟨worker,found,mapped⟩ := Option.bind_eq_some_iff.mp taken
    obtain ⟨next,advanced,rfl⟩ := Option.map_eq_some_iff.mp mapped
    refine set_below all ((all worker (List.mem_of_getElem? found)).advance (fun _ full => ?_) advanced)
    simpa [limited,limit,full] using within
  | fail i =>
    obtain ⟨worker,found,mapped⟩ := Option.bind_eq_some_iff.mp taken
    obtain ⟨next,failed,rfl⟩ := Option.map_eq_some_iff.mp mapped
    obtain ⟨pc,rfl⟩ := Worker.fail_cases failed
    exact set_below all ((all worker (List.mem_of_getElem? found)).rests ⟨rfl,.inr ⟨pc,rfl⟩⟩)
  | supervise turn => exact tended_below positive (IterationLimit.legacySupervise_tended taken).1 all
  | setPaused paused =>
    obtain rfl := Option.some.inj taken
    exact all
  | stop =>
    obtain rfl := Option.some.inj taken
    exact all
  | tick time =>
    obtain rfl := Option.some.inj taken
    exact all

theorem begun_le (all : ∀ worker ∈ s.pool.workers, worker.Below most) :
    s.pool.load.begun ≤ s.pool.workers.length * most := by
  have each : ∀ begun ∈ s.pool.workers.map executed, begun ≤ most := by
    intro begun member
    obtain ⟨worker,there,rfl⟩ := List.mem_map.mp member
    exact (all worker there).executed_le
  simpa [Pool.load] using List.sum_le_card_nsmul _ most each

end Below

theorem rampingTick_workers_length (target : Nat) (pool : Pool) :
    (pool.rampingTick target).workers.length = pool.workers.length + (target - pool.active.length) := by
  unfold Pool.rampingTick
  split
  next => simp [Pool.grow_workers]
  next enough =>
    rw [Nat.sub_eq_zero_of_le (Nat.not_lt.mp enough)]
    split
    · exact Pool.shrink_workers_length _
    · rfl

/-- The only worker there ever was, or none so far; and once it has been let go no turn that is
still to come asks for another one. -/
structure Single (cfg : Settings) (s : Duration × State) : Prop where
  phase : s.2.supervisor ≠ .commands
  early : s.2.supervisor = .scaling → s.1 < cfg.duration
  one : s.2.pool.workers.length ≤ 1
  handles : s.2.pool.active.length ≤ s.2.pool.workers.length
  hired : 0 < s.2.pool.workers.length →
    ∃ hire, 0 < calculateTarget cfg.schedule hire ∧ hire + Duration.fromSecs 1 ≤ s.1
  dismissed : s.2.pool.active.length < s.2.pool.workers.length →
    ∃ hire dismiss, hire + Duration.fromSecs 1 ≤ dismiss ∧ dismiss + Duration.fromSecs 1 ≤ s.1 ∧
      0 < calculateTarget cfg.schedule hire ∧ calculateTarget cfg.schedule dismiss = 0

section Single

variable {s t : Duration × State}

/-- Time passes, and the pool is left alone but for flags and the workers' own steps. -/
theorem single_of_same (valid : Single cfg s) (later : s.1 ≤ t.1)
    (workers : t.2.pool.workers.length = s.2.pool.workers.length) (active : t.2.pool.active = s.2.pool.active)
    (phase : t.2.supervisor ≠ .commands) (early : t.2.supervisor = .scaling → t.1 < cfg.duration) :
    Single cfg t where
  phase := phase
  early := early
  one := workers ▸ valid.one
  handles := by
    rw [workers,active]
    exact valid.handles
  hired somebody := by
    obtain ⟨hire,asked,slept⟩ := valid.hired (workers ▸ somebody)
    exact ⟨hire,asked,slept.trans later⟩
  dismissed fewer := by
    rw [workers,active] at fewer
    obtain ⟨hire,dismiss,apart,slept,asked,none⟩ := valid.dismissed fewer
    exact ⟨hire,dismiss,apart,slept.trans later,asked,none⟩

/-- The turn that follows the schedule: it hires the only worker, keeps it, or lets it go. -/
theorem single_of_scale (hires : HiresOne cfg.schedule cfg.duration) {elapsed : Duration}
    (valid : Single cfg s) (reached : s.2.supervisor = .scaling) (slept : s.1 ≤ elapsed)
    (phase : t.2.supervisor = .loopTop)
    (pool : t.2.pool = s.2.pool.rampingTick (calculateTarget cfg.schedule elapsed))
    (next : t.1 = elapsed + Duration.fromSecs 1) : Single cfg t := by
  have few := hires.most elapsed
  have active : t.2.pool.active.length = calculateTarget cfg.schedule elapsed := by
    rw [pool,Pool.rampingTick_active_length]
  have workers : t.2.pool.workers.length =
      s.2.pool.workers.length + (calculateTarget cfg.schedule elapsed - s.2.pool.active.length) := by
    rw [pool,rampingTick_workers_length]
  have one := valid.one
  have handles := valid.handles
  have later : s.1 ≤ t.1 := next ▸ slept.trans (Nat.le_add_right _ _)
  -- A worker that has been let go has no successor.
  have kept : s.2.pool.active.length < s.2.pool.workers.length →
      calculateTarget cfg.schedule elapsed = 0 := by
    intro fewer
    by_contra again
    obtain ⟨hire,dismiss,apart,passed,asked,none⟩ := valid.dismissed fewer
    have early := valid.early reached
    exact hires.once ⟨hire,dismiss,elapsed,apart,passed.trans_lt early,passed.trans slept,asked,none,
      Nat.pos_of_ne_zero again⟩
  refine ⟨by simp [phase],by simp [phase],?_,?_,?_,?_⟩
  · by_cases fewer : s.2.pool.active.length < s.2.pool.workers.length
    · have none := kept fewer
      omega
    · omega
  · omega
  · intro somebody
    by_cases asked : 0 < calculateTarget cfg.schedule elapsed
    · exact ⟨elapsed,asked,next.ge⟩
    · obtain ⟨hire,asked,passed⟩ := valid.hired (by omega)
      exact ⟨hire,asked,passed.trans later⟩
  · intro fewer
    by_cases dismissed : s.2.pool.active.length < s.2.pool.workers.length
    · obtain ⟨hire,dismiss,apart,passed,asked,none⟩ := valid.dismissed dismissed
      exact ⟨hire,dismiss,apart,passed.trans later,asked,none⟩
    · obtain ⟨hire,asked,passed⟩ := valid.hired (by omega)
      exact ⟨hire,elapsed,passed.trans slept,next.ge,asked,by omega⟩

theorem supervise_single (ramping : cfg.mode = .rampingWorkers)
    (hires : HiresOne cfg.schedule cfg.duration) {s t : State} {due next : Duration} {turn : Turn}
    (valid : Single cfg (due,s)) (taken : supervise cfg s turn = some t)
    (untimed : reading (.supervise turn) = none → next = due)
    (timed : ∀ read, reading (.supervise turn) = some read →
      due ≤ read.first ∧ next = read.last + read.sleep) :
    Single cfg (next,t) := by
  unfold supervise at taken
  split at taken
  next elapsed reached =>
    obtain ⟨slept,rfl⟩ := timed _ rfl
    split at taken
    next =>
      obtain rfl := Option.some.inj taken
      exact single_of_same valid slept rfl rfl (by simp [leaveLoop]) (by simp [leaveLoop])
    next early =>
      obtain rfl := Option.some.inj taken
      simp only [Bool.or_eq_true,decide_eq_true_eq,not_or,not_le] at early
      exact single_of_same valid slept rfl rfl (by simp [ramping]) fun _ => early.1
  next command reached => exact absurd reached valid.phase
  next reached => exact absurd reached valid.phase
  next elapsed throttled reached =>
    obtain ⟨slept,rfl⟩ := timed _ rfl
    obtain rfl := Option.some.inj taken
    exact single_of_scale hires valid reached slept rfl (by simp [scale,ramping]) rfl
  next place reached =>
    obtain rfl := untimed rfl
    split at taken <;> obtain rfl := Option.some.inj taken
    · exact single_of_same valid (Nat.le_refl _) (by simp [Pool.clear]) rfl (by simp) (by simp)
    · exact single_of_same valid (Nat.le_refl _) rfl rfl (by simp) (by simp)
  next stopStart reached =>
    obtain rfl := untimed rfl
    split at taken <;> obtain rfl := Option.some.inj taken
    · exact single_of_same valid (Nat.le_refl _) rfl rfl (by simp [afterWait,ramping])
        (by simp [afterWait,ramping])
    · exact valid
  next stopStart reached =>
    obtain rfl := untimed rfl
    split at taken
    · obtain rfl := Option.some.inj taken
      exact single_of_same valid (Nat.le_refl _) rfl rfl (by simp) (by simp)
    · contradiction
  next stopStart reached =>
    obtain rfl := untimed rfl
    obtain rfl := Option.some.inj taken
    exact single_of_same valid (Nat.le_refl _) rfl rfl (by simp) (by simp)
  next => contradiction

theorem pacedStep_single (ramping : cfg.mode = .rampingWorkers)
    (hires : HiresOne cfg.schedule cfg.duration) {a : Action} (valid : Single cfg s)
    (taken : (crew cfg).pacedStep reading s a = some t) : Single cfg t := by
  obtain ⟨own,clock⟩ := Crew.pacedStep_cases taken
  have stepped : step cfg s.2 a = some t.2 := by
    simp only [crew] at own
    split at own
    · exact own
    · contradiction
  have untimed (free : reading a = none) : t.1 = s.1 := by
    rcases clock with ⟨-,same⟩ | ⟨turn,read,-⟩
    · exact same
    · exact absurd (free.symm.trans read) (by simp)
  by_cases turns : ∃ turn, a = .supervise turn
  · obtain ⟨turn,rfl⟩ := turns
    refine supervise_single ramping hires valid stepped untimed fun read found => ?_
    rcases clock with ⟨free,-⟩ | ⟨other,found',slept,-,next⟩
    · exact absurd (free.symm.trans found) (by simp)
    · obtain rfl := Option.some.inj (found.symm.trans found')
      exact ⟨slept,next⟩
  · have settles := step_settles (fun turn same => turns ⟨turn,same⟩) stepped
    have free : reading a = none := by
      cases a with
      | supervise turn => exact absurd ⟨turn,rfl⟩ turns
      | _ => rfl
    have same := untimed free
    refine single_of_same valid same.ge settles.length settles.active ?_ ?_
    · rw [settles.supervisor]
      exact valid.phase
    · rw [settles.supervisor,same]
      exact valid.early

theorem watched_keeps (ramping : cfg.mode = .rampingWorkers)
    (hires : HiresOne cfg.schedule cfg.duration) (positive : 0 < most) {m : Nat} (within : m ≤ most)
    (limit : cfg.maxIterations = some m) :
    (watched cfg).crew.Keeps fun s : Duration × State =>
      Single cfg s ∧ ∀ worker ∈ s.2.pool.workers, worker.Below most where
  launch _ _ := by
    refine ⟨⟨by simp [watched,Crew.paced,crew,initial],by simp [watched,Crew.paced,crew,initial],
      Nat.zero_le 1,Nat.le_refl 0,fun counted => absurd counted (Nat.lt_irrefl 0),
      fun counted => absurd counted (Nat.lt_irrefl 0)⟩,?_⟩
    exact fun worker member => absurd member List.not_mem_nil
  step s a t valid taken := by
    refine ⟨pacedStep_single ramping hires valid.1 taken,?_⟩
    have own := (Crew.pacedStep_cases taken).1
    simp only [crew] at own
    split at own
    · exact step_below positive within limit valid.2 own
    · contradiction
  setPaused paused s valid := ⟨@single_of_same cfg s ((watched cfg).crew.setPaused paused s) valid.1
    (Nat.le_refl _) rfl rfl valid.1.phase valid.1.early,valid.2⟩
  stop s valid := ⟨@single_of_same cfg s ((watched cfg).crew.stop s) valid.1 (Nat.le_refl _) rfl rfl
    valid.1.phase valid.1.early,valid.2⟩

end Single

theorem workerIds_length_le (pool : Pool) : pool.workerIds.length ≤ pool.workers.length := by
  simpa using (Pool.workerIds_sublist pool).length_le

/-- The loop has just begun, or slept after a turn. -/
def resting (pool : Pool) : State := { initial with pool := pool }

/-- A turn of the loop, with the two times it reads. -/
theorem exec_turn (ramping : cfg.mode = .rampingWorkers) (pool : Pool) {due check elapsed : Duration}
    (slept : due ≤ check) (ordered : check ≤ elapsed) (within : check < cfg.duration) :
    exec (S := Duration × State) (A := Action) (watched cfg).crew.step (due,resting pool)
      [.supervise (.check check),.supervise (.scale elapsed false)] =
    some (elapsed + Duration.fromSecs 1,
      resting (pool.rampingTick (calculateTarget cfg.schedule elapsed))) := by
  have early : ¬cfg.duration ≤ check := Nat.not_le.mpr within
  simp [exec_cons,watched,Crew.paced,Crew.pacedStep,reading,crew,Action.own,step,supervise,resting,initial,
    ramping,scale,slept,ordered,early]

/-- The loop asks for a worker at its first turn. -/
theorem reaches_first (ramping : cfg.mode = .rampingWorkers) {elapsed : Duration}
    (positive : 0 < cfg.duration) :
    (watched cfg).Reaches fun s : Duration × State => s = (elapsed + Duration.fromSecs 1,
      resting (Pool.empty.grow (calculateTarget cfg.schedule elapsed))) := by
  have first := exec_turn ramping .empty (Nat.le_refl 0) (Nat.zero_le elapsed) positive
  refine ⟨_,_,first,?_⟩
  unfold Pool.rampingTick
  split
  next => rfl
  next none =>
    have zero : calculateTarget cfg.schedule elapsed = 0 := Nat.le_zero.mp (Nat.not_lt.mp none)
    rw [zero]
    rfl

theorem workerIds_length_of_live {pool : Pool} (live : ∀ worker ∈ pool.workers, worker.pc ≠ .done) :
    pool.workerIds.length = pool.workers.length := by
  have all : (pool.workers.zipIdx 1).filter (·.1.pc ≠ .done) = pool.workers.zipIdx 1 := by
    refine List.filter_eq_self.mpr fun entry member => decide_eq_true (live entry.1 ?_)
    exact List.fst_mem_of_mem_zipIdx member
  simp only [Pool.workerIds,all,List.length_map,List.length_zipIdx]

theorem grow_workerIds_length (target : Nat) : (Pool.empty.grow target).workerIds.length = target := by
  have workers : (Pool.empty.grow target).workers = List.replicate target .spawned := by
    simp [Pool.grow_workers,Pool.empty]
  rw [workerIds_length_of_live,workers,List.length_replicate]
  intro worker member
  rw [workers] at member
  rw [List.eq_of_mem_replicate member]
  simp [Worker.spawned]

/-- The only worker of the pool at its loop. -/
def solo (due : Duration) (_ : Nat) (worker : Worker) : Duration × State := (due,resting ⟨[worker],[0]⟩)

theorem solo_works (due : Duration) : Worker.Works (S := Duration × State) (A := Action)
    (watched cfg).crew.step (.work 0) (solo due) (fun _ worker => limited cfg worker) id := by
  intro counter worker
  simp [watched,Crew.paced,Crew.pacedStep,reading,crew,Action.own,step,solo,resting,initial]
  rfl

theorem reaches_past_limit (ramping : cfg.mode = .rampingWorkers) {elapsed : Duration}
    (positive : 0 < cfg.duration) (asked : calculateTarget cfg.schedule elapsed = 1)
    (unlimited : ∀ m, cfg.maxIterations = some m → most < m) :
    (watched cfg).Reaches fun s : Duration × State => most < s.2.pool.load.begun := by
  obtain ⟨before,s,run,rfl⟩ := @reaches_first cfg ramping elapsed positive
  rw [asked] at run
  have goes : ∀ k < most, limited cfg ⟨.limitCheck,true,k + 1⟩ = false := by
    intro k less
    unfold limited
    cases limit : cfg.maxIterations with
    | none => rfl
    | some m =>
      have large := unlimited m limit
      simp only [Option.any_some,decide_eq_false_iff_not]
      omega
  obtain ⟨after,past⟩ := Worker.exec_past_limit (solo_works (elapsed + Duration.fromSecs 1)) (fun _ => 0)
    (fun _ _ => rfl) goes
  refine ⟨_,_,exec_append_iff.mpr ⟨_,run,past⟩,?_⟩
  simp [solo,resting,Pool.load,executed]

/-- The worker that was let go has not left when the next one is hired. -/
theorem reaches_rehired (ramping : cfg.mode = .rampingWorkers)
    (few : AsksForOne cfg.schedule) (rehires : Rehires cfg.schedule cfg.duration) :
    (watched cfg).Reaches fun s : Duration × State => 1 < (Pool.workerIds s.2.pool).length := by
  obtain ⟨hire,dismiss,again,slept,within,after,asked,none,more⟩ := rehires
  have still : dismiss < cfg.duration := lt_of_le_of_lt (Nat.le_add_right _ _) within
  have start : hire < cfg.duration := lt_of_le_of_lt ((Nat.le_add_right _ _).trans slept) still
  have first := exec_turn ramping .empty (Nat.zero_le hire) (Nat.le_refl hire) start
  have second := exec_turn ramping (Pool.empty.rampingTick 1) slept (Nat.le_refl dismiss) still
  have third := exec_turn ramping ((Pool.empty.rampingTick 1).rampingTick 0) (Nat.le_refl _) after within
  rw [le_antisymm (few hire) asked] at first
  rw [none] at second
  rw [le_antisymm (few again) more] at third
  have two : (((Pool.empty.rampingTick 1).rampingTick 0).rampingTick 1).workerIds.length = 2 := by decide
  exact ⟨_,_,exec_append_iff.mpr ⟨_,first,exec_append_iff.mpr ⟨_,second,third⟩⟩,two.ge⟩

theorem watched_sized (ramping : cfg.mode = .rampingWorkers) (positive : 0 < most) :
    (watched cfg).Sized most (¬Hires cfg)
      (HiresOne cfg.schedule cfg.duration ∧ ∃ m ≤ most, cfg.maxIterations = some m) where
  idle never := by
    have keeps : (crew cfg).Keeps (Hired cfg) := ⟨launch_hired cfg,crew_step_hired ramping,
      fun _ _ valid => ⟨valid.begun,valid.workers⟩,fun _ valid => ⟨valid.begun,valid.workers⟩⟩
    refine ⟨_,keeps.paced reading,fun s valid => ?_⟩
    have nobody : s.2.pool.workers = [] := by
      by_contra somebody
      exact never (valid.workers somebody)
    constructor
    · change s.2.pool.workerIds.length ≤ 0
      simp [Pool.workerIds,nobody]
    · change s.2.pool.load.begun ≤ 0
      simp [Pool.load,nobody]
  hires := by
    intro hires
    obtain ⟨duration,elapsed,asked⟩ := not_not.mp hires
    obtain ⟨actions,s,run,rfl⟩ := @reaches_first cfg ramping elapsed duration
    refine ⟨actions,_,run,?_⟩
    change 1 ≤ (Pool.empty.grow _).workerIds.length
    rwa [grow_workerIds_length]
  small := by
    rintro ⟨hires,m,within,limit⟩
    refine ⟨_,watched_keeps ramping hires positive within limit,fun s valid => ?_⟩
    have one := valid.1.one
    refine ⟨(workerIds_length_le s.2.pool).trans one,?_⟩
    exact (begun_le valid.2).trans ((Nat.mul_le_mul_right most one).trans_eq (Nat.one_mul most))
  exceeds := by
    intro hires large
    obtain ⟨duration,elapsed,asked⟩ := not_not.mp hires
    by_cases few : AsksForOne cfg.schedule
    · by_cases rehires : Rehires cfg.schedule cfg.duration
      · obtain ⟨actions,s,run,two⟩ := reaches_rehired ramping few rehires
        exact ⟨actions,s,run,fun within => absurd within.1 (Nat.not_le.mpr two)⟩
      · have unlimited : ∀ m, cfg.maxIterations = some m → most < m := by
          intro m limit
          by_contra small
          exact large ⟨⟨few,rehires⟩,m,Nat.not_lt.mp small,limit⟩
        obtain ⟨actions,s,run,more⟩ :=
          reaches_past_limit ramping duration (le_antisymm (few elapsed) asked) unlimited
        exact ⟨actions,s,run,fun within => absurd within.2 (Nat.not_le.mpr more)⟩
    · obtain ⟨elapsed,more⟩ := not_forall.mp few
      obtain ⟨actions,s,run,rfl⟩ := @reaches_first cfg ramping elapsed duration
      refine ⟨actions,_,run,fun within => more ?_⟩
      have alive : (Pool.empty.grow _).workerIds.length ≤ 1 := within.1
      rwa [grow_workerIds_length] at alive

end GracefulStop

/-- The executor of a scenario, at the pace of its clock. -/
def scenarioWatched (stop : Option String) (o : LoadOptions) : Watched :=
  match executor o with
  | .constantArrivalRate | .rampingArrivalRate => ArrivalModel.watched (arrivalSettings o)
  | .rampingWorkers => GracefulStop.watched {
      mode := .rampingWorkers
      schedule := workersSchedule o
      duration := scenarioDuration o
      maxIterations := maxIterations o
      stop := stop }
  | .sharedIterations => ClosedModel.sharedWatched ⟨workers o,o.iterations⟩
  | .constantWorkers | .perWorkerIterations =>
    ClosedModel.perWorkerWatched (workers o) (maxIterations o)

/-- The scenario never has a worker. -/
def Idle (o : LoadOptions) : Prop :=
  match executor o with
  | .rampingWorkers => scenarioDuration o = 0 ∨ ∀ elapsed, calculateTarget (workersSchedule o) elapsed = 0
  | _ => workers o = 0

/-- A worker at a time and `most` iterations: by the number of workers, by the limit of each of
them, or by the rate. The shared pool is exceeded by one. -/
def Small (most : Nat) (o : LoadOptions) : Prop :=
  match executor o with
  | .rampingWorkers => GracefulStop.HiresOne (workersSchedule o) (scenarioDuration o) ∧
      ∃ m ≤ most, maxIterations o = some m
  | .constantWorkers | .perWorkerIterations => workers o ≤ 1 ∧ ∃ m ≤ most, maxIterations o = some m
  | .sharedIterations =>
    workers o ≤ 1 ∧ SharedIterations.totalSharedIterations ⟨workers o,o.iterations⟩ < most
  | .constantArrivalRate | .rampingArrivalRate => workers o ≤ 1 ∧
      ((∃ m ≤ most, maxIterations o = some m) ∨
        ∀ due, ¬ArrivalModel.Dispatches (arrivalSettings o) (most + 1) due)

theorem scenario_sized {most : Nat} (positive : 0 < most) (fits : most < 2^64) (stop : Option String)
    (o : LoadOptions) : (scenarioWatched stop o).Sized most (Idle o) (Small most o) := by
  unfold scenarioWatched Idle Small
  cases executor o with
  | constantArrivalRate | rampingArrivalRate => exact ArrivalModel.watched_sized positive
  | sharedIterations => exact ClosedModel.shared_sized positive fits
  | constantWorkers | perWorkerIterations => exact ClosedModel.perWorker_sized positive
  | rampingWorkers =>
    have never : (scenarioDuration o = 0 ∨ ∀ elapsed, calculateTarget (workersSchedule o) elapsed = 0) ↔
        ¬GracefulStop.Hires ⟨.rampingWorkers,workersSchedule o,scenarioDuration o,maxIterations o,
          stop⟩ := by
      simp [GracefulStop.Hires,Nat.pos_iff_ne_zero,or_iff_not_imp_left]
    rw [never]
    exact GracefulStop.watched_sized rfl positive

end Fusillade.Engine
