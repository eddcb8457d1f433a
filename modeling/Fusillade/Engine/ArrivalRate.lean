import Fusillade.Lib.Machine
import Fusillade.Lib.Family
import Fusillade.Engine.Schedule
import Mathlib.Tactic.Abel

/-! The arrival-rate executors: a dispatcher puts iteration numbers on a bounded channel at
a rate, and a pool of workers polls it. No `Stop` command arrives, so the stop flag reads
false throughout, and the joins end with every worker gone. The counters of the dispatcher,
which no other thread reads, move together with its `try_send`. -/
namespace Fusillade.Engine.ArrivalRate

/-- A worker holds the number it has received until its iteration is over. -/
inductive Worker where
  | setup
  | loopHead
  | pausing
  | stopCheck
  | receiving
  | executing (iteration : Nat)
  | completing (iteration : Nat)
  | done
  deriving DecidableEq

inductive Dispatcher where
  | dispatching
  | signalling
  | closing
  | reportingDropped
  | reportingStarted
  | reportingCompleted
  | joining
  | complete
  | panicked
  deriving DecidableEq

structure Settings where
  workers : Nat
  duration : Duration
  maxIterations : Option Nat
  isRamping : Bool
  rate : Nat
  rateSchedule : Schedule
  timeUnit : Duration

/-- The counters sent for the report, each when it has been read. -/
structure Reported where
  dropped : Option Nat
  started : Option Nat
  completed : Option Nat
  deriving DecidableEq

structure State (n : Nat) where
  workers : Fin n → Worker
  dispatcher : Dispatcher
  queue : List Nat
  running : Bool
  /-- The dispatcher still holds its end of the channel. -/
  connected : Bool
  paused : Bool
  iterationCounter : Nat
  started : Nat
  dropped : Nat
  completed : Nat
  reported : Reported
  /-- The numbers counted in `started`, and those whose iteration was executed. -/
  accepted : List Nat
  executed : List Nat

inductive Action (n : Nat) where
  | work (worker : Fin n)
  | fail (worker : Fin n)
  /-- A turn of the dispatcher, with its two readings of the clock. -/
  | dispatch (elapsed rampElapsed : Duration)
  | finish
  | setPaused (paused : Bool)
  deriving DecidableEq

def initial (cfg : Settings) : State cfg.workers where
  workers := fun _ => .setup
  dispatcher := .dispatching
  queue := []
  running := true
  connected := true
  paused := false
  iterationCounter := 0
  started := 0
  dropped := 0
  completed := 0
  reported := ⟨none,none,none⟩
  accepted := []
  executed := []

def State.setWorker (s : State n) (i : Fin n) (worker : Worker) : State n :=
  { s with workers := Function.update s.workers i worker }

def allDone (s : State n) : Prop := ∀ i, s.workers i = .done

instance (s : State n) : Decidable (allDone s) := inferInstanceAs (Decidable (∀ _, _))

def work (s : State n) (i : Fin n) : Option (State n) :=
  match s.workers i with
  | .setup => some (s.setWorker i .loopHead)
  | .loopHead => some (s.setWorker i (if s.running then .pausing else .done))
  | .pausing => some (s.setWorker i (if s.paused && s.running then .pausing else .stopCheck))
  | .stopCheck => some (s.setWorker i (if s.running then .receiving else .done))
  | .receiving =>
    match s.queue with
    | iteration :: rest => some { s.setWorker i (.executing iteration) with queue := rest }
    -- The wait times out, or the channel is closed.
    | [] => some (s.setWorker i (if s.connected then .loopHead else .done))
  | .executing iteration =>
    some { s.setWorker i (.completing iteration) with executed := s.executed ++ [iteration] }
  | .completing _ => some { s.setWorker i .loopHead with completed := s.completed + 1 }
  | .done => none

def currentRate (cfg : Settings) (rampElapsed : Duration) : Nat :=
  if cfg.isRamping then calculateRate cfg.rateSchedule rampElapsed else cfg.rate

/-- `time_unit / current_rate as u32`, which panics when the cast leaves zero. -/
def dispatchInterval (timeUnit : Duration) (rate : Nat) : Option Duration :=
  if rate > 0 then
    if rate % 2^32 = 0 then none else some (timeUnit / (rate % 2^32))
  else some (Duration.fromSecs 1)

/-- After an attempt the loop goes on unless the limit has been reached. -/
def afterAttempt (cfg : Settings) (attempts : Nat) : Dispatcher :=
  match cfg.maxIterations with
  | some max => if attempts ≥ max then .signalling else .dispatching
  | none => .dispatching

/-- The `try_send` of the next number: the channel takes two numbers for each worker. -/
def attempt (cfg : Settings) (s : State n) : State n :=
  if allDone s then { s with dispatcher := .signalling }
  else if s.queue.length < cfg.workers * 2 then { s with
    queue := s.queue ++ [s.iterationCounter]
    accepted := s.accepted ++ [s.iterationCounter]
    started := s.started + 1
    iterationCounter := s.iterationCounter + 1
    dispatcher := afterAttempt cfg (s.iterationCounter + 1) }
  else { s with
    dropped := s.dropped + 1
    iterationCounter := s.iterationCounter + 1
    dispatcher := afterAttempt cfg (s.iterationCounter + 1) }

def dispatch (cfg : Settings) (s : State n) (elapsed rampElapsed : Duration) : Option (State n) :=
  if s.dispatcher ≠ .dispatching then none
  else if elapsed < cfg.duration ∧ s.running then
    match dispatchInterval cfg.timeUnit (currentRate cfg rampElapsed) with
    | some _ => some (attempt cfg s)
    -- The panic unwinds the thread, which drops the sender and leaves the flag set.
    | none => some { s with dispatcher := .panicked, connected := false }
  else some { s with dispatcher := .signalling }

def finish (s : State n) : Option (State n) :=
  match s.dispatcher with
  | .signalling => some { s with running := false, dispatcher := .closing }
  | .closing => some { s with connected := false, dispatcher := .reportingDropped }
  | .reportingDropped => some { s with
      reported := { s.reported with dropped := if s.dropped > 0 then some s.dropped else none }
      dispatcher := .reportingStarted }
  | .reportingStarted => some { s with
      reported := { s.reported with started := some s.started }
      dispatcher := .reportingCompleted }
  | .reportingCompleted => some { s with
      reported := { s.reported with completed := some s.completed }
      dispatcher := .joining }
  | .joining => if allDone s then some { s with dispatcher := .complete } else none
  | _ => none

def step (cfg : Settings) (s : State n) : Action n → Option (State n)
  | .work i => work s i
  | .fail i => if s.workers i = .setup then some (s.setWorker i .done) else none
  | .dispatch elapsed rampElapsed => dispatch cfg s elapsed rampElapsed
  | .finish => finish s
  | .setPaused paused => some { s with paused := paused }

def held : Worker → Multiset Nat
  | .executing iteration => {iteration}
  | _ => 0

def uncounted : Worker → Nat
  | .completing _ => 1
  | _ => 0

def handed (s : State n) : Multiset Nat := Family.total held s.workers + (s.executed : Multiset Nat)

structure Conserved (cfg : Settings) (s : State n) : Prop where
  distinct : (handed s).Nodup
  attempts : s.iterationCounter = s.started + s.dropped
  limited : ∀ max, cfg.maxIterations = some max → s.iterationCounter ≤ max
  reported : ∀ completed, s.reported.completed = some completed → completed = s.started
  executed : s.dispatcher = .complete →
    s.started = s.accepted.length ∧ ∀ iteration ∈ s.accepted, s.executed.count iteration = 1

def Quiet (s : State n) : Prop :=
  s.queue = [] ∧ ∀ i, held (s.workers i) = 0 ∧ uncounted (s.workers i) = 0

def Attempts (cfg : Settings) (s : State n) (a : Action n) : Prop :=
  match a with
  | .dispatch elapsed rampElapsed => s.dispatcher = .dispatching ∧ elapsed < cfg.duration ∧
      s.running ∧ (dispatchInterval cfg.timeUnit (currentRate cfg rampElapsed)).isSome ∧ ¬allDone s
  | _ => False

/-- No attempt is made under a limit of zero, and the completed iterations are read only
when the channel and the workers are empty. -/
def Settled (cfg : Settings) (s : State n) (a : Action n) : Prop :=
  (Attempts cfg s a → cfg.maxIterations ≠ some 0) ∧
  (a = .finish → s.dispatcher = .reportingCompleted → Quiet s)

instance (s : State n) : Decidable (Quiet s) := inferInstanceAs (Decidable (_ ∧ ∀ _, _))

instance (cfg : Settings) (s : State n) : ∀ a, Decidable (Attempts cfg s a)
  | .dispatch .. => inferInstanceAs (Decidable (_ ∧ _))
  | .work _ | .fail _ | .finish | .setPaused _ => inferInstanceAs (Decidable False)

instance (cfg : Settings) (s : State n) (a : Action n) : Decidable (Settled cfg s a) :=
  inferInstanceAs (Decidable ((_ → _) ∧ (_ → _ → _)))

variable {cfg : Settings} {s t : State n}

def Worker.Idle (worker : Worker) : Prop := held worker = 0 ∧ uncounted worker = 0

/-- What a worker does to the numbers: it receives, executes or counts one, or moves on. -/
inductive Worked (s : State n) (i : Fin n) : State n → Prop where
  | moves (next : Worker) (before : (s.workers i).Idle) (after : next.Idle) :
      Worked s i (s.setWorker i next)
  | receives (iteration : Nat) (rest : List Nat) (front : s.queue = iteration :: rest)
      (before : (s.workers i).Idle) :
      Worked s i { s.setWorker i (.executing iteration) with queue := rest }
  | executes (iteration : Nat) (holding : s.workers i = .executing iteration) :
      Worked s i { s.setWorker i (.completing iteration) with executed := s.executed ++ [iteration] }
  | completes (iteration : Nat) (holding : s.workers i = .completing iteration) :
      Worked s i { s.setWorker i .loopHead with completed := s.completed + 1 }

theorem idle_ite {p : Prop} [Decidable p] {yes no : Worker} (first : yes.Idle) (second : no.Idle) :
    (if p then yes else no).Idle := by split <;> assumption

theorem work_cases {i : Fin n} (taken : work s i = some t) :
    s.workers i ≠ .done ∧ Worked s i t := by
  unfold work at taken
  cases reached : s.workers i <;> simp only [reached] at taken
  case done => contradiction
  case receiving =>
    refine ⟨by simp,?_⟩
    cases front : s.queue <;> simp only [front] at taken <;> obtain rfl := Option.some.inj taken
    · exact .moves _ (by simp [reached,Worker.Idle,held,uncounted]) (idle_ite ⟨rfl,rfl⟩ ⟨rfl,rfl⟩)
    · exact .receives _ _ front (by simp [reached,Worker.Idle,held,uncounted])
  all_goals
    obtain rfl := Option.some.inj taken
    refine ⟨by simp,?_⟩
  case setup => exact .moves _ (by simp [reached,Worker.Idle,held,uncounted]) ⟨rfl,rfl⟩
  case loopHead | pausing | stopCheck =>
    exact .moves _ (by simp [reached,Worker.Idle,held,uncounted]) (idle_ite ⟨rfl,rfl⟩ ⟨rfl,rfl⟩)
  case executing iteration => exact .executes iteration reached
  case completing iteration => exact .completes iteration reached

/-- Where every accepted number is, and how many iterations are still to be counted. -/
structure Accounted (s : State n) : Prop where
  numbers : (s.queue : Multiset Nat) + Family.total held s.workers + (s.executed : Multiset Nat) =
    (s.accepted : Multiset Nat)
  completed : s.completed + Family.total uncounted s.workers = s.executed.length

theorem worked_accounted {i : Fin n} (valid : Accounted s) (worked : Worked s i t) :
    Accounted t := by
  obtain ⟨numbers,completed⟩ := valid
  cases worked with
  | moves next before after =>
    have holds := Family.total_same (f := held) (g := s.workers) next (after.1.trans before.1.symm)
    have counts := Family.total_same (f := uncounted) (g := s.workers) next
      (after.2.trans before.2.symm)
    exact ⟨by simpa only [State.setWorker,holds] using numbers,
      by simpa only [State.setWorker,counts] using completed⟩
  | receives iteration rest front before =>
    have holds := Family.total_gain (f := held) (.executing iteration) before.1
    have counts := Family.total_same (f := uncounted) (g := s.workers) (.executing iteration)
      before.2.symm
    refine ⟨?_,by simpa only [State.setWorker,counts] using completed⟩
    refine Eq.trans ?_ numbers
    simp only [State.setWorker,holds,held,front,← Multiset.cons_coe,← Multiset.singleton_add]
    abel
  | executes iteration holding =>
    have holds := Family.total_spend (f := held) (g := s.workers) (i := i) (.completing iteration) rfl
    have counts := Family.total_gain (f := uncounted) (g := s.workers) (i := i)
      (.completing iteration) (by simp [holding,uncounted])
    constructor
    · refine Eq.trans ?_ numbers
      simp only [State.setWorker,← holds,holding,held,← Multiset.coe_add,Multiset.coe_singleton]
      abel
    · simp only [State.setWorker,counts,uncounted,List.length_append,List.length_singleton]
      omega
  | completes iteration holding =>
    have holds := Family.total_same (f := held) (g := s.workers) (i := i) .loopHead
      (by simp [holding,held])
    have counts := Family.total_spend (f := uncounted) (g := s.workers) (i := i) .loopHead rfl
    rw [holding,uncounted] at counts
    refine ⟨by simpa only [State.setWorker,holds] using numbers,?_⟩
    simp only [State.setWorker]
    omega

/-- A turn of the dispatcher ends its loop, ends its thread or attempts the next number. -/
inductive Dispatched (cfg : Settings) (s : State n) (a : Action n) : State n → Prop where
  | leaves : Dispatched cfg s a { s with dispatcher := .signalling }
  | panics : Dispatched cfg s a { s with dispatcher := .panicked, connected := false }
  | accepts (attempts : Attempts cfg s a) : Dispatched cfg s a { s with
      queue := s.queue ++ [s.iterationCounter]
      accepted := s.accepted ++ [s.iterationCounter]
      started := s.started + 1
      iterationCounter := s.iterationCounter + 1
      dispatcher := afterAttempt cfg (s.iterationCounter + 1) }
  | drops (attempts : Attempts cfg s a) : Dispatched cfg s a { s with
      dropped := s.dropped + 1
      iterationCounter := s.iterationCounter + 1
      dispatcher := afterAttempt cfg (s.iterationCounter + 1) }

theorem dispatch_cases {elapsed rampElapsed : Duration}
    (taken : dispatch cfg s elapsed rampElapsed = some t) :
    s.dispatcher = .dispatching ∧ Dispatched cfg s (.dispatch elapsed rampElapsed) t := by
  unfold dispatch at taken
  split at taken
  next => contradiction
  next reached =>
    rw [not_not] at reached
    refine ⟨reached,?_⟩
    split at taken
    next inside =>
      split at taken
      next interval found =>
        obtain rfl := Option.some.inj taken
        unfold attempt
        split
        · exact .leaves
        next alive =>
          have attempts : Attempts cfg s (.dispatch elapsed rampElapsed) :=
            ⟨reached,inside.1,inside.2,by simp [found],alive⟩
          split
          · exact .accepts attempts
          · exact .drops attempts
      next =>
        obtain rfl := Option.some.inj taken
        exact .panics
    next =>
      obtain rfl := Option.some.inj taken
      exact .leaves

/-- The dispatcher's own numbers, and what the report says of them. -/
structure Counted (cfg : Settings) (s : State n) : Prop where
  started : s.started = s.accepted.length
  fresh : s.accepted.Nodup
  below : ∀ iteration ∈ s.accepted, iteration < s.iterationCounter
  attempts : s.iterationCounter = s.started + s.dropped
  limited : ∀ max, cfg.maxIterations = some max → s.iterationCounter ≤ max
  more : ∀ max, cfg.maxIterations = some max → max ≠ 0 → s.dispatcher = .dispatching →
    s.iterationCounter < max
  read : ∀ completed, s.reported.completed = some completed → completed = s.started ∧ Quiet s
  reported : s.reported.completed.isSome ↔ s.dispatcher = .joining ∨ s.dispatcher = .complete

theorem afterAttempt_more {attempts max : Nat} (limit : cfg.maxIterations = some max)
    (going : afterAttempt cfg attempts = .dispatching) : attempts < max := by
  simp only [afterAttempt,limit] at going
  split at going
  · contradiction
  · omega

theorem afterAttempt_unreported (attempts : Nat) :
    ¬(afterAttempt cfg attempts = .joining ∨ afterAttempt cfg attempts = .complete) := by
  unfold afterAttempt
  split <;> [split;skip] <;> simp

theorem quiet_worked {i : Fin n} (quiet : Quiet s) (worked : Worked s i t) : Quiet t := by
  cases worked with
  | moves next before after =>
    refine ⟨quiet.1,?_⟩
    intro j
    by_cases here : j = i
    · subst j; simpa [State.setWorker,Worker.Idle] using after
    · simpa [State.setWorker,here] using quiet.2 j
  | receives iteration rest front before => simp [quiet.1] at front
  | executes iteration holding => simpa [holding,held] using (quiet.2 i).1
  | completes iteration holding => simpa [holding,uncounted] using (quiet.2 i).2

theorem worked_counted {i : Fin n} (valid : Counted cfg s) (worked : Worked s i t) :
    Counted cfg t := by
  have read := fun completed found => (valid.read completed found).imp_right (quiet_worked · worked)
  cases worked <;>
    exact ⟨valid.started,valid.fresh,valid.below,valid.attempts,valid.limited,valid.more,read,
      valid.reported⟩

theorem dispatched_counted {a : Action n} (valid : Counted cfg s)
    (reached : s.dispatcher = .dispatching) (allowed : Attempts cfg s a → cfg.maxIterations ≠ some 0)
    (dispatched : Dispatched cfg s a t) : Counted cfg t := by
  have unread : s.reported.completed = none := by
    simpa [reached] using valid.reported
  have attempts := valid.attempts
  have within (attempting : Attempts cfg s a) (max : Nat) (limit : cfg.maxIterations = some max) :
      s.iterationCounter + 1 ≤ max :=
    valid.more max limit (fun zero => allowed attempting (zero ▸ limit)) reached
  cases dispatched with
  | leaves =>
    exact ⟨valid.started,valid.fresh,valid.below,attempts,valid.limited,by simp,by simp [unread],
      by simp [unread]⟩
  | panics =>
    exact ⟨valid.started,valid.fresh,valid.below,attempts,valid.limited,by simp,by simp [unread],
      by simp [unread]⟩
  | accepts attempting =>
    have counted : s.iterationCounter + 1 = s.started + 1 + s.dropped := by omega
    refine ⟨by simp [valid.started],?_,fun iteration member => ?_,counted,within attempting,
      fun max limit _ going => afterAttempt_more limit going,by simp [unread],?_⟩
    · refine List.nodup_append.mpr ⟨valid.fresh,List.nodup_singleton _,?_⟩
      intro old member new last
      rw [List.mem_singleton] at last
      have := valid.below old member
      omega
    · rcases List.mem_append.mp member with old | new
      · exact Nat.lt_succ_of_lt (valid.below iteration old)
      · rw [List.mem_singleton.mp new]
        exact Nat.lt_succ_self _
    · simpa [unread] using afterAttempt_unreported (s.iterationCounter + 1)
  | drops attempting =>
    have counted : s.iterationCounter + 1 = s.started + (s.dropped + 1) := by omega
    refine ⟨valid.started,valid.fresh,fun iteration member => ?_,counted,within attempting,
      fun max limit _ going => afterAttempt_more limit going,by simp [unread],?_⟩
    · exact Nat.lt_succ_of_lt (valid.below iteration member)
    · simpa [unread] using afterAttempt_unreported (s.iterationCounter + 1)

/-- The counter of completed iterations has caught up exactly when nothing is under way. -/
theorem completed_eq_started_iff (accounted : Accounted s)
    (started : s.started = s.accepted.length) : s.completed = s.started ↔ Quiet s := by
  have numbers := congrArg Multiset.card accounted.numbers
  have completed := accounted.completed
  simp only [Multiset.card_add,Multiset.coe_card] at numbers
  constructor
  · intro caughtUp
    have empty : s.queue.length = 0 := by omega
    have unheld : (Family.total held s.workers).card = 0 := by omega
    have counted : Family.total uncounted s.workers = 0 := by omega
    refine ⟨List.length_eq_zero_iff.mp empty,fun i => ⟨?_,Family.total_eq_zero_iff.mp counted i⟩⟩
    exact Family.total_eq_zero_iff.mp (Multiset.card_eq_zero.mp unheld) i
  · rintro ⟨empty,idle⟩
    have unheld : Family.total held s.workers = 0 := Family.total_zero fun i => (idle i).1
    have counted : Family.total uncounted s.workers = 0 := Family.total_zero fun i => (idle i).2
    simp only [empty,unheld,List.length_nil,Multiset.card_zero] at numbers
    omega

structure Invariant (cfg : Settings) (s : State n) : Prop where
  accounted : Accounted s
  counted : Counted cfg s

theorem initial_invariant (cfg : Settings) : Invariant cfg (initial cfg) where
  accounted := by
    constructor
    · rw [Family.total_zero (by simp [initial,held])]
      simp [initial]
    · rw [Family.total_zero (by simp [initial,uncounted])]
      rfl
  counted := by
    refine ⟨rfl,List.nodup_nil,by simp [initial],rfl,fun _ _ => Nat.zero_le _,?_,by simp [initial],
      by simp [initial]⟩
    exact fun max _ positive _ => Nat.pos_of_ne_zero positive

theorem dispatched_accounted {a : Action n} (valid : Accounted s)
    (dispatched : Dispatched cfg s a t) : Accounted t := by
  cases dispatched with
  | leaves | panics | drops => exact ⟨valid.numbers,valid.completed⟩
  | accepts =>
    refine ⟨?_,valid.completed⟩
    simp only [← Multiset.coe_add,← valid.numbers]
    abel

theorem finish_invariant (valid : Invariant cfg s)
    (quiet : s.dispatcher = .reportingCompleted → Quiet s) (taken : finish s = some t) :
    Invariant cfg t := by
  obtain ⟨accounted,started,fresh,below,attempts,limited,_,read,reported⟩ := valid
  have caughtUp := completed_eq_started_iff accounted started
  unfold finish at taken
  cases reached : s.dispatcher <;> simp only [reached] at taken
  case joining =>
    split at taken
    next =>
      obtain rfl := Option.some.inj taken
      have known : s.reported.completed.isSome := reported.mpr (.inl reached)
      exact ⟨⟨accounted.numbers,accounted.completed⟩,started,fresh,below,attempts,limited,by simp,
        read,by simpa using known⟩
    next => contradiction
  case dispatching | complete | panicked => contradiction
  case reportingCompleted =>
    obtain rfl := Option.some.inj taken
    have empty := quiet reached
    refine ⟨⟨accounted.numbers,accounted.completed⟩,started,fresh,below,attempts,limited,by simp,
      fun completed found => ?_,by simp⟩
    obtain rfl := Option.some.inj found
    exact ⟨caughtUp.mpr empty,empty⟩
  all_goals
    obtain rfl := Option.some.inj taken
    have unread : s.reported.completed = none := by simpa [reached] using reported
    exact ⟨⟨accounted.numbers,accounted.completed⟩,started,fresh,below,attempts,limited,by simp,
      by simp [unread],by simp [unread]⟩

theorem step_invariant (s : State n) (a : Action n) (t : State n) (valid : Invariant cfg s)
    (allowed : Settled cfg s a) (taken : step cfg s a = some t) : Invariant cfg t := by
  cases a with
  | work i =>
    obtain ⟨_,worked⟩ := work_cases taken
    exact ⟨worked_accounted valid.accounted worked,worked_counted valid.counted worked⟩
  | fail i =>
    simp only [step] at taken
    split at taken
    next pc =>
      obtain rfl := Option.some.inj taken
      have worked : Worked s i (s.setWorker i .done) :=
        .moves _ (by simp [pc,Worker.Idle,held,uncounted]) ⟨rfl,rfl⟩
      exact ⟨worked_accounted valid.accounted worked,worked_counted valid.counted worked⟩
    next => contradiction
  | dispatch elapsed rampElapsed =>
    obtain ⟨reached,dispatched⟩ := dispatch_cases taken
    exact ⟨dispatched_accounted valid.accounted dispatched,
      dispatched_counted valid.counted reached allowed.1 dispatched⟩
  | finish => exact finish_invariant valid (allowed.2 rfl) taken
  | setPaused paused =>
    obtain rfl := Option.some.inj taken
    obtain ⟨started,fresh,below,attempts,limited,more,read,reported⟩ := valid.counted
    exact ⟨⟨valid.accounted.numbers,valid.accounted.completed⟩,
      started,fresh,below,attempts,limited,more,read,reported⟩

theorem conserved_of_invariant (valid : Invariant cfg s) : Conserved cfg s := by
  obtain ⟨⟨numbers,_⟩,started,fresh,_,attempts,limited,_,read,reported⟩ := valid
  refine ⟨?_,attempts,limited,fun completed found => (read completed found).1,?_⟩
  · have within : handed s ≤ (s.accepted : Multiset Nat) := by
      rw [← numbers,add_assoc]
      exact Multiset.le_add_left _ _
    exact Multiset.nodup_of_le within (Multiset.coe_nodup.mpr fresh)
  · intro complete
    obtain ⟨completed,found⟩ := Option.isSome_iff_exists.mp (reported.mpr (.inr complete))
    obtain ⟨_,empty,idle⟩ := read completed found
    rw [empty,Family.total_zero fun i => (idle i).1] at numbers
    refine ⟨started,?_⟩
    intro iteration member
    have same : (s.executed : Multiset Nat) = (s.accepted : Multiset Nat) := by simpa using numbers
    rw [(Multiset.coe_eq_coe.mp same).count_eq]
    exact List.count_eq_one_of_mem fresh member

/-- An attempt under a limit of zero exceeds it, and completed iterations that are read
early are reported short. -/
theorem unsettled_breaks (s : State n) (a : Action n) (t : State n) (valid : Invariant cfg s)
    (refused : ¬Settled cfg s a) (taken : step cfg s a = some t) : ¬Conserved cfg t := by
  intro conserved
  apply refused
  constructor
  · intro attempting limit
    cases a with
    | dispatch elapsed rampElapsed =>
      obtain ⟨reached,inside,running,interval,alive⟩ := attempting
      obtain ⟨wait,found⟩ := Option.isSome_iff_exists.mp interval
      have attempted : t.iterationCounter = s.iterationCounter + 1 := by
        simp only [step,dispatch,reached,inside,running,found,attempt,alive,ne_eq,not_true_eq_false,
          and_self,if_true,if_false] at taken
        obtain rfl := Option.some.inj taken
        split <;> rfl
      have bound := conserved.limited 0 limit
      omega
    | _ => exact attempting
  · rintro rfl reached
    simp only [step,finish,reached] at taken
    obtain rfl := Option.some.inj taken
    exact (completed_eq_started_iff valid.accounted valid.counted.started).mp
      (conserved.reported _ rfl)

/-- A run conserves its iterations exactly when no attempt is made under a limit of zero
and everything dispatched is over when the completed iterations are read, which the code
does before it waits for the workers. -/
theorem conserved_iff {actions : List (Action cfg.workers)} {s : State cfg.workers}
    (run : Machine.exec (step cfg) (initial cfg) actions = some s) :
    Machine.Along (step cfg) (Conserved cfg) (initial cfg) actions ↔
      Machine.Guarded (step cfg) (Settled cfg) (initial cfg) actions :=
  Machine.along_iff_guarded step_invariant (fun _ => conserved_of_invariant) unsettled_breaks
    (initial_invariant cfg) run

def oneIteration : Settings := ⟨1,Duration.fromSecs 10,some 1,false,1,[],Duration.fromSecs 1⟩
def only : Fin oneIteration.workers := ⟨0,by decide⟩

/-- The iteration is counted as started, and the worker leaves without looking at the
channel because the flag was cleared first. -/
theorem started_iteration_never_executed :
    ∃ s, Machine.exec (step oneIteration) (initial oneIteration)
        [.work only,.dispatch 0 0,.finish,.work only,.finish,.finish,.finish,.finish,.finish] =
          some s ∧
      s.dispatcher = .complete ∧ ¬Conserved oneIteration s := by
  have lost : ∃ s, Machine.exec (step oneIteration) (initial oneIteration)
      [.work only,.dispatch 0 0,.finish,.work only,.finish,.finish,.finish,.finish,.finish] =
        some s ∧
      s.dispatcher = .complete ∧ s.accepted = [0] ∧ s.executed = [] := by decide +kernel
  obtain ⟨s,run,complete,accepted,executed⟩ := lost
  refine ⟨s,run,complete,?_⟩
  intro conserved
  simpa [accepted,executed] using (conserved.executed complete).2

/-- The worker gets through the iteration before the dispatcher has left its loop. -/
theorem conserved_when_settled :
    let actions : List (Action oneIteration.workers) :=
      [.work only,.work only,.work only,.work only,.dispatch 0 0,.work only,.work only,.work only,
        .finish,.work only,.finish,.finish,.finish,.finish,.finish]
    ∃ s, Machine.exec (step oneIteration) (initial oneIteration) actions = some s ∧
      s.dispatcher = .complete ∧
      Machine.Along (step oneIteration) (Conserved oneIteration) (initial oneIteration) actions := by
  intro actions
  have ended : ∃ s, Machine.exec (step oneIteration) (initial oneIteration) actions = some s ∧
      s.dispatcher = .complete := by decide +kernel
  obtain ⟨s,run,complete⟩ := ended
  exact ⟨s,run,complete,(conserved_iff run).mpr (by decide +kernel)⟩

end Fusillade.Engine.ArrivalRate
