import Fusillade.Engine.Control
import Fusillade.Engine.ArrivalRate

/-! The four loops that offer load, while the run is paused and resumed: the legacy control
loop, the loop of `ramping-workers`, the supervising loop of the closed executors and the
dispatcher of the arrival-rate ones. A polling loop may take its turns at any time, which
covers its sleeps between them, and time passes in whole milliseconds. -/
namespace Fusillade.Engine.Pausing

inductive Executor where
  | legacy (schedule : Schedule)
  | rampingWorkers (schedule : Schedule) (duration : Duration)
  | closed (workers : Nat) (duration : Duration) (isSharedIterations : Bool)
  | arrivalRate (cfg : ArrivalRate.Settings)

def Executor.isLegacy : Executor → Bool
  | .legacy _ => true
  | .rampingWorkers .. | .closed .. | .arrivalRate _ => false

def Executor.duration : Executor → Duration
  | .legacy schedule => schedule.total
  | .rampingWorkers _ duration | .closed _ duration _ => duration
  | .arrivalRate cfg => cfg.duration

inductive Phase where
  /-- A scenario sleeps until its `startTime`. -/
  | delayed
  | checking
  | offering
  | ended
  deriving DecidableEq, Repr

structure Loop where
  phase : Phase
  /-- The reading of the clock that is the `start_time` of the loop. -/
  began : Nat
  /-- The end of the current sleep of a scenario or of its dispatcher. -/
  due : Duration
  dynamicTarget : Option Nat := none
  stopped : Bool := false
  /-- The target of workers, or the iterations that a dispatcher has tried to send. -/
  offered : Nat
  started : Nat := 0
  deriving DecidableEq, Repr

inductive Sent where
  | accepted
  | full
  | disconnected
  deriving DecidableEq, Repr

inductive Turn where
  | stop
  | ramp (workers : Nat)
  | launch
  /-- The loop condition, with whether all shared iterations have been claimed. -/
  | check (allConsumed : Bool)
  | offer (sent : Sent)
  deriving DecidableEq, Repr

/-- Only a closed executor starts workers before its loop. -/
def Executor.launched : Executor → Nat
  | .closed workers _ _ => workers
  | .legacy _ | .rampingWorkers .. | .arrivalRate _ => 0

/-- A closed executor waits for its workers, the other loops go on to their bodies. -/
def Executor.body : Executor → Phase
  | .closed .. => .checking
  | .legacy _ | .rampingWorkers .. | .arrivalRate _ => .offering

/-- Only the dispatcher has to sleep for a computed time. -/
def Executor.awake (e : Executor) (loop : Loop) (clock : Nat) : Bool :=
  match e with
  | .arrivalRate _ => loop.due ≤ Duration.fromMillis clock
  | .legacy _ | .rampingWorkers .. | .closed .. => true

/-- The loop ends here for another reason than its time. -/
def Executor.quits (e : Executor) (loop : Loop) (allConsumed : Bool) : Bool :=
  loop.stopped || match e with
    | .closed _ _ isSharedIterations => isSharedIterations && allConsumed
    | .legacy _ | .rampingWorkers .. | .arrivalRate _ => false

def check (e : Executor) (loop : Loop) (clock : Nat) (elapsed : Duration) (allConsumed : Bool) :
    Option Loop :=
  if loop.phase = .checking ∧ e.awake loop clock then
    if e.duration ≤ elapsed ∨ e.quits loop allConsumed then some { loop with phase := .ended }
    else some { loop with phase := e.body }
  else none

def dispatch (cfg : ArrivalRate.Settings) (loop : Loop) (clock : Nat) (elapsed : Duration)
    (sent : Sent) : Loop :=
  match ArrivalRate.dispatchInterval cfg.timeUnit (ArrivalRate.currentRate cfg elapsed), sent with
  | none, _ | some _, .disconnected => { loop with phase := .ended }
  | some interval, sent => { loop with
      offered := loop.offered + 1
      started := if sent = .accepted then loop.started + 1 else loop.started
      due := Duration.fromMillis clock + interval
      phase := if cfg.maxIterations.any (loop.offered + 1 ≥ ·) then .ended else .checking }

def offer (e : Executor) (loop : Loop) (clock : Nat) (elapsed : Duration) (sent : Sent) : Option Loop :=
  if loop.phase = .offering then
    match e with
    | .legacy schedule => some { loop with
        offered :=
          if loop.stopped then loop.offered
          else loop.dynamicTarget.getD (calculateTarget schedule elapsed)
        phase := .checking }
    | .rampingWorkers schedule _ => some { loop with
        offered := calculateTarget schedule elapsed
        phase := .checking }
    | .closed .. => none
    | .arrivalRate cfg => some (dispatch cfg loop clock elapsed sent)
  else none

/-- A turn of the loop, or a command for it. A scenario ignores the ramp commands. -/
def turn (e : Executor) (loop : Loop) (clock : Nat) (elapsed : Duration) : Turn → Option Loop
  | .stop => some { loop with stopped := true }
  | .ramp workers => some (match e with
      | .legacy _ => { loop with dynamicTarget := if workers = 0 then none else some workers }
      | .rampingWorkers .. | .closed .. | .arrivalRate _ => loop)
  | .launch =>
    if loop.phase = .delayed ∧ loop.due ≤ Duration.fromMillis clock ∧ e.isLegacy = false then
      some { loop with phase := .checking, began := clock, offered := e.launched }
    else none
  | .check allConsumed => check e loop clock elapsed allConsumed
  | .offer sent => offer e loop clock elapsed sent

structure State where
  time : Control.State
  loop : Loop
  deriving DecidableEq, Repr

inductive Action where
  | control (call : Control.Action)
  | loop (turn : Turn)
  deriving DecidableEq, Repr

/-- The elapsed time of each loop: only the legacy one subtracts `total_paused`. -/
def State.elapsed (e : Executor) (s : State) : Duration :=
  let started := s.time.clock - s.loop.began
  Duration.fromMillis
    (if e.isLegacy then started - s.time.control.totalPaused s.time.clock else started)

def State.unpaused (s : State) : Duration :=
  Duration.fromMillis (s.time.clock - s.loop.began - s.time.measure)

def step (e : Executor) (s : State) : Action → Option State
  | .control call => (Control.step s.time call).map ({ s with time := · })
  | .loop taken => (turn e s.loop s.time.clock (s.elapsed e) taken).map ({ s with loop := · })

/-- The run starts, not paused, some time after its control state was made. -/
def initial (e : Executor) (clock : Nat) (startTime : Duration) : State where
  time := { clock := clock }
  loop := {
    phase := if e.isLegacy then .checking else .delayed
    began := clock
    due := Duration.fromMillis clock + startTime
    offered := 0 }

def cut : (paused : Bool) → List Action → List Action
  | _, [] => []
  | _, .control .pause :: rest => cut true rest
  | _, .control .resume :: rest => cut false rest
  | paused, .control (.tick ms) :: rest =>
    if paused then cut paused rest else .control (.tick ms) :: cut paused rest
  | paused, .loop taken :: rest => .loop taken :: cut paused rest

/-- At the un-paused time reached, the run without the pauses offers the same load and is in
the same phase, and the next check ends the loop when that time is the configured duration. -/
structure Excluded (e : Executor) (start : State) (actions : List Action) (s : State) : Prop where
  same : ∃ t, Machine.exec (step e) start (cut false actions) = some t ∧ t.loop.phase = s.loop.phase ∧
    t.loop.offered = s.loop.offered ∧ t.loop.started = s.loop.started ∧ t.unpaused = s.unpaused
  ends : ∀ allConsumed t, step e s (.loop (.check allConsumed)) = some t →
    (t.loop.phase = .ended ↔ e.duration ≤ s.unpaused ∨ e.quits s.loop allConsumed)

/-- The pauses of a legacy run are in time, and those of a scenario end at once or come after
the end of its loop. -/
def harmless (e : Executor) (s : State) : Action → Prop
  | .control (.tick ms) =>
    e.isLegacy = true ∨ s.time.control.paused = false ∨ ms = 0 ∨ s.loop.phase = .ended
  | .control call => e.isLegacy = true → Control.inTime s.time call
  | .loop _ => True

instance (e : Executor) (s : State) : ∀ a, Decidable (harmless e s a)
  | .control (.tick _) => inferInstanceAs (Decidable (_ ∨ _))
  | .control .pause | .control .resume => inferInstanceAs (Decidable (_ → _))
  | .loop _ => isTrue trivial

variable {e : Executor} {s t s' : State} {loop next : Loop} {taken : Turn} {clock : Nat}
  {elapsed : Duration}

theorem Executor.legacy_eq (legacy : e.isLegacy = true) : ∃ schedule, e = .legacy schedule := by
  cases e with
  | legacy schedule => exact ⟨schedule,rfl⟩
  | rampingWorkers schedule duration => contradiction
  | closed workers duration isSharedIterations => contradiction
  | arrivalRate cfg => contradiction

theorem turn_legacy (legacy : e.isLegacy = true) (other : Nat) :
    turn e loop clock elapsed taken = turn e loop other elapsed taken := by
  obtain ⟨schedule,rfl⟩ := Executor.legacy_eq legacy
  cases taken <;> simp [turn,check,offer,Executor.awake,Executor.isLegacy]

theorem turn_ended (ended : loop.phase = .ended) (other : Nat) (otherElapsed : Duration) :
    turn e loop clock elapsed taken = turn e loop other otherElapsed taken := by
  cases taken <;> simp [turn,check,offer,ended]

theorem turn_stays_ended (ended : loop.phase = .ended)
    (gives : turn e loop clock elapsed taken = some next) : next.phase = .ended := by
  cases taken with
  | stop => obtain rfl := Option.some.inj gives; exact ended
  | ramp workers =>
    obtain rfl := Option.some.inj gives
    cases e <;> exact ended
  | launch => simp [turn,ended] at gives
  | check allConsumed => simp [turn,check,ended] at gives
  | offer sent => simp [turn,offer,ended] at gives

theorem turn_began (legacy : e.isLegacy = true)
    (gives : turn e loop clock elapsed taken = some next) : next.began = loop.began := by
  obtain ⟨schedule,rfl⟩ := Executor.legacy_eq legacy
  cases taken with
  | stop => obtain rfl := Option.some.inj gives; rfl
  | ramp workers => obtain rfl := Option.some.inj gives; rfl
  | launch => simp [turn,Executor.isLegacy] at gives
  | check allConsumed =>
    simp only [turn,check] at gives
    split at gives
    · split at gives <;> (obtain rfl := Option.some.inj gives; rfl)
    · contradiction
  | offer sent =>
    simp only [turn,offer] at gives
    split at gives
    · obtain rfl := Option.some.inj gives; rfl
    · contradiction

structure Related (e : Executor) (s t : State) : Prop where
  loop : t.loop = s.loop
  time : t.time = { clock := s.time.clock - s.time.measure }
  paused : s.time.measure ≤ s.time.clock
  legacy : e.isLegacy = true →
    Control.Recorded s.time ∧ s.loop.began + s.time.measure ≤ s.time.clock
  scenario : e.isLegacy = false → s.time.measure = 0 ∨ s.loop.phase = .ended

theorem Related.elapsed_legacy (related : Related e s t) (legacy : e.isLegacy = true) :
    s.elapsed e = t.elapsed e := by
  obtain ⟨recorded,_⟩ := related.legacy legacy
  have total : s.time.control.totalPaused s.time.clock = s.time.measure := by
    simpa using recorded.accounts 0
  have none : ∀ clock, t.time.control.totalPaused clock = 0 := by
    simp [related.time,Control.ControlState.totalPaused]
  have clock : t.time.clock = s.time.clock - s.time.measure := by rw [related.time]
  simp only [State.elapsed,legacy,if_true,total,none,related.loop,clock]
  congr 1
  omega

theorem Related.same_turn (related : Related e s t) :
    turn e s.loop s.time.clock (s.elapsed e) taken =
      turn e t.loop t.time.clock (t.elapsed e) taken := by
  rw [related.loop]
  cases legacy : e.isLegacy with
  | true =>
    rw [related.elapsed_legacy legacy]
    exact turn_legacy legacy _
  | false =>
    rcases related.scenario legacy with unpaused | ended
    · have same : t.time.clock = s.time.clock := by simp [related.time,unpaused]
      have elapsed : s.elapsed e = t.elapsed e := by
        simp [State.elapsed,legacy,related.loop,same]
      rw [same,elapsed]
    · exact turn_ended ended _ _

theorem initial_related (e : Executor) (clock : Nat) (startTime : Duration) :
    Related e (initial e clock startTime) (initial e clock startTime) where
  loop := rfl
  time := rfl
  paused := Nat.zero_le _
  legacy _ := ⟨⟨fun _ => ⟨rfl,rfl⟩,by simp [initial]⟩,Nat.le_refl _⟩
  scenario _ := .inl rfl

/-- Time that passes while paused is not in the other run. -/
theorem Related.tick_paused (related : Related e s t) {ms : Nat}
    (guard : harmless e s (.control (.tick ms))) (paused : s.time.control.paused = true)
    (taken : step e s (.control (.tick ms)) = some s') : Related e s' t := by
  obtain rfl := Option.some.inj taken
  have measure : (if s.time.control.paused = true then s.time.measure + ms else s.time.measure) =
      s.time.measure + ms := if_pos paused
  refine ⟨related.loop,?_,?_,?_,?_⟩
  · simp only [measure,related.time]
    congr 1
    omega
  · simp only [measure]
    exact Nat.add_le_add_right related.paused ms
  · intro legacy
    obtain ⟨recorded,began⟩ := related.legacy legacy
    refine ⟨Control.step_recorded (a := .tick ms) recorded trivial rfl,?_⟩
    simp only [measure]
    omega
  · intro scenario
    simp only [measure]
    rcases guard with legacy | running | none | ended
    · simp [scenario] at legacy
    · simp [paused] at running
    · subst ms
      exact related.scenario scenario
    · exact .inr ended

theorem Related.tick_running (related : Related e s t) {ms : Nat}
    (running : s.time.control.paused = false)
    (taken : step e s (.control (.tick ms)) = some s') :
    ∃ t', step e t (.control (.tick ms)) = some t' ∧ Related e s' t' := by
  obtain rfl := Option.some.inj taken
  have measure : (if s.time.control.paused = true then s.time.measure + ms else s.time.measure) =
      s.time.measure := if_neg (by simp [running])
  have bound := related.paused
  refine ⟨_,rfl,related.loop,?_,?_,?_,?_⟩
  · simp only [measure,related.time]
    congr 1
    omega
  · simp only [measure]
    omega
  · intro legacy
    obtain ⟨recorded,began⟩ := related.legacy legacy
    refine ⟨Control.step_recorded (a := .tick ms) recorded trivial rfl,?_⟩
    simp only [measure]
    omega
  · intro scenario
    simp only [measure]
    exact related.scenario scenario

/-- A pause or a resume takes no time, and the other run leaves it out. -/
theorem Related.call (related : Related e s t) {call : Control.Action}
    (instant : call = .pause ∨ call = .resume)
    (guard : e.isLegacy = true → Control.inTime s.time call)
    (taken : step e s (.control call) = some s') : Related e s' t := by
  have same : s'.loop = s.loop ∧ s'.time.clock = s.time.clock ∧ s'.time.measure = s.time.measure := by
    rcases instant with rfl | rfl <;> (obtain rfl := Option.some.inj taken; exact ⟨rfl,rfl,rfl⟩)
  obtain ⟨loop,clock,measure⟩ := same
  refine ⟨related.loop.trans loop.symm,?_,?_,?_,?_⟩
  · rw [related.time,clock,measure]
  · rw [clock,measure]; exact related.paused
  · intro legacy
    obtain ⟨recorded,began⟩ := related.legacy legacy
    rw [loop,clock,measure]
    refine ⟨?_,began⟩
    obtain ⟨time,stepped,rfl⟩ := Option.map_eq_some_iff.mp taken
    exact Control.step_recorded recorded (guard legacy) stepped
  · intro scenario
    rw [loop,measure]
    exact related.scenario scenario

theorem Related.loop_turn (related : Related e s t) (gives : step e s (.loop taken) = some s') :
    ∃ t', step e t (.loop taken) = some t' ∧ Related e s' t' := by
  obtain ⟨next,turned,rfl⟩ := Option.map_eq_some_iff.mp gives
  have same : turn e s.loop s.time.clock (s.elapsed e) taken =
      turn e t.loop t.time.clock (t.elapsed e) taken := related.same_turn
  refine ⟨{ t with loop := next },?_,rfl,related.time,related.paused,?_,?_⟩
  · simp only [step,← same,turned,Option.map_some]
  · intro legacy
    obtain ⟨recorded,began⟩ := related.legacy legacy
    refine ⟨recorded,?_⟩
    simp only [turn_began legacy turned]
    exact began
  · intro scenario
    rcases related.scenario scenario with unpaused | ended
    · exact .inl unpaused
    · exact .inr (turn_stays_ended ended turned)

theorem exec_related {actions : List Action} (related : Related e s t)
    (guarded : Machine.Guarded (step e) (harmless e) s actions)
    (run : Machine.exec (step e) s actions = some s') :
    ∃ t', Machine.exec (step e) t (cut s.time.control.paused actions) = some t' ∧ Related e s' t' := by
  induction actions generalizing s t with
  | nil =>
    obtain rfl := Option.some.inj run
    exact ⟨t,rfl,related⟩
  | cons a rest ih =>
    obtain ⟨u,first,later⟩ := Machine.exec_cons_iff.mp run
    obtain ⟨guard,after⟩ := guarded
    match a with
    | .control .pause =>
      have next := related.call (.inl rfl) guard first
      obtain ⟨t',reached,final⟩ := ih next (after u first) later
      obtain rfl := Option.some.inj first
      exact ⟨t',reached,final⟩
    | .control .resume =>
      have next := related.call (.inr rfl) guard first
      obtain ⟨t',reached,final⟩ := ih next (after u first) later
      obtain rfl := Option.some.inj first
      exact ⟨t',reached,final⟩
    | .control (.tick ms) =>
      have flag : u.time.control.paused = s.time.control.paused := by
        obtain rfl := Option.some.inj first; rfl
      cases paused : s.time.control.paused with
      | true =>
        have next := related.tick_paused guard paused first
        obtain ⟨t',reached,final⟩ := ih next (after u first) later
        rw [flag,paused] at reached
        exact ⟨t',reached,final⟩
      | false =>
        obtain ⟨v,other,next⟩ := related.tick_running paused first
        obtain ⟨t',reached,final⟩ := ih next (after u first) later
        rw [flag,paused] at reached
        exact ⟨t',Machine.exec_cons_iff.mpr ⟨v,other,reached⟩,final⟩
    | .loop taken =>
      obtain ⟨v,other,next⟩ := related.loop_turn first
      obtain ⟨t',reached,final⟩ := ih next (after u first) later
      have flag : u.time = s.time := by
        obtain ⟨_,_,rfl⟩ := Option.map_eq_some_iff.mp first; rfl
      rw [flag] at reached
      exact ⟨t',Machine.exec_cons_iff.mpr ⟨v,other,reached⟩,final⟩

theorem Related.unpaused (related : Related e s t) : t.unpaused = s.unpaused := by
  have bound := related.paused
  simp only [State.unpaused,related.loop,related.time]
  congr 1
  omega

/-- The loop condition reads the time that was not paused. -/
theorem Related.elapsed_unpaused (related : Related e s t) (looping : s.loop.phase ≠ .ended) :
    s.elapsed e = s.unpaused := by
  cases legacy : e.isLegacy with
  | true =>
    have total := (related.legacy legacy).1.accounts 0
    simp only [Nat.add_zero,ite_self] at total
    simp [State.elapsed,State.unpaused,legacy,total]
  | false =>
    have none := (related.scenario legacy).resolve_right looping
    simp [State.elapsed,State.unpaused,legacy,none]

theorem check_ended_iff {allConsumed : Bool} (gives : check e loop clock elapsed allConsumed = some next) :
    next.phase = .ended ↔ e.duration ≤ elapsed ∨ e.quits loop allConsumed = true := by
  unfold check at gives
  split at gives
  · split at gives
    · rename_i expired
      obtain rfl := Option.some.inj gives
      exact iff_of_true rfl expired
    · rename_i within
      obtain rfl := Option.some.inj gives
      refine iff_of_false ?_ within
      cases e <;> simp [Executor.body]
  · contradiction

theorem Related.excluded {start : State} {actions : List Action} (related : Related e s t)
    (reached : Machine.exec (step e) start (cut false actions) = some t) :
    Excluded e start actions s where
  same := ⟨t,reached,by rw [related.loop],by rw [related.loop],by rw [related.loop],related.unpaused⟩
  ends allConsumed u taken := by
    obtain ⟨next,checked,rfl⟩ := Option.map_eq_some_iff.mp taken
    have looping : s.loop.phase ≠ .ended := by
      intro ended
      simp [turn,check,ended] at checked
    rw [← related.elapsed_unpaused looping]
    exact check_ended_iff checked

/-- The pauses of a run do not consume the test when they are all harmless. -/
theorem pause_excluded (e : Executor) (clock : Nat) (startTime : Duration) (actions : List Action)
    (guarded : Machine.Guarded (step e) (harmless e) (initial e clock startTime) actions)
    (run : Machine.exec (step e) (initial e clock startTime) actions = some s) :
    Excluded e (initial e clock startTime) actions s := by
  obtain ⟨t,reached,related⟩ := exec_related (initial_related e clock startTime) guarded run
  exact related.excluded reached

/-- Two workers for ten seconds, with a pause of four seconds in the middle. -/
theorem pause_excluded_legacy : ∃ s,
    Excluded (.legacy [(0,2),(Duration.fromSecs 10,2)])
      (initial (.legacy [(0,2),(Duration.fromSecs 10,2)]) 5 0)
      [.loop (.check false),.loop (.offer .accepted),.control (.tick 6000),.control .pause,
        .control (.tick 4000),.loop (.check false),.loop (.offer .accepted),.control .resume,
        .control (.tick 4000)] s := by
  have enabled : ∃ s,
      Machine.exec (step (.legacy [(0,2),(Duration.fromSecs 10,2)]))
        (initial (.legacy [(0,2),(Duration.fromSecs 10,2)]) 5 0)
        [.loop (.check false),.loop (.offer .accepted),.control (.tick 6000),.control .pause,
          .control (.tick 4000),.loop (.check false),.loop (.offer .accepted),.control .resume,
          .control (.tick 4000)] = some s ∧ s.loop.offered = 2 := by decide +kernel
  obtain ⟨s,run,_⟩ := enabled
  exact ⟨s,pause_excluded _ 5 0 _ (by decide +kernel) run⟩

/-- Every scenario that is paused at its start for its whole duration ends without any load. -/
theorem scenario_ends_paused (scenario : e.isLegacy = false) (clock ms : Nat)
    (long : e.duration ≤ Duration.fromMillis ms) : ∃ s,
    Machine.exec (step e) (initial e clock 0) [.loop .launch,.control .pause,.control (.tick ms),
      .loop (.check false)] = some s ∧ s.loop.phase = .ended ∧ s.unpaused = 0 := by
  have awake (loop : Loop) (due : loop.due = Duration.fromMillis clock) :
      e.awake loop (clock + ms) = true := by
    have later : Duration.fromMillis clock ≤ Duration.fromMillis (clock + ms) :=
      Nat.mul_le_mul_right _ (Nat.le_add_right clock ms)
    cases e <;> simp [Executor.awake,due,later]
  have none : Duration.fromMillis 0 = 0 := rfl
  simp [Machine.exec,step,turn,check,Control.step,Control.ControlState.pause,initial,State.elapsed,
    State.unpaused,scenario,awake,long,none]

/-- A scenario of ten seconds that is paused after one second for nine ends there. -/
theorem paused_scenario_ends : ∃ s,
    Machine.exec (step (.closed 1 (Duration.fromSecs 10) false))
      (initial (.closed 1 (Duration.fromSecs 10) false) 5 0)
      [.loop .launch,.control (.tick 1000),.control .pause,.control (.tick 9000),
        .loop (.check false)] = some s ∧ s.unpaused = Duration.fromSecs 1 ∧
      ¬Excluded (.closed 1 (Duration.fromSecs 10) false)
        (initial (.closed 1 (Duration.fromSecs 10) false) 5 0)
        [.loop .launch,.control (.tick 1000),.control .pause,.control (.tick 9000),
          .loop (.check false)] s := by
  have paused : ∃ s,
      Machine.exec (step (.closed 1 (Duration.fromSecs 10) false))
        (initial (.closed 1 (Duration.fromSecs 10) false) 5 0)
        [.loop .launch,.control (.tick 1000),.control .pause,.control (.tick 9000),
          .loop (.check false)] = some s ∧
        s.unpaused = Duration.fromSecs 1 ∧ s.loop.phase = .ended := by decide +kernel
  have unpaused : ∃ t,
      Machine.exec (step (.closed 1 (Duration.fromSecs 10) false))
        (initial (.closed 1 (Duration.fromSecs 10) false) 5 0)
        [.loop .launch,.control (.tick 1000),.loop (.check false)] = some t ∧
        t.loop.phase = .checking := by decide +kernel
  obtain ⟨s,run,measured,ended⟩ := paused
  obtain ⟨t,reached,checking⟩ := unpaused
  refine ⟨s,run,measured,?_⟩
  intro excluded
  obtain ⟨t',reached',phase,_⟩ := excluded.same
  obtain rfl : t = t' := Option.some.inj (reached.symm.trans reached')
  simp [ended,checking] at phase

end Fusillade.Engine.Pausing
