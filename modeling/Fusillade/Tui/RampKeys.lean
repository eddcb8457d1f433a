import Fusillade.Engine.Schedule
import Fusillade.Lib.Machine

/-! The keys `+` and `-` of the terminal interface in legacy mode. A key reads the shared cell of
the worker target and sends the new one; the engine stores it when it processes the command. The
channel is first in first out and has one sender, so reading and sending are one step. -/
namespace Fusillade.Tui

open Engine Machine

inductive Key where
  | plus
  | minus
  deriving DecidableEq

/-- The number that the key sends as a `Ramp`, a `usize` sum that wraps. -/
def Key.sends : Key → (current : Nat) → Nat
  | plus, current => (current + 10) % 2^64
  | minus, current => max (current - 10) 1

def Key.apply : Key → (target : Nat) → Nat
  | plus, target => target + 10
  | minus, target => max (target - 10) 1

structure State where
  /-- The shared cell that the keys read. -/
  targetWorkers : Nat
  dynamicTarget : Option Nat
  /-- The `Ramp` commands that wait in the channel. -/
  queue : List Nat
  /-- The time that the schedule is followed by. -/
  elapsed : Duration
  /-- The keys so far, applied in order to the target in effect at the first of them. -/
  pressed : Option Nat
  deriving DecidableEq

/-- The arm of a `Ramp` command; zero returns to the schedule. -/
def State.ramp (s : State) : Nat → State
  | 0 => { s with dynamicTarget := none }
  | n => { s with targetWorkers := n, dynamicTarget := some n }

/-- `dynamic_target_legacy.unwrap_or(scheduled_target)` -/
def inEffect (schedule : Schedule) (s : State) : Nat :=
  s.dynamicTarget.getD (calculateTarget schedule s.elapsed)

inductive Action where
  | press (key : Key)
  /-- The control loop takes one command off the channel. -/
  | process
  | look (elapsed : Duration)
  deriving DecidableEq

def step (schedule : Schedule) (s : State) : Action → Option State
  | .press key => some { s with
      queue := s.queue ++ [key.sends s.targetWorkers]
      pressed := some (key.apply (s.pressed.getD (inEffect schedule s))) }
  | .process =>
    match s.queue with
    | n :: rest => some (State.ramp { s with queue := rest } n)
    | [] => none
  | .look elapsed => some { s with elapsed := elapsed }

def start (targetWorkers : UInt64) (dynamicTarget : Option Nat) (elapsed : Duration) : State :=
  ⟨targetWorkers.toNat,dynamicTarget,[],elapsed,none⟩

def drained (s : State) : State := s.queue.foldl State.ramp { s with queue := [] }

/-- Once the commands are processed the target in effect is what the keys make of the first one,
and stays so. -/
def AsPressed (schedule : Schedule) (s : State) : Prop :=
  ∀ target ∈ s.pressed, ∀ elapsed, inEffect schedule { drained s with elapsed := elapsed } = target

/-- The key makes of the cell what it makes of the target. -/
def Key.Shows : Key → (cell target : Nat) → Prop
  | plus, cell, target => cell = target ∧ cell + 10 < 2^64
  | minus, cell, target => cell = target ∨ cell ≤ 11 ∧ target ≤ 11

/-- A key is pressed while the cell shows the target that the waiting commands lead to. -/
def Shows (schedule : Schedule) (s : State) : Action → Prop
  | .press key => key.Shows s.targetWorkers (inEffect schedule (drained s))
  | .process | .look _ => True

instance : ∀ (key : Key) (cell target : Nat), Decidable (key.Shows cell target)
  | .plus, _, _ => inferInstanceAs (Decidable (_ ∧ _))
  | .minus, _, _ => inferInstanceAs (Decidable (_ ∨ _))

instance (schedule : Schedule) (s : State) : ∀ a, Decidable (Shows schedule s a)
  | .press key => inferInstanceAs (Decidable (key.Shows _ _))
  | .process | .look _ => isTrue trivial

structure Invariant (schedule : Schedule) (s : State) : Prop where
  fits : s.targetWorkers < 2^64
  queued : ∀ n ∈ s.queue, n < 2^64
  silent : s.pressed = none → s.queue = []
  asPressed : AsPressed schedule s

variable {schedule : Schedule} {s t : State} {a : Action}

theorem Key.apply_pos (key : Key) (target : Nat) : 0 < key.apply target := by
  cases key <;> simp only [Key.apply] <;> omega

theorem Key.shows_iff (key : Key) {cell target : Nat} (fits : cell < 2^64) :
    key.Shows cell target ↔ key.sends cell = key.apply target := by
  cases key <;> simp only [Key.Shows,Key.sends,Key.apply] <;> omega

theorem Key.sends_lt (key : Key) {cell : Nat} (fits : cell < 2^64) : key.sends cell < 2^64 := by
  cases key <;> simp only [Key.sends] <;> omega

def commanded (n : Nat) : Option Nat := if n = 0 then none else some n

theorem ramp_dynamicTarget (s : State) (n : Nat) : (s.ramp n).dynamicTarget = commanded n := by
  cases n <;> rfl

theorem ramp_queue (s : State) (n : Nat) : (s.ramp n).queue = s.queue := by
  cases n <;> rfl

theorem ramp_pressed (s : State) (n : Nat) : (s.ramp n).pressed = s.pressed := by
  cases n <;> rfl

theorem drained_dynamicTarget (s : State) :
    (drained s).dynamicTarget = s.queue.foldl (fun _ n => commanded n) s.dynamicTarget := by
  have run (queue : List Nat) (s : State) :
      (queue.foldl State.ramp s).dynamicTarget = queue.foldl (fun _ n => commanded n) s.dynamicTarget := by
    induction queue generalizing s with
    | nil => rfl
    | cons n rest ih => rw [List.foldl_cons,ih,ramp_dynamicTarget,List.foldl_cons]
  exact run s.queue _

theorem drained_snoc {n : Nat} {queue : List Nat} (last : t.queue = queue ++ [n]) :
    (drained t).dynamicTarget = commanded n := by
  rw [drained_dynamicTarget,last,List.foldl_concat]

theorem commanded_stays {n target : Nat} (positive : 0 < target) :
    (∀ elapsed, (commanded n).getD (calculateTarget schedule elapsed) = target) ↔ n = target := by
  unfold commanded
  split
  next zero =>
    refine iff_of_false (fun stays => ?_) (by omega)
    have ended := stays schedule.total
    rw [Option.getD_none,calculateTarget_over (Nat.le_refl _)] at ended
    omega
  next => exact ⟨fun stays => stays 0,fun same _ => same⟩

theorem Invariant.current (valid : Invariant schedule s) :
    s.pressed.getD (inEffect schedule s) = inEffect schedule (drained s) := by
  cases pressed : s.pressed with
  | none =>
    have empty := valid.silent pressed
    simp [drained,empty,inEffect]
  | some target => exact (valid.asPressed target pressed (drained s).elapsed).symm

/-- The state after a press is as pressed exactly when the cell showed the target. -/
theorem press_asPressed (valid : Invariant schedule s) {key : Key}
    (taken : step schedule s (.press key) = some t) :
    AsPressed schedule t ↔ Shows schedule s (.press key) := by
  obtain rfl := Option.some.inj taken
  rw [Shows,key.shows_iff valid.fits,← valid.current,← @commanded_stays schedule _ _ (key.apply_pos _)]
  simp only [AsPressed,Option.mem_some_iff,forall_eq',inEffect]
  rw [drained_snoc (t := { s with queue := _, pressed := _ }) rfl]

theorem process_drained {n : Nat} {rest : List Nat} (waiting : s.queue = n :: rest) :
    (drained (State.ramp { s with queue := rest } n)).dynamicTarget = (drained s).dynamicTarget := by
  rw [drained_dynamicTarget,drained_dynamicTarget,ramp_queue,waiting,ramp_dynamicTarget,List.foldl_cons]

/-- Time changes nothing, and no step does that keeps the target to come. -/
theorem AsPressed.of_same (asPressed : AsPressed schedule s) (keys : t.pressed = s.pressed)
    (target : (drained t).dynamicTarget = (drained s).dynamicTarget) : AsPressed schedule t := by
  intro goal pressed elapsed
  rw [keys] at pressed
  have stays := asPressed goal pressed elapsed
  simp only [inEffect] at stays ⊢
  rwa [target]

theorem step_invariant (s : State) (a : Action) (t : State) (valid : Invariant schedule s)
    (shown : Shows schedule s a) (taken : step schedule s a = some t) : Invariant schedule t := by
  cases a with
  | press key =>
    have pressed := (press_asPressed valid taken).mpr shown
    obtain rfl := Option.some.inj taken
    refine ⟨valid.fits,?_,nofun,pressed⟩
    intro n member
    rcases List.mem_append.mp member with old | new
    · exact valid.queued n old
    · obtain rfl := List.mem_singleton.mp new
      exact key.sends_lt valid.fits
  | process =>
    simp only [step] at taken
    split at taken
    next n rest waiting =>
      obtain rfl := Option.some.inj taken
      obtain ⟨small,smaller⟩ := List.forall_mem_cons.mp (waiting ▸ valid.queued)
      refine ⟨?_,?_,?_,valid.asPressed.of_same (ramp_pressed _ n) (process_drained waiting)⟩
      · cases n with
        | zero => exact valid.fits
        | succ n => exact small
      · rwa [ramp_queue]
      · intro silent
        rw [ramp_pressed] at silent
        rw [valid.silent silent] at waiting
        cases waiting
    next => contradiction
  | look elapsed =>
    obtain rfl := Option.some.inj taken
    refine ⟨valid.fits,valid.queued,valid.silent,valid.asPressed.of_same rfl ?_⟩
    rw [drained_dynamicTarget,drained_dynamicTarget]

theorem unshown_breaks (s : State) (a : Action) (t : State) (valid : Invariant schedule s)
    (hidden : ¬Shows schedule s a) (taken : step schedule s a = some t) : ¬AsPressed schedule t := by
  cases a with
  | press key => exact mt (press_asPressed valid taken).mp hidden
  | process | look => exact absurd trivial hidden

theorem start_invariant (targetWorkers : UInt64) (dynamicTarget : Option Nat) (elapsed : Duration) :
    Invariant schedule (start targetWorkers dynamicTarget elapsed) :=
  ⟨UInt64.toNat_lt_size targetWorkers,nofun,fun _ => rfl,nofun⟩

/-- **The target is what the keys make of the first one in any order of presses and processing,
exactly when every key is pressed while the cell shows the target that the waiting commands lead
to**, or both are so small that `-` gives one worker. -/
theorem asPressed_iff {targetWorkers : UInt64} {dynamicTarget : Option Nat} {elapsed : Duration}
    {actions : List Action}
    (run : exec (step schedule) (start targetWorkers dynamicTarget elapsed) actions = some t) :
    Along (step schedule) (AsPressed schedule) (start targetWorkers dynamicTarget elapsed) actions ↔
      Guarded (step schedule) (Shows schedule) (start targetWorkers dynamicTarget elapsed) actions :=
  along_iff_guarded step_invariant (fun _ => Invariant.asPressed) unshown_breaks
    (start_invariant targetWorkers dynamicTarget elapsed) run

theorem asPressed_when_shown :
    Along (step []) (AsPressed []) (start 12 (some 12) 0)
      [.press .plus,.process,.look 5,.press .minus,.process,.press .minus,.process] := by
  have ended : ∃ t, exec (step []) (start 12 (some 12) 0)
      [.press .plus,.process,.look 5,.press .minus,.process,.press .minus,.process] = some t ∧ True := by
    decide
  obtain ⟨t,run,_⟩ := ended
  exact (asPressed_iff run).mpr (by decide)

def fiftyWorkers : Schedule := [(0,50),(Duration.fromSecs 3600,50)]

/-- The schedule runs fifty workers, and the cell says one. -/
theorem plus_ramps_down :
    ¬∀ schedule targetWorkers dynamicTarget elapsed actions t,
      exec (step schedule) (start targetWorkers dynamicTarget elapsed) actions = some t → t.queue = [] →
        ∀ target ∈ t.pressed, inEffect schedule t = target := by
  intro law
  obtain ⟨t,run,empty,pressed,target⟩ : ∃ t,
      exec (step fiftyWorkers) (start 1 none (Duration.fromSecs 60)) [.press .plus,.process] = some t ∧
        t.queue = [] ∧ t.pressed = some 60 ∧ inEffect fiftyWorkers t = 11 := by decide +kernel
  have effect := law _ _ _ _ _ t run empty 60 pressed
  rw [target] at effect
  cases effect

end Fusillade.Tui
