import Fusillade.Lib.Machine
import Mathlib.Tactic.Cases

/-! The pause accounting of `ControlState`. Its clock reads whole milliseconds since the
state was made, and a start at zero stands for no start at all. -/
namespace Fusillade.Engine.Control

structure ControlState where
  paused : Bool := false
  totalPausedMs : Nat := 0
  pauseStartedMs : Nat := 0
  deriving DecidableEq, Repr

namespace ControlState

def pause (s : ControlState) (nowMs : Nat) : ControlState :=
  { s with pauseStartedMs := nowMs, paused := true }

def resume (s : ControlState) (nowMs : Nat) : ControlState :=
  { s with
    paused := false
    pauseStartedMs := 0
    totalPausedMs :=
      if s.pauseStartedMs > 0 then s.totalPausedMs + (nowMs - s.pauseStartedMs) else s.totalPausedMs }

def totalPaused (s : ControlState) (nowMs : Nat) : Nat :=
  if s.paused && s.pauseStartedMs > 0 then s.totalPausedMs + (nowMs - s.pauseStartedMs)
  else s.totalPausedMs

end ControlState

/-- The calls, and the time that passes between them. -/
inductive Action where
  | tick (ms : Nat)
  | pause
  | resume
  deriving DecidableEq, Repr

structure State where
  clock : Nat := 0
  control : ControlState := {}
  /-- How long the state has been paused. -/
  measure : Nat := 0
  deriving DecidableEq, Repr

def step (s : State) : Action → Option State
  | .tick ms => some { s with
      clock := s.clock + ms
      measure := if s.control.paused then s.measure + ms else s.measure }
  | .pause => some { s with control := s.control.pause s.clock }
  | .resume => some { s with control := s.control.resume s.clock }

/-- A call of `total_paused`, now or later, gives the time paused until then. -/
def Accounts (s : State) : Prop :=
  ∀ later, s.control.totalPaused (s.clock + later) =
    s.measure + if s.control.paused then later else 0

/-- A pause comes after the first millisecond, and not into a pause that began earlier. -/
def inTime (s : State) : Action → Prop
  | .pause => 0 < s.clock ∧ (s.control.paused = true → s.control.pauseStartedMs = s.clock)
  | .tick _ | .resume => True

instance (s : State) : ∀ a, Decidable (inTime s a)
  | .pause => inferInstanceAs (Decidable (_ ∧ (_ → _)))
  | .tick _ | .resume => isTrue trivial

/-- A start is recorded while paused, and the recorded times add up. -/
structure Recorded (s : State) : Prop where
  running : s.control.paused = false → s.control.pauseStartedMs = 0 ∧ s.control.totalPausedMs = s.measure
  paused : s.control.paused = true → 0 < s.control.pauseStartedMs ∧ s.control.pauseStartedMs ≤ s.clock ∧
    s.control.totalPausedMs + (s.clock - s.control.pauseStartedMs) = s.measure

variable {s t : State} {a : Action}

theorem initial_recorded : Recorded {} := ⟨by simp,by simp⟩

theorem Recorded.accounts (recorded : Recorded s) : Accounts s := by
  intro later
  unfold ControlState.totalPaused
  cases paused : s.control.paused with
  | false =>
    obtain ⟨_,total⟩ := recorded.running paused
    simp [total]
  | true =>
    obtain ⟨positive,started,total⟩ := recorded.paused paused
    simp only [Bool.true_and,positive,decide_true,if_true,← total]
    omega

theorem step_recorded (recorded : Recorded s) (guard : inTime s a) (taken : step s a = some t) :
    Recorded t := by
  cases a with
  | tick ms =>
    obtain rfl := Option.some.inj taken
    constructor
    · intro running
      obtain ⟨started,total⟩ := recorded.running running
      exact ⟨started,total.trans (if_neg (by simpa using running)).symm⟩
    · intro paused
      obtain ⟨positive,started,total⟩ := recorded.paused paused
      refine ⟨positive,Nat.le_add_right_of_le started,?_⟩
      change s.control.totalPausedMs + (s.clock + ms - s.control.pauseStartedMs) =
        if s.control.paused = true then s.measure + ms else s.measure
      rw [if_pos paused]
      omega
  | pause =>
    obtain rfl := Option.some.inj taken
    refine ⟨by simp [ControlState.pause],fun _ => ⟨guard.1,Nat.le_refl _,?_⟩⟩
    simp only [ControlState.pause,Nat.sub_self,Nat.add_zero]
    cases paused : s.control.paused with
    | false => exact (recorded.running paused).2
    | true =>
      obtain ⟨_,_,total⟩ := recorded.paused paused
      rw [guard.2 paused] at total
      omega
  | resume =>
    obtain rfl := Option.some.inj taken
    refine ⟨fun _ => ⟨rfl,?_⟩,by simp [ControlState.resume]⟩
    simp only [ControlState.resume]
    cases paused : s.control.paused with
    | false =>
      obtain ⟨started,total⟩ := recorded.running paused
      simpa [started] using total
    | true =>
      obtain ⟨positive,_,total⟩ := recorded.paused paused
      simpa [positive] using total

/-- The next call of `total_paused` after a pause that is not in time is wrong. -/
theorem late_pause_breaks (recorded : Recorded s) (late : ¬inTime s a) (taken : step s a = some t) :
    ¬Accounts t := by
  cases a with
  | tick ms => exact absurd trivial late
  | resume => exact absurd trivial late
  | pause =>
    obtain rfl := Option.some.inj taken
    intro accounts
    have next := accounts 1
    simp only [ControlState.totalPaused,ControlState.pause,Bool.true_and,if_true] at next
    rcases Nat.eq_zero_or_pos s.clock with start | positive
    · cases paused : s.control.paused with
      | false =>
        have total := (recorded.running paused).2
        simp [start] at next
        omega
      | true =>
        obtain ⟨began,started,_⟩ := recorded.paused paused
        omega
    · simp only [positive,decide_true,if_true] at next
      cases paused : s.control.paused with
      | false => exact late ⟨positive,by simp [paused]⟩
      | true =>
        obtain ⟨_,started,total⟩ := recorded.paused paused
        exact late ⟨positive,fun _ => by omega⟩

theorem exec_total (s : State) (actions : List Action) : ∃ t, Machine.exec step s actions = some t := by
  induction actions generalizing s with
  | nil => exact ⟨s,rfl⟩
  | cons a rest ih =>
    cases a <;> exact ih _

/-- All calls of `total_paused` in a sequence of calls give the time paused exactly when all
its pauses are in time. -/
theorem accounts_iff_inTime (actions : List Action) :
    Machine.Along step Accounts {} actions ↔ Machine.Guarded step inTime {} actions := by
  obtain ⟨t,run⟩ := exec_total {} actions
  exact Machine.along_iff_guarded (fun _ _ _ => step_recorded) (fun _ => Recorded.accounts)
    (fun _ _ _ => late_pause_breaks) initial_recorded run

/-- The second of two pauses forgets how long the first one lasted. -/
theorem second_pause_forgets : ∃ s,
    Machine.exec step {} [.tick 1000,.pause,.tick 5000,.pause,.tick 5000] = some s ∧
      s.control.totalPaused s.clock ≠ s.measure := by decide

end Fusillade.Engine.Control
