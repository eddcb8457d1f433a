import Fusillade.Lib.Machine
import Fusillade.Engine.Handles
import Fusillade.Engine.Schedule
import Mathlib.Tactic.NormNum

/-! Memory-safe mode: the monitor thread with its private `warned` latch, the two flags it
shares with the legacy control loop, and the loop with its workers. A sample and a tick are
one action each and come in any order; usage is an exact quotient here. -/
namespace Fusillade.Engine

structure MemoryInfo where
  availableBytes : Nat
  totalBytes : Nat
  deriving DecidableEq

namespace MemoryInfo

def usagePercent (info : MemoryInfo) : ℚ :=
  if info.totalBytes = 0 then 0
  else ((info.totalBytes - info.availableBytes : Nat) : ℚ) / info.totalBytes

def warnThresholdPercent : ℚ := 85 / 100
def criticalThresholdPercent : ℚ := 95 / 100

end MemoryInfo

namespace MemorySafe

open MemoryInfo

structure State where
  pool : Pool
  dynamicTarget : Option Nat
  /-- Known to the monitor alone. -/
  warned : Bool
  memoryThrottle : Bool
  memoryCritical : Bool
  /-- The last sample that the monitor took. -/
  latest : Option MemoryInfo
  deriving DecidableEq

def State.start : State := ⟨.empty,none,false,false,false,none⟩

inductive Action where
  | sample (info : MemoryInfo)
  | ramp (workers : Nat)
  /-- `current` is what the loop reads when it finds the throttle flag set. -/
  | tick (elapsed : Duration) (current : MemoryInfo)
  | move (m : Pool.Move)

/-- One turn of the monitor: `onCritical` and `onWarning` set a flag each. -/
def monitor (s : State) (info : MemoryInfo) : State :=
  let usage := info.usagePercent
  if usage ≥ criticalThresholdPercent then { s with memoryCritical := true, latest := some info }
  else if usage ≥ warnThresholdPercent && !s.warned then
    { s with warned := true, memoryThrottle := true, latest := some info }
  else if usage < warnThresholdPercent then { s with warned := false, latest := some info }
  else { s with latest := some info }

def targetWorkers (schedule : Schedule) (s : State) (elapsed : Duration) : Nat :=
  s.dynamicTarget.getD (calculateTarget schedule elapsed)

/-- A tick that has workers to spawn and finds the throttle flag set looks for itself: it
clears both flags below the warning threshold, and spawns nothing otherwise. -/
def control (schedule : Schedule) (s : State) (elapsed : Duration) (current : MemoryInfo) : State :=
  let recovered := s.memoryThrottle && current.usagePercent < warnThresholdPercent
  let wanted := targetWorkers schedule s elapsed > s.pool.active.length
  let pool := s.pool.legacyTick s.dynamicTarget (s.memoryThrottle && !recovered)
    (calculateTarget schedule elapsed)
  if wanted && recovered then { s with pool := pool, memoryThrottle := false, memoryCritical := false }
  else { s with pool := pool }

def step (schedule : Schedule) (s : State) : Action → Option State
  | .sample info => some (monitor s info)
  | .ramp workers => some { s with dynamicTarget := if workers = 0 then none else some workers }
  | .tick elapsed current => some (control schedule s elapsed current)
  | .move m => (s.pool.move m).map fun pool => { s with pool := pool }

def State.atLeast (threshold : ℚ) (s : State) : Bool :=
  s.latest.any fun info => threshold ≤ info.usagePercent

/-- No worker is spawned at or above the warning threshold. -/
def SpawnsPaused (schedule : Schedule) (s : State) : Action → Prop
  | .tick elapsed current => s.atLeast warnThresholdPercent →
      (control schedule s elapsed current).pool.workers.length = s.pool.workers.length
  | _ => True

/-- A running worker is told to stop at or above the critical threshold. -/
def WorkersStopped (schedule : Schedule) (s : State) : Action → Prop
  | .tick elapsed current => s.atLeast criticalThresholdPercent → 0 < s.pool.runningCount →
      s.pool.ToldToStop (control schedule s elapsed current).pool
  | _ => True

/-- The throttle flag is set whenever there are workers to spawn above the warning threshold,
and the loop's own reading agrees that memory is short. -/
def Throttled (schedule : Schedule) (s : State) : Action → Prop
  | .tick elapsed current => s.atLeast warnThresholdPercent →
      targetWorkers schedule s elapsed > s.pool.active.length →
        s.memoryThrottle ∧ warnThresholdPercent ≤ current.usagePercent
  | _ => True

/-- Above the critical threshold a `Ramp` command happens to ask for fewer workers. -/
def RampedDown (s : State) : Action → Prop
  | .tick _ _ => s.atLeast criticalThresholdPercent → 0 < s.pool.active.length →
      s.dynamicTarget.any (· < s.pool.active.length)
  | _ => True

variable {schedule : Schedule} {s t : State} {a : Action}

@[simp] theorem monitor_pool (s : State) (info : MemoryInfo) : (monitor s info).pool = s.pool := by
  unfold monitor
  dsimp only
  split
  · rfl
  · split
    · rfl
    · split <;> rfl

theorem control_pool (s : State) (elapsed : Duration) (current : MemoryInfo) :
    (control schedule s elapsed current).pool = s.pool.legacyTick s.dynamicTarget
      (s.memoryThrottle && warnThresholdPercent ≤ current.usagePercent)
      (calculateTarget schedule elapsed) := by
  have throttled : (s.memoryThrottle &&
      !(s.memoryThrottle && current.usagePercent < warnThresholdPercent)) =
        (s.memoryThrottle && warnThresholdPercent ≤ current.usagePercent) := by
    cases s.memoryThrottle with
    | false => rfl
    | true =>
      by_cases free : current.usagePercent < warnThresholdPercent
      · simp [free,not_le.mpr free]
      · simp [free,not_lt.mp free]
  simp only [control,throttled]
  split <;> rfl

theorem step_handled (handled : s.pool.Handled) (taken : step schedule s a = some t) :
    t.pool.Handled := by
  cases a with
  | sample info => obtain rfl := Option.some.inj taken; simpa using handled
  | ramp workers => obtain rfl := Option.some.inj taken; exact handled
  | tick elapsed current =>
    obtain rfl := Option.some.inj taken
    rw [control_pool]
    exact Pool.legacyTick_handled _ _ _ handled
  | move m =>
    obtain ⟨pool,moved,rfl⟩ := Option.map_eq_some_iff.mp taken
    exact Pool.move_handled moved handled

theorem spawnsPaused_iff (schedule : Schedule) (s : State) (a : Action) :
    SpawnsPaused schedule s a ↔ Throttled schedule s a := by
  cases a with
  | tick elapsed current =>
    simp only [SpawnsPaused,Throttled,control_pool,Pool.legacyTick_spawns_none_iff,targetWorkers,
      Bool.and_eq_true,decide_eq_true_eq]
  | sample | ramp | move => rfl

theorem workersStopped_iff (handled : s.pool.Handled) (a : Action) :
    WorkersStopped schedule s a ↔ RampedDown s a := by
  cases a with
  | tick elapsed current =>
    simp only [WorkersStopped,RampedDown,control_pool,handled.count,
      Pool.legacyTick_toldToStop_iff _ _ _ handled]
  | sample | ramp | move => rfl

/-- Every tick of a run keeps both promises of memory-safe mode exactly when each finds the
throttle flag in place, and a `Ramp` command scaling down above the critical threshold. -/
theorem memory_safe_iff (schedule : Schedule) (actions : List Action) :
    Machine.Guarded (step schedule)
        (fun s a => SpawnsPaused schedule s a ∧ WorkersStopped schedule s a) .start actions ↔
      Machine.Guarded (step schedule)
        (fun s a => Throttled schedule s a ∧ RampedDown s a) .start actions :=
  Machine.guarded_congr (fun s => s.pool.Handled)
    (fun _ _ _ => step_handled)
    (fun s a handled => and_congr (spawnsPaused_iff schedule s a) (workersStopped_iff handled a))
    Pool.empty_handled actions

/-- A machine of a hundred bytes. -/
def usage (percent : Nat) : MemoryInfo := ⟨100 - percent,100⟩

/-- Up to two workers in ten seconds. -/
def climb : Schedule := [(Duration.fromSecs 10,2),(Duration.fromSecs 60,2)]

/-- Memory jumps from half to 96 percent: the next tick stops no worker and spawns one more. -/
theorem jump_unnoticed :
    ∃ s, Machine.exec (step climb) .start
        [.tick (Duration.fromSecs 5) (usage 50),.sample (usage 50),.sample (usage 96)] = some s ∧
      s.atLeast criticalThresholdPercent ∧ 0 < s.pool.runningCount ∧
      ¬s.pool.ToldToStop (control climb s (Duration.fromSecs 10) (usage 96)).pool ∧
      s.pool.workers.length <
        (control climb s (Duration.fromSecs 10) (usage 96)).pool.workers.length := by
  decide +kernel

/-- No sample jumps over the band between the thresholds, and the loop reads less than the
warning threshold only when the monitor has. -/
def Gradual (s : State) : Action → Prop
  | .sample info => criticalThresholdPercent ≤ info.usagePercent → s.atLeast warnThresholdPercent
  | .tick _ current => s.atLeast warnThresholdPercent → warnThresholdPercent ≤ current.usagePercent
  | _ => True

/-- The private latch and the shared flag are where the latest sample would put them. -/
structure Latched (s : State) : Prop where
  warned : s.warned = s.atLeast warnThresholdPercent
  throttled : s.atLeast warnThresholdPercent → s.memoryThrottle

theorem sample_latched {info : MemoryInfo} (valid : Latched s) (gradual : Gradual s (.sample info)) :
    Latched (monitor s info) := by
  have order : warnThresholdPercent ≤ criticalThresholdPercent := by
    norm_num [warnThresholdPercent,criticalThresholdPercent]
  unfold monitor
  dsimp only
  split
  next critical =>
    -- the latch is set already: the sample before was in the band or above
    have before := gradual critical
    have above : warnThresholdPercent ≤ info.usagePercent := order.trans critical
    exact ⟨by simp [State.atLeast,above,valid.warned.trans before],fun _ => valid.throttled before⟩
  next =>
    split
    next first =>
      simp only [Bool.and_eq_true,decide_eq_true_eq] at first
      exact ⟨by simp [State.atLeast,first.1],fun _ => rfl⟩
    next again =>
      split
      next below => exact ⟨by simp [State.atLeast,below],by simp [State.atLeast,below]⟩
      next above =>
        have known : s.warned = true := by simpa [not_lt.mp above] using again
        exact ⟨by simp [State.atLeast,not_lt.mp above,known],
          fun _ => valid.throttled (valid.warned ▸ known)⟩

theorem step_latched (valid : Latched s) (gradual : Gradual s a)
    (taken : step schedule s a = some t) : Latched t := by
  cases a with
  | sample info => obtain rfl := Option.some.inj taken; exact sample_latched valid gradual
  | ramp workers => obtain rfl := Option.some.inj taken; exact ⟨valid.warned,valid.throttled⟩
  | move m =>
    obtain ⟨pool,_,rfl⟩ := Option.map_eq_some_iff.mp taken
    exact ⟨valid.warned,valid.throttled⟩
  | tick elapsed current =>
    obtain rfl := Option.some.inj taken
    simp only [control]
    split
    next cleared =>
      simp only [Bool.and_eq_true,decide_eq_true_eq] at cleared
      -- the loop reads less than the threshold, so the latest sample does
      have low : ¬s.atLeast warnThresholdPercent := fun high =>
        absurd (gradual high) (not_le.mpr cleared.2.2)
      exact ⟨valid.warned,fun high => absurd high low⟩
    next => exact ⟨valid.warned,valid.throttled⟩

/-- With gradual samples the throttling half of memory-safe mode works. -/
theorem spawns_paused_of_gradual {actions : List Action}
    (gradual : Machine.Guarded (step schedule) Gradual .start actions) :
    Machine.Guarded (step schedule) (SpawnsPaused schedule) .start actions := by
  refine Machine.Guarded.imp Latched (fun _ _ _ => step_latched) ?_
    ⟨rfl,fun high => absurd high (by simp [State.atLeast,State.start])⟩ gradual
  intro s a valid gradual
  rw [spawnsPaused_iff]
  cases a with
  | tick elapsed current => exact fun high _ => ⟨valid.throttled high,gradual high⟩
  | sample | ramp | move => trivial

end MemorySafe

end Fusillade.Engine
