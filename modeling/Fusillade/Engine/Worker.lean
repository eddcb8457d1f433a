import Mathlib.Data.Nat.Basic

/-! The loop of a closed-model worker, which the legacy mode, the ramping executor and the
executors with an iteration limit share. They differ in the limit alone. -/
namespace Fusillade.Engine

inductive WorkerPc where
  /-- Up to the loop: runtime, globals, module, function and data. -/
  | setup
  | loopHead
  | pausing
  | stopCheck
  | iterating
  | limitCheck
  | pacing
  | done
  deriving DecidableEq

structure Worker where
  pc : WorkerPc
  running : Bool
  iterationCount : Nat
  deriving DecidableEq

namespace Worker

def spawned : Worker := ⟨.setup,true,0⟩

/-- The next step of a worker. The pause loop is left when the pause ends or the flag is
cleared; `limited` is the outcome of the limit check after an iteration. -/
def advance (paused stopped limited : Bool) (worker : Worker) : Option Worker :=
  match worker.pc with
  | .setup => some { worker with pc := .loopHead }
  | .loopHead => some { worker with pc := if worker.running then .pausing else .done }
  | .pausing => some { worker with pc := if paused && worker.running then .pausing else .stopCheck }
  | .stopCheck => some { worker with pc := if stopped || !worker.running then .done else .iterating }
  | .iterating => some { worker with pc := .limitCheck, iterationCount := worker.iterationCount + 1 }
  | .limitCheck => some { worker with pc := if limited then .done else .pacing }
  | .pacing => some { worker with pc := .loopHead }
  | .done => none

/-- A setup that returns early. -/
def fail (worker : Worker) : Option Worker :=
  if worker.pc = .setup then some { worker with pc := .done } else none

/-- Steps that a worker with a cleared flag is away from the end of its loop. -/
def remaining : WorkerPc → Nat
  | .done => 0
  | .loopHead | .stopCheck => 1
  | .setup | .pausing | .pacing => 2
  | .limitCheck => 3
  | .iterating => 4

variable {worker next : Worker} {paused stopped limited : Bool}

theorem advance_running (taken : worker.advance paused stopped limited = some next) :
    next.running = worker.running := by
  unfold advance at taken
  split at taken <;> first | contradiction | (obtain rfl := Option.some.inj taken; rfl)

theorem advance_live (taken : worker.advance paused stopped limited = some next) :
    worker.pc ≠ .done := by
  intro done
  simp [advance,done] at taken

theorem fail_cases (taken : worker.fail = some next) :
    worker.pc = .setup ∧ next = { worker with pc := .done } := by
  unfold fail at taken
  split at taken
  next pc => exact ⟨pc,(Option.some.inj taken).symm⟩
  next => contradiction

/-- With its flag cleared a worker moves towards the end of its loop. -/
theorem advance_cleared (paused stopped limited : Bool) (cleared : worker.running = false)
    (live : worker.pc ≠ .done) :
    ∃ next, worker.advance paused stopped limited = some next ∧ next.running = false ∧
      remaining next.pc < remaining worker.pc := by
  cases pc : worker.pc <;> simp [advance,pc,cleared,remaining] at live ⊢
  cases limited <;> decide

end Worker

end Fusillade.Engine
