import Fusillade.Engine.Worker
import Mathlib.Data.List.Basic
import Mathlib.Logic.Function.Iterate

/-! The pool of a supervising thread. Every worker ever spawned keeps its place in
`workers`; the handles that are still on the stack are indices into it. -/
namespace Fusillade.Engine

@[ext] structure Pool where
  workers : List Worker
  active : List Nat
  deriving DecidableEq

namespace Pool

def empty : Pool := ⟨[],[]⟩

def spawn (pool : Pool) : Pool :=
  ⟨pool.workers ++ [.spawned],pool.active ++ [pool.workers.length]⟩

/-- `running.store(false)` on one of the workers. -/
def clear (pool : Pool) (i : Nat) : Pool :=
  { pool with workers := pool.workers.modify i fun worker => { worker with running := false } }

/-- The flag of a worker reads false. -/
def stopped (pool : Pool) (i : Nat) : Bool := pool.workers[i]?.all (!·.running)

/-- A worker has left its iteration loop. -/
def left (pool : Pool) (i : Nat) : Bool := pool.workers[i]?.all (·.pc = .done)

/-- The last handle leaves the stack for good, after its flag is cleared. -/
def pop (pool : Pool) : Pool :=
  match pool.active.getLast? with
  | some i => { pool.clear i with active := pool.active.dropLast }
  | none => pool

def grow (pool : Pool) (target : Nat) : Pool := spawn^[target - pool.active.length] pool
def shrink (pool : Pool) (target : Nat) : Pool := pop^[pool.active.length - target] pool

/-- One turn of the ramping executor: spawn up to the target, or stop down to it. -/
def rampingTick (target : Nat) (pool : Pool) : Pool :=
  if pool.active.length < target then pool.grow target
  else if pool.active.length > target then pool.shrink target
  else pool

/-- One turn of the legacy scaling: only a `Ramp` command scales down, and a turn that would
spawn is skipped while memory is short. -/
def legacyTick (dynamicTarget : Option Nat) (throttled : Bool) (scheduledTarget : Nat)
    (pool : Pool) : Pool :=
  let target := dynamicTarget.getD scheduledTarget
  if target > pool.active.length && throttled then pool
  else
    let grown := if target > pool.active.length then pool.grow target else pool
    match dynamicTarget with
    | some target => grown.shrink target
    | none => grown

theorem clear_stopped {pool : Pool} {j : Nat} (i : Nat) (cleared : pool.stopped j ∨ j = i) :
    (pool.clear i).stopped j := by
  simp only [stopped,clear,List.getElem?_modify]
  by_cases here : i = j
  · subst j; cases pool.workers[i]? <;> simp
  · simpa [here,stopped,Ne.symm here] using cleared

@[simp] theorem spawn_active_length (pool : Pool) :
    pool.spawn.active.length = pool.active.length + 1 := by simp [spawn]

@[simp] theorem pop_active_length (pool : Pool) :
    pool.pop.active.length = pool.active.length - 1 := by
  unfold pop
  split
  next => simp
  next none => simp [List.getLast?_eq_none_iff.mp none]

theorem spawn_iterate_active_length (k : Nat) (pool : Pool) :
    (spawn^[k] pool).active.length = pool.active.length + k := by
  induction k generalizing pool with
  | zero => rfl
  | succ k ih => rw [Function.iterate_succ_apply,ih,spawn_active_length]; omega

theorem pop_iterate_active_length (k : Nat) (pool : Pool) :
    (pop^[k] pool).active.length = pool.active.length - k := by
  induction k generalizing pool with
  | zero => rfl
  | succ k ih => rw [Function.iterate_succ_apply,ih,pop_active_length]; omega

@[simp] theorem grow_active_length (pool : Pool) (target : Nat) :
    (pool.grow target).active.length = max pool.active.length target := by
  rw [grow,spawn_iterate_active_length]; omega

@[simp] theorem shrink_active_length (pool : Pool) (target : Nat) :
    (pool.shrink target).active.length = min pool.active.length target := by
  rw [shrink,pop_iterate_active_length]; omega

theorem rampingTick_active_length (target : Nat) (pool : Pool) :
    (pool.rampingTick target).active.length = target := by
  unfold rampingTick
  split
  · simp; omega
  · split
    · simp; omega
    · omega

/-- Without a `Ramp` command the legacy pool only ever grows, unless memory is short. -/
theorem legacyTick_active_length (throttled : Bool) (scheduledTarget : Nat) (pool : Pool) :
    (pool.legacyTick none throttled scheduledTarget).active.length =
      if throttled then pool.active.length else max pool.active.length scheduledTarget := by
  simp only [legacyTick,Option.getD_none,Bool.and_eq_true,decide_eq_true_eq]
  cases throttled with
  | false =>
    simp only [Bool.false_eq_true,and_false,if_false]
    split
    · exact grow_active_length pool scheduledTarget
    · omega
  | true =>
    simp only [and_true,if_true]
    split <;> rfl

end Pool

end Fusillade.Engine
