import Fusillade.Engine.Pool

/-! The running flags of a pool against the handles on its stack. Spawning and popping keep
them together, and the steps of the workers themselves touch neither. -/
namespace Fusillade.Engine

namespace Pool

/-- The workers that have not been told to stop. -/
def runningCount (pool : Pool) : Nat := pool.workers.countP (·.running)

def setWorker (pool : Pool) (i : Nat) (worker : Worker) : Pool :=
  { pool with workers := pool.workers.set i worker }

/-- The handles on the stack are those of the workers that are to keep running. -/
structure Handled (pool : Pool) : Prop where
  distinct : pool.active.Nodup
  running : ∀ i ∈ pool.active, pool.workers[i]?.any (·.running)
  count : pool.runningCount = pool.active.length

/-- A step that a worker takes by itself. -/
inductive Move where
  | work (i : Nat) (paused stopped limited : Bool)
  | fail (i : Nat)

def move (pool : Pool) : Move → Option Pool
  | .work i paused stopped limited => pool.workers[i]?.bind fun worker =>
      (worker.advance paused stopped limited).map (pool.setWorker i)
  | .fail i => pool.workers[i]?.bind fun worker => worker.fail.map (pool.setWorker i)

variable {pool : Pool}

theorem empty_handled : empty.Handled := ⟨by simp [empty],by simp [empty],rfl⟩

theorem Handled.inside (handled : pool.Handled) {i : Nat} (member : i ∈ pool.active) :
    i < pool.workers.length := by
  have running := handled.running i member
  by_contra outside
  simp [List.getElem?_eq_none (Nat.le_of_not_lt outside)] at running

theorem spawn_handled (handled : pool.Handled) : pool.spawn.Handled := by
  have fresh : pool.workers.length ∉ pool.active := fun member =>
    absurd (handled.inside member) (Nat.lt_irrefl _)
  constructor
  · simp only [spawn]
    exact List.nodup_append.mpr ⟨handled.distinct,by simp,by
      intro i member j last same
      rw [List.mem_singleton.mp last] at same
      exact fresh (same ▸ member)⟩
  · intro i member
    rcases List.mem_append.mp member with earlier | last
    · simp only [spawn,List.getElem?_append_left (handled.inside earlier)]
      exact handled.running i earlier
    · obtain rfl := List.mem_singleton.mp last
      simp [spawn,Worker.spawned]
  · have same := handled.count
    simp only [runningCount] at same
    simp [runningCount,spawn,Worker.spawned,same]

theorem clear_runningCount {i : Nat} (running : pool.workers[i]?.any (·.running)) :
    (pool.clear i).runningCount = pool.runningCount - 1 := by
  obtain ⟨worker,found,on⟩ := Option.any_eq_true _ _ |>.mp running
  obtain ⟨inside,rfl⟩ := List.getElem?_eq_some_iff.mp found
  simp [runningCount,clear,List.modify_eq_set_getElem?,inside,List.countP_set,on]

theorem pop_handled (handled : pool.Handled) : pool.pop.Handled := by
  unfold pop
  split
  next i last =>
    have split : pool.active = pool.active.dropLast ++ [i] := (List.dropLast_append_getLast? i last).symm
    have distinct := handled.distinct
    rw [split] at distinct
    obtain ⟨rest,_,apart⟩ := List.nodup_append.mp distinct
    have member : i ∈ pool.active := List.mem_of_getLast? last
    constructor
    · exact rest
    · intro j kept
      have other : i ≠ j := fun same => apart j kept i (by simp) same.symm
      simpa [clear,List.getElem?_modify,other] using
        handled.running j (List.dropLast_subset _ kept)
    · have one := clear_runningCount (handled.running i member)
      rw [handled.count] at one
      rw [List.length_dropLast]
      exact one
  next => exact handled

theorem iterate_handled {change : Pool → Pool} (keeps : ∀ {pool : Pool}, pool.Handled → (change pool).Handled)
    (k : Nat) (handled : pool.Handled) : (change^[k] pool).Handled := by
  induction k generalizing pool with
  | zero => exact handled
  | succ k ih =>
    rw [Function.iterate_succ_apply]
    exact ih (keeps handled)

theorem grow_handled (target : Nat) (handled : pool.Handled) : (pool.grow target).Handled :=
  iterate_handled spawn_handled _ handled

theorem shrink_handled (target : Nat) (handled : pool.Handled) : (pool.shrink target).Handled :=
  iterate_handled pop_handled _ handled

theorem rampingTick_handled (target : Nat) (handled : pool.Handled) :
    (pool.rampingTick target).Handled := by
  unfold rampingTick
  split
  · exact grow_handled target handled
  · split
    · exact shrink_handled target handled
    · exact handled

theorem legacyTick_handled (dynamicTarget : Option Nat) (throttled : Bool) (scheduledTarget : Nat)
    (handled : pool.Handled) : (pool.legacyTick dynamicTarget throttled scheduledTarget).Handled := by
  unfold legacyTick
  dsimp only
  split
  · exact handled
  · cases dynamicTarget with
    | none =>
      dsimp only
      split
      · exact grow_handled _ handled
      · exact handled
    | some target =>
      apply shrink_handled
      split
      · exact grow_handled _ handled
      · exact handled

/-- A worker's own steps leave its flag alone. -/
theorem setWorker_handled {i : Nat} {worker next : Worker} (found : pool.workers[i]? = some worker)
    (same : next.running = worker.running) (handled : pool.Handled) :
    (pool.setWorker i next).Handled := by
  obtain ⟨inside,rfl⟩ := List.getElem?_eq_some_iff.mp found
  have count : (pool.setWorker i next).runningCount = pool.runningCount := by
    simp only [runningCount,setWorker,List.countP_set inside,same]
    split
    next on =>
      have positive : 0 < pool.workers.countP (·.running) :=
        List.countP_pos_iff.mpr ⟨_,List.getElem_mem inside,on⟩
      omega
    next => omega
  refine ⟨handled.distinct,?_,count.trans handled.count⟩
  intro j member
  have running := handled.running j member
  by_cases here : i = j
  · subst here
    simpa [setWorker,inside,same] using running
  · simpa [setWorker,List.getElem?_set_ne here] using running

theorem move_cases {next : Pool} {m : Move} (moved : pool.move m = some next) :
    ∃ i worker after, pool.workers[i]? = some worker ∧ after.running = worker.running ∧
      next = pool.setWorker i after := by
  cases m with
  | work i paused stopped limited =>
    obtain ⟨worker,found,moved⟩ := Option.bind_eq_some_iff.mp moved
    obtain ⟨after,advanced,rfl⟩ := Option.map_eq_some_iff.mp moved
    exact ⟨i,worker,after,found,Worker.advance_running advanced,rfl⟩
  | fail i =>
    obtain ⟨worker,found,moved⟩ := Option.bind_eq_some_iff.mp moved
    obtain ⟨after,failed,rfl⟩ := Option.map_eq_some_iff.mp moved
    obtain ⟨_,rfl⟩ := Worker.fail_cases failed
    exact ⟨i,worker,{ worker with pc := .done },found,rfl,rfl⟩

theorem move_handled {next : Pool} {m : Move} (moved : pool.move m = some next)
    (handled : pool.Handled) : next.Handled := by
  obtain ⟨i,worker,after,found,same,rfl⟩ := move_cases moved
  exact setWorker_handled found same handled

theorem move_active {next : Pool} {m : Move} (moved : pool.move m = some next) :
    next.active = pool.active := by
  obtain ⟨i,worker,after,_,_,rfl⟩ := move_cases moved
  rfl

/-- The flag of a running worker has been cleared. -/
def ToldToStop (before after : Pool) : Prop :=
  ∃ i < before.workers.length, ¬before.stopped i ∧ after.stopped i

instance (before after : Pool) : Decidable (before.ToldToStop after) :=
  inferInstanceAs (Decidable (∃ i < before.workers.length, _))

theorem spawn_iterate_workers (k : Nat) (pool : Pool) :
    (spawn^[k] pool).workers = pool.workers ++ List.replicate k .spawned := by
  induction k generalizing pool with
  | zero => simp
  | succ k ih =>
    rw [Function.iterate_succ_apply,ih,spawn,List.append_assoc,List.replicate_succ]
    rfl

theorem grow_workers (target : Nat) : (pool.grow target).workers =
    pool.workers ++ List.replicate (target - pool.active.length) .spawned :=
  spawn_iterate_workers _ pool

theorem pop_workers_length : pool.pop.workers.length = pool.workers.length := by
  unfold pop
  split <;> simp [clear]

theorem shrink_workers_length (target : Nat) :
    (pool.shrink target).workers.length = pool.workers.length := by
  unfold shrink
  generalize pool.active.length - target = k
  induction k generalizing pool with
  | zero => rfl
  | succ k ih => rw [Function.iterate_succ_apply,ih,pop_workers_length]

theorem grow_of_le {target : Nat} (enough : target ≤ pool.active.length) : pool.grow target = pool := by
  rw [grow,Nat.sub_eq_zero_of_le enough]
  rfl

theorem shrink_of_le {target : Nat} (few : pool.active.length ≤ target) : pool.shrink target = pool := by
  rw [shrink,Nat.sub_eq_zero_of_le few]
  rfl

/-- Spawning is what a turn may be held back from; the `Ramp` command alone scales down. -/
theorem legacyTick_eq (dynamicTarget : Option Nat) (throttled : Bool) (scheduledTarget : Nat) :
    pool.legacyTick dynamicTarget throttled scheduledTarget =
      if dynamicTarget.getD scheduledTarget > pool.active.length ∧ throttled then pool
      else
        let grown := pool.grow (dynamicTarget.getD scheduledTarget)
        (dynamicTarget.map grown.shrink).getD grown := by
  have grown : (if dynamicTarget.getD scheduledTarget > pool.active.length then
      pool.grow (dynamicTarget.getD scheduledTarget) else pool) =
        pool.grow (dynamicTarget.getD scheduledTarget) := by
    split
    next => rfl
    next enough => exact (grow_of_le (Nat.le_of_not_lt enough)).symm
  simp only [legacyTick,grown,Bool.and_eq_true,decide_eq_true_eq]
  split
  · rfl
  · cases dynamicTarget <;> rfl

/-- A turn spawns nothing when it is held back or its target is reached. -/
theorem legacyTick_spawns_none_iff (dynamicTarget : Option Nat) (throttled : Bool)
    (scheduledTarget : Nat) :
    (pool.legacyTick dynamicTarget throttled scheduledTarget).workers.length = pool.workers.length ↔
      (dynamicTarget.getD scheduledTarget > pool.active.length → throttled) := by
  rw [legacyTick_eq]
  split
  next held => simp [held.2]
  next free =>
    have length : ((dynamicTarget.map (pool.grow (dynamicTarget.getD scheduledTarget)).shrink).getD
        (pool.grow (dynamicTarget.getD scheduledTarget))).workers.length =
          pool.workers.length + (dynamicTarget.getD scheduledTarget - pool.active.length) := by
      cases dynamicTarget <;> simp [shrink_workers_length,grow_workers]
    rw [length]
    constructor
    · intro same wanted
      omega
    · intro held
      by_cases wanted : dynamicTarget.getD scheduledTarget > pool.active.length
      · exact absurd ⟨wanted,held wanted⟩ free
      · omega

theorem pop_stopped {i : Nat} (cleared : pool.stopped i) : pool.pop.stopped i := by
  unfold pop
  split
  next j _ => exact clear_stopped j (.inl cleared)
  next => exact cleared

theorem pop_iterate_stopped {i : Nat} (k : Nat) (cleared : pool.stopped i) :
    (pop^[k] pool).stopped i := by
  induction k generalizing pool with
  | zero => exact cleared
  | succ k ih =>
    rw [Function.iterate_succ_apply]
    exact ih (pop_stopped cleared)

theorem not_stopped_iff {i : Nat} : ¬pool.stopped i ↔ pool.workers[i]?.any (·.running) := by
  cases found : pool.workers[i]? <;> simp [stopped,found]

theorem grow_keeps {i target : Nat} (inside : i < pool.workers.length) :
    (pool.grow target).workers[i]? = pool.workers[i]? := by
  rw [grow_workers,List.getElem?_append_left inside]

/-- Scaling down clears the flag of the last handle first. -/
theorem shrink_toldToStop {target : Nat} (handled : pool.Handled) (fewer : target < pool.active.length) :
    pool.ToldToStop (pool.shrink target) := by
  obtain ⟨k,count⟩ : ∃ k, pool.active.length - target = k + 1 := ⟨_,(Nat.succ_pred (by omega)).symm⟩
  cases last : pool.active.getLast? with
  | none =>
    rw [List.getLast?_eq_none_iff.mp last] at fewer
    exact absurd fewer (Nat.not_lt_zero _)
  | some i =>
    have member := List.mem_of_getLast? last
    refine ⟨i,handled.inside member,not_stopped_iff.mpr (handled.running i member),?_⟩
    rw [shrink,count,Function.iterate_succ_apply]
    apply pop_iterate_stopped
    simp only [pop,last]
    exact clear_stopped i (.inr rfl)

theorem not_toldToStop_of_keeps {after : Pool}
    (keeps : ∀ i < pool.workers.length, after.workers[i]? = pool.workers[i]?) :
    ¬pool.ToldToStop after := by
  rintro ⟨i,inside,running,cleared⟩
  apply running
  rw [stopped,← keeps i inside]
  exact cleared

/-- A turn stops a worker exactly when a `Ramp` command asks for fewer than there are. -/
theorem legacyTick_toldToStop_iff (dynamicTarget : Option Nat) (throttled : Bool)
    (scheduledTarget : Nat) (handled : pool.Handled) :
    pool.ToldToStop (pool.legacyTick dynamicTarget throttled scheduledTarget) ↔
      dynamicTarget.any (· < pool.active.length) := by
  rw [legacyTick_eq]
  split
  next held =>
    have idle : ¬pool.ToldToStop pool := not_toldToStop_of_keeps fun _ _ => rfl
    cases dynamicTarget with
    | none => simpa using idle
    | some target =>
      have wanted : pool.active.length < target := held.1
      simpa [idle] using Nat.le_of_lt wanted
  next =>
    cases dynamicTarget with
    | none => simpa using not_toldToStop_of_keeps fun _ inside => grow_keeps inside
    | some target =>
      simp only [Option.getD_some,Option.map_some,Option.any_some,decide_eq_true_eq]
      constructor
      · intro told
        by_contra enough
        refine not_toldToStop_of_keeps (fun i inside => ?_) told
        have reached : (pool.grow target).active.length ≤ target := by
          rw [grow_active_length]; omega
        rw [shrink_of_le reached,grow_keeps inside]
      · intro fewer
        rw [grow_of_le (Nat.le_of_lt fewer)]
        exact shrink_toldToStop handled fewer

end Pool

end Fusillade.Engine
