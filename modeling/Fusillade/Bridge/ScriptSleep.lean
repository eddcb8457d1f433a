import Fusillade.Engine.DurationSyntax

/-! The sleeps of a script: `sleep`, `sleepRandom` and the delays between the retries of a
request. Each is turned into a duration, which panics on what is none, and is added to the
time that the iteration has slept, which panics on an overflow. -/
namespace Fusillade

namespace Stats.F64

def neg : F64 → F64
  | .finite q => .finite (-q)
  | .infinite negative => .infinite !negative
  | .nan => .nan

def add : F64 → F64 → F64
  | .finite p, .finite q => ofRat (p + q)
  | .infinite m, .infinite n => if m = n then .infinite m else .nan
  | .infinite negative, .finite _ | .finite _, .infinite negative => .infinite negative
  | _, .nan | .nan, _ => .nan

def sub (x y : F64) : F64 := x.add y.neg

def mul : F64 → F64 → F64
  | .finite p, .finite q => ofRat (p * q)
  | .infinite m, .infinite n => .infinite (m != n)
  | .infinite negative, .finite q | .finite q, .infinite negative =>
    if q = 0 then .nan else .infinite (negative != decide (q < 0))
  | _, .nan | .nan, _ => .nan

def div (x : F64) (d : Nat) : F64 :=
  match x with
  | .finite q => ofRat (q / d)
  | x => x

def le : F64 → F64 → Bool
  | .finite p, .finite q => p ≤ q
  | .infinite m, .infinite n => m || !n
  | .infinite negative, .finite _ => negative
  | .finite _, .infinite negative => !negative
  | _, .nan | .nan, _ => false

def positive : F64 → Bool
  | .finite q => 0 < q
  | .infinite negative => !negative
  | .nan => false

def value? : F64 → Option ℚ
  | .finite q => some q
  | .infinite _ | .nan => none

end Stats.F64

namespace Bridge.ScriptSleep

open Stats (F64)
open Engine

/-- One nanosecond more than `Duration::MAX`. -/
def durationLimit : Duration := Duration.fromSecs (2^64)

def trackSleep (accumulated d : Duration) : Option Duration :=
  if accumulated + d < durationLimit then some (accumulated + d) else none

/-- The global `sleep`: what has been slept after it, or none after a panic. -/
def sleep (accumulated : Duration) (secs : F64) : Option Duration :=
  match Utils.fromSecsF64 secs.value? with
  | .duration d => trackSleep accumulated d
  | .rejected | .panics => none

/-- `gen::<f64>()`: one of the multiples of `2^-53` below one. -/
def draw (bits : Fin (2^53)) : F64 := .finite (bits.val / 2^53)

def randomSecs (min max : F64) (bits : Fin (2^53)) : F64 :=
  if max.le min then min else min.add ((draw bits).mul (max.sub min))

/-- The options of a request that are about its retries, where they have the type they are
looked at for. -/
structure RetryOptions where
  retry : Option F64 := none
  retryDelay : Option F64 := none
  retryDelayFn : Option (Nat → F64) := none

/-- The delay doubles with each attempt, up to 32 times the first. -/
def delayMs (merged : RetryOptions) (attempt : Nat) : F64 :=
  match merged.retryDelayFn with
  | some retryDelayFn => retryDelayFn attempt
  | none => (merged.retryDelay.getD (.finite 100)).mul (.finite (min (2^(attempt - 1)) 32))

/-- The loop from an attempt on, with what `retryOn` or the status says of each response. -/
def retryLoop (merged : RetryOptions) : Nat → List Bool → Duration → Option Duration
  | _, [], accumulated => some accumulated
  | attempt, shouldRetry :: rest, accumulated =>
    if F64.le (.finite attempt) (merged.retry.getD (.finite 0)) && shouldRetry then
      let delay := delayMs merged attempt
      (if delay.positive then sleep accumulated (delay.div 1000) else some accumulated).bind
        (retryLoop merged (attempt + 1) rest)
    else some accumulated

inductive Call where
  | sleep (secs : F64)
  | sleepRandom (min max : F64) (bits : Fin (2^53))
  | request (options : RetryOptions) (shouldRetry : List Bool)

def perform (accumulated : Duration) : Call → Option Duration
  | .sleep secs => sleep accumulated secs
  | .sleepRandom min max bits => sleep accumulated (randomSecs min max bits)
  | .request options shouldRetry => retryLoop options 1 shouldRetry accumulated

/-- The calls of an iteration, which starts with nothing slept. The accumulator is the cell of the
thread; here its worker has the thread to itself, as the other workers on one share the cell. -/
def iteration (calls : List Call) : Option Duration := calls.foldlM perform 0

def Sleepable (secs : F64) : Prop := ∃ q, secs = .finite q ∧ 0 ≤ q ∧ q < 2^64

def nanoseconds : F64 → Nat
  | .finite q => (Binary64.halfEven (q * 1000000000)).toNat
  | .infinite _ | .nan => 0

/-- The delays of the attempts that are made. A delay that is not positive is not slept. -/
def retrySecs (merged : RetryOptions) : Nat → List Bool → List F64
  | _, [] => []
  | attempt, shouldRetry :: rest =>
    if F64.le (.finite attempt) (merged.retry.getD (.finite 0)) && shouldRetry then
      (if (delayMs merged attempt).positive then [(delayMs merged attempt).div 1000] else []) ++
        retrySecs merged (attempt + 1) rest
    else []

def Call.secs : Call → List F64
  | .sleep secs => [secs]
  | .sleepRandom min max bits => [randomSecs min max bits]
  | .request options shouldRetry => retrySecs options 1 shouldRetry

variable {accumulated t : Duration} {secs : F64} {merged : RetryOptions}

theorem fromSecsF64_eq_iff {d : Duration} : Utils.fromSecsF64 secs.value? = .duration d ↔
    Sleepable secs ∧ d = nanoseconds secs := by
  cases secs with
  | finite q =>
    simp only [F64.value?,Utils.fromSecsF64,Sleepable,F64.finite.injEq,exists_eq_left',nanoseconds]
    split
    next inside => simp [inside,eq_comm]
    next outside => simp [outside]
  | infinite | nan => simp [F64.value?,Utils.fromSecsF64,Sleepable]

theorem sleep_eq_some_iff : sleep accumulated secs = some t ↔
    Sleepable secs ∧ t = accumulated + nanoseconds secs ∧ t < durationLimit := by
  have tracked (d : Duration) : trackSleep accumulated d = some t ↔
      t = accumulated + d ∧ t < durationLimit := by
    unfold trackSleep
    split
    next inside => simp only [Option.some.injEq]; grind
    next outside => grind
  unfold sleep
  split
  next d converted =>
    obtain ⟨sleepable,rfl⟩ := fromSecsF64_eq_iff.mp converted
    rw [tracked]
    simp [sleepable]
  all_goals
    next converted =>
      refine ⟨nofun,fun ⟨sleepable,_⟩ => ?_⟩
      have converts := fromSecsF64_eq_iff.mpr ⟨sleepable,rfl⟩
      rw [converted] at converts
      cases converts

/-- Sleeps add up, and the whole of them decides. -/
theorem sleeps_eq_some_iff {all : List F64} (started : accumulated < durationLimit) :
    all.foldlM sleep accumulated = some t ↔ (∀ secs ∈ all, Sleepable secs) ∧
      t = accumulated + (all.map nanoseconds).sum ∧ t < durationLimit := by
  induction all generalizing accumulated with
  | nil =>
    simp only [List.foldlM_nil,List.not_mem_nil,false_implies,implies_true,List.map_nil,List.sum_nil,
      true_and,Nat.add_zero]
    constructor
    · intro same
      obtain rfl := Option.some.inj same
      exact ⟨rfl,started⟩
    · rintro ⟨rfl,-⟩
      rfl
  | cons secs rest ih =>
    rw [List.foldlM_cons,List.forall_mem_cons,List.map_cons,List.sum_cons]
    constructor
    · intro slept
      obtain ⟨middle,first,later⟩ := Option.bind_eq_some_iff.mp slept
      obtain ⟨sleepable,rfl,inside⟩ := sleep_eq_some_iff.mp first
      obtain ⟨others,total,bounded⟩ := (ih inside).mp later
      exact ⟨⟨sleepable,others⟩,total.trans (Nat.add_assoc _ _ _),bounded⟩
    · rintro ⟨⟨sleepable,others⟩,total,bounded⟩
      have assoc := total.trans (Nat.add_assoc _ _ _).symm
      have inside : accumulated + nanoseconds secs < durationLimit :=
        Nat.lt_of_le_of_lt (assoc ▸ Nat.le_add_right _ _) bounded
      refine Option.bind_eq_some_iff.mpr ⟨_,sleep_eq_some_iff.mpr ⟨sleepable,rfl,inside⟩,?_⟩
      exact (ih inside).mpr ⟨others,assoc,bounded⟩

/-- The guard of the retry loop leaves an infinity and what is too long. -/
theorem retry_sleepable_iff {delay : F64} (positive : delay.positive) :
    Sleepable (delay.div 1000) ↔ ∃ q, delay.div 1000 = .finite q ∧ q < 2^64 := by
  refine ⟨fun ⟨q,same,_,below⟩ => ⟨q,same,below⟩,fun ⟨q,same,below⟩ => ⟨q,same,?_,below⟩⟩
  cases delay with
  | finite ms =>
    have above : 0 ≤ ms / (1000 : Nat) := div_nonneg (of_decide_eq_true positive).le (Nat.cast_nonneg _)
    cases rounded : Binary64.round (ms / (1000 : Nat)) with
    | some secs =>
      rw [F64.div,F64.ofRat,rounded,Option.elim_some] at same
      exact F64.finite.inj same ▸ Binary64.round_nonneg above rounded
    | none =>
      rw [F64.div,F64.ofRat,rounded,Option.elim_none] at same
      cases same
  | infinite | nan => cases same

theorem retryLoop_eq (merged : RetryOptions) (attempt : Nat) (shouldRetry : List Bool)
    (accumulated : Duration) : retryLoop merged attempt shouldRetry accumulated =
      (retrySecs merged attempt shouldRetry).foldlM sleep accumulated := by
  induction shouldRetry generalizing attempt accumulated with
  | nil => rfl
  | cons again rest ih =>
    simp only [retryLoop,retrySecs]
    split
    next =>
      split
      next =>
        rw [List.singleton_append,List.foldlM_cons]
        exact congrArg _ (funext (ih (attempt + 1)))
      next =>
        rw [List.nil_append,Option.bind_some]
        exact ih (attempt + 1) accumulated
    next => rfl

theorem perform_eq (accumulated : Duration) (call : Call) :
    perform accumulated call = call.secs.foldlM sleep accumulated := by
  cases call with
  | sleep | sleepRandom => simp [perform,Call.secs]
  | request options shouldRetry => exact retryLoop_eq options 1 shouldRetry accumulated

theorem iteration_eq (calls : List Call) : iteration calls = (calls.flatMap Call.secs).foldlM sleep 0 := by
  suffices all : ∀ accumulated, calls.foldlM perform accumulated =
      (calls.flatMap Call.secs).foldlM sleep accumulated from all 0
  induction calls with
  | nil => exact fun _ => rfl
  | cons call rest ih =>
    intro accumulated
    rw [List.flatMap_cons,List.foldlM_append,List.foldlM_cons,perform_eq]
    exact congrArg _ (funext ih)

/-- No call of an iteration panics exactly when all numbers of seconds that it sleeps are
durations, and so is their sum. -/
theorem iteration_safe_iff (calls : List Call) : (iteration calls).isSome ↔
    (∀ secs ∈ calls.flatMap Call.secs, Sleepable secs) ∧
      ((calls.flatMap Call.secs).map nanoseconds).sum < durationLimit := by
  rw [iteration_eq,Option.isSome_iff_exists]
  have started : (0 : Duration) < durationLimit := by decide
  simp only [sleeps_eq_some_iff started,Nat.zero_add]
  constructor
  · rintro ⟨_,all,rfl,inside⟩
    exact ⟨all,inside⟩
  · rintro ⟨all,inside⟩
    exact ⟨_,all,rfl,inside⟩

theorem negative_sleep_panics : ¬∀ calls, (iteration calls).isSome := by
  intro safe
  obtain ⟨t,slept⟩ := Option.isSome_iff_exists.mp (safe [.sleep (.finite (-1))])
  have first : sleep 0 (.finite (-1)) = some t := by simpa [iteration,perform] using slept
  obtain ⟨⟨q,same,nonneg,-⟩,-⟩ := sleep_eq_some_iff.mp first
  obtain rfl := F64.finite.inj same
  exact absurd nonneg (by norm_num)

end Bridge.ScriptSleep

end Fusillade
