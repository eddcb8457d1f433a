import Fusillade.Lib.Binary64
import Fusillade.Stats.Metric

/-! Durations in a configuration, and the target that a schedule of ramps gives at a time.
Every result of the interpolation is rounded to binary64. -/
namespace Fusillade.Engine

open Binary64 (nearest nearest_representable nearest_natCast nearest_idem_natCast)

/-- `str::parse::<u64>`: an optional plus sign and at least one digit, below `2^64`. -/
def parseU64 (text : List Char) : Option Nat :=
  let digits := match text with
    | '+' :: rest => rest
    | text => text
  if digits = [] ∨ !digits.all Char.isDigit then none
  else
    let value := digits.foldl (fun value c => value * 10 + (c.toNat - '0'.toNat)) 0
    if value < 2^64 then some value else none

/-- `trim_end_matches("ms")` on the reversed text: every repetition goes. -/
def trimMs : List Char → List Char
  | 's' :: 'm' :: rest => trimMs rest
  | text => text

def parseDuration (text : String) : Option Duration :=
  match text.toList.reverse with
  | 's' :: 'm' :: rest => (parseU64 (trimMs rest).reverse).map Duration.fromMillis
  | 's' :: rest => (parseU64 (rest.dropWhile (· == 's')).reverse).map Duration.fromSecs
  | 'm' :: rest =>
    (parseU64 (rest.dropWhile (· == 'm')).reverse).map fun mins => Duration.fromSecs (mins * 60 % 2^64)
  | _ => none

/-- Also takes a bare integer, as milliseconds. -/
def parseDurationStr (text : String) : Option Duration :=
  parseDuration text <|> (parseU64 text.toList).map Duration.fromMillis

example : ["500ms","10s","1m","5","s"].map parseDuration =
    [some (Duration.fromMillis 500),some (Duration.fromSecs 10),some (Duration.fromSecs 60),none,
      none] := by decide

/-- Steps of a duration and the value reached at its end. -/
abbrev Schedule := List (Duration × Nat)

def Schedule.total (schedule : Schedule) : Duration := (schedule.map Prod.fst).sum

def asSecsF64 (d : Duration) : ℚ :=
  nearest (nearest (d / 1000000000 : Nat) + nearest ((d % 1000000000 : Nat) / 1000000000))

/-- The saturating casts `as usize` and `as u64`. -/
def toUsize (q : ℚ) : Nat := min ⌊q⌋.toNat (2^64 - 1)

def valueF64 (prev target : Nat) (elapsed activeTime duration : Duration) : Nat :=
  let progress := nearest (nearest (asSecsF64 elapsed - asSecsF64 activeTime) / asSecsF64 duration)
  let diff := nearest (nearest target - nearest prev)
  toUsize (nearest (nearest prev + nearest (diff * progress)))

/-- The loop shared by `calculate_target` and `calculate_rate`: the value inside the step
that `elapsed` falls into, or the value after the last step. -/
def interpolate (value : Nat → Nat → Duration → Duration → Duration → Nat) (elapsed : Duration) :
    Schedule → (activeTime : Duration) → (prev : Nat) → Except Nat Nat
  | [], _, prev => .error prev
  | (duration,target) :: rest, activeTime, prev =>
    if elapsed < activeTime + duration then .ok (value prev target elapsed activeTime duration)
    else interpolate value elapsed rest (activeTime + duration) target

/-- The number of workers to run; none once the schedule is over. -/
def calculateTarget (schedule : Schedule) (elapsed : Duration) : Nat :=
  match interpolate valueF64 elapsed schedule 0 0 with
  | .ok target => target
  | .error _ => 0

/-- The arrival rate; the last one stays once the schedule is over. -/
def calculateRate (schedule : Schedule) (elapsed : Duration) : Nat :=
  match interpolate valueF64 elapsed schedule 0 0 with
  | .ok rate | .error rate => rate

-- just before nineteen seconds eleven workers are due, at nineteen the sum is rounded down to ten
example : [18900,19000].map (fun ms => calculateTarget
    [(Duration.fromSecs 5,25),(Duration.fromSecs 25,0)] (Duration.fromMillis ms)) = [11,10] := by
  decide +kernel

/-- A number of workers that the casts to `f64` and back leave alone. -/
def Castable (n : Nat) : Prop := toUsize (nearest n) = n

instance (n : Nat) : Decidable (Castable n) := inferInstanceAs (Decidable (_ = _))

variable {value : Nat → Nat → Duration → Duration → Duration → Nat} {duration elapsed : Duration}

theorem valueF64_constant (target : Nat) (activeTime : Duration) :
    valueF64 target target elapsed activeTime duration = toUsize (nearest target) := by
  simp [valueF64,nearest_idem_natCast]

@[simp] theorem toUsize_zero : toUsize 0 = 0 := by simp [toUsize]

theorem castable_of_lt {n : Nat} (small : n < 2^53) : Castable n := by
  have exactly : nearest n = n := nearest_representable ⟨n,0,by simp,small⟩
  rw [Castable,toUsize,exactly,Int.floor_natCast,Int.toNat_natCast]
  omega

theorem castable_zero : Castable 0 := castable_of_lt (by decide)

theorem toUsize_nearest_eq_zero {n : Nat} : toUsize (nearest n) = 0 ↔ n = 0 := by
  obtain ⟨k,same,_,near⟩ := nearest_natCast n
  rw [toUsize,same,Int.floor_natCast,Int.toNat_natCast]
  constructor
  · intro lost
    omega
  · rintro rfl
    have zero : (k : ℚ) = 0 := by simpa using same.symm
    rw [Nat.cast_eq_zero.mp zero,Nat.zero_min]

theorem calculateTarget_constant (target : Nat) (inside : elapsed < duration) :
    calculateTarget [(0,target),(duration,target)] elapsed = toUsize (nearest target) := by
  simp [calculateTarget,interpolate,inside,valueF64_constant]

theorem calculateTarget_start (target : Nat) (positive : 0 < duration) :
    calculateTarget [(duration,target)] 0 = 0 := by
  simp [calculateTarget,interpolate,positive,valueF64]

theorem calculateTarget_zero (inside : elapsed < duration) :
    calculateTarget [(duration,0)] elapsed = 0 := by
  simpa [calculateTarget,interpolate,inside] using valueF64_constant 0 0

theorem interpolate_over {schedule : Schedule} {activeTime prev : Nat}
    (past : activeTime + schedule.total ≤ elapsed) :
    ∃ last, interpolate value elapsed schedule activeTime prev = .error last := by
  induction schedule generalizing activeTime prev with
  | nil => exact ⟨prev,rfl⟩
  | cons step rest ih =>
    obtain ⟨duration,target⟩ := step
    rw [Schedule.total,List.map_cons,List.sum_cons] at past
    have after : activeTime + duration ≤ elapsed := by omega
    rw [interpolate,if_neg (Nat.not_lt.mpr after)]
    exact ih (by rw [Schedule.total]; omega)

theorem calculateTarget_over {schedule : Schedule} (past : schedule.total ≤ elapsed) :
    calculateTarget schedule elapsed = 0 := by
  obtain ⟨last,ended⟩ : ∃ last, interpolate valueF64 elapsed schedule 0 0 = .error last :=
    interpolate_over ((Nat.zero_add _).trans_le past)
  rw [calculateTarget,ended]

end Fusillade.Engine
