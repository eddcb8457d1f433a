import Fusillade.Engine.ArrivalRate
import Fusillade.Stats.Aggregator

/-! The two places that check a 64-bit count and divide a duration by the low half of it: the
interval of the arrival-rate dispatcher, and the mean in the printed report. -/
namespace Fusillade.Engine.NarrowedDivision

open Stats ArrivalRate

/-- `dividend / count as u32`, with the divisor that the cast leaves. -/
structure Division where
  dividend : Duration
  divisor : Nat
  deriving DecidableEq

def Division.value (division : Division) : Option Duration :=
  if division.divisor = 0 then none else some (division.dividend / division.divisor)

def asU32 (count : Nat) : Nat := count % 2^32

/-- The division behind the interval of a rate; a rate of zero falls back to one second. -/
def intervalDivision (timeUnit : Duration) (rate : Nat) : Option Division :=
  if rate > 0 then some ⟨timeUnit,asU32 rate⟩ else none

def hasReportableData (a : StatsAggregator) : Bool :=
  a.totalRequests > 0 || a.requests ≠ ∅ || a.errors ≠ ∅ || a.checks ≠ ∅ || a.counters ≠ ∅ ||
    a.gauges ≠ ∅ || a.histograms ≠ ∅ || a.rates ≠ ∅

/-- The division behind the mean that `report` prints, where it prints one. -/
def meanDivision (a : StatsAggregator) : Option Division :=
  if !hasReportableData a then none
  else if a.totalRequests > 0 then some ⟨a.totalDuration,asU32 a.totalRequests⟩
  else none

def Exact (dividend : Duration) (count : Nat) (division : Option Division) : Prop :=
  division = some ⟨dividend,count⟩ ∧ (division.bind Division.value) = some (dividend / count)

/-- Both divisions are exact where there is something to divide by. -/
def BothExact (cfg : Settings) (rampElapsed : Duration) (a : StatsAggregator) : Prop :=
  (1 ≤ currentRate cfg rampElapsed →
    Exact cfg.timeUnit (currentRate cfg rampElapsed)
      (intervalDivision cfg.timeUnit (currentRate cfg rampElapsed))) ∧
  (1 ≤ a.totalRequests → Exact a.totalDuration a.totalRequests (meanDivision a))

theorem dispatchInterval_eq (timeUnit : Duration) (rate : Nat) :
    dispatchInterval timeUnit rate =
      match intervalDivision timeUnit rate with
      | some division => division.value
      | none => some (Duration.fromSecs 1) := by
  by_cases positive : rate > 0
  · simp [dispatchInterval,intervalDivision,positive,Division.value,asU32]
  · simp [dispatchInterval,intervalDivision,positive]

theorem meanDivision_eq {a : StatsAggregator} (counted : 1 ≤ a.totalRequests) :
    meanDivision a = some ⟨a.totalDuration,asU32 a.totalRequests⟩ := by
  have positive : a.totalRequests > 0 := counted
  simp [meanDivision,hasReportableData,positive]

theorem exact_iff {dividend : Duration} {count : Nat} (positive : 1 ≤ count) :
    Exact dividend count (some ⟨dividend,asU32 count⟩) ↔ count < 2^32 := by
  constructor
  · rintro ⟨same,_⟩
    have kept := congrArg Division.divisor (Option.some.inj same)
    rw [← show asU32 count = count from kept]
    exact Nat.mod_lt _ (by decide)
  · intro fits
    have kept : asU32 count = count := Nat.mod_eq_of_lt fits
    rw [kept]
    exact ⟨rfl,if_neg (Nat.ne_of_gt positive)⟩

theorem guarded_iff {dividend : Duration} {count : Nat} {division : Option Division}
    (made : 1 ≤ count → division = some ⟨dividend,asU32 count⟩) :
    (1 ≤ count → Exact dividend count division) ↔ count < 2^32 := by
  rcases Nat.eq_zero_or_pos count with rfl | positive
  · exact iff_of_true (fun counted => absurd counted (by decide)) (by decide)
  · rw [made positive,← exact_iff positive]
    exact forall_prop_of_true positive

/-- **The interval of a rate and the mean of a report are the exact quotients precisely when
neither the rate nor the number of requests has more than 32 bits.** -/
theorem bothExact_iff (cfg : Settings) (rampElapsed : Duration) (a : StatsAggregator) :
    BothExact cfg rampElapsed a ↔ currentRate cfg rampElapsed < 2^32 ∧ a.totalRequests < 2^32 :=
  and_congr (guarded_iff fun positive => if_pos positive) (guarded_iff meanDivision_eq)

/-- A turn of the dispatcher that divides by zero ends its thread. -/
theorem dispatch_panics {n : Nat} {cfg : Settings} {s : State n} {elapsed rampElapsed : Duration}
    (reached : s.dispatcher = .dispatching) (inside : elapsed < cfg.duration ∧ s.running = true)
    (positive : 0 < currentRate cfg rampElapsed) (zero : asU32 (currentRate cfg rampElapsed) = 0) :
    dispatch cfg s elapsed rampElapsed = some { s with dispatcher := .panicked, connected := false } := by
  have divided : dispatchInterval cfg.timeUnit (currentRate cfg rampElapsed) = none := by
    simp [dispatchInterval_eq,intervalDivision,positive,Division.value,zero]
  simp [dispatch,reached,inside,divided]

def bulk : Settings := ⟨1,Duration.fromSecs 7200,none,false,2^32,[],Duration.fromSecs 3600⟩

theorem bulk_divides_by_zero : ¬∀ cfg rampElapsed a, BothExact cfg rampElapsed a := by
  intro precise
  have positive : 1 ≤ currentRate bulk 0 := by decide
  exact absurd ((precise bulk 0 .new).1 positive).1 (by decide)

end Fusillade.Engine.NarrowedDivision
