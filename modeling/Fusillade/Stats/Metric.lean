import Fusillade.Lib.FiniteMap
import Mathlib.Data.Rat.Floor
import Mathlib.Data.Finset.Sort
import Mathlib.Data.String.Basic

/-! The metric stream and the names under which request metrics are grouped. Durations are
nanoseconds, bounded only where an addition is checked, `f64` values are exact rationals,
and a histogram is the multiset of buckets its recorded values fell into. -/
namespace Fusillade

abbrev Duration := Nat

def Duration.fromMillis (ms : Nat) : Duration := ms * 1000000
def Duration.fromSecs (secs : Nat) : Duration := secs * 1000000000

/-- `as_micros() as u64`: the cast keeps the low 64 bits. -/
def Duration.asMicros (d : Duration) : Nat := d / 1000 % 2^64

def Duration.bound : Nat := 2^64 * 1000000000

/-- `+=` on a duration, `none` where it panics. -/
def Duration.addChecked (total d : Duration) : Option Duration :=
  if total + d < Duration.bound then some (total + d) else none

theorem Duration.addChecked_eq_some {total d sum : Duration} :
    Duration.addChecked total d = some sum ↔ total + d < Duration.bound ∧ total + d = sum := by
  unfold Duration.addChecked
  split <;> simp [*]

theorem Duration.addChecked_isSome (total d : Duration) :
    (Duration.addChecked total d).isSome ↔ total + d < Duration.bound := by
  simp [Option.isSome_iff_exists,Duration.addChecked_eq_some]

namespace Stats

abbrev HashMap := FiniteMap

structure RequestTimings where
  blocked : Duration := 0
  connecting : Duration := 0
  tlsHandshaking : Duration := 0
  sending : Duration := 0
  waiting : Duration := 0
  receiving : Duration := 0
  duration : Duration := 0
  responseSize : Nat := 0
  requestSize : Nat := 0
  poolReused : Bool := false
  deriving DecidableEq, Repr

inductive Metric where
  | request (name : String) (timings : RequestTimings) (status : UInt16)
      (error : Option String) (tags : HashMap String String)
  | check (name : String) (success : Bool) (message : Option String)
  | log (message : String)
  | histogram (name : String) (value : ℚ) (tags : HashMap String String)
  | rate (name : String) (success : Bool) (tags : HashMap String String)
  | counter (name : String) (value : ℚ) (tags : HashMap String String)
  | gauge (name : String) (value : ℚ) (tags : HashMap String String)
  deriving DecidableEq

/-- `str::ends_with`, on the characters. -/
def endsWith (s suffix : String) : Bool := suffix.toList.isSuffixOf s.toList

theorem endsWith_append (s suffix : String) : endsWith (s ++ suffix) suffix = true := by
  simp [endsWith]

theorem endsWith_last {s suffix : String} (ends : endsWith s suffix = true)
    (nonempty : suffix.toList ≠ []) : s.toList.getLast? = suffix.toList.getLast? := by
  rw [endsWith,List.isSuffixOf_iff_suffix] at ends
  obtain ⟨before,same⟩ := ends
  rw [← same,List.getLast?_append_of_ne_nil before nonempty]

/-- Iteration metrics are internal bookkeeping: the primary one and its `_total` twin. -/
def isIterationTotal (name : String) : Bool :=
  name == "iteration_total" || endsWith name "::iteration_total"

def isIteration (name : String) : Bool :=
  name == "iteration" || endsWith name "::iteration" || isIterationTotal name

def tagSuffix (tags : HashMap String String) : List String → String
  | [] => ""
  | [k] => k ++ ":" ++ (tags.lookup k).getD ""
  | k :: rest => k ++ ":" ++ (tags.lookup k).getD "" ++ "," ++ tagSuffix tags rest

/-- The key of the per-request entry: the name, then the tags in the order of their keys. -/
def fullName (name : String) (tags : HashMap String String) : String :=
  if tags = ∅ then name
  else name ++ "\x7b" ++ tagSuffix tags (tags.keys.sort (· ≤ ·)) ++ "\x7d"

def sortedTags (tags : HashMap String String) : List (String × String) :=
  (tags.keys.sort (· ≤ ·)).map fun key => (key,(tags.lookup key).getD "")

/-- The `hdrhistogram` buckets hit so far, each as often as it was hit. -/
abbrev Histogram := Multiset Nat

/-- `record`: `bucketOf` is the index computation of the crate for the bounds in use, and
gives none for a value out of range, whose error every caller here ignores. -/
def Histogram.record (bucketOf : Nat → Option Nat) (value : Nat) (h : Histogram) : Histogram :=
  match bucketOf value with
  | some bucket => bucket ::ₘ h
  | none => h

theorem Histogram.record_eq_add (bucketOf : Nat → Option Nat) (value : Nat) (h : Histogram) :
    h.record bucketOf value = h + Histogram.record bucketOf value 0 := by
  unfold Histogram.record
  split
  · rw [← Multiset.singleton_add,Multiset.add_comm]; rfl
  · simp

/-- `(value * 1000.0) as u64`: truncation that saturates at both ends. -/
def toMicros (value : ℚ) : Nat := min (value * 1000).floor.toNat (2^64 - 1)

end Stats
end Fusillade
