import Fusillade.Lib.Binary64
import Fusillade.Lib.Words
import Fusillade.Stats.Report

/-! Pass and fail criteria: `validate_thresholds`, the `--threshold` flags that feed it, and
what a criterion says when its text is read as the documentation writes it. -/
namespace Fusillade.Stats

open FiniteMap
open Binary64 (nearest)

inductive F64 where
  | finite (value : ℚ)
  | infinite (negative : Bool)
  | nan
  deriving DecidableEq

/-- The nearest `f64`; an overflow is an infinity. -/
def F64.ofRat (q : ℚ) : F64 := (Binary64.round q).elim (.infinite (q < 0)) .finite

def F64.rounded : F64 → F64
  | .finite q => .ofRat q
  | x => x

def digitsValue (digits : List Char) : Nat :=
  digits.foldl (fun value c => value * 10 + (c.toNat - '0'.toNat)) 0

def parseExponent : List Char → Option Int
  | [] => some 0
  | c :: rest =>
    if c.toLower ≠ 'e' then none
    else
      let (negative,digits) := match rest with
        | '-' :: digits => (true,digits)
        | '+' :: digits => (false,digits)
        | digits => (false,digits)
      if digits = [] ∨ !digits.all Char.isDigit then none
      else some (if negative then -digitsValue digits else digitsValue digits)

def parseDecimal (text : List Char) : Option ℚ :=
  let whole := text.takeWhile Char.isDigit
  let (fraction,rest) := match text.dropWhile Char.isDigit with
    | '.' :: rest => (rest.takeWhile Char.isDigit,rest.dropWhile Char.isDigit)
    | rest => ([],rest)
  if whole = [] ∧ fraction = [] then none
  else (parseExponent rest).map fun exponent =>
    (digitsValue (whole ++ fraction) : ℚ) * (10 : ℚ) ^ (exponent - (fraction.length : Int))

/-- The number that a text spells in the syntax of `f64`, before it is rounded. -/
def readF64 (text : List Char) : Option F64 :=
  let (negative,unsigned) := match text with
    | '-' :: rest => (true,rest)
    | '+' :: rest => (false,rest)
    | text => (false,text)
  let lower := String.ofList (unsigned.map Char.toLower)
  if lower = "inf" ∨ lower = "infinity" then some (.infinite negative)
  else if lower = "nan" then some .nan
  else (parseDecimal unsigned).map fun value => .finite (if negative then -value else value)

/-- `str::parse::<f64>` -/
def parseF64 (text : List Char) : Option F64 := (readF64 text).map F64.rounded

/-- `char::is_whitespace`: the Unicode property. -/
def isWhitespace (c : Char) : Bool :=
  c.toNat ∈ [0x20,0x85,0xA0,0x1680,0x2028,0x2029,0x202F,0x205F,0x3000] ||
    (0x9 ≤ c.toNat && c.toNat ≤ 0xD) || (0x2000 ≤ c.toNat && c.toNat ≤ 0x200A)

def splitWhitespace (text : String) : List String :=
  (Words.words isWhitespace text.toList).map String.ofList

inductive Operator where
  | less | lessEq | greater | greaterEq | equal
  deriving DecidableEq, Repr

def parseOperator : String → Option Operator
  | "<" => some .less
  | "<=" => some .lessEq
  | ">" => some .greater
  | ">=" => some .greaterEq
  | "==" => some .equal
  | _ => none

/-- `f64::EPSILON`. -/
def epsilon : ℚ := 1 / 2^52

def Operator.holds (operator : Operator) (actual : ℚ) : F64 → Bool
  | .finite value => match operator with
    | .less => actual < value
    | .lessEq => actual ≤ value
    | .greater => actual > value
    | .greaterEq => actual ≥ value
    | .equal => |nearest (actual - value)| < epsilon
  | .infinite negative => match operator with
    | .less | .lessEq => !negative
    | .greater | .greaterEq => negative
    | .equal => false
  | .nan => false

inductive Statistic where
  | p50 | p90 | p95 | p99 | avg | min | max | rate | count | value
  deriving DecidableEq, Repr

def parseStatistic : String → Option Statistic
  | "p50" => some .p50
  | "p90" => some .p90
  | "p95" => some .p95
  | "p99" => some .p99
  | "avg" => some .avg
  | "min" => some .min
  | "max" => some .max
  | "rate" => some .rate
  | "count" => some .count
  | "value" => some .value
  | _ => none

/-- The metrics that a criterion can be about. -/
inductive Known where
  | duration
  | failed
  | histogram (h : HistogramReport)
  | rate (r : RateReport)
  | counter (val : ℚ)
  | gauge (val : ℚ)

section

variable (report : ReportStats)

/-- The built-in names first, then the custom metrics in the order of the chain. -/
def lookupMetric (metricName : String) : Option Known :=
  if metricName = "http_req_duration" then some .duration
  else if metricName = "http_req_failed" then some .failed
  else (report.histograms.lookup metricName).map .histogram <|>
    (report.rates.lookup metricName).map .rate <|>
    (report.counters.lookup metricName).map .counter <|>
    (report.gauges.lookup metricName).map .gauge

/-- The rate of `http_req_failed`. -/
def failedRate : ℚ :=
  if report.totalRequests > 0 then (report.totalErrors : ℚ) / report.totalRequests else 0

/-- The statistics that `validate_thresholds` has an arm for. -/
def handled : Known → Statistic → Option ℚ
  | .duration, .p95 => some report.p95LatencyMs
  | .duration, .p99 => some report.p99LatencyMs
  | .duration, .avg => some report.avgLatencyMs
  | .duration, .max => some report.maxLatencyMs
  | .duration, .min => some report.minLatencyMs
  | .failed, .rate => some (failedRate report)
  | .histogram h, .p95 => some h.p95
  | .histogram h, .p99 => some h.p99
  | .histogram h, .p90 => some h.p90
  | .histogram h, .avg => some h.avg
  | .histogram h, .max => some h.max
  | .histogram h, .min => some h.min
  | .histogram h, .count => some h.count
  | .rate r, .rate => some r.rate
  | .counter val, .count | .counter val, .value => some val
  | .gauge val, .value => some val
  | _, _ => none

def handledStatistic (metricName checkType : String) : Option ℚ := do
  let known ← lookupMetric report metricName
  let statistic ← parseStatistic checkType
  handled report known statistic

/-- Every arm that is missing gives zero. -/
def actualValue (metricName checkType : String) : ℚ :=
  (handledStatistic report metricName checkType).getD 0

/-- The actual value as the `f64` that is compared. -/
def actualF64 (metricName checkType : String) : ℚ := nearest (actualValue report metricName checkType)

def thresholdValue (number : String) : F64 := (parseF64 number.toList).getD (.finite 0)

def passes (operator : String) (actual : ℚ) (value : F64) : Bool :=
  match parseOperator operator with
  | some operator => operator.holds actual value
  | none => false

end

/-- `{:.2}`: two decimals, half to even, with the sign of what was rounded. -/
def fixed2 (value : ℚ) : String :=
  let hundredths := |value| * 100
  let floor := hundredths.floor.toNat
  let rest := hundredths - floor
  let rounded := if rest > 1/2 ∨ (rest = 1/2 ∧ floor % 2 = 1) then floor + 1 else floor
  let cents := toString (rounded % 100)
  (if value < 0 then "-" else "") ++ toString (rounded / 100) ++ "." ++
    (if cents.length < 2 then "0" ++ cents else cents)

/-- One threshold: fewer than three words are skipped with a warning. -/
def thresholdFailure (report : ReportStats) (metricName threshold : String) : Option String :=
  match splitWhitespace threshold with
  | checkType :: operator :: number :: _ =>
    let actual := actualF64 report metricName checkType
    if passes operator actual (thresholdValue number) then none
    else some ("Threshold FAILED: " ++ metricName ++ " " ++ checkType ++ " " ++ threshold ++
      " (actual: " ++ fixed2 actual ++ ")")
  | _ => none

/-- A threshold of three words fails where the comparison does. -/
theorem thresholdFailure_of_words {report : ReportStats}
    {metricName threshold checkType operator number : String} {rest : List String}
    (words : splitWhitespace threshold = checkType :: operator :: number :: rest) :
    (thresholdFailure report metricName threshold).isSome ↔
      passes operator (actualF64 report metricName checkType) (thresholdValue number) = false := by
  simp only [thresholdFailure,words]
  split
  next pass => simp [pass]
  next fails => simpa using fails

/-- The criteria with their thresholds, in the order in which the map is visited. -/
abbrev Criteria := List (String × List String)

def ReportStats.validateThresholds (report : ReportStats) (criteria : Criteria) : List String :=
  criteria.flatMap fun entry => entry.2.filterMap (thresholdFailure report entry.1)

def StatsAggregator.validateThresholds (reader : HistogramReader) (a : StatsAggregator)
    (criteria : Criteria) : List String :=
  (a.toReport reader).validateThresholds criteria

/-- `str::split_once`. -/
def splitOnce (separator : Char) (text : String) : Option (String × String) :=
  match text.toList.span (· ≠ separator) with
  | (before,_ :: after) => some (String.ofList before,String.ofList after)
  | (_,[]) => none

/-- The loop over the `--threshold` flags; what it ignores it warns about. -/
def mergeCliThresholds (criteria : HashMap String (List String)) (flags : List String) :
    HashMap String (List String) :=
  flags.foldl (fun criteria flag =>
    match splitOnce ':' flag with
    | some (metric,condition) =>
      if metric = "" ∨ condition = "" then criteria
      else upsert [] (· ++ [condition]) metric criteria
    | none => criteria) criteria

end Fusillade.Stats
