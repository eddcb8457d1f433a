import Fusillade.Stats.CsvReport
import Fusillade.Lib.Utf8
import Fusillade.Lib.Separators

/-! The StatsD exporter: the lines it builds of a report and the packets it sends them in. Which
characters Unicode has as alphanumeric is a parameter. -/
namespace Fusillade.Stats.Statsd

open Decimal (nat fixed display)

structure StatsdExporter where
  endpoint : String
  namePrefix : Text

/-- `StatsdExporter::new` -/
def StatsdExporter.new (endpoint : String) : StatsdExporter where
  endpoint := if ':' ∈ endpoint.toList then endpoint else endpoint ++ ":8125"
  namePrefix := "fusillade".toList

def StatsdExporter.withPrefix (endpoint : String) (namePrefix : Text) : StatsdExporter :=
  { StatsdExporter.new endpoint with namePrefix := namePrefix }

/-- A number as a double. -/
def asDouble (q : ℚ) : ℚ := (Binary64.round q).getD q

/-- The sum of two `usize` numbers, which wraps. -/
def wrappingAdd (a b : Nat) : Nat := (a + b) % 2^64

/-- `name:value|type`, with the tags after it. -/
def metric (name : Text) (value : Text) (type : String) (tags : Text) : Text :=
  name ++ ':' :: value ++ '|' :: type.toList ++ tags

def tag (key : String) (value : Text) : Text := "|#".toList ++ key.toList ++ ':' :: value

section

variable (alphanumeric : Char → Bool)

def sanitizeMetricName (name : Text) : Text :=
  name.map fun c => if alphanumeric c = true ∨ c = '_' ∨ c = '.' ∨ c = '-' then c else '_'

variable (exporter : StatsdExporter) {report : ReportStats} (order : Listing report)

/-- Calculate RPS from total_requests / total_duration -/
def rps (report : ReportStats) : ℚ :=
  if report.totalDurationMs > 0 then
    asDouble (asDouble report.totalRequests / asDouble (asDouble report.totalDurationMs / 1000))
  else 0

def endpointMetrics (named : String → Text) (name : String) (r : RequestReport) : List Text :=
  let tags := tag "endpoint" (sanitizeMetricName alphanumeric name.toList)
  [metric (named ".http.endpoint.requests") (nat r.totalRequests) "c" tags,
    metric (named ".http.endpoint.latency.avg") (fixed 2 r.avgLatencyMs) "ms" tags,
    metric (named ".http.endpoint.latency.p95") (fixed 2 r.p95LatencyMs) "ms" tags,
    metric (named ".http.endpoint.latency.p99") (fixed 2 r.p99LatencyMs) "ms" tags,
    metric (named ".http.endpoint.errors") (nat r.errorCount) "c" tags]

def histogramMetrics (named : String → Text) (name : String) (h : HistogramReport) : List Text :=
  let tags := tag "name" (sanitizeMetricName alphanumeric name.toList)
  [metric (named ".custom.histogram.count") (nat h.count) "c" tags,
    metric (named ".custom.histogram.min") (fixed 2 h.min) "g" tags,
    metric (named ".custom.histogram.max") (fixed 2 h.max) "g" tags,
    metric (named ".custom.histogram.avg") (fixed 2 h.avg) "g" tags,
    metric (named ".custom.histogram.p95") (fixed 2 h.p95) "g" tags]

def rateMetrics (named : String → Text) (name : String) (r : RateReport) : List Text :=
  let tags := tag "name" (sanitizeMetricName alphanumeric name.toList)
  [metric (named ".custom.rate") (fixed 4 r.rate) "g" tags,
    metric (named ".custom.rate.successes") (nat r.success) "c" tags,
    metric (named ".custom.rate.total") (nat r.total) "c" tags]

/-- The checks that passed and failed, added up in the order of the map. -/
def checkTotals (checks : List (String × Nat × Nat)) : Nat × Nat :=
  checks.foldl (fun (p,f) (_,total,passes) => (wrappingAdd p passes,wrappingAdd f (wrappingSub total passes))) (0,0)

def checkMetrics (named : String → Text) (checks : List (String × Nat × Nat)) : List Text :=
  let (passed,failed) := checkTotals checks
  if passed > 0 ∨ failed > 0 then
    [metric (named ".checks.passed") (nat passed) "c" [],metric (named ".checks.failed") (nat failed) "c" []]
  else []

def buildMetrics : List Text :=
  let named (name : String) : Text := exporter.namePrefix ++ name.toList
  let sanitized (name : String) : Text := sanitizeMetricName alphanumeric name.toList
  let errorCount := (order.errors.map Prod.snd).foldl wrappingAdd 0
  [metric (named ".http.requests.total") (nat report.totalRequests) "c" [],
    metric (named ".http.rps") (fixed 2 (rps report)) "g" [],
    metric (named ".http.latency.avg") (fixed 2 report.avgLatencyMs) "ms" [],
    metric (named ".http.latency.min") (nat report.minLatencyMs) "ms" [],
    metric (named ".http.latency.max") (nat report.maxLatencyMs) "ms" [],
    metric (named ".http.latency.p50") (fixed 2 report.p50LatencyMs) "ms" [],
    metric (named ".http.latency.p90") (fixed 2 report.p90LatencyMs) "ms" [],
    metric (named ".http.latency.p95") (fixed 2 report.p95LatencyMs) "ms" [],
    metric (named ".http.latency.p99") (fixed 2 report.p99LatencyMs) "ms" [],
    metric (named ".http.errors.total") (nat errorCount) "c" []] ++
  (order.errors.map fun (errorType,count) =>
    metric (named ".http.errors.by_type") (nat count) "c" (tag "error" (sanitized errorType))) ++
  (order.statusCodes.map fun (status,count) =>
    metric (named ".http.status") (nat count) "c" (tag "code" (nat status.toNat))) ++
  (order.groupedRequests.flatMap fun (name,r) => endpointMetrics alphanumeric named name r) ++
  (order.histograms.flatMap fun (name,h) => histogramMetrics alphanumeric named name h) ++
  (order.counters.map fun (name,value) =>
    metric (named ".custom.counter") (display value) "c" (tag "name" (sanitized name))) ++
  (order.gauges.map fun (name,value) =>
    metric (named ".custom.gauge") (display value) "g" (tag "name" (sanitized name))) ++
  (order.rates.flatMap fun (name,r) => rateMetrics alphanumeric named name r) ++
  [metric (named ".http.bytes.sent") (nat report.totalDataSent) "c" [],
    metric (named ".http.bytes.received") (nat report.totalDataReceived) "c" []] ++
  checkMetrics named order.checks

end

/-- `len()`, in bytes. -/
def len (text : Text) : Nat := (Utf8.encode text).length

def maxPacketSize : Nat := 1400

/-- The batch that is filled, and the packets that were sent. -/
structure Batching where
  batch : Text
  sent : List Text

section

-- What the socket answers to each packet.
variable (sendTo : Nat → Except String Unit)

def Batching.send (s : Batching) : Except String Batching :=
  match sendTo s.sent.length with
  | .ok () => .ok ⟨[],s.sent ++ [s.batch]⟩
  | .error e => .error ("Failed to send UDP packet: " ++ e)

def Batching.push (s : Batching) (metric : Text) : Batching :=
  { s with batch := if s.batch = [] then metric else s.batch ++ '\n' :: metric }

/-- The loop over the lines, and the batch that remains. -/
def batches : Batching → List Text → Batching × Except String Unit
  | s, [] =>
    if s.batch = [] then (s,.ok ())
    else
      match s.send sendTo with
      | .ok t => (t,.ok ())
      | .error e => (s,.error e)
  | s, metric :: rest =>
    if s.batch ≠ [] ∧ len s.batch + len metric + 1 > maxPacketSize then
      match s.send sendTo with
      | .ok t => batches (t.push metric) rest
      | .error e => (s,.error e)
    else batches (s.push metric) rest

/-- The packets that are sent, and what `export` returns. -/
def exportReport (alphanumeric : Char → Bool) (bound : Except String Unit) (exporter : StatsdExporter)
    {report : ReportStats} (order : Listing report) : List Text × Except String Unit :=
  match bound with
  | .error e => ([],.error ("Failed to bind UDP socket: " ++ e))
  | .ok () =>
    let (s,returned) := batches sendTo ⟨[],[]⟩ (buildMetrics alphanumeric exporter order)
    (s.sent,returned)

end

section

variable {alphanumeric : Char → Bool} (ascii : ∀ c, c.toNat < 128 → alphanumeric c = c.isAlphanum)

include ascii in
/-- A sanitised name has no character that the format gives a meaning. -/
theorem sanitizeMetricName_free (name : Text) :
    ∀ c ∈ sanitizeMetricName alphanumeric name, c ∉ [':','|','#',',','\n'] := by
  intro c member special
  obtain ⟨d,-,same⟩ := List.mem_map.mp member
  split at same
  next kept =>
    subst same
    simp only [List.mem_cons,List.not_mem_nil,or_false] at special
    rcases special with rfl | rfl | rfl | rfl | rfl <;> simp [ascii] at kept
  next =>
    subst same
    exact absurd special (by decide)

/-- Text that can stand on a line. -/
def OneLine (text : Text) : Prop := '\n' ∉ text

instance (text : Text) : Decidable (OneLine text) := inferInstanceAs (Decidable (_ ∉ _))

theorem oneLine_numeric {text : Text} (numeric : ∀ c ∈ text, Decimal.Numeric c) : OneLine text :=
  fun member => absurd (numeric _ member) (by decide)

theorem oneLine_append {a b : Text} : OneLine (a ++ b) ↔ OneLine a ∧ OneLine b := by
  simp [OneLine]

theorem metric_oneLine {name value tags : Text} {type : String} (named : OneLine name)
    (numeric : ∀ c ∈ value, Decimal.Numeric c) (typed : OneLine type.toList) (tagged : OneLine tags) :
    OneLine (metric name value type tags) := by
  have shown := oneLine_numeric numeric
  simp only [OneLine,metric,List.mem_append,List.mem_cons,not_or] at *
  exact ⟨⟨⟨named,by decide,shown⟩,by decide,typed⟩,tagged⟩

theorem metric_ne_nil (name value : Text) (type : String) (tags : Text) : metric name value type tags ≠ [] := by
  simp [metric]

include ascii in
theorem tag_oneLine {key : String} (plain : OneLine key.toList) (name : Text) :
    OneLine (tag key (sanitizeMetricName alphanumeric name)) := by
  have free := fun member => sanitizeMetricName_free ascii name '\n' member (by decide)
  simp only [OneLine,tag,List.mem_append,List.mem_cons,not_or] at *
  exact ⟨⟨by decide,plain⟩,by decide,free⟩

section

variable {named : String → Text} (clean : ∀ name : String, OneLine name.toList → OneLine (named name))

include clean

theorem count_oneLine {name type : String} {tags : Text} (plain : OneLine name.toList) (typed : OneLine type.toList)
    (tagged : OneLine tags) (n : Nat) : OneLine (metric (named name) (nat n) type tags) :=
  metric_oneLine (clean name plain) (Decimal.nat_numeric n) typed tagged

theorem figure_oneLine {name type : String} {tags : Text} (plain : OneLine name.toList) (typed : OneLine type.toList)
    (tagged : OneLine tags) (digits : Nat) (q : ℚ) : OneLine (metric (named name) (fixed digits q) type tags) :=
  metric_oneLine (clean name plain) (Decimal.fixed_numeric digits q) typed tagged

theorem checkMetrics_oneLine (checks : List (String × Nat × Nat)) : ∀ m ∈ checkMetrics named checks, OneLine m := by
  have counted {name : String} (plain : OneLine name.toList) (n : Nat) : OneLine (metric (named name) (nat n) "c" []) :=
    count_oneLine clean plain (by decide) (by decide) n
  unfold checkMetrics
  dsimp only
  split
  · simp only [List.forall_mem_cons]
    exact ⟨counted (by decide) _,counted (by decide) _,by simp⟩
  · simp

include ascii

theorem endpointMetrics_oneLine (name : String) (r : RequestReport) :
    ∀ m ∈ endpointMetrics alphanumeric named name r, OneLine m := by
  have tagged : OneLine (tag "endpoint" _) := tag_oneLine ascii (by decide) name.toList
  simp only [endpointMetrics,List.forall_mem_cons]
  exact ⟨count_oneLine clean (by decide) (by decide) tagged _,
    figure_oneLine clean (by decide) (by decide) tagged _ _,
    figure_oneLine clean (by decide) (by decide) tagged _ _,
    figure_oneLine clean (by decide) (by decide) tagged _ _,
    count_oneLine clean (by decide) (by decide) tagged _,by simp⟩

theorem histogramMetrics_oneLine (name : String) (h : HistogramReport) :
    ∀ m ∈ histogramMetrics alphanumeric named name h, OneLine m := by
  have tagged : OneLine (tag "name" _) := tag_oneLine ascii (by decide) name.toList
  simp only [histogramMetrics,List.forall_mem_cons]
  exact ⟨count_oneLine clean (by decide) (by decide) tagged _,
    figure_oneLine clean (by decide) (by decide) tagged _ _,
    figure_oneLine clean (by decide) (by decide) tagged _ _,
    figure_oneLine clean (by decide) (by decide) tagged _ _,
    figure_oneLine clean (by decide) (by decide) tagged _ _,by simp⟩

theorem rateMetrics_oneLine (name : String) (r : RateReport) :
    ∀ m ∈ rateMetrics alphanumeric named name r, OneLine m := by
  have tagged : OneLine (tag "name" _) := tag_oneLine ascii (by decide) name.toList
  simp only [rateMetrics,List.forall_mem_cons]
  exact ⟨figure_oneLine clean (by decide) (by decide) tagged _ _,
    count_oneLine clean (by decide) (by decide) tagged _,count_oneLine clean (by decide) (by decide) tagged _,by simp⟩

end

include ascii in
/-- No line has a newline in it. -/
theorem buildMetrics_oneLine {exporter : StatsdExporter} (prefixed : OneLine exporter.namePrefix)
    {report : ReportStats} (order : Listing report) :
    ∀ m ∈ buildMetrics alphanumeric exporter order, OneLine m := by
  have clean (name : String) (plain : OneLine name.toList) : OneLine (exporter.namePrefix ++ name.toList) :=
    oneLine_append.mpr ⟨prefixed,plain⟩
  have noTags : OneLine [] := by decide
  have counted (name : String) (plain : OneLine name.toList) {type : String} (typed : OneLine type.toList) (n : Nat) :=
    count_oneLine clean plain typed noTags n
  have gauged (name : String) (plain : OneLine name.toList) {type : String} (typed : OneLine type.toList) (q : ℚ) :=
    figure_oneLine clean plain typed noTags 2 q
  have tagged {key : String} (plain : OneLine key.toList) (name : String) := tag_oneLine ascii plain name.toList
  have coded (n : Nat) : OneLine (tag "code" (nat n)) := by
    have digits := oneLine_numeric (Decimal.nat_numeric n)
    simpa [OneLine,tag] using digits
  simp only [buildMetrics,List.forall_mem_append,List.forall_mem_cons,List.forall_mem_map,List.forall_mem_flatMap]
  refine ⟨⟨⟨⟨⟨⟨⟨⟨⟨?_,?_⟩,?_⟩,?_⟩,?_⟩,?_⟩,?_⟩,?_⟩,?_⟩,checkMetrics_oneLine clean order.checks⟩
  · exact ⟨counted _ (by decide) (by decide) _,gauged _ (by decide) (by decide) _,
      gauged _ (by decide) (by decide) _,counted _ (by decide) (by decide) _,
      counted _ (by decide) (by decide) _,gauged _ (by decide) (by decide) _,
      gauged _ (by decide) (by decide) _,gauged _ (by decide) (by decide) _,
      gauged _ (by decide) (by decide) _,counted _ (by decide) (by decide) _,by simp⟩
  · exact fun entry _ => count_oneLine clean (by decide) (by decide) (tagged (by decide) entry.1) _
  · exact fun entry _ => count_oneLine clean (by decide) (by decide) (coded _) _
  · exact fun entry _ => endpointMetrics_oneLine ascii clean entry.1 entry.2
  · exact fun entry _ => histogramMetrics_oneLine ascii clean entry.1 entry.2
  · exact fun entry _ =>
      metric_oneLine (clean _ (by decide)) (Decimal.display_numeric _) (by decide) (tagged (by decide) entry.1)
  · exact fun entry _ =>
      metric_oneLine (clean _ (by decide)) (Decimal.display_numeric _) (by decide) (tagged (by decide) entry.1)
  · exact fun entry _ => rateMetrics_oneLine ascii clean entry.1 entry.2
  · exact ⟨counted _ (by decide) (by decide) _,counted _ (by decide) (by decide) _,by simp⟩

theorem buildMetrics_ne_nil (alphanumeric : Char → Bool) (exporter : StatsdExporter) {report : ReportStats}
    (order : Listing report) : ∀ m ∈ buildMetrics alphanumeric exporter order, m ≠ [] := by
  have checks (named : String → Text) : ∀ m ∈ checkMetrics named order.checks, m ≠ [] := by
    unfold checkMetrics
    dsimp only
    split <;> simp [metric_ne_nil]
  simp only [buildMetrics,List.forall_mem_append,List.forall_mem_map,List.forall_mem_flatMap]
  refine ⟨⟨⟨⟨⟨⟨⟨⟨⟨?_,?_⟩,?_⟩,?_⟩,?_⟩,?_⟩,?_⟩,?_⟩,?_⟩,checks _⟩
  all_goals simp [endpointMetrics,histogramMetrics,rateMetrics,metric_ne_nil]

end

def joined (group : List Text) : Text := List.intercalate ['\n'] group

theorem joined_snoc {group : List Text} (nonempty : group ≠ []) (m : Text) :
    joined (group ++ [m]) = joined group ++ '\n' :: m := by
  induction group with
  | nil => exact absurd rfl nonempty
  | cons first group ih =>
    cases group with
    | nil => simp [joined,List.intercalate]
    | cons next group =>
      have later := ih (List.cons_ne_nil next group)
      simp only [joined,List.cons_append,List.intercalate_cons_cons,List.append_assoc] at later ⊢
      rw [later]

theorem joined_eq_nil {group : List Text} (inhabited : ∀ m ∈ group, m ≠ []) : joined group = [] ↔ group = [] := by
  refine ⟨fun empty => ?_,fun noLines => noLines ▸ rfl⟩
  cases group with
  | nil => rfl
  | cons first group =>
    cases group with
    | nil => exact absurd (by simpa [joined,List.intercalate] using empty) (inhabited first List.mem_cons_self)
    | cons next group => simp [joined,List.intercalate_cons_cons] at empty

theorem len_append (a b : Text) : len (a ++ b) = len a + len b := by
  simp [len,Utf8.encode]

theorem len_newline (m : Text) : len ('\n' :: m) = len m + 1 := by
  have newline : len ['\n'] = 1 := by decide
  rw [← List.singleton_append,len_append,newline,Nat.add_comm]

/-- The lines of a packet: within the limit, unless it is one line. -/
structure Packed (group : List Text) : Prop where
  some : group ≠ []
  fits : len (joined group) ≤ maxPacketSize ∨ ∃ m, group = [m]

/-- The packets and the batch are the lines so far. -/
structure Filling (lines : List Text) (s : Batching) (groups : List (List Text)) (pending : List Text) : Prop where
  sent : s.sent = groups.map joined
  batch : s.batch = joined pending
  packed : ∀ group ∈ groups, Packed group
  filled : pending ≠ [] → Packed pending
  all : groups.flatten ++ pending = lines
  inhabited : ∀ m ∈ lines, m ≠ []

namespace Filling

variable {lines pending : List Text} {s : Batching} {groups : List (List Text)}

theorem batch_eq_nil (f : Filling lines s groups pending) : s.batch = [] ↔ pending = [] := by
  have inhabited : ∀ m ∈ pending, m ≠ [] :=
    fun m member => f.inhabited m (f.all ▸ List.mem_append_right _ member)
  rw [f.batch,joined_eq_nil inhabited]

theorem push (f : Filling lines s groups pending) {m : Text} (nonempty : m ≠ [])
    (fits : s.batch ≠ [] → len s.batch + len m + 1 ≤ maxPacketSize) :
    Filling (lines ++ [m]) (s.push m) groups (pending ++ [m]) where
  sent := f.sent
  batch := by
    by_cases fresh : pending = []
    · simp [Batching.push,f.batch_eq_nil.mpr fresh,fresh,joined,List.intercalate]
    · rw [Batching.push,if_neg (mt f.batch_eq_nil.mp fresh),f.batch,joined_snoc fresh]
  packed := f.packed
  filled := by
    refine fun _ => ⟨by simp,?_⟩
    by_cases fresh : pending = []
    · exact .inr ⟨m,by rw [fresh,List.nil_append]⟩
    · have small := fits (mt f.batch_eq_nil.mp fresh)
      rw [joined_snoc fresh,len_append,len_newline,← f.batch]
      exact .inl small
  all := by rw [← List.append_assoc,f.all]
  inhabited := by
    refine List.forall_mem_append.mpr ⟨f.inhabited,?_⟩
    simpa using nonempty

theorem send (f : Filling lines s groups pending) (begun : s.batch ≠ []) {sendTo : Nat → Except String Unit}
    (sends : ∀ i, sendTo i = .ok ()) :
    s.send sendTo = .ok ⟨[],s.sent ++ [s.batch]⟩ ∧
      Filling lines ⟨[],s.sent ++ [s.batch]⟩ (groups ++ [pending]) [] := by
  refine ⟨by rw [Batching.send,sends],?_⟩
  have filled := f.filled (mt f.batch_eq_nil.mpr begun)
  exact {
    sent := by simp [f.sent,f.batch]
    batch := rfl
    packed := List.forall_mem_append.mpr ⟨f.packed,List.forall_mem_singleton.mpr filled⟩
    filled := fun begun => absurd rfl begun
    all := by simp [f.all]
    inhabited := f.inhabited }

/-- The loop leaves all the lines in packets. -/
theorem batches {sendTo : Nat → Except String Unit} (sends : ∀ i, sendTo i = .ok ()) {rest : List Text}
    (f : Filling lines s groups pending) (inhabited : ∀ m ∈ rest, m ≠ []) :
    ∃ t groups, batches sendTo s rest = (t,.ok ()) ∧ Filling (lines ++ rest) t groups [] := by
  induction rest generalizing lines s groups pending with
  | nil =>
    rw [Statsd.batches,List.append_nil]
    split
    next empty =>
      obtain rfl := f.batch_eq_nil.mp empty
      exact ⟨s,groups,rfl,f⟩
    next begun =>
      obtain ⟨sent,after⟩ := f.send begun sends
      exact ⟨_,_,by rw [sent],after⟩
  | cons m rest ih =>
    obtain ⟨here,later⟩ := List.forall_mem_cons.mp inhabited
    rw [Statsd.batches,← List.singleton_append,← List.append_assoc]
    split
    next full =>
      obtain ⟨sent,after⟩ := f.send full.1 sends
      rw [sent]
      exact ih (after.push here fun begun => absurd rfl begun) later
    next room =>
      refine ih (f.push here fun begun => ?_) later
      have small := not_and.mp room begun
      omega

end Filling

variable {alphanumeric : Char → Bool} {report : ReportStats}

/-- **When every send succeeds, the packets hold the lines of the report in their order, each
packet is one line or within the limit, and no name has a character that the format gives a
meaning.** -/
theorem export_packets (ascii : ∀ c, c.toNat < 128 → alphanumeric c = c.isAlphanum)
    {sendTo : Nat → Except String Unit} (sends : ∀ i, sendTo i = .ok ()) (exporter : StatsdExporter)
    (prefixed : '\n' ∉ exporter.namePrefix) (order : Listing report) :
    let metrics := buildMetrics alphanumeric exporter order
    ∃ packets, exportReport sendTo alphanumeric (.ok ()) exporter order = (packets,.ok ()) ∧
      packets.flatMap (·.splitOn '\n') = metrics ∧
      (∀ packet ∈ packets, packet ≠ [] ∧ (len packet ≤ maxPacketSize ∨ packet ∈ metrics)) ∧
      ∀ name, ∀ c ∈ sanitizeMetricName alphanumeric name, c ∉ [':','|','#',',','\n'] := by
  intro metrics
  have inhabited : ∀ m ∈ metrics, m ≠ [] := buildMetrics_ne_nil alphanumeric exporter order
  have oneLine : ∀ m ∈ metrics, '\n' ∉ m := buildMetrics_oneLine ascii prefixed order
  have fresh : Filling [] ⟨[],[]⟩ [] [] := ⟨rfl,rfl,by simp,by simp,rfl,by simp⟩
  obtain ⟨t,groups,sent,after⟩ := fresh.batches sends inhabited
  have all : groups.flatten = metrics := by simpa using after.all
  have inside {group : List Text} (member : group ∈ groups) {m : Text} (line : m ∈ group) : m ∈ metrics :=
    all ▸ List.mem_flatten_of_mem member line
  refine ⟨t.sent,by rw [exportReport,sent],?_,?_,fun name => sanitizeMetricName_free ascii name⟩
  · rw [after.sent,List.flatMap_map,← all,List.flatten_eq_flatMap]
    refine List.flatMap_congr fun group member => ?_
    exact List.splitOn_intercalate '\n' (fun m line => oneLine m (inside member line)) (after.packed group member).some
  · rw [after.sent]
    refine List.forall_mem_map.mpr fun group member => ?_
    have packed := after.packed group member
    refine ⟨mt (joined_eq_nil fun m line => inhabited m (inside member line)).mp packed.some,?_⟩
    refine packed.fits.imp_right fun ⟨m,alone⟩ => ?_
    subst alone
    simpa [joined,List.intercalate] using inside member (List.mem_singleton_self m)

def shopRequests : RequestReport := ⟨7,20,90,45,80,88,1,0,1,2,0,40,2,512⟩

/-- A report with more lines than fit in a packet, and names that the format would misread. -/
def shopReport : ReportStats :=
  { ReportStats.default with
    totalRequests := 14
    totalDurationMs := 630
    errors := Finmap.singleton "Timeout: read|write" 2
    groupedRequests := (Finmap.singleton "POST http://shop:80/cart#top" shopRequests).insert "GET /a|b,c" shopRequests
    histograms := Finmap.singleton "cart:size|max" ⟨9/2,1,9,8,9,9,14⟩
    rates := Finmap.singleton "paid\nin full" ⟨7,3,3/7⟩ }

def shopListing : Listing shopReport where
  statusCodes := []
  errors := [("Timeout: read|write",2)]
  checks := []
  groupedRequests := [("GET /a|b,c",shopRequests),("POST http://shop:80/cart#top",shopRequests)]
  histograms := [("cart:size|max",⟨9/2,1,9,8,9,9,14⟩)]
  rates := [("paid\nin full",⟨7,3,3/7⟩)]
  counters := []
  gauges := []
  statusCodes_lists := rfl
  errors_lists := rfl
  checks_lists := rfl
  groupedRequests_lists := rfl
  histograms_lists := rfl
  rates_lists := rfl
  counters_lists := rfl
  gauges_lists := rfl

theorem shop_packets :
    let exporter := StatsdExporter.withPrefix "localhost" "shop".toList
    let metrics := buildMetrics Char.isAlphanum exporter shopListing
    ∃ packets, exportReport (fun _ => .ok ()) Char.isAlphanum (.ok ()) exporter shopListing = (packets,.ok ()) ∧
      packets.length = 2 ∧ packets.flatMap (·.splitOn '\n') = metrics ∧
      (∀ packet ∈ packets, packet ≠ [] ∧ (len packet ≤ maxPacketSize ∨ packet ∈ metrics)) ∧
      "shop.http.errors.by_type:2|c|#error:Timeout__read_write".toList ∈ metrics := by
  intro exporter metrics
  obtain ⟨packets,exported,lines,each,-⟩ :=
    export_packets (fun _ _ => rfl) (fun _ => rfl) exporter (by decide) shopListing
  have two : (exportReport (fun _ => .ok ()) Char.isAlphanum (.ok ()) exporter shopListing).1.length = 2 := by
    decide +kernel
  rw [exported] at two
  exact ⟨packets,exported,two,lines,each,by decide +kernel⟩

end Fusillade.Stats.Statsd
