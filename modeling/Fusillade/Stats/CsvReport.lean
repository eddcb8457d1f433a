import Fusillade.Stats.Report
import Fusillade.Lib.Csv
import Fusillade.Lib.Decimal
import Fusillade.Bridge.SharedCsv

/-! The CSV export of a report. A name is escaped on its own, and in half of the lines it is
then only a part of the first field. -/
namespace Fusillade.Stats

open FiniteMap

abbrev Text := List Char

def csvEscape (value : Text) : Text :=
  if ',' ∈ value ∨ '"' ∈ value ∨ '\n' ∈ value ∨ '\r' ∈ value then '"' :: (Csv.doubled value ++ ['"'])
  else value

/-- The orders in which the maps of a report are iterated. -/
structure Listing (report : ReportStats) where
  statusCodes : List (UInt16 × Nat)
  errors : List (String × Nat)
  checks : List (String × Nat × Nat)
  groupedRequests : List (String × RequestReport)
  histograms : List (String × HistogramReport)
  rates : List (String × RateReport)
  counters : List (String × ℚ)
  gauges : List (String × ℚ)
  statusCodes_lists : Lists report.statusCodes statusCodes
  errors_lists : Lists report.errors errors
  checks_lists : Lists report.checks checks
  groupedRequests_lists : Lists report.groupedRequests groupedRequests
  histograms_lists : Lists report.histograms histograms
  rates_lists : Lists report.rates rates
  counters_lists : Lists report.counters counters
  gauges_lists : Lists report.gauges gauges

/-- The difference of two `usize` numbers, which wraps. -/
def wrappingSub (a b : Nat) : Nat := (a + (2^64 - b % 2^64)) % 2^64

/-- `name.replace([' ', ':'], "_")` -/
def checkName (name : String) : Text := name.toList.map fun c => if c = ' ' ∨ c = ':' then '_' else c

section

open Decimal (nat fixed display)

variable (report : ReportStats) (order : Listing report)

def globalLines : Text :=
  List.flatten [
    "http_req_count,counter,".toList ++ nat report.totalRequests ++ ['\n'],
    "http_req_duration_avg,gauge,".toList ++ fixed 3 report.avgLatencyMs ++ ['\n'],
    "http_req_duration_min,gauge,".toList ++ nat report.minLatencyMs ++ ['\n'],
    "http_req_duration_max,gauge,".toList ++ nat report.maxLatencyMs ++ ['\n'],
    "http_req_duration_p50,gauge,".toList ++ fixed 3 report.p50LatencyMs ++ ['\n'],
    "http_req_duration_p90,gauge,".toList ++ fixed 3 report.p90LatencyMs ++ ['\n'],
    "http_req_duration_p95,gauge,".toList ++ fixed 3 report.p95LatencyMs ++ ['\n'],
    "http_req_duration_p99,gauge,".toList ++ fixed 3 report.p99LatencyMs ++ ['\n']]

def checkLines (name : String) (total passes : Nat) : Text :=
  let safeName := csvEscape (checkName name)
  "check_".toList ++ safeName ++ "_passed,counter,".toList ++ nat passes ++ ['\n'] ++
  "check_".toList ++ safeName ++ "_failed,counter,".toList ++ nat (wrappingSub total passes) ++ ['\n']

def histogramLines (name : String) (hist : HistogramReport) : Text :=
  let safe := csvEscape name.toList
  safe ++ "_count,counter,".toList ++ nat hist.count ++ ['\n'] ++
  safe ++ "_avg,gauge,".toList ++ fixed 3 hist.avg ++ ['\n'] ++
  safe ++ "_p95,gauge,".toList ++ fixed 3 hist.p95 ++ ['\n']

def generateCsv : Text :=
  "metric_name,metric_type,value\n".toList ++
  (globalLines report ++
  (order.statusCodes.flatMap fun (code,count) =>
    "http_req_status_".toList ++ nat code.toNat ++ ",counter,".toList ++ nat count ++ ['\n']) ++
  (order.checks.flatMap fun (name,total,passes) => checkLines name total passes) ++
  (order.histograms.flatMap fun (name,hist) => histogramLines name hist) ++
  (order.counters.flatMap fun (name,value) =>
    csvEscape name.toList ++ ",counter,".toList ++ display value ++ ['\n']) ++
  order.rates.flatMap fun (name,rate) =>
    csvEscape name.toList ++ "_rate,gauge,".toList ++ fixed 4 rate.rate ++ ['\n'])

end

/-- A line of the export: the name between the texts before and after it, then type and value. -/
structure Entry where
  before : Text
  name : Text
  after : Text
  type : Text
  value : Text

namespace Entry

def line (e : Entry) : Text :=
  e.before ++ csvEscape e.name ++ e.after ++ ',' :: e.type ++ ',' :: e.value ++ ['\n']

def record (e : Entry) : List Text := [e.before ++ e.name ++ e.after,e.type,e.value]

end Entry

section

open Decimal (nat fixed display)

variable {report : ReportStats} (order : Listing report)

def globalEntries (report : ReportStats) : List Entry :=
  [⟨[],"http_req_count".toList,[],"counter".toList,nat report.totalRequests⟩,
    ⟨[],"http_req_duration_avg".toList,[],"gauge".toList,fixed 3 report.avgLatencyMs⟩,
    ⟨[],"http_req_duration_min".toList,[],"gauge".toList,nat report.minLatencyMs⟩,
    ⟨[],"http_req_duration_max".toList,[],"gauge".toList,nat report.maxLatencyMs⟩,
    ⟨[],"http_req_duration_p50".toList,[],"gauge".toList,fixed 3 report.p50LatencyMs⟩,
    ⟨[],"http_req_duration_p90".toList,[],"gauge".toList,fixed 3 report.p90LatencyMs⟩,
    ⟨[],"http_req_duration_p95".toList,[],"gauge".toList,fixed 3 report.p95LatencyMs⟩,
    ⟨[],"http_req_duration_p99".toList,[],"gauge".toList,fixed 3 report.p99LatencyMs⟩]

def Listing.statusEntries : List Entry :=
  order.statusCodes.map fun (code,count) =>
    ⟨"http_req_status_".toList,nat code.toNat,[],"counter".toList,nat count⟩

def Listing.checkEntries : List Entry :=
  order.checks.flatMap fun (name,total,passes) =>
    [⟨"check_".toList,checkName name,"_passed".toList,"counter".toList,nat passes⟩,
      ⟨"check_".toList,checkName name,"_failed".toList,"counter".toList,nat (wrappingSub total passes)⟩]

def Listing.histogramEntries : List Entry :=
  order.histograms.flatMap fun (name,hist) =>
    [⟨[],name.toList,"_count".toList,"counter".toList,nat hist.count⟩,
      ⟨[],name.toList,"_avg".toList,"gauge".toList,fixed 3 hist.avg⟩,
      ⟨[],name.toList,"_p95".toList,"gauge".toList,fixed 3 hist.p95⟩]

def Listing.counterEntries : List Entry :=
  order.counters.map fun (name,value) => ⟨[],name.toList,[],"counter".toList,display value⟩

def Listing.rateEntries : List Entry :=
  order.rates.map fun (name,rate) => ⟨[],name.toList,"_rate".toList,"gauge".toList,fixed 4 rate.rate⟩

/-- What the export has to say about the report, each entry of its maps once. -/
def Listing.entries : List Entry :=
  globalEntries report ++ order.statusEntries ++ order.checkEntries ++ order.histogramEntries ++
    order.counterEntries ++ order.rateEntries

def header : List Text := ["metric_name".toList,"metric_type".toList,"value".toList]

end

/-- The names that are only a part of their field have no separator and no quote. -/
structure PlainNames (report : ReportStats) : Prop where
  checks : ∀ name ∈ report.checks, Csv.Plain name.toList
  histograms : ∀ name ∈ report.histograms, Csv.Plain name.toList
  rates : ∀ name ∈ report.rates, Csv.Plain name.toList

variable {value rest : Text} {fields : List Text}

theorem csvEscape_plain (plain : Csv.Plain value) : csvEscape value = value := by
  have outside {c : Char} (special : c ∈ [',','"','\n','\r']) : c ∉ value := fun member => plain c member special
  simp [csvEscape,outside]

theorem csvEscape_special (special : ¬Csv.Plain value) : csvEscape value = '"' :: (Csv.doubled value ++ ['"']) := by
  simp only [Csv.Plain,not_forall,not_not] at special
  obtain ⟨c,member,listed⟩ := special
  refine if_pos ?_
  simp only [List.mem_cons,List.not_mem_nil,or_false] at listed
  rcases listed with rfl | rfl | rfl | rfl <;> simp [member]

theorem csvEscape_field (value : Text) : Csv.Reader.Field value (csvEscape value) := by
  by_cases plain : Csv.Plain value
  · rw [csvEscape_plain plain]
    exact Csv.Reader.field_plain plain
  · rw [csvEscape_special plain]
    exact Csv.Reader.field_quoted value

section

open Bridge.Data

theorem parseFields_plain (plain : Csv.Plain value) (current : Text) :
    parseFields fields current false (value ++ rest) = parseFields fields (current ++ value) false rest := by
  induction value generalizing current with
  | nil => rw [List.nil_append,List.append_nil]
  | cons c value ih =>
    obtain ⟨here,later⟩ := List.forall_mem_cons.mp plain
    simp only [List.mem_cons,not_or] at here
    rw [List.cons_append,parseFields,ih later,List.append_assoc]
    · rfl
    · exact here.1
    · exact here.2.1

theorem parseFields_csvEscape (ends : rest.head? ≠ some '"') (fields : List Text) (value : Text) :
    parseFields fields [] false (csvEscape value ++ rest) = parseFields fields value false rest := by
  by_cases plain : Csv.Plain value
  · rw [csvEscape_plain plain,parseFields_plain plain,List.nil_append]
  · rw [csvEscape_special plain]
    exact parseFields_quoted ends fields value

theorem parseFields_joined (parsed : List Text) (nonempty : fields ≠ []) :
    parseFields parsed [] false (List.intercalate [','] (fields.map csvEscape)) =
      parsed ++ fields.map Utils.trim := by
  induction fields generalizing parsed with
  | nil => exact absurd rfl nonempty
  | cons value fields ih =>
    cases fields with
    | nil =>
      have alone : List.intercalate [','] ([value].map csvEscape) = csvEscape value ++ [] := by
        simp [List.intercalate]
      rw [alone,parseFields_csvEscape (by simp),parseFields]
      rfl
    | cons next fields =>
      have joined : List.intercalate [','] ((value :: next :: fields).map csvEscape) =
          csvEscape value ++ ',' :: List.intercalate [','] ((next :: fields).map csvEscape) := by
        simp [List.intercalate]
      rw [joined,parseFields_csvEscape (by simp),parseFields,ih _ (by simp),List.append_assoc]
      rfl

/-- **Fields that are escaped and joined with commas are parsed back, each one trimmed.** -/
theorem parseCsvLine_joined (nonempty : fields ≠ []) :
    parseCsvLine (List.intercalate [','] (fields.map csvEscape)) = fields.map Utils.trim :=
  parseFields_joined [] nonempty

theorem parseCsvLine_two_fields :
    parseCsvLine (List.intercalate [','] (["a \"b\", c ".toList,"\n".toList].map csvEscape)) =
      ["a \"b\", c ".toList,"\n".toList].map Utils.trim := by
  exact parseCsvLine_joined (by decide)

end

namespace Entry

/-- The name makes up the whole field, or has nothing in it that the field would have to quote. -/
def Whole (e : Entry) : Prop := Csv.Plain e.name ∨ e.before = [] ∧ e.after = []

/-- What the program writes itself needs no quotes. -/
structure Clean (e : Entry) : Prop where
  before : Csv.Plain e.before
  after : Csv.Plain e.after
  type : Csv.Plain e.type
  value : Csv.Plain e.value

variable {e : Entry}

theorem plain_append {a b : Text} (first : Csv.Plain a) (second : Csv.Plain b) : Csv.Plain (a ++ b) :=
  List.forall_mem_append.mpr ⟨first,second⟩

theorem Whole.field (whole : e.Whole) (clean : e.Clean) :
    Csv.Reader.Field (e.before ++ e.name ++ e.after) (e.before ++ csvEscape e.name ++ e.after) := by
  rcases whole with plain | ⟨before,after⟩
  · rw [csvEscape_plain plain]
    exact Csv.Reader.field_plain (plain_append (plain_append clean.before plain) clean.after)
  · rw [before,after,List.nil_append,List.nil_append,List.append_nil,List.append_nil]
    exact csvEscape_field e.name

open Csv Csv.Reader in
theorem run_line (whole : e.Whole) (clean : e.Clean) (records : List (List Text)) (rest : Text) :
    ({ records := records } : Reader).run (e.line ++ rest) =
      ({ records := records ++ [e.record] } : Reader).run rest := by
  have shape : e.line ++ rest =
      (e.before ++ csvEscape e.name ++ e.after) ++ ',' :: (e.type ++ ',' :: (e.value ++ '\n' :: rest)) := by
    simp [line]
  rw [shape,(whole.field clean).comma rfl rfl,(field_plain clean.type).comma rfl rfl,
    (field_plain clean.value).newline rfl rfl]
  rfl

open Csv Csv.Reader in
theorem run_line_none (part : ¬e.Whole) (clean : e.Clean) (records : List (List Text)) (rest : Text) :
    ({ records := records } : Reader).run (e.line ++ rest) = none := by
  obtain ⟨special,affix⟩ := not_or.mp part
  have shape : e.line ++ rest = e.before ++ ('"' :: (doubled e.name ++ ['"'])) ++
      (e.after ++ ',' :: (e.type ++ ',' :: (e.value ++ '\n' :: rest))) := by
    simp [line,csvEscape_special special]
  rw [shape]
  by_cases first : e.before = []
  · obtain ⟨c,after,split⟩ := List.exists_cons_of_ne_nil fun last => affix ⟨first,last⟩
    have plain : Plain [c] := by
      have all := clean.after
      rw [split] at all
      exact List.forall_mem_singleton.mpr (List.forall_mem_cons.mp all).1
    rw [first,split,List.nil_append,run_append,run_quoted rfl,Option.bind_some]
    exact run_quote_plain rfl plain _
  · rw [List.append_assoc,run_append,run_plain clean.before (.inl rfl) first,Option.bind_some]
    exact run_bare_quote rfl _

theorem run_lines (entries : List Entry) (clean : ∀ e ∈ entries, e.Clean) (records : List (List Text)) :
    (∀ e ∈ entries, e.Whole) ∧
        ({ records := records } : Csv.Reader).run (entries.flatMap line) =
          some { records := records ++ entries.map record } ∨
      (∃ e ∈ entries, ¬e.Whole) ∧ ({ records := records } : Csv.Reader).run (entries.flatMap line) = none := by
  induction entries generalizing records with
  | nil =>
    refine .inl ⟨by simp,?_⟩
    simp [Csv.Reader.run]
  | cons e entries ih =>
    obtain ⟨here,later⟩ := List.forall_mem_cons.mp clean
    rw [List.flatMap_cons]
    by_cases whole : e.Whole
    · rw [run_line whole here]
      rcases ih later (records ++ [e.record]) with ⟨all,read⟩ | ⟨⟨bad,member,part⟩,stuck⟩
      · refine .inl ⟨List.forall_mem_cons.mpr ⟨whole,all⟩,?_⟩
        rw [read,List.map_cons,List.append_assoc]
        rfl
      · exact .inr ⟨⟨bad,List.mem_cons_of_mem _ member,part⟩,stuck⟩
    · exact .inr ⟨⟨e,List.mem_cons_self,whole⟩,run_line_none whole here _ _⟩

end Entry

section

variable {report : ReportStats} (order : Listing report)

theorem plain_numeric (numeric : ∀ c ∈ value, Decimal.Numeric c) : Csv.Plain value := by
  intro c member special
  have shown := numeric c member
  simp only [List.mem_cons,List.not_mem_nil,or_false] at special
  rcases special with rfl | rfl | rfl | rfl <;> exact absurd shown (by decide)

section

variable {before name after type : Text}

theorem Entry.clean (first : Csv.Plain before) (last : Csv.Plain after) (typed : Csv.Plain type)
    (shown : ∀ c ∈ value, Decimal.Numeric c) : Entry.Clean ⟨before,name,after,type,value⟩ :=
  ⟨first,last,typed,plain_numeric shown⟩

theorem Entry.clean_counter (first : Csv.Plain before) (last : Csv.Plain after) (n : Nat) :
    Entry.Clean ⟨before,name,after,"counter".toList,Decimal.nat n⟩ :=
  Entry.clean first last (by decide) (Decimal.nat_numeric n)

theorem Entry.clean_gauge (first : Csv.Plain before) (last : Csv.Plain after) (digits : Nat) (q : ℚ) :
    Entry.Clean ⟨before,name,after,"gauge".toList,Decimal.fixed digits q⟩ :=
  Entry.clean first last (by decide) (Decimal.fixed_numeric digits q)

end

theorem globalEntries_clean (report : ReportStats) : ∀ e ∈ globalEntries report, e.Clean := by
  have noText : Csv.Plain [] := by decide
  have counted (name : Text) (n : Nat) : Entry.Clean ⟨[],name,[],"counter".toList,Decimal.nat n⟩ :=
    Entry.clean_counter noText noText n
  have gauged (name : Text) (q : ℚ) : Entry.Clean ⟨[],name,[],"gauge".toList,Decimal.fixed 3 q⟩ :=
    Entry.clean_gauge noText noText 3 q
  have whole (name : Text) (n : Nat) : Entry.Clean ⟨[],name,[],"gauge".toList,Decimal.nat n⟩ :=
    Entry.clean noText noText (by decide) (Decimal.nat_numeric n)
  simp only [globalEntries,List.forall_mem_cons]
  exact ⟨counted _ _,gauged _ _,whole _ _,whole _ _,gauged _ _,gauged _ _,gauged _ _,gauged _ _,by simp⟩

theorem Listing.checkEntries_clean : ∀ e ∈ order.checkEntries, e.Clean := by
  refine List.forall_mem_flatMap.mpr fun ⟨name,total,passes⟩ _ => ?_
  simp only [List.forall_mem_cons]
  exact ⟨Entry.clean_counter (by decide) (by decide) _,Entry.clean_counter (by decide) (by decide) _,by simp⟩

theorem Listing.histogramEntries_clean : ∀ e ∈ order.histogramEntries, e.Clean := by
  refine List.forall_mem_flatMap.mpr fun ⟨name,hist⟩ _ => ?_
  simp only [List.forall_mem_cons]
  exact ⟨Entry.clean_counter (by decide) (by decide) _,Entry.clean_gauge (by decide) (by decide) _ _,
    Entry.clean_gauge (by decide) (by decide) _ _,by simp⟩

theorem Listing.entries_clean : ∀ e ∈ order.entries, e.Clean := by
  have statuses : ∀ e ∈ order.statusEntries, e.Clean :=
    List.forall_mem_map.mpr fun _ _ => Entry.clean_counter (by decide) (by decide) _
  have counters : ∀ e ∈ order.counterEntries, e.Clean :=
    List.forall_mem_map.mpr fun _ _ =>
      Entry.clean (by decide) (by decide) (by decide) (Decimal.display_numeric _)
  have rates : ∀ e ∈ order.rateEntries, e.Clean :=
    List.forall_mem_map.mpr fun _ _ => Entry.clean_gauge (by decide) (by decide) _ _
  simp only [Listing.entries,List.forall_mem_append]
  exact ⟨⟨⟨⟨⟨globalEntries_clean report,statuses⟩,order.checkEntries_clean⟩,order.histogramEntries_clean⟩,
    counters⟩,rates⟩

theorem plain_checkName (name : String) : Csv.Plain (checkName name) ↔ Csv.Plain name.toList := by
  simp only [Csv.Plain,checkName,List.forall_mem_map]
  refine forall₂_congr fun c _ => ?_
  split
  next replaced => rcases replaced with rfl | rfl <;> decide
  next => rfl

theorem Listing.whole_iff : (∀ e ∈ order.entries, e.Whole) ↔ PlainNames report := by
  have own : ∀ e ∈ globalEntries report, e.Whole := by simp [globalEntries,Entry.Whole]
  have statuses : ∀ e ∈ order.statusEntries, e.Whole :=
    List.forall_mem_map.mpr fun ⟨code,_⟩ _ => .inl (plain_numeric (Decimal.nat_numeric code.toNat))
  have checks : (∀ e ∈ order.checkEntries, e.Whole) ↔ ∀ name ∈ report.checks, Csv.Plain name.toList := by
    rw [order.checks_lists.forall_keys,Listing.checkEntries,List.forall_mem_flatMap]
    simp [Entry.Whole,plain_checkName]
  have histograms : (∀ e ∈ order.histogramEntries, e.Whole) ↔ ∀ name ∈ report.histograms, Csv.Plain name.toList := by
    rw [order.histograms_lists.forall_keys,Listing.histogramEntries,List.forall_mem_flatMap]
    simp [Entry.Whole]
  have counters : ∀ e ∈ order.counterEntries, e.Whole := List.forall_mem_map.mpr fun _ _ => .inr ⟨rfl,rfl⟩
  have rates : (∀ e ∈ order.rateEntries, e.Whole) ↔ ∀ name ∈ report.rates, Csv.Plain name.toList := by
    rw [order.rates_lists.forall_keys,Listing.rateEntries,List.forall_mem_map]
    simp [Entry.Whole]
  simp only [Listing.entries,List.forall_mem_append,checks,histograms,rates]
  exact ⟨fun ⟨⟨⟨⟨_,checks⟩,histograms⟩,_⟩,rates⟩ => ⟨checks,histograms,rates⟩,
    fun plain => ⟨⟨⟨⟨⟨own,statuses⟩,plain.checks⟩,plain.histograms⟩,counters⟩,plain.rates⟩⟩

theorem Entry.line_joined (e : Entry) {tail : Text} (joined : tail = e.after ++ ',' :: e.type ++ [',']) :
    e.line = e.before ++ csvEscape e.name ++ tail ++ e.value ++ ['\n'] := by
  simp [line,joined]

theorem Entry.line_own {name type start : Text} (plain : Csv.Plain name)
    (joined : start = name ++ ',' :: type ++ [',']) (value : Text) :
    Entry.line ⟨[],name,[],type,value⟩ = start ++ value ++ ['\n'] := by
  simp [line,csvEscape_plain plain,joined]

theorem flatten_line {text : Text} {texts : List Text} {e : Entry} {entries : List Entry} (here : e.line = text)
    (later : texts.flatten = entries.flatMap Entry.line) :
    (text :: texts).flatten = (e :: entries).flatMap Entry.line := by
  rw [List.flatten_cons,List.flatMap_cons,here,later]

theorem globalLines_eq (report : ReportStats) : globalLines report = (globalEntries report).flatMap Entry.line := by
  unfold globalLines globalEntries
  iterate 8 refine flatten_line (Entry.line_own (by decide +kernel) (by decide +kernel) _) ?_
  rfl

theorem checkLines_eq (name : String) (total passes : Nat) :
    checkLines name total passes =
      ([⟨"check_".toList,checkName name,"_passed".toList,"counter".toList,Decimal.nat passes⟩,
        ⟨"check_".toList,checkName name,"_failed".toList,"counter".toList,
          Decimal.nat (wrappingSub total passes)⟩] : List Entry).flatMap Entry.line := by
  have passed : "_passed,counter,".toList = "_passed".toList ++ ',' :: "counter".toList ++ [','] := rfl
  have failed : "_failed,counter,".toList = "_failed".toList ++ ',' :: "counter".toList ++ [','] := rfl
  unfold checkLines
  generalize wrappingSub total passes = failures
  rw [List.flatMap_cons,List.flatMap_singleton,Entry.line_joined _ passed,Entry.line_joined _ failed]
  simp only [List.append_assoc]

theorem histogramLines_eq (name : String) (hist : HistogramReport) :
    histogramLines name hist =
      ([⟨[],name.toList,"_count".toList,"counter".toList,Decimal.nat hist.count⟩,
        ⟨[],name.toList,"_avg".toList,"gauge".toList,Decimal.fixed 3 hist.avg⟩,
        ⟨[],name.toList,"_p95".toList,"gauge".toList,Decimal.fixed 3 hist.p95⟩] : List Entry).flatMap Entry.line := by
  have count : "_count,counter,".toList = "_count".toList ++ ',' :: "counter".toList ++ [','] := rfl
  have avg : "_avg,gauge,".toList = "_avg".toList ++ ',' :: "gauge".toList ++ [','] := rfl
  have p95 : "_p95,gauge,".toList = "_p95".toList ++ ',' :: "gauge".toList ++ [','] := rfl
  rw [List.flatMap_cons,List.flatMap_cons,List.flatMap_singleton,Entry.line_joined _ count,
    Entry.line_joined _ avg,Entry.line_joined _ p95]
  simp only [histogramLines,List.nil_append,List.append_assoc]

theorem generateCsv_eq :
    generateCsv report order = "metric_name,metric_type,value\n".toList ++ order.entries.flatMap Entry.line := by
  have statuses : order.statusEntries.flatMap Entry.line = order.statusCodes.flatMap fun (code,count) =>
      "http_req_status_".toList ++ Decimal.nat code.toNat ++ ",counter,".toList ++ Decimal.nat count ++ ['\n'] := by
    rw [Listing.statusEntries,List.flatMap_map]
    refine List.flatMap_congr fun ⟨code,count⟩ _ => ?_
    rw [Entry.line_joined _ (rfl : ",counter,".toList = _),csvEscape_plain (plain_numeric (Decimal.nat_numeric _))]
  have checks : order.checkEntries.flatMap Entry.line =
      order.checks.flatMap fun (name,total,passes) => checkLines name total passes := by
    rw [Listing.checkEntries,List.flatMap_assoc]
    exact List.flatMap_congr fun ⟨name,total,passes⟩ _ => (checkLines_eq name total passes).symm
  have histograms : order.histogramEntries.flatMap Entry.line =
      order.histograms.flatMap fun (name,hist) => histogramLines name hist := by
    rw [Listing.histogramEntries,List.flatMap_assoc]
    exact List.flatMap_congr fun ⟨name,hist⟩ _ => (histogramLines_eq name hist).symm
  have counters : order.counterEntries.flatMap Entry.line = order.counters.flatMap fun (name,value) =>
      csvEscape name.toList ++ ",counter,".toList ++ Decimal.display value ++ ['\n'] := by
    rw [Listing.counterEntries,List.flatMap_map]
    exact List.flatMap_congr fun ⟨name,value⟩ _ => Entry.line_joined _ rfl
  have rates : order.rateEntries.flatMap Entry.line = order.rates.flatMap fun (name,rate) =>
      csvEscape name.toList ++ "_rate,gauge,".toList ++ Decimal.fixed 4 rate.rate ++ ['\n'] := by
    rw [Listing.rateEntries,List.flatMap_map]
    exact List.flatMap_congr fun ⟨name,rate⟩ _ => Entry.line_joined _ rfl
  rw [Listing.entries,List.flatMap_append,List.flatMap_append,List.flatMap_append,List.flatMap_append,
    List.flatMap_append,← globalLines_eq,statuses,checks,histograms,counters,rates]
  rfl

theorem read_generateCsv :
    Csv.read (generateCsv report order) = some (header :: order.entries.map Entry.record) ↔ PlainNames report := by
  have opened : ({} : Csv.Reader).run "metric_name,metric_type,value\n".toList = some { records := [header] } := by
    decide
  rw [← order.whole_iff,Csv.read,generateCsv_eq,Csv.Reader.run_append,opened,Option.bind_some]
  rcases Entry.run_lines order.entries order.entries_clean [header] with ⟨whole,read⟩ | ⟨⟨e,member,part⟩,stuck⟩
  · exact iff_of_true (by rw [read]; rfl) whole
  · exact iff_of_false (by rw [stuck]; exact nofun) fun whole => part (whole e member)

end

theorem Listing.exists_listing (report : ReportStats) : Nonempty (Listing report) := by
  obtain ⟨statusCodes,statusCodes_lists⟩ := exists_lists report.statusCodes
  obtain ⟨errors,errors_lists⟩ := exists_lists report.errors
  obtain ⟨checks,checks_lists⟩ := exists_lists report.checks
  obtain ⟨groupedRequests,groupedRequests_lists⟩ := exists_lists report.groupedRequests
  obtain ⟨histograms,histograms_lists⟩ := exists_lists report.histograms
  obtain ⟨rates,rates_lists⟩ := exists_lists report.rates
  obtain ⟨counters,counters_lists⟩ := exists_lists report.counters
  obtain ⟨gauges,gauges_lists⟩ := exists_lists report.gauges
  exact ⟨⟨statusCodes,errors,checks,groupedRequests,histograms,rates,counters,gauges,statusCodes_lists,
    errors_lists,checks_lists,groupedRequests_lists,histograms_lists,rates_lists,counters_lists,gauges_lists⟩⟩

/-- The text is read as the header and, for every entry once, three fields with the name in the
first, in whatever order the maps are iterated. -/
def Faithful (report : ReportStats) : Prop :=
  ∀ order : Listing report,
    Csv.read (generateCsv report order) = some (header :: order.entries.map Entry.record)

/-- **The export of a report is well-formed CSV with a record for each entry exactly when no
name of a check, a histogram or a rate needs quotes.** -/
theorem generateCsv_faithful_iff (report : ReportStats) : Faithful report ↔ PlainNames report := by
  constructor
  · intro faithful
    obtain ⟨order⟩ := Listing.exists_listing report
    exact (read_generateCsv order).mp (faithful order)
  · exact fun plain order => (read_generateCsv order).mpr plain

/-- `ReportStats::default()` -/
def ReportStats.default : ReportStats where
  totalRequests := 0
  totalDurationMs := 0
  avgLatencyMs := 0
  minLatencyMs := 0
  maxLatencyMs := 0
  p50LatencyMs := 0
  p90LatencyMs := 0
  p95LatencyMs := 0
  p99LatencyMs := 0
  statusCodes := ∅
  errors := ∅
  checks := ∅
  groupedRequests := ∅
  totalDataSent := 0
  totalDataReceived := 0
  histograms := ∅
  rates := ∅
  counters := ∅
  gauges := ∅
  poolHits := 0
  poolMisses := 0
  failedIterations := 0

def commaReport : ReportStats :=
  { ReportStats.default with histograms := Finmap.singleton "a,b" ⟨1,1,1,1,1,1,1⟩ }

theorem commaReport_unreadable : ¬∀ report, Faithful report := by
  intro faithful
  obtain ⟨order⟩ := Listing.exists_listing commaReport
  have plain := ((read_generateCsv order).mp (faithful commaReport order)).histograms "a,b"
    ((Finmap.mem_singleton _ _ _).mpr rfl)
  exact absurd plain (by decide)

end Fusillade.Stats
