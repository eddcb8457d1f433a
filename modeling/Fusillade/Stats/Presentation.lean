import Fusillade.Stats.Report
import Fusillade.Stats.Invariants

/-! What the HTML report and the TUI snapshot make of a report: the success rate, and which
groups they take for endpoints. Each tells iterations from requests by a test of its own on
the key of the group, where the aggregator tests the name of the metric. -/
namespace Fusillade.Stats

open FiniteMap

/-- The success rate of `generate_html`; none where the subtraction underflows. -/
def successRate (report : ReportStats) : Option ℚ :=
  if report.totalRequests > 0 then
    if report.totalErrors ≤ report.totalRequests then
      some (((report.totalRequests - report.totalErrors : Nat) : ℚ) / report.totalRequests * 100)
    else none
  else some 0

def isRealEndpoint (name : String) : Bool :=
  !endsWith name "iteration" && !endsWith name "iteration_total" && name != "iteration" &&
    name != "iteration_total"

/-- Without a request the page is another one, that has no table. -/
def htmlEndpoints (report : ReportStats) : Finset String :=
  if report.totalRequests = 0 then ∅
  else report.groupedRequests.keys.filter (isRealEndpoint ·)

def tuiEndpoints (report : ReportStats) : Finset String :=
  report.groupedRequests.keys.filter fun name => name != "iteration" && name != "iteration_total"

/-- An iteration goes unseen without tags and without a scenario; a request is seen unless its
bare name has the ending of an iteration. -/
def Told (name : String) (tags : HashMap String String) : Prop :=
  if isIteration name then tags = ∅ ∧ (name = "iteration" ∨ name = "iteration_total")
  else tags ≠ ∅ ∨ (endsWith name "iteration" = false ∧ endsWith name "iteration_total" = false)

theorem fullName_last {name : String} {tags : HashMap String String} (tagged : tags ≠ ∅) :
    (fullName name tags).toList.getLast? = some '\x7d' := by
  rw [fullName,if_neg tagged,String.toList_append,List.getLast?_append_of_ne_nil _ (by decide)]
  decide

theorem fullName_not_endsWith (name suffix : String) {tags : HashMap String String}
    (tagged : tags ≠ ∅) (nonempty : suffix.toList ≠ []) (last : suffix.toList.getLast? ≠ some '\x7d') :
    endsWith (fullName name tags) suffix = false := by
  by_contra ends
  have same := endsWith_last (Bool.not_eq_false _ ▸ ends) nonempty
  exact last (same.symm.trans (fullName_last tagged))

theorem fullName_ne (name other : String) {tags : HashMap String String} (tagged : tags ≠ ∅)
    (last : other.toList.getLast? ≠ some '\x7d') : fullName name tags ≠ other := by
  rintro rfl
  exact last (fullName_last tagged)

theorem fullName_untagged (name : String) : fullName name ∅ = name := by simp [fullName]

theorem endsWith_self (name : String) : endsWith name name = true := by simp [endsWith]

theorem isRealEndpoint_fullName (name : String) (tags : HashMap String String) :
    isRealEndpoint (fullName name tags) = true ↔
      tags ≠ ∅ ∨ (endsWith name "iteration" = false ∧ endsWith name "iteration_total" = false) := by
  by_cases tagged : tags = ∅
  · subst tagged
    rw [fullName_untagged]
    simp only [isRealEndpoint,Bool.and_eq_true,Bool.not_eq_true',bne_iff_ne,ne_eq,not_true,false_or]
    constructor
    · rintro ⟨⟨⟨iteration,total⟩,_⟩,_⟩
      exact ⟨iteration,total⟩
    · rintro ⟨iteration,total⟩
      refine ⟨⟨⟨iteration,total⟩,?_⟩,?_⟩
      · rintro rfl
        simp [endsWith_self] at iteration
      · rintro rfl
        simp [endsWith_self] at total
  · have iteration := fullName_not_endsWith name "iteration" tagged (by decide) (by decide)
    have total := fullName_not_endsWith name "iteration_total" tagged (by decide) (by decide)
    have notIteration := fullName_ne name "iteration" tagged (by decide)
    have notTotal := fullName_ne name "iteration_total" tagged (by decide)
    simp [isRealEndpoint,tagged,iteration,total,notIteration,notTotal]

theorem tui_fullName (name : String) (tags : HashMap String String) :
    (fullName name tags != "iteration" && fullName name tags != "iteration_total") = true ↔
      tags ≠ ∅ ∨ (name ≠ "iteration" ∧ name ≠ "iteration_total") := by
  by_cases tagged : tags = ∅
  · subst tagged
    simp [fullName_untagged]
  · have notIteration := fullName_ne name "iteration" tagged (by decide)
    have notTotal := fullName_ne name "iteration_total" tagged (by decide)
    simp [tagged,notIteration,notTotal]

section

variable (bucketOf : Nat → Option Nat) (reader : HistogramReader)

theorem add_request_totalRequests (a : StatsAggregator) (name : String) (timings : RequestTimings)
    (status : UInt16) (error : Option String) (tags : HashMap String String) :
    (a.add bucketOf (.request name timings status error tags)).totalRequests =
      a.totalRequests + if isIteration name then 0 else 1 := by
  have grown := congrArg Summary.totalRequests
    (StatsAggregator.add_summary bucketOf _ a (.request name timings status error tags) rfl)
  exact grown.trans (congrArg (a.totalRequests + ·) (StatsAggregator.weight_request_totalRequests ..))

theorem add_request_group (a : StatsAggregator) (tracked : a.noEndpointTracking = false)
    (name : String) (timings : RequestTimings) (status : UInt16) (error : Option String)
    (tags : HashMap String String) :
    fullName name tags ∈ ((a.add bucketOf (.request name timings status error tags)).toReport
      reader).groupedRequests.keys := by
  have grown := congrArg Summary.requests
    (StatsAggregator.add_summary bucketOf false a (.request name timings status error tags) tracked)
  have present : ((a.add bucketOf (.request name timings status error tags)).requests.lookup
      (fullName name tags)).isSome := by
    change ((a.add bucketOf (.request name timings status error tags)).summary.requests.lookup
      (fullName name tags)).isSome
    rw [grown,Summary.combine,lookup_mergeWith,StatsAggregator.weight_request_requests,
      if_neg (by decide),lookup_upsert,if_pos rfl,Option.isSome_merge]
    simp
  rw [Finmap.mem_keys,← Finmap.lookup_isSome,StatsAggregator.toReport,lookup_mapEntries,
    Option.isSome_map]
  exact present

/-- Both views show the group of a metric exactly when it was counted, on the names and the
tags that say so, and on no others. -/
theorem endpoint_shown_iff_counted (metrics : List Metric) (name : String)
    (timings : RequestTimings) (status : UInt16) (error : Option String)
    (tags : HashMap String String) :
    let before := StatsAggregator.addMetrics bucketOf false metrics
    let after := before.add bucketOf (.request name timings status error tags)
    ((fullName name tags ∈ htmlEndpoints (after.toReport reader) ↔
        after.totalRequests = before.totalRequests + 1) ∧
      (fullName name tags ∈ tuiEndpoints (after.toReport reader) ↔
        after.totalRequests = before.totalRequests + 1)) ↔ Told name tags := by
  intro before after
  have counted := add_request_totalRequests bucketOf before name timings status error tags
  have group := add_request_group bucketOf reader before
    (StatsAggregator.addMetrics_noEndpointTracking ..) name timings status error tags
  have html : fullName name tags ∈ htmlEndpoints (after.toReport reader) ↔
      after.totalRequests ≠ 0 ∧ isRealEndpoint (fullName name tags) = true := by
    change _ ↔ (after.toReport reader).totalRequests ≠ 0 ∧ _
    unfold htmlEndpoints
    split
    next none => simp [none]
    next some =>
      rw [Finset.mem_filter,and_iff_right group]
      exact (and_iff_right some).symm
  have tui : fullName name tags ∈ tuiEndpoints (after.toReport reader) ↔
      (fullName name tags != "iteration" && fullName name tags != "iteration_total") = true := by
    rw [tuiEndpoints,Finset.mem_filter]
    exact and_iff_right group
  rw [html,tui,isRealEndpoint_fullName,tui_fullName,Told,counted]
  cases isIter : isIteration name with
  | true =>
    simp only [if_true,Nat.add_zero,Nat.left_eq_add,one_ne_zero,iff_false]
    constructor
    · rintro ⟨_,hidden⟩
      push Not at hidden
      exact ⟨hidden.1,or_iff_not_imp_left.mpr hidden.2⟩
    · rintro ⟨rfl,rfl | rfl⟩ <;> simp [endsWith_self]
  | false =>
    have plain : name ≠ "iteration" ∧ name ≠ "iteration_total" := by
      constructor <;> rintro rfl <;> exact absurd isIter (by decide)
    simp [plain]

end

/-- The iterations of a scenario are rows of the TUI, and a URL that ends like one is none of
the HTML table. -/
theorem iteration_rows :
    let before := StatsAggregator.addMetrics hdrBucketOf false []
    let after := before.add hdrBucketOf (.request "checkout::iteration" {} 200 none ∅)
    let afterUrl := before.add hdrBucketOf (.request "https://api.test/iteration" {} 200 none ∅)
    ¬("checkout::iteration" ∈ tuiEndpoints (after.toReport hdrReader) ↔
        after.totalRequests = before.totalRequests + 1) ∧
      ¬("https://api.test/iteration" ∈ htmlEndpoints (afterUrl.toReport hdrReader) ↔
        afterUrl.totalRequests = before.totalRequests + 1) := by decide +kernel

end Fusillade.Stats
