import Fusillade.Stats.Presentation
import Fusillade.Lib.Separators

/-! The entries of `requests`: which of them a request metric is counted under, and what tracking
them changes. Names and tags go into a key as they are, with separators that they may contain. -/
namespace Fusillade.Stats

open FiniteMap Separators

section

variable (bucketOf : Nat → Option Nat)

/-- The metric is counted under the key. -/
def Files (a : StatsAggregator) (metric : Metric) (key : String) : Prop :=
  (a.add bucketOf metric).requests.lookup key ≠ a.requests.lookup key

def SameEntry (a : StatsAggregator) (metric other : Metric) : Prop :=
  ∀ key, Files bucketOf a metric key ↔ Files bucketOf a other key

end

/-- The text has characters of the set only. -/
def Over (letters : Set Char) (text : String) : Prop := ∀ c ∈ text.toList, c ∈ letters

def Spelled (inNames inTags : Set Char) (name : String) (tags : HashMap String String) : Prop :=
  Over inNames name ∧ ∀ key value, tags.lookup key = some value → Over inTags key ∧ Over inTags value

/-- Request metrics of some vocabulary share an entry exactly when name and tags are the same. -/
def FilesApart (bucketOf : Nat → Option Nat) (inNames inTags : Set Char) : Prop :=
  ∀ (a : StatsAggregator) (name other : String) (timings later : RequestTimings) (status code : UInt16)
    (error problem : Option String) (tags labels : HashMap String String),
    a.noEndpointTracking = false → Spelled inNames inTags name tags → Spelled inNames inTags other labels →
    (SameEntry bucketOf a (.request name timings status error tags) (.request other later code problem labels) ↔
      name = other ∧ tags = labels)

/-- Tags without the separators between them, and names from which the tags can be told. -/
def Unambiguous (inNames inTags : Set Char) : Prop :=
  ':' ∉ inTags ∧ ',' ∉ inTags ∧
    ('\x7b' ∉ inNames ∨ '\x7b' ∉ inTags ∧ ¬(':' ∈ inNames ∧ '\x7d' ∈ inNames))

section

variable {bucketOf : Nat → Option Nat} {a : StatsAggregator}

theorem files_request (tracked : a.noEndpointTracking = false) (name : String) (timings : RequestTimings)
    (status : UInt16) (error : Option String) (tags : HashMap String String) (key : String) :
    Files bucketOf a (.request name timings status error tags) key ↔ key = fullName name tags := by
  rw [Files,StatsAggregator.add_request_requests bucketOf tracked,lookup_upsert]
  split
  next same =>
    refine iff_of_true ?_ same
    rw [same]
    cases before : a.requests.lookup (fullName name tags) with
    | none => simp
    | some entry =>
      intro kept
      have counted := congrArg RequestStats.totalRequests (Option.some.inj kept)
      exact absurd counted (Nat.succ_ne_self _)
  next other => exact iff_of_false (fun changed => changed rfl) other

theorem sameEntry_iff (tracked : a.noEndpointTracking = false) (name other : String)
    (timings later : RequestTimings) (status code : UInt16) (error problem : Option String)
    (tags labels : HashMap String String) :
    SameEntry bucketOf a (.request name timings status error tags) (.request other later code problem labels) ↔
      fullName name tags = fullName other labels := by
  simp only [SameEntry,files_request tracked]
  constructor
  · intro same
    exact (same _).mp rfl
  · intro same key
    rw [same]

end

def written (pair : String × String) : List Char := List.intercalate [':'] [pair.1.toList,pair.2.toList]

variable {tags labels : HashMap String String} {name other : String}

theorem tagSuffix_toList (tags : HashMap String String) (keys : List String) :
    (tagSuffix tags keys).toList =
      List.intercalate [','] ((keys.map fun key => (key,(tags.lookup key).getD "")).map written) := by
  fun_induction tagSuffix tags keys with
  | case1 => rfl
  | case2 => simp [written,List.intercalate]
  | case3 key rest nonempty ih =>
    cases rest with
    | nil => exact absurd rfl nonempty
    | cons next rest =>
      simp only [String.toList_append,ih]
      simp [written,List.intercalate]

theorem fullName_toList (tagged : tags ≠ ∅) (name : String) :
    (fullName name tags).toList =
      name.toList ++ '\x7b' :: (List.intercalate [','] ((sortedTags tags).map written) ++ ['\x7d']) := by
  rw [fullName,if_neg tagged]
  simp [tagSuffix_toList,sortedTags]

theorem sortedTags_injective : Function.Injective sortedTags := by
  intro tags labels same
  have sorted : tags.keys.sort (· ≤ ·) = labels.keys.sort (· ≤ ·) := by
    have firsts := congrArg (List.map Prod.fst) same
    simpa [sortedTags,Function.comp_def] using firsts
  have keys : tags.keys = labels.keys := by
    rw [← Finset.sort_toFinset tags.keys (· ≤ ·),sorted,Finset.sort_toFinset]
  refine Finmap.ext_lookup fun key => ?_
  by_cases member : key ∈ tags.keys
  · have values : (tags.lookup key).getD "" = (labels.lookup key).getD "" := by
      rw [sortedTags,sortedTags,sorted] at same
      have := List.map_inj_left.mp same key ((Finset.mem_sort _).mpr (keys ▸ member))
      exact (Prod.mk.inj this).2
    obtain ⟨value,found⟩ := Finmap.mem_iff.mp (Finmap.mem_keys.mp member)
    obtain ⟨label,there⟩ := Finmap.mem_iff.mp (Finmap.mem_keys.mp (keys ▸ member))
    rw [found,there] at values ⊢
    exact congrArg some values
  · have absent : key ∉ labels.keys := keys ▸ member
    rw [Finmap.lookup_eq_none.mpr (mt Finmap.mem_keys.mpr member),
      Finmap.lookup_eq_none.mpr (mt Finmap.mem_keys.mpr absent)]

theorem mem_sortedTags {key value : String} : (key,value) ∈ sortedTags tags ↔ tags.lookup key = some value := by
  simp only [sortedTags,List.mem_map,Finset.mem_sort,Finmap.mem_keys,Prod.mk.injEq]
  constructor
  · rintro ⟨_,member,rfl,rfl⟩
    obtain ⟨value,found⟩ := Finmap.mem_iff.mp member
    rw [found,Option.getD_some]
  · intro found
    exact ⟨key,Finmap.mem_iff.mpr ⟨value,found⟩,rfl,by rw [found,Option.getD_some]⟩

theorem sortedTags_ne_nil (tagged : tags ≠ ∅) : sortedTags tags ≠ [] := by
  intro empty
  refine tagged (Finmap.ext_lookup fun key => ?_)
  cases found : tags.lookup key with
  | none => rfl
  | some value =>
    have member := mem_sortedTags.mpr found
    rw [empty] at member
    cases member

variable {inNames inTags : Set Char}

theorem spelled_sortedTags (spelled : Spelled inNames inTags name tags) :
    ∀ pair ∈ sortedTags tags, Over inTags pair.1 ∧ Over inTags pair.2 :=
  fun _ member => spelled.2 _ _ (mem_sortedTags.mp member)

theorem Over.not_mem {c : Char} {letters : Set Char} {text : String} (within : Over letters text)
    (outside : c ∉ letters) : c ∉ text.toList := fun member => outside (within c member)

/-- The text between the braces gives the tags back. -/
theorem tags_of_body (colon : ':' ∉ inTags) (comma : ',' ∉ inTags) (spelled : Spelled inNames inTags name tags)
    (respelled : Spelled inNames inTags other labels) (tagged : tags ≠ ∅) (labelled : labels ≠ ∅)
    (same : List.intercalate [','] ((sortedTags tags).map written) =
      List.intercalate [','] ((sortedTags labels).map written)) : tags = labels := by
  have plain {name : String} {tags : HashMap String String} (spelled : Spelled inNames inTags name tags) :
      ∀ part ∈ (sortedTags tags).map written, ',' ∉ part := by
    intro part member
    obtain ⟨pair,of,rfl⟩ := List.mem_map.mp member
    obtain ⟨key,value⟩ := spelled_sortedTags spelled pair of
    simp [written,List.intercalate,key.not_mem comma,value.not_mem comma]
  have parts {name : String} {tags : HashMap String String} (spelled : Spelled inNames inTags name tags) :
      ((sortedTags tags).map written).map (List.splitOn ':') =
        (sortedTags tags).map fun pair => [pair.1.toList,pair.2.toList] := by
    rw [List.map_map]
    refine List.map_congr_left fun pair of => ?_
    obtain ⟨key,value⟩ := spelled_sortedTags spelled pair of
    exact List.splitOn_intercalate ':' (by simp [key.not_mem colon,value.not_mem colon]) (by simp)
  have sameParts := (intercalate_inj (plain spelled) (plain respelled) (by simpa using sortedTags_ne_nil tagged)
    (by simpa using sortedTags_ne_nil labelled)).mp same
  have samePairs := congrArg (List.map (List.splitOn ':')) sameParts
  rw [parts spelled,parts respelled] at samePairs
  have injective : Function.Injective fun pair : String × String => [pair.1.toList,pair.2.toList] := by
    intro pair other same
    obtain ⟨key,rest⟩ := List.cons.inj same
    exact Prod.ext (String.toList_inj.mp key) (String.toList_inj.mp (List.cons.inj rest).1)
  exact sortedTags_injective (List.map_injective_iff.mpr injective samePairs)

/-- A key with tags has a brace at both ends of them, and a colon between. -/
theorem marks_of_fullName (labelled : labels ≠ ∅) (other : String) :
    ∀ c ∈ ['\x7b',':','\x7d'], c ∈ (fullName other labels).toList := by
  obtain ⟨pair,rest,whole⟩ := List.exists_cons_of_ne_nil (sortedTags_ne_nil labelled)
  have colon : ':' ∈ List.intercalate [','] ((sortedTags labels).map written) := by
    rw [whole]
    cases rest <;> simp [written,List.intercalate]
  rw [fullName_toList labelled]
  simp [colon]

/-- A name without tags is no key of a name with some. -/
theorem untagged_ne (clear : Unambiguous inNames inTags) (spelled : Over inNames name) (labelled : labels ≠ ∅)
    (other : String) : name ≠ fullName other labels := by
  intro same
  have all := marks_of_fullName labelled other
  rw [← same] at all
  rcases clear.2.2 with noBrace | ⟨_,noBoth⟩
  · exact spelled.not_mem noBrace (all _ (by decide))
  · exact noBoth ⟨spelled _ (all _ (by decide)),spelled _ (all _ (by decide))⟩

theorem fullName_injective (clear : Unambiguous inNames inTags) (spelled : Spelled inNames inTags name tags)
    (respelled : Spelled inNames inTags other labels) (same : fullName name tags = fullName other labels) :
    name = other ∧ tags = labels := by
  by_cases tagged : tags = ∅
  · by_cases labelled : labels = ∅
    · rw [tagged,labelled,fullName_untagged,fullName_untagged] at same
      exact ⟨same,tagged.trans labelled.symm⟩
    · rw [tagged,fullName_untagged] at same
      exact absurd same (untagged_ne clear spelled.1 labelled other)
  by_cases labelled : labels = ∅
  · rw [labelled,fullName_untagged] at same
    exact absurd same.symm (untagged_ne clear respelled.1 tagged name)
  have whole := congrArg String.toList same
  rw [fullName_toList tagged,fullName_toList labelled] at whole
  have split : name.toList = other.toList ∧ List.intercalate [','] ((sortedTags tags).map written) ++ ['\x7d'] =
      List.intercalate [','] ((sortedTags labels).map written) ++ ['\x7d'] := by
    rcases clear.2.2 with noBrace | ⟨noBrace,_⟩
    · exact (first_separator (spelled.1.not_mem noBrace) (respelled.1.not_mem noBrace)).mp whole
    · have free {name : String} {tags : HashMap String String} (spelled : Spelled inNames inTags name tags) :
          '\x7b' ∉ List.intercalate [','] ((sortedTags tags).map written) ++ ['\x7d'] := by
        intro member
        have inside := (List.mem_append.mp member).resolve_right (by decide)
        obtain ⟨part,of,within⟩ := (mem_intercalate inside).resolve_left (by decide)
        obtain ⟨pair,origin,rfl⟩ := List.mem_map.mp of
        obtain ⟨key,value⟩ := spelled_sortedTags spelled pair origin
        simp [written,List.intercalate,key.not_mem noBrace,value.not_mem noBrace] at within
      exact (last_separator (free spelled) (free respelled)).mp whole
  exact ⟨String.toList_inj.mp split.1,
    tags_of_body clear.1 clear.2.1 spelled respelled tagged labelled (List.append_cancel_right split.2)⟩

/-- Two metrics that share a key and nothing else. -/
theorem not_filesApart {bucketOf : Nat → Option Nat} (spelled : Spelled inNames inTags name tags)
    (respelled : Spelled inNames inTags other labels) (same : fullName name tags = fullName other labels)
    (differ : name ≠ other ∨ tags ≠ labels) : ¬FilesApart bucketOf inNames inTags := by
  intro apart
  have equal := (apart .new name other {} {} 200 200 none none tags labels rfl spelled respelled).mp
    ((sameEntry_iff rfl ..).mpr same)
  exact differ.elim (absurd equal.1) (absurd equal.2)

theorem over_empty (letters : Set Char) : Over letters "" := by simp [Over]

theorem over_singleton {letters : Set Char} {c : Char} (inside : c ∈ letters) : Over letters (String.singleton c) := by
  simp [Over,inside]

theorem spelled_singleton {key value : String} (named : Over inNames name) (keyed : Over inTags key)
    (valued : Over inTags value) : Spelled inNames inTags name (Finmap.singleton key value) := by
  refine ⟨named,fun other label found => ?_⟩
  obtain rfl : other = key := Finmap.mem_singleton _ _ _ |>.mp (Finmap.mem_of_lookup_eq_some found)
  rw [Finmap.lookup_singleton_eq] at found
  obtain rfl := Option.some.inj found
  exact ⟨keyed,valued⟩

theorem sortedTags_two (key value first : String) (later : key ≠ "") :
    sortedTags ((Finmap.singleton "" first).insert key value) = [("",first),(key,value)] := by
  have keys : ((Finmap.singleton "" first : HashMap String String).insert key value).keys = {"",key} := by
    ext other
    simp [Finmap.mem_keys,Finmap.mem_insert]
    tauto
  have least (text : String) : "" ≤ text := by
    refine not_lt.mp ?_
    rw [String.lt_iff_toList_lt]
    exact List.not_lt_nil _
  have sorted : ({"",key} : Finset String).sort (· ≤ ·) = ["",key] := by
    rw [Finset.sort_insert _ (fun other _ => least other) (by simpa using later.symm),Finset.sort_singleton]
  rw [sortedTags,keys,sorted]
  simp [Finmap.lookup_insert_of_ne _ later.symm]

theorem spelled_two {key value first : String} (named : Over inNames name) (valued : Over inTags first)
    (keyed : Over inTags key) (other : Over inTags value) :
    Spelled inNames inTags name ((Finmap.singleton "" first).insert key value) := by
  refine ⟨named,fun label text found => ?_⟩
  rw [lookup_insert] at found
  split at found
  next same =>
    obtain rfl := Option.some.inj found
    exact ⟨same ▸ keyed,other⟩
  next => exact (spelled_singleton named (over_empty _) valued).2 label text found

theorem colon_collides {bucketOf : Nat → Option Nat} (colon : ':' ∈ inTags) :
    ¬FilesApart bucketOf inNames inTags :=
  not_filesApart (spelled_singleton (over_empty _) (over_singleton colon) (over_empty _))
    (spelled_singleton (over_empty _) (over_empty _) (over_singleton colon)) (by decide +kernel)
    (.inr (by decide))

theorem comma_collides {bucketOf : Nat → Option Nat} (comma : ',' ∈ inTags) :
    ¬FilesApart bucketOf inNames inTags := by
  have two : Over inTags ",," := by simp [Over,comma]
  refine not_filesApart (spelled_two (over_empty _) (over_empty _) two (over_empty _))
    (spelled_two (over_empty _) (over_singleton comma) (over_singleton comma) (over_empty _)) ?_
    (.inr (by decide))
  rw [← String.toList_inj,fullName_toList (by decide),fullName_toList (by decide),sortedTags_two _ _ _ (by decide),
    sortedTags_two _ _ _ (by decide)]
  decide

theorem brace_collides {bucketOf : Nat → Option Nat} (names : '\x7b' ∈ inNames) (tags : '\x7b' ∈ inTags) :
    ¬FilesApart bucketOf inNames inTags :=
  not_filesApart (spelled_singleton (over_empty _) (over_singleton tags) (over_empty _))
    (spelled_singleton (over_singleton names) (over_empty _) (over_empty _)) (by decide +kernel)
    (.inl (by decide))

theorem name_collides {bucketOf : Nat → Option Nat} (brace : '\x7b' ∈ inNames) (colon : ':' ∈ inNames)
    (closing : '\x7d' ∈ inNames) : ¬FilesApart bucketOf inNames inTags := by
  have spelled : Spelled inNames inTags "\x7b:\x7d" ∅ :=
    ⟨by simp [Over,brace,colon,closing],fun key value found => by simp at found⟩
  exact not_filesApart spelled (spelled_singleton (over_empty _) (over_empty _) (over_empty _))
    (by decide +kernel) (.inl (by decide))

/-- **The entries of `requests` tell names and tags apart exactly for a vocabulary in which tags
have no colon and no comma, and in which names have no opening brace, or only names have one
and they lack the colon or the closing brace that tags come with.** -/
theorem filesApart_iff (bucketOf : Nat → Option Nat) (inNames inTags : Set Char) :
    FilesApart bucketOf inNames inTags ↔ Unambiguous inNames inTags := by
  constructor
  · intro apart
    refine ⟨fun colon => colon_collides colon apart,fun comma => comma_collides comma apart,?_⟩
    by_cases brace : '\x7b' ∈ inNames
    · exact .inr ⟨fun inTag => brace_collides brace inTag apart,
        fun both => name_collides brace both.1 both.2 apart⟩
    · exact .inl brace
  · intro clear a name other timings later status code error problem tags labels tracked spelled respelled
    rw [sameEntry_iff tracked]
    constructor
    · exact fullName_injective clear spelled respelled
    · rintro ⟨rfl,rfl⟩
      rfl

/-- A colon in the key of a tag, and in the value of another. -/
theorem filed_together :
    ¬∀ bucketOf (a : StatsAggregator) name other timings later status code error problem tags labels,
      a.noEndpointTracking = false →
      (SameEntry bucketOf a (.request name timings status error tags)
          (.request other later code problem labels) ↔ name = other ∧ tags = labels) := by
  intro apart
  have equal := (apart (fun _ => none) .new "GET /" "GET /" {} {} 200 200 none none
    (Finmap.singleton "a:b" "c") (Finmap.singleton "a" "b:c") rfl).mp
    ((sameEntry_iff rfl ..).mpr (by decide +kernel))
  exact absurd equal.2 (by decide)

section

variable (bucketOf : Nat → Option Nat)

/-- One metric, with tracking and without. -/
theorem add_untracked (a : StatsAggregator) (tracked : a.noEndpointTracking = false)
    (requests : HashMap String RequestStats) (metric : Metric) :
    ({ a with requests, noEndpointTracking := true } : StatsAggregator).add bucketOf metric =
      { a.add bucketOf metric with requests, noEndpointTracking := true } := by
  cases metric with
  | request name timings status error tags =>
    cases iteration : isIteration name <;> cases total : isIterationTotal name <;>
      simp [StatsAggregator.add,StatsAggregator.addRequest,iteration,total,tracked,StatsAggregator.recordGlobal,
        StatsAggregator.recordFailedIteration,StatsAggregator.recordEndpoint]
  | check | log | histogram | counter | gauge | rate => rfl

theorem foldl_add_untracked (a : StatsAggregator) (tracked : a.noEndpointTracking = false)
    (requests : HashMap String RequestStats) (metrics : List Metric) :
    metrics.foldl (StatsAggregator.add bucketOf) { a with requests, noEndpointTracking := true } =
      { metrics.foldl (StatsAggregator.add bucketOf) a with requests, noEndpointTracking := true } := by
  induction metrics generalizing a with
  | nil => rfl
  | cons metric metrics ih =>
    rw [List.foldl_cons,List.foldl_cons,add_untracked bucketOf a tracked,
      ih _ ((StatsAggregator.add_noEndpointTracking bucketOf a metric).trans tracked)]

/-- **Without endpoint tracking the same metrics give the same aggregator but for the entries of
`requests`**, of which there is none. -/
theorem addMetrics_untracked (metrics : List Metric) :
    StatsAggregator.addMetrics bucketOf true metrics =
      { StatsAggregator.addMetrics bucketOf false metrics with requests := ∅, noEndpointTracking := true } :=
  foldl_add_untracked bucketOf .new rfl ∅ metrics

end

end Fusillade.Stats
