import Fusillade.Bridge.Redirects
import Fusillade.Lib.FiniteMap

/-! Default headers. `http.setDefaults` keeps an object of headers, into which those of a request are
merged under the exact spelling of their names; a body that is a file sets the content type after that.
What comes of it is a hash map, and its entries are put into the request in whatever order it is
iterated over. -/
namespace Fusillade.Bridge.DefaultHeaders

open CookieJar FiniteMap

/-- An object of headers, or the hash map that it becomes. -/
abbrev HeaderMap := FiniteMap String String

def assign (source target : HeaderMap) : HeaderMap := absorb (fun _ value => value) target source

/-- `mergeDefaults`, and `merged.headers || {}` after it. -/
def mergeDefaults (defaults request : Option HeaderMap) : HeaderMap :=
  match defaults with
  | some defaults => assign (request.getD ∅) (assign defaults ∅)
  | none => request.getD ∅

/-- A bare `http.file()` as the body is sent as a form, with the content type of that form. -/
def withForm (form : Option String) (headers : HeaderMap) : HeaderMap :=
  match form with
  | some contentType => headers.insert "Content-Type" contentType
  | none => headers

/-- `eq_ignore_ascii_case` -/
def sameName (name other : String) : Bool := name.toLower == other.toLower

def defaultContentType (headers : HeaderMap) : HeaderMap :=
  if ∃ key ∈ headers.keys, sameName key "content-type" = true then headers
  else headers.insert "Content-Type" "application/json"

/-- The native functions of the methods with a body default the content type. -/
def nativeHeaders (method : String) (headers : HeaderMap) : HeaderMap :=
  if method = "POST" ∨ method = "PUT" ∨ method = "PATCH" then defaultContentType headers else headers

/-- What the loop relies on of a request of `ureq`. -/
structure UreqRequest where
  set : Headers → String × String → Headers
  /-- A header of a new name is put after the others. -/
  set_new : ∀ request header, (∀ old ∈ request, sameName old.1 header.1 = false) →
    set request header = request ++ [header]

def append (request : Headers) (header : String × String) : Headers := request ++ [header]

inductive Path where
  | ureq
  | bridge
  deriving DecidableEq

def build (ureq : UreqRequest) : Path → Headers → Headers
  | .ureq,headers => headers.foldl ureq.set []
  | .bridge,headers => headers.foldl append []

/-- The headers of a call of the script, up to the native function of its method. -/
def callHeaders (method : String) (form : Option String) (defaults request : Option HeaderMap) : HeaderMap :=
  nativeHeaders method (withForm form (mergeDefaults defaults request))

section

variable (ureq : UreqRequest) {store : CookieStore} (jar : store.Jar) (url : String)

/-- The headers that are put into a request. The cookies may change the order of the map. -/
def Sends (path : Path) (headers : HeaderMap) (sent : Headers) : Prop :=
  ∃ seen order, Lists headers seen ∧ order.Perm (applyJarCookies store jar url seen) ∧ sent = build ureq path order

def Given (headers : Option HeaderMap) (name value : String) : Prop :=
  ∃ key, (headers.getD ∅).lookup key = some value ∧ sameName key name = true

/-- The value of the request when it gives one, and the default otherwise. -/
def Chosen (defaults request : Option HeaderMap) (name value : String) : Prop :=
  Given request name value ∨ (∀ other, ¬Given request name other) ∧ Given defaults name value

def carried (sent : Headers) (name : String) : List String :=
  (sent.filter fun header => sameName header.1 name).map Prod.snd

def withCookies (name value : String) : String :=
  match jarCookies store jar url with
  | [] => value
  | cookies => if isCookieHeader name then value ++ "; " ++ formatCookies store cookies else value

/-- For each name that is given the request carries the chosen value and no other. -/
def Overridden (path : Path) (method : String) (form : Option String) (defaults request : Option HeaderMap) : Prop :=
  ∀ sent, Sends ureq jar url path (callHeaders method form defaults request) sent →
    ∀ name value, Given request name value ∨ Given defaults name value →
      ∃ chosen, Chosen defaults request name chosen ∧ carried sent name = [withCookies jar url name chosen]

end

/-- The names that are given, and that of the content type of a form. -/
def Named (form : Option String) (defaults request : Option HeaderMap) (key : String) : Prop :=
  (key ∈ request.getD ∅ ∨ key ∈ defaults.getD ∅) ∨ form.isSome ∧ key = "Content-Type"

/-- No two of the names differ in case only, and a content type beside that of a form is the same. -/
structure DistinctNames (form : Option String) (defaults request : Option HeaderMap) : Prop where
  spelled : ∀ key other, Named form defaults request key → Named form defaults request other →
    sameName key other = true → key = other
  formed : ∀ contentType ∈ form, ∀ value, Chosen defaults request "Content-Type" value → value = contentType

theorem sameName_iff {name other : String} : sameName name other = true ↔ name.toLower = other.toLower := by
  rw [sameName,beq_iff_eq]

section

variable {form : Option String} {defaults request : Option HeaderMap} {headers : HeaderMap}
  {key other name value : String}

theorem lookup_assign (source target : HeaderMap) (key : String) :
    (assign source target).lookup key = (source.lookup key).or (target.lookup key) := by
  rw [assign,lookup_absorb]
  cases source.lookup key <;> rfl

theorem lookup_mergeDefaults (key : String) : (mergeDefaults defaults request).lookup key =
    ((request.getD ∅).lookup key).or ((defaults.getD ∅).lookup key) := by
  cases defaults with
  | none => simp [mergeDefaults]
  | some defaults => simp [mergeDefaults,lookup_assign]

theorem mem_mergeDefaults : key ∈ mergeDefaults defaults request ↔
    key ∈ request.getD ∅ ∨ key ∈ defaults.getD ∅ := by
  rw [Finmap.mem_iff,Finmap.mem_iff,Finmap.mem_iff,lookup_mergeDefaults]
  cases (request.getD ∅).lookup key <;> simp

theorem lookup_withForm (key : String) : (withForm form headers).lookup key =
    if key = "Content-Type" then form.or (headers.lookup key) else headers.lookup key := by
  cases form with
  | none => simp [withForm]
  | some contentType =>
    rw [withForm,lookup_insert]
    rfl

theorem mem_withForm : key ∈ withForm form (mergeDefaults defaults request) ↔ Named form defaults request key := by
  rw [Named,← mem_mergeDefaults,Finmap.mem_iff,Finmap.mem_iff,lookup_withForm]
  by_cases here : key = "Content-Type"
  · cases form <;> simp [here]
  · simp [here]

theorem nativeHeaders_cases (method : String) (headers : HeaderMap) : nativeHeaders method headers = headers ∨
    (∀ key ∈ headers, sameName key "content-type" = false) ∧
      nativeHeaders method headers = headers.insert "Content-Type" "application/json" := by
  unfold nativeHeaders defaultContentType
  split
  · split
    · exact .inl rfl
    · rename_i nothing
      refine .inr ⟨fun key member => ?_,rfl⟩
      exact Bool.eq_false_iff.mpr fun same => nothing ⟨key,Finmap.mem_keys.mpr member,same⟩
  · exact .inl rfl

end

def Apart (headers : Headers) : Prop := headers.Pairwise fun header other => sameName header.1 other.1 = false

section

variable {headers : Headers} {text : String} {header : String × String}

variable {ureq : UreqRequest}

theorem build_bridge (headers : Headers) : build ureq .bridge headers = headers := by
  have appended (sent : Headers) : headers.foldl append sent = sent ++ headers := by
    induction headers generalizing sent with
    | nil => simp
    | cons header headers ih => rw [List.foldl_cons,ih,append,List.append_assoc,List.singleton_append]
  exact appended []

/-- Where there is nothing to replace both libraries do the same. -/
theorem build_apart (apart : Apart headers) (path : Path) : build ureq path headers = headers := by
  cases path with
  | bridge => exact build_bridge headers
  | ureq =>
    have added (sent : Headers) (apart : Apart (sent ++ headers)) : headers.foldl ureq.set sent = sent ++ headers := by
      induction headers generalizing sent with
      | nil => simp
      | cons header headers ih =>
        have fresh (old : String × String) (member : old ∈ sent) : sameName old.1 header.1 = false :=
          (List.pairwise_append.mp apart).2.2 old member header List.mem_cons_self
        have moved : Apart ((sent ++ [header]) ++ headers) := by rwa [List.append_assoc,List.singleton_append]
        rw [List.foldl_cons,ureq.set_new sent header fresh,
          ih (List.pairwise_append.mp apart).2.1.of_cons _ moved,List.append_assoc,List.singleton_append]
    exact added [] apart

theorem carried_apart {key name value : String} (apart : Apart headers) (member : (key,value) ∈ headers)
    (same : sameName key name = true) : carried headers name = [value] := by
  induction headers with
  | nil => cases member
  | cons header headers ih =>
    obtain ⟨first,later⟩ := List.pairwise_cons.mp apart
    rcases List.mem_cons.mp member with rfl | member
    · have others : headers.filter (fun other => sameName other.1 name) = [] := by
        refine List.filter_eq_nil_iff.mpr fun other inside here => ?_
        have different := first other inside
        rw [sameName,sameName_iff.mp same,← sameName_iff.mp here] at different
        simp at different
      simp [carried,same,others]
    · have other : sameName header.1 name = false := by
        have different := first _ member
        rw [sameName,sameName_iff.mp same] at different
        exact different
      rw [carried,List.filter_cons_of_neg (by simp [other])]
      exact ih later member

theorem isCookieHeader_iff {name : String} : isCookieHeader name = true ↔ sameName name "Cookie" = true := by
  have lower : "Cookie".toLower = "cookie" := by decide +kernel
  rw [sameName_iff,isCookieHeader,beq_iff_eq,lower]

theorem mergeCookies_apart (apart : Apart headers) (text : String) : Apart (mergeCookies text headers) := by
  induction headers with
  | nil => exact List.pairwise_singleton ..
  | cons header headers ih =>
    obtain ⟨first,later⟩ := List.pairwise_cons.mp apart
    rw [mergeCookies]
    split
    next => exact List.pairwise_cons.mpr ⟨first,later⟩
    next other =>
      refine List.pairwise_cons.mpr ⟨fun next member => ?_,ih later⟩
      rcases Redirects.mergeCookies_name member with cookie | ⟨old,there,same⟩
      · rw [cookie]
        exact Bool.eq_false_iff.mpr fun same => other (isCookieHeader_iff.mpr same)
      · exact same ▸ first old there

/-- Every header is still there, with the cookies behind it if it is the first for cookies. -/
theorem mergeCookies_keeps (text : String) (member : header ∈ headers) :
    ∃ value, (header.1,value) ∈ mergeCookies text headers := by
  induction headers with
  | nil => cases member
  | cons first headers ih =>
    rw [mergeCookies]
    rcases List.mem_cons.mp member with rfl | member
    · split <;> exact ⟨_,List.mem_cons_self⟩
    · split
      · exact ⟨header.2,List.mem_cons_of_mem _ member⟩
      · obtain ⟨value,there⟩ := ih member
        exact ⟨value,List.mem_cons_of_mem _ there⟩

theorem mem_mergeCookies (apart : Apart headers) (text : String) (member : header ∈ headers) :
    (header.1,if isCookieHeader header.1 then header.2 ++ "; " ++ text else header.2) ∈
      mergeCookies text headers := by
  induction headers with
  | nil => cases member
  | cons first headers ih =>
    obtain ⟨apartFirst,later⟩ := List.pairwise_cons.mp apart
    rw [mergeCookies]
    rcases List.mem_cons.mp member with rfl | member
    · split <;> exact List.mem_cons_self
    · split
      next cookie =>
        have plain : isCookieHeader header.1 = false := by
          refine Bool.eq_false_iff.mpr fun also => ?_
          have different := apartFirst header member
          rw [sameName,sameName_iff.mp (isCookieHeader_iff.mp cookie),
            ← sameName_iff.mp (isCookieHeader_iff.mp also)] at different
          simp at different
        rw [plain]
        exact List.mem_cons_of_mem _ member
      next => exact List.mem_cons_of_mem _ (ih later member)

end

section

variable {store : CookieStore} {jar : store.Jar} {url : String} {headers : Headers} {header : String × String}

theorem applyJarCookies_apart (apart : Apart headers) : Apart (applyJarCookies store jar url headers) := by
  unfold applyJarCookies
  split
  · exact apart
  · exact mergeCookies_apart apart _

theorem applyJarCookies_keeps (member : header ∈ headers) :
    ∃ value, (header.1,value) ∈ applyJarCookies store jar url headers := by
  unfold applyJarCookies
  split
  · exact ⟨header.2,member⟩
  · exact mergeCookies_keeps _ member

theorem mem_applyJarCookies (apart : Apart headers) (member : header ∈ headers) :
    (header.1,withCookies jar url header.1 header.2) ∈ applyJarCookies store jar url headers := by
  rw [applyJarCookies,withCookies]
  cases jarCookies store jar url with
  | nil => exact member
  | cons cookie cookies => exact mem_mergeCookies apart _ member

variable {ureq : UreqRequest} {form : Option String} {defaults request : Option HeaderMap} {map : HeaderMap}
  {key other name value : String}

def Distinct (map : HeaderMap) : Prop :=
  ∀ key ∈ map, ∀ other ∈ map, sameName key other = true → key = other

theorem distinct_withForm : Distinct (withForm form (mergeDefaults defaults request)) ↔
    ∀ key other, Named form defaults request key → Named form defaults request other →
      sameName key other = true → key = other := by
  simp only [Distinct,mem_withForm]
  exact ⟨fun distinct key other given also => distinct key given other also,
    fun distinct key given other also => distinct key other given also⟩

theorem contentType_lower : "Content-Type".toLower = "content-type".toLower := by
  have upper : "Content-Type".toLower = "content-type" := by decide +kernel
  have lower : "content-type".toLower = "content-type" := by decide +kernel
  rw [upper,lower]

theorem sameName_contentType (name : String) : sameName name "Content-Type" = sameName name "content-type" := by
  rw [sameName,sameName,contentType_lower]

theorem sameName_comm (name other : String) : sameName name other = sameName other name := Bool.beq_comm

theorem nativeHeaders_distinct (distinct : Distinct map) (method : String) : Distinct (nativeHeaders method map) := by
  rcases nativeHeaders_cases method map with same | ⟨absent,same⟩
  · rwa [same]
  · have fresh (key : String) (member : key ∈ map) (alike : sameName key "Content-Type" = true) : False := by
      rw [sameName_contentType,absent key member] at alike
      contradiction
    rw [same]
    intro key member other also alike
    rcases Finmap.mem_insert.mp member with rfl | member
    · rcases Finmap.mem_insert.mp also with rfl | also
      · rfl
      · exact (fresh other also (sameName_comm other _ ▸ alike)).elim
    · rcases Finmap.mem_insert.mp also with rfl | also
      · exact (fresh key member alike).elim
      · exact distinct key member other also alike

theorem nativeHeaders_keeps (method : String) (given : map.lookup key = some value) :
    (nativeHeaders method map).lookup key = some value := by
  rcases nativeHeaders_cases method map with same | ⟨absent,same⟩
  · rwa [same]
  · have other : key ≠ "Content-Type" := by
      rintro rfl
      have different := absent _ (Finmap.mem_iff.mpr ⟨value,given⟩)
      rw [← sameName_contentType,sameName,beq_self_eq_true] at different
      contradiction
    rw [same,lookup_insert,if_neg other,given]

theorem lists_apart (distinct : Distinct map) {seen : Headers} (lists : Lists map seen) : Apart seen := by
  have keys : seen.Pairwise fun header other => header.1 ≠ other.1 := List.pairwise_map.mp lists.nodup
  refine keys.imp_of_mem fun {header other} member also different => Bool.eq_false_iff.mpr fun same => ?_
  have named := (lists.forall_keys (· ∈ map)).mp fun _ there => there
  exact different (distinct header.1 (named header member) other.1 (named other also) same)

theorem apart_perm {order : Headers} (permuted : order.Perm headers) (apart : Apart headers) : Apart order := by
  refine (List.Perm.pairwise_iff (fun {header other} different => ?_) permuted).mpr apart
  rwa [sameName_comm]

theorem exists_chosen (given : Given request name value ∨ Given defaults name value) :
    ∃ key chosen, (mergeDefaults defaults request).lookup key = some chosen ∧ sameName key name = true ∧
      Chosen defaults request name chosen := by
  by_cases asked : ∃ value, Given request name value
  · obtain ⟨value,key,found,same⟩ := asked
    exact ⟨key,value,by rw [lookup_mergeDefaults,found]; rfl,same,.inl ⟨key,found,same⟩⟩
  · have asked : ∀ value, ¬Given request name value := not_exists.mp asked
    obtain ⟨key,found,same⟩ := given.resolve_left (asked value)
    have absent : (request.getD ∅).lookup key = none := by
      cases there : (request.getD ∅).lookup key with
      | none => rfl
      | some other => exact absurd ⟨key,there,same⟩ (asked other)
    exact ⟨key,value,by rw [lookup_mergeDefaults,absent,found]; rfl,same,.inr ⟨asked,key,found,same⟩⟩

theorem Chosen.spelled (choice : Chosen defaults request name value) (same : sameName name other = true) :
    Chosen defaults request other value := by
  have given (headers : Option HeaderMap) (value : String) :
      Given headers name value ↔ Given headers other value := by
    simp only [Given,sameName,sameName_iff.mp same]
  rw [Chosen,← given,← given]
  refine choice.imp_right fun default => ⟨fun value asked => default.1 value ((given _ _).mpr asked),default.2⟩

/-- The content type of a form takes the place of an equal one. -/
theorem lookup_formed (distinct : DistinctNames form defaults request)
    (found : (mergeDefaults defaults request).lookup key = some value)
    (choice : Chosen defaults request key value) :
    (withForm form (mergeDefaults defaults request)).lookup key = some value := by
  rw [lookup_withForm,found]
  split
  next here =>
    cases formed : form with
    | none => rfl
    | some contentType =>
      rw [distinct.formed contentType formed value (here ▸ choice)]
      rfl
  next => rfl

theorem overridden_of_distinct (distinct : DistinctNames form defaults request) (path : Path) (method : String) :
    Overridden ureq jar url path method form defaults request := by
  rintro sent ⟨seen,order,lists,permuted,rfl⟩ name value given
  obtain ⟨key,chosen,found,same,choice⟩ := exists_chosen given
  have spelled : Chosen defaults request key chosen := choice.spelled (sameName_comm key name ▸ same)
  have merged := nativeHeaders_distinct (distinct_withForm.mpr distinct.spelled) method
  have seenApart := lists_apart merged lists
  have apart := apart_perm permuted (applyJarCookies_apart seenApart)
  have member := (lists.lookup key chosen).mp (nativeHeaders_keeps method (lookup_formed distinct found spelled))
  have placed := permuted.mem_iff.mpr (mem_applyJarCookies seenApart member)
  have cookie : isCookieHeader key = isCookieHeader name := by
    rw [isCookieHeader,isCookieHeader,sameName_iff.mp same]
  refine ⟨chosen,choice,?_⟩
  rw [build_apart apart path,carried_apart apart placed same,withCookies,withCookies,cookie]

theorem Chosen.given (choice : Chosen defaults request name value) :
    ∃ key, (key ∈ request.getD ∅ ∨ key ∈ defaults.getD ∅) ∧ sameName key name = true := by
  rcases choice with ⟨key,found,same⟩ | ⟨_,key,found,same⟩
  · exact ⟨key,.inl (Finmap.mem_iff.mpr ⟨value,found⟩),same⟩
  · exact ⟨key,.inr (Finmap.mem_iff.mpr ⟨value,found⟩),same⟩

/-- Where no two names differ in case only there is one value to choose. -/
theorem chosen_unique (spelled : ∀ key other, Named form defaults request key →
      Named form defaults request other → sameName key other = true → key = other) {also : String}
    (choice : Chosen defaults request name value) (choice' : Chosen defaults request name also) : value = also := by
  have unique {headers : Option HeaderMap} (named : ∀ key ∈ headers.getD ∅, Named form defaults request key)
      (given : Given headers name value) (given' : Given headers name also) : value = also := by
    obtain ⟨key,found,same⟩ := given
    obtain ⟨other,found',same'⟩ := given'
    have alike : sameName key other = true := by
      rw [sameName_iff,sameName_iff.mp same,sameName_iff.mp same']
    obtain rfl := spelled key other (named key (Finmap.mem_iff.mpr ⟨value,found⟩))
      (named other (Finmap.mem_iff.mpr ⟨also,found'⟩)) alike
    exact Option.some.inj (found.symm.trans found')
  rcases choice with asked | ⟨absent,default⟩
  · rcases choice' with asked' | ⟨absent',-⟩
    · exact unique (fun key member => .inl (.inl member)) asked asked'
    · exact absurd asked (absent' value)
  · rcases choice' with asked' | ⟨-,default'⟩
    · exact absurd asked' (absent also)
    · exact unique (fun key member => .inl (.inr member)) default default'

theorem withCookies_contentType (value : String) : withCookies jar url "Content-Type" value = value := by
  have plain : isCookieHeader "Content-Type" = false := by decide +kernel
  unfold withCookies
  split
  · rfl
  · rw [plain]
    rfl

/-- Where a given name is on the request only once, nothing else is there under its spellings. -/
theorem placed_eq {sent : Headers} (only : ∃ chosen, carried sent name = [chosen])
    {header also : String × String} (here : header ∈ sent) (there : also ∈ sent)
    (same : sameName header.1 name = true) (alike : sameName also.1 name = true) : header = also := by
  obtain ⟨chosen,only⟩ := only
  obtain ⟨kept,one,-⟩ := List.map_eq_singleton_iff.mp only
  have inside (header : String × String) (here : header ∈ sent) (same : sameName header.1 name = true) :
      header = kept := by
    have member : header ∈ sent.filter fun header => sameName header.1 name :=
      List.mem_filter.mpr ⟨here,same⟩
    rwa [one,List.mem_singleton] at member
  exact (inside header here same).trans (inside also there alike).symm

/-- Both spellings of a name are on a request of the asynchronous client. -/
theorem distinct_of_overridden {method : String}
    (overridden : Overridden ureq jar url .bridge method form defaults request) :
    DistinctNames form defaults request := by
  obtain ⟨seen,lists⟩ := exists_lists (callHeaders method form defaults request)
  have sends : Sends ureq jar url .bridge (callHeaders method form defaults request)
      (applyJarCookies store jar url seen) := ⟨seen,_,lists,List.Perm.refl _,(build_bridge _).symm⟩
  have kept {key value : String} (found : (withForm form (mergeDefaults defaults request)).lookup key = some value) :
      (key,value) ∈ seen := (lists.lookup key value).mp (nativeHeaders_keeps method found)
  have placed (name : String) (named : Named form defaults request name) :
      ∃ value, (name,value) ∈ applyJarCookies store jar url seen := by
    obtain ⟨value,found⟩ := Finmap.mem_iff.mp (mem_withForm.mpr named)
    exact applyJarCookies_keeps (kept found)
  have only {key : String} (given : key ∈ request.getD ∅ ∨ key ∈ defaults.getD ∅) :
      ∃ chosen, Chosen defaults request key chosen ∧
        carried (applyJarCookies store jar url seen) key = [withCookies jar url key chosen] := by
    have itself : sameName key key = true := beq_self_eq_true _
    rcases given with named | named <;> obtain ⟨value,found⟩ := Finmap.mem_iff.mp named
    · exact overridden _ sends key value (.inl ⟨key,found,itself⟩)
    · exact overridden _ sends key value (.inr ⟨key,found,itself⟩)
  have alone {key other : String} (given : key ∈ request.getD ∅ ∨ key ∈ defaults.getD ∅)
      (also : Named form defaults request other) (same : sameName other key = true) : key = other := by
    obtain ⟨first,here⟩ := placed key (.inl given)
    obtain ⟨second,there⟩ := placed other also
    obtain ⟨chosen,-,once⟩ := only given
    exact congrArg Prod.fst (placed_eq ⟨_,once⟩ here there (beq_self_eq_true _) same)
  have spelled (key other : String) (given : Named form defaults request key)
      (also : Named form defaults request other) (same : sameName key other = true) : key = other := by
    rcases given with given | ⟨formed,rfl⟩
    · exact alone given also (sameName_comm other key ▸ same)
    · rcases also with also | ⟨-,rfl⟩
      · exact (alone also (.inr ⟨formed,rfl⟩) same).symm
      · rfl
  refine ⟨spelled,fun contentType formed value choice => ?_⟩
  have found : (withForm form (mergeDefaults defaults request)).lookup "Content-Type" = some contentType := by
    rw [lookup_withForm,if_pos rfl,Option.mem_def.mp formed]
    rfl
  have apart := lists_apart (nativeHeaders_distinct (distinct_withForm.mpr spelled) method) lists
  have member : ("Content-Type",withCookies jar url "Content-Type" contentType) ∈
      applyJarCookies store jar url seen := mem_applyJarCookies apart (kept found)
  have sent := carried_apart (applyJarCookies_apart apart) member (beq_self_eq_true _)
  obtain ⟨key,given,same⟩ := choice.given
  have named := spelled key "Content-Type" (.inl given)
    (.inr ⟨Option.isSome_iff_exists.mpr ⟨contentType,formed⟩,rfl⟩) same
  obtain ⟨chosen,chosenToo,once⟩ := only (named ▸ given)
  rw [sent,withCookies_contentType,withCookies_contentType,List.singleton_inj] at once
  exact (chosen_unique spelled choice chosenToo).trans once.symm

/-- On both paths, whatever the method and the jar, the values of a request override the defaults exactly
when the names that are given differ in more than their case, from the content type of a form too. -/
theorem overridden_iff (ureq : UreqRequest) (jar : store.Jar) (url method : String) (form : Option String)
    (defaults request : Option HeaderMap) :
    (∀ path, Overridden ureq jar url path method form defaults request) ↔ DistinctNames form defaults request :=
  ⟨fun overridden => distinct_of_overridden (overridden .bridge),
    fun distinct path => overridden_of_distinct distinct path method⟩

end

/-- A default, and a request that spells its name in another way. -/
def apiDefaults : HeaderMap := Finmap.singleton "X-A" "1"

def apiRequest : HeaderMap := Finmap.singleton "x-a" "2"

theorem apiNames : "X-A".toLower = "x-a" ∧ "x-a".toLower = "x-a" := by decide +kernel

def replace (request : Headers) (header : String × String) : Headers :=
  (request.filter fun old => !sameName old.1 header.1) ++ [header]

theorem replace_new (request : Headers) (header : String × String)
    (fresh : ∀ old ∈ request, sameName old.1 header.1 = false) : replace request header = request ++ [header] := by
  rw [replace,List.filter_eq_self.mpr fun old member => by rw [fresh old member]; rfl]

/-- A request that replaces a header of the same name. -/
def replacing : UreqRequest := ⟨replace,replace_new⟩

/-- The asynchronous client sends both values. -/
theorem spelling_kept :
    @Sends replacing hostStore [] "" .bridge
      (callHeaders "GET" none (some apiDefaults) (some apiRequest)) [("x-a","2"),("X-A","1")] ∧
    ¬∀ path, @Overridden replacing hostStore [] "" path "GET" none (some apiDefaults) (some apiRequest) := by
  have lists : Lists (callHeaders "GET" none (some apiDefaults) (some apiRequest))
      [("x-a","2"),("X-A","1")] := by decide +kernel
  have order : [("x-a","2"),("X-A","1")].Perm
      (applyJarCookies hostStore [] "" [("x-a","2"),("X-A","1")]) := List.Perm.refl _
  have both := (⟨_,_,lists,order,(build_bridge _).symm⟩ : @Sends replacing hostStore [] "" .bridge _ _)
  have asked : Given (some apiRequest) "x-a" "2" :=
    ⟨"x-a",Finmap.lookup_singleton_eq,beq_self_eq_true _⟩
  refine ⟨both,fun overridden => ?_⟩
  obtain ⟨chosen,-,only⟩ := overridden .bridge _ both "x-a" "2" (.inl asked)
  simp [carried,sameName,apiNames] at only

end Fusillade.Bridge.DefaultHeaders
