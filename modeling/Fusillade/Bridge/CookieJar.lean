import Fusillade.Lib.Machine
import Mathlib.Logic.Function.Basic
import Mathlib.Data.String.Basic

/-! Automatic cookies. The jar is a thread-local of the carrier thread, and the coroutine of
a worker runs on whatever thread the scheduler resumes it, so a step says both who takes it
and where. The cookie store and the parsers are those of the crates in use. -/
namespace Fusillade.Bridge.CookieJar

/-- What the jar functions use of `url`, `cookie` and `cookie_store`. -/
structure CookieStore where
  Url : Type
  RawCookie : Type
  /-- A raw cookie with the domain and the path under which it is stored. -/
  Cookie : Type
  Jar : Type
  parseUrl : String → Option Url
  host : Url → String
  parseCookie : String → Option RawCookie
  name : RawCookie → String
  value : RawCookie → String
  raw : Cookie → RawCookie
  /-- The domain of a stored cookie, when it has one. -/
  domain : Cookie → Option String
  path : Cookie → String
  default : Jar
  storeResponseCookies : List RawCookie → Url → Jar → Jar
  /-- None when the cookie is rejected for the URL. -/
  insertRaw : RawCookie → Url → Jar → Option Jar
  remove : (domain path name : String) → Jar → Jar
  clear : Jar → Jar
  matching : Jar → Url → List Cookie

/-- A jar gives back cookies that were put into it, and others never. -/
structure CookieStore.Lawful (store : CookieStore) : Prop where
  default_matching : ∀ url, store.matching store.default url = []
  store_matching : ∀ cookies url jar other, ∀ cookie ∈
    store.matching (store.storeResponseCookies cookies url jar) other,
      store.raw cookie ∈ cookies ∨ cookie ∈ store.matching jar other
  insert_matching : ∀ new url jar filled, store.insertRaw new url jar = some filled →
    ∀ other, ∀ cookie ∈ store.matching filled other,
      store.raw cookie = new ∨ cookie ∈ store.matching jar other
  remove_matching : ∀ domain path name jar other, ∀ cookie ∈
    store.matching (store.remove domain path name jar) other, cookie ∈ store.matching jar other
  clear_matching : ∀ jar url, store.matching (store.clear jar) url = []

/-- Some response sets a cookie that comes back with a request for the same URL. -/
def CookieStore.Keeps (store : CookieStore) : Prop :=
  ∃ text url header cookie stored, store.parseUrl text = some url ∧
    store.parseCookie header = some cookie ∧
    stored ∈ store.matching (store.storeResponseCookies [cookie] url store.default) url

abbrev Headers := List (String × String)

def isCookieHeader (name : String) : Bool := name.toLower == "cookie"

variable (store : CookieStore)

def formatCookies (cookies : List store.Cookie) : String :=
  "; ".intercalate
    (cookies.map fun cookie => store.name (store.raw cookie) ++ "=" ++ store.value (store.raw cookie))

/-- A `Cookie` header of the script is kept, and the cookies of the jar follow it. -/
def mergeCookies (text : String) : Headers → Headers
  | [] => [("Cookie",text)]
  | (name,existing) :: rest =>
    if isCookieHeader name then (name,existing ++ "; " ++ text) :: rest
    else (name,existing) :: mergeCookies text rest

/-- The cookies that `apply_jar_cookies` takes from a jar. -/
def jarCookies (jar : store.Jar) (url : String) : List store.Cookie :=
  match store.parseUrl url with
  | some parsed => store.matching jar parsed
  | none => []

def applyJarCookies (jar : store.Jar) (url : String) (headers : Headers) : Headers :=
  match jarCookies store jar url with
  | [] => headers
  | cookies => mergeCookies (formatCookies store cookies) headers

def storeResponseCookies (url : String) (setCookieHeaders : List String) (jar : store.Jar) :
    store.Jar :=
  if setCookieHeaders = [] then jar
  else match store.parseUrl url with
    | some parsed => store.storeResponseCookies (setCookieHeaders.filterMap store.parseCookie) parsed jar
    | none => jar

/-- Every cookie of that name that matches the URL is removed. -/
def jarDelete (url : store.Url) (name : String) (jar : store.Jar) : store.Jar :=
  ((store.matching jar url).filter fun cookie => store.name (store.raw cookie) == name).foldl
    (fun jar cookie => store.remove ((store.domain cookie).getD (store.host url)) (store.path cookie)
      name jar) jar

/-- A request on the wire, with the cookies that the jar put into its header. -/
structure Request where
  worker : Nat
  headers : Headers
  cookies : List store.Cookie

structure State where
  /-- The thread-local jars. -/
  jars : Nat → store.Jar
  /-- The URL that a worker waits for. -/
  inFlight : Nat → Option String
  requests : List (Request store)
  /-- The cookies of the responses to a worker, and those it has set itself. -/
  own : Nat → List store.RawCookie

/-- What a worker does between two yields. -/
inductive Operation where
  | sendHop (url : String) (headers : Headers)
  | receive (setCookieHeaders : List String)
  | fail
  | jarSet (url : String) (cookie : store.RawCookie)
  | jarDelete (url : String) (name : String)
  | jarClear

structure Action where
  worker : Nat
  thread : Nat
  operation : Operation store

def initial : State store where
  jars := fun _ => store.default
  inFlight := fun _ => none
  requests := []
  own := fun _ => []

variable {store}

def State.setJar (s : State store) (thread : Nat) (jar : store.Jar) : State store :=
  { s with jars := Function.update s.jars thread jar }

def State.acquire (s : State store) (worker : Nat) (cookies : List store.RawCookie) : State store :=
  { s with own := Function.update s.own worker (s.own worker ++ cookies) }

def step (s : State store) (a : Action store) : Option (State store) :=
  let jar := s.jars a.thread
  match a.operation, s.inFlight a.worker with
  | .sendHop url headers, none => some { s with
      inFlight := Function.update s.inFlight a.worker (some url)
      requests := s.requests ++
        [⟨a.worker,applyJarCookies store jar url headers,jarCookies store jar url⟩] }
  | .receive setCookieHeaders, some url => some
      { (s.setJar a.thread (storeResponseCookies store url setCookieHeaders jar)).acquire a.worker
          (setCookieHeaders.filterMap store.parseCookie) with
        inFlight := Function.update s.inFlight a.worker none }
  | .fail, some _ => some { s with inFlight := Function.update s.inFlight a.worker none }
  -- An unparsable URL and a rejected cookie throw into the script.
  | .jarSet url cookie, none =>
    match (store.parseUrl url).bind (store.insertRaw cookie · jar) with
    | some filled => some ((s.setJar a.thread filled).acquire a.worker [cookie])
    | none => some s
  | .jarDelete url name, none =>
    match store.parseUrl url with
    | some parsed => some (s.setJar a.thread (jarDelete store parsed name jar))
    | none => some s
  | .jarClear, none => some (s.setJar a.thread (store.clear jar))
  | _, _ => none

/-- No request carries a cookie of the jar that is not its own worker's. -/
def Isolated (s : State store) : Prop :=
  ∀ request ∈ s.requests, ∀ cookie ∈ request.cookies, store.raw cookie ∈ s.own request.worker

/-- The scheduler runs a worker on these threads and no others. -/
def Placed (on : Nat → Nat → Prop) (actions : List (Action store)) : Prop :=
  ∀ a ∈ actions, on a.worker a.thread

variable {s t : State store} {a : Action store}

theorem jarCookies_subset {jar : store.Jar} {url : String} {cookie : store.Cookie}
    (member : cookie ∈ jarCookies store jar url) : ∃ parsed, cookie ∈ store.matching jar parsed := by
  unfold jarCookies at member
  split at member
  next parsed _ => exact ⟨parsed,member⟩
  next => simp at member

section Lawful

variable (lawful : store.Lawful)
include lawful

theorem storeResponseCookies_matching (url : String) (setCookieHeaders : List String)
    (jar : store.Jar) (other : store.Url) : ∀ cookie ∈
      store.matching (storeResponseCookies store url setCookieHeaders jar) other,
        store.raw cookie ∈ setCookieHeaders.filterMap store.parseCookie ∨
          cookie ∈ store.matching jar other := by
  intro cookie member
  unfold storeResponseCookies at member
  split at member
  · exact .inr member
  · split at member
    next => exact lawful.store_matching _ _ _ _ cookie member
    next => exact .inr member

theorem jarDelete_matching (url : store.Url) (name : String) (jar : store.Jar)
    (other : store.Url) : ∀ cookie ∈ store.matching (jarDelete store url name jar) other,
      cookie ∈ store.matching jar other := by
  unfold jarDelete
  generalize (store.matching jar url).filter _ = targets
  intro cookie member
  induction targets generalizing jar with
  | nil => exact member
  | cons target rest ih => exact lawful.remove_matching _ _ _ jar other cookie (ih _ member)

end Lawful

/-- What a step does to the jar of its thread and to the worker that takes it. -/
inductive Stepped (s : State store) (a : Action store) (t : State store) : Prop where
  | sends (url : String) (headers : Headers) (jars : t.jars = s.jars) (own : t.own = s.own)
      (requests : t.requests =
        s.requests ++ [⟨a.worker,headers,jarCookies store (s.jars a.thread) url⟩])
  | keeps (requests : t.requests = s.requests) (jars : t.jars = s.jars)
      (own : ∀ worker, s.own worker ⊆ t.own worker)
  | fills (requests : t.requests = s.requests) (own : ∀ worker, s.own worker ⊆ t.own worker)
      (elsewhere : ∀ thread, thread ≠ a.thread → t.jars thread = s.jars thread)
      (here : ∀ url, ∀ cookie ∈ store.matching (t.jars a.thread) url,
        store.raw cookie ∈ t.own a.worker ∨ cookie ∈ store.matching (s.jars a.thread) url)

theorem acquire_own (cookies : List store.RawCookie) (worker : Nat) :
    s.own worker ⊆ (s.acquire a.worker cookies).own worker := by
  intro cookie member
  by_cases here : worker = a.worker
  · subst here; simp [State.acquire,member]
  · simpa [State.acquire,here] using member

theorem acquired (cookies : List store.RawCookie) {cookie : store.RawCookie}
    (member : cookie ∈ cookies) : cookie ∈ (s.acquire a.worker cookies).own a.worker := by
  simp [State.acquire,member]

theorem step_cases (lawful : store.Lawful) (taken : step s a = some t) : Stepped s a t := by
  have elsewhere (jar : store.Jar) (thread : Nat) (other : thread ≠ a.thread) :
      Function.update s.jars a.thread jar thread = s.jars thread :=
    Function.update_of_ne other jar s.jars
  simp only [step] at taken
  split at taken
  next url headers _ _ =>
    obtain rfl := Option.some.inj taken
    exact .sends url _ rfl rfl rfl
  next setCookieHeaders url _ _ =>
    obtain rfl := Option.some.inj taken
    refine .fills rfl (acquire_own _) (elsewhere _) ?_
    intro other cookie member
    simp only [State.acquire,State.setJar,Function.update_self] at member
    exact (storeResponseCookies_matching lawful url setCookieHeaders _ other cookie member).imp_left
      (acquired _)
  next =>
    obtain rfl := Option.some.inj taken
    exact .keeps rfl rfl fun _ _ => id
  next url cookie _ _ =>
    split at taken
    next filled inserted =>
      obtain rfl := Option.some.inj taken
      obtain ⟨parsed,_,inserted⟩ := Option.bind_eq_some_iff.mp inserted
      refine .fills rfl (acquire_own _) (elsewhere _) ?_
      intro other old member
      simp only [State.acquire,State.setJar,Function.update_self] at member
      exact (lawful.insert_matching cookie parsed _ _ inserted other old member).imp_left fun same =>
        acquired _ (List.mem_singleton.mpr same)
    next =>
      obtain rfl := Option.some.inj taken
      exact .keeps rfl rfl fun _ _ => id
  next url name _ _ =>
    split at taken
    next parsed _ =>
      obtain rfl := Option.some.inj taken
      refine .fills rfl (fun _ _ => id) (elsewhere _) fun other cookie member => .inr ?_
      simp only [State.setJar,Function.update_self] at member
      exact jarDelete_matching lawful parsed name _ other cookie member
    next =>
      obtain rfl := Option.some.inj taken
      exact .keeps rfl rfl fun _ _ => id
  next =>
    obtain rfl := Option.some.inj taken
    refine .fills rfl (fun _ _ => id) (elsewhere _) ?_
    intro other cookie member
    simp [State.setJar,lawful.clear_matching] at member
  next => contradiction

/-- Every cookie in the jar of a thread came from a worker that runs there. -/
structure Sourced (on : Nat → Nat → Prop) (s : State store) : Prop where
  jars : ∀ thread url, ∀ cookie ∈ store.matching (s.jars thread) url,
    ∃ worker, on worker thread ∧ store.raw cookie ∈ s.own worker
  isolated : Isolated s

theorem initial_sourced (lawful : store.Lawful) (on : Nat → Nat → Prop) :
    Sourced on (initial store) := by
  constructor
  · intro thread url cookie member
    simp [initial,lawful.default_matching] at member
  · intro request member
    simp [initial] at member

theorem step_sourced {on : Nat → Nat → Prop} (lawful : store.Lawful)
    (apart : ∀ thread w w', on w thread → on w' thread → w = w') (valid : Sourced on s)
    (placed : on a.worker a.thread) (taken : step s a = some t) : Sourced on t := by
  obtain ⟨jars,isolated⟩ := valid
  cases step_cases lawful taken with
  | sends url headers sameJars own requests =>
    constructor
    · intro thread other cookie member
      rw [own]
      exact jars thread other cookie (sameJars ▸ member)
    · intro request member cookie sent
      rw [own]
      rw [requests,List.mem_append,List.mem_singleton] at member
      rcases member with old | rfl
      · exact isolated request old cookie sent
      · obtain ⟨parsed,matched⟩ := jarCookies_subset sent
        obtain ⟨worker,there,owned⟩ := jars a.thread parsed cookie matched
        exact apart a.thread worker a.worker there placed ▸ owned
  | keeps requests sameJars own =>
    constructor
    · intro thread other cookie member
      obtain ⟨worker,there,owned⟩ := jars thread other cookie (sameJars ▸ member)
      exact ⟨worker,there,own worker owned⟩
    · intro request member cookie sent
      exact own _ (isolated request (requests ▸ member) cookie sent)
  | fills requests own elsewhere here =>
    have kept (thread : Nat) (url : store.Url) (cookie : store.Cookie)
        (member : cookie ∈ store.matching (s.jars thread) url) :
        ∃ worker, on worker thread ∧ store.raw cookie ∈ t.own worker := by
      obtain ⟨worker,there,owned⟩ := jars thread url cookie member
      exact ⟨worker,there,own worker owned⟩
    constructor
    · intro thread other cookie member
      by_cases hit : thread = a.thread
      · subst thread
        rcases here other cookie member with new | old
        · exact ⟨a.worker,placed,new⟩
        · exact kept _ other cookie old
      · rw [elsewhere thread hit] at member
        exact kept thread other cookie member
    · intro request member cookie sent
      exact own _ (isolated request (requests ▸ member) cookie sent)

theorem placed_sourced {on : Nat → Nat → Prop} (lawful : store.Lawful)
    (apart : ∀ thread w w', on w thread → on w' thread → w = w') {actions : List (Action store)}
    (placed : Placed on actions) (valid : Sourced on s)
    (run : Machine.exec step s actions = some t) : Sourced on t :=
  Machine.exec_allowed (Sourced on) (fun a : Action store => on a.worker a.thread)
    (fun _ _ _ => step_sourced lawful apart) run placed valid

/-- One worker gets a cookie, and the next one on the thread sends it. -/
def visits (text header : String) (thread w w' : Nat) : List (Action store) :=
  [⟨w,thread,.sendHop text []⟩,⟨w,thread,.receive [header]⟩,⟨w',thread,.sendHop text []⟩]

theorem visits_leak (text header : String) {url : store.Url} {cookie : store.RawCookie}
    {stored : store.Cookie} (isUrl : store.parseUrl text = some url)
    (isCookie : store.parseCookie header = some cookie)
    (comesBack : stored ∈ store.matching (store.storeResponseCookies [cookie] url store.default) url)
    (thread : Nat) {w w' : Nat} (other : w ≠ w') :
    ∃ s, Machine.exec step (initial store) (visits text header thread w w') = some s ∧
      ¬Isolated s := by
  refine ⟨_,by simp [visits,Machine.exec_cons,step,initial]; rfl,?_⟩
  intro isolated
  have own := isolated ⟨w',applyJarCookies store
    (store.storeResponseCookies [cookie] url store.default) text [],
    store.matching (store.storeResponseCookies [cookie] url store.default) url⟩ ?_ stored comesBack
  · simp [State.acquire,State.setJar,Ne.symm other] at own
  · simp [State.acquire,State.setJar,storeResponseCookies,jarCookies,isUrl,isCookie]

/-- Cookies stay with their worker in all runs exactly when no thread runs two workers. -/
theorem isolated_iff (lawful : store.Lawful) (keeps : store.Keeps) (on : Nat → Nat → Prop) :
    (∀ actions s, Placed on actions → Machine.exec step (initial store) actions = some s →
      Isolated s) ↔ ∀ thread w w', on w thread → on w' thread → w = w' := by
  constructor
  · intro isolated thread w w' here there
    by_contra other
    obtain ⟨text,url,header,cookie,stored,isUrl,isCookie,comesBack⟩ := keeps
    obtain ⟨s,run,leaked⟩ := visits_leak text header isUrl isCookie comesBack thread other
    refine leaked (isolated _ s ?_ run)
    intro a member
    simp only [visits,List.mem_cons,List.not_mem_nil,or_false] at member
    rcases member with rfl | rfl | rfl
    · exact here
    · exact here
    · exact there
  · intro apart actions s placed run
    exact (placed_sourced lawful apart placed (initial_sourced lawful on) run).isolated

/-- A host-only cookie without attributes. -/
structure HostCookie where
  name : String
  value : String
  host : String
  deriving DecidableEq

def hostUrl (text : String) : Option String :=
  if "https://".toList.isPrefixOf text.toList then
    some (String.ofList ((text.toList.drop 8).takeWhile (· ≠ '/')))
  else none

def hostCookie (header : String) : Option (String × String) :=
  match header.toList.span (· ≠ '=') with
  | (name,_ :: value) => some (String.ofList name,String.ofList value)
  | _ => none

def hostRemove (name host : String) (jar : List HostCookie) : List HostCookie :=
  jar.filter fun cookie => !(cookie.name == name && cookie.host == host)

/-- A stored cookie replaces the one of its name and host. -/
def hostInsert (host : String) (jar : List HostCookie) (raw : String × String) : List HostCookie :=
  ⟨raw.1,raw.2,host⟩ :: hostRemove raw.1 host jar

/-- The store as it is on plain cookies of plain `https` URLs. -/
def hostStore : CookieStore where
  Url := String
  RawCookie := String × String
  Cookie := HostCookie
  Jar := List HostCookie
  parseUrl := hostUrl
  host := id
  parseCookie := hostCookie
  name := Prod.fst
  value := Prod.snd
  raw cookie := (cookie.name,cookie.value)
  domain cookie := some cookie.host
  path _ := "/"
  default := []
  storeResponseCookies cookies host jar := cookies.foldl (hostInsert host) jar
  insertRaw raw host jar := some (hostInsert host jar raw)
  remove domain _ name jar := hostRemove name domain jar
  clear _ := []
  matching jar host := jar.filter fun cookie => cookie.host == host

theorem hostInsert_matching (host : String) (jar : List HostCookie) (raw : String × String)
    {cookie : HostCookie} (member : cookie ∈ hostInsert host jar raw) :
    (cookie.name,cookie.value) = raw ∨ cookie ∈ jar := by
  rcases List.mem_cons.mp member with rfl | old
  · exact .inl rfl
  · exact .inr (List.mem_of_mem_filter old)

theorem hostStore_matching (cookies : List (String × String)) (host : String)
    (jar : List HostCookie) {cookie : HostCookie}
    (member : cookie ∈ cookies.foldl (hostInsert host) jar) :
    (cookie.name,cookie.value) ∈ cookies ∨ cookie ∈ jar := by
  induction cookies generalizing jar with
  | nil => exact .inr member
  | cons raw rest ih =>
    rcases ih _ member with later | earlier
    · exact .inl (List.mem_cons_of_mem _ later)
    · rcases hostInsert_matching host jar raw earlier with rfl | old
      · exact .inl (List.mem_cons_self ..)
      · exact .inr old

theorem hostStore_lawful : hostStore.Lawful where
  default_matching _ := rfl
  store_matching cookies host jar other cookie member := by
    obtain ⟨stored,keyed⟩ := List.mem_filter.mp member
    exact (hostStore_matching cookies host jar stored).imp_right fun old =>
      List.mem_filter.mpr ⟨old,keyed⟩
  insert_matching raw host jar filled inserted other cookie member := by
    obtain rfl := Option.some.inj inserted
    obtain ⟨stored,keyed⟩ := List.mem_filter.mp member
    exact (hostInsert_matching host jar raw stored).imp_right fun old =>
      List.mem_filter.mpr ⟨old,keyed⟩
  remove_matching domain path name jar other cookie member := by
    obtain ⟨kept,keyed⟩ := List.mem_filter.mp member
    exact List.mem_filter.mpr ⟨List.mem_of_mem_filter kept,keyed⟩
  clear_matching _ _ := rfl

theorem session_url : hostUrl "https://shop.test/" = some "shop.test" := by decide +kernel

theorem session_cookie : hostCookie "session=alice" = some ("session","alice") := by decide +kernel

theorem session_comes_back : (⟨"session","alice","shop.test"⟩ : HostCookie) ∈
    ([("session","alice")].foldl (hostInsert "shop.test") []).filter
      fun cookie => cookie.host == "shop.test" := by decide +kernel

theorem hostStore_keeps : hostStore.Keeps :=
  ⟨"https://shop.test/","shop.test","session=alice",("session","alice"),
    ⟨"session","alice","shop.test"⟩,session_url,session_cookie,session_comes_back⟩

/-- The session of the first worker goes out with the request of the second. -/
theorem session_sent_by_other_worker :
    ∃ s, Machine.exec step (initial hostStore)
        [⟨0,0,.sendHop "https://shop.test/" []⟩,⟨0,0,.receive ["session=alice"]⟩,
          ⟨1,0,.sendHop "https://shop.test/" []⟩] = some s ∧ ¬Isolated s := by
  have isUrl : hostStore.parseUrl "https://shop.test/" = some "shop.test" := session_url
  have isCookie : hostStore.parseCookie "session=alice" = some ("session","alice") := session_cookie
  exact visits_leak "https://shop.test/" "session=alice" isUrl isCookie session_comes_back 0 (by decide)

theorem isolated_on_own_threads :
    ∃ s, Machine.exec step (initial hostStore)
        [⟨0,0,.sendHop "https://shop.test/" []⟩,⟨0,0,.receive ["session=alice"]⟩,
          ⟨1,1,.sendHop "https://shop.test/" []⟩] = some s ∧ Isolated s := by
  have ended : ∃ s, Machine.exec step (initial hostStore)
      [⟨0,0,.sendHop "https://shop.test/" []⟩,⟨0,0,.receive ["session=alice"]⟩,
        ⟨1,1,.sendHop "https://shop.test/" []⟩] = some s ∧ True := by decide +kernel
  obtain ⟨s,run,_⟩ := ended
  have apart (thread w w' : Nat) (here : w = thread) (there : w' = thread) : w = w' :=
    here.trans there.symm
  refine ⟨s,run,(isolated_iff hostStore_lawful hostStore_keeps (· = ·)).mpr apart _ s ?_ run⟩
  simp [Placed]

end Fusillade.Bridge.CookieJar
