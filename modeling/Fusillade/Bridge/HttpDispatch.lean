import Fusillade.Bridge.FormData
import Fusillade.Bridge.DefaultHeaders
import Fusillade.Bridge.ScriptSleep
import Fusillade.Lib.Machine

/-! The requests of a script. Each goes through `dispatch`: the hooks before it, the native calls
with their retries, and the hooks after it. The functions of the script (hooks, `retryOn`,
`retryDelayFn`) may do whatever they like, to the hooks and to the request as well, so what they
leave is part of the event; requests of their own are dispatches apart from this one. -/
namespace Fusillade.Bridge.HttpDispatch

open CodeUnits DefaultHeaders
open Stats (F64)

structure Hooks (Fn : Type) where
  beforeRequest : List Fn
  afterResponse : List Fn
  deriving DecidableEq

inductive Registration (Fn : Type) where
  | addHook (hookType : String) (fn : Fn)
  | clearHooks

def Hooks.register {Fn : Type} (hooks : Hooks Fn) : Registration Fn → Hooks Fn
  | .addHook hookType fn =>
    if hookType = "beforeRequest" then { hooks with beforeRequest := hooks.beforeRequest ++ [fn] }
    else if hookType = "afterResponse" then { hooks with afterResponse := hooks.afterResponse ++ [fn] }
    else hooks
  | .clearHooks => ⟨[],[]⟩

def registered {Fn : Type} (calls : List (Registration Fn)) : Hooks Fn :=
  calls.foldl Hooks.register ⟨[],[]⟩

def Registration.clears {Fn : Type} : Registration Fn → Bool
  | .clearHooks => true
  | _ => false

def Registration.adds {Fn : Type} (hookType : String) : Registration Fn → Option Fn
  | .addHook given fn => if given = hookType then some fn else none
  | .clearHooks => none

/-- The functions that were added as this type of hook since the last `clearHooks`, in their order. -/
def added {Fn : Type} (hookType : String) (calls : List (Registration Fn)) : List Fn :=
  (calls.rtakeWhile (!·.clears)).filterMap (Registration.adds hookType)

theorem registered_eq {Fn : Type} (calls : List (Registration Fn)) :
    registered calls = ⟨added "beforeRequest" calls,added "afterResponse" calls⟩ := by
  induction calls using List.reverseRecOn with
  | nil => rfl
  | append_singleton calls last ih =>
    rw [registered,List.foldl_append,← registered,ih]
    cases last with
    | clearHooks => simp [added,Hooks.register,Registration.clears]
    | addHook hookType fn =>
      have both : hookType = "beforeRequest" → hookType ≠ "afterResponse" := by rintro rfl; decide
      by_cases first : hookType = "beforeRequest"
      · simp [added,Hooks.register,Registration.clears,Registration.adds,first]
      · by_cases second : hookType = "afterResponse" <;>
          simp [added,Hooks.register,Registration.clears,Registration.adds,first,second]

/-- The request while it is dispatched. After the hooks its headers are those of the object that
is also in the options of the native call. -/
structure Request where
  method : String
  url : String
  body : Option Text
  headers : HeaderMap
  deriving DecidableEq

structure Wire where
  method : String
  url : String
  body : Option Text
  headers : HeaderMap
  deriving DecidableEq

def bodyless (method url : String) (headers : HeaderMap) : Wire := ⟨method,url,none,headers⟩

def withBody (method url : String) (body : Text) (headers : HeaderMap) : Wire :=
  ⟨method,url,some body,defaultContentType headers⟩

def anyMethod (method url : String) (body : Option Text) (headers : HeaderMap) : Wire :=
  ⟨method.toUpper,url,body,headers⟩

def callNative (req : Request) : Wire :=
  match req.method with
  | "GET" => bodyless "GET" req.url req.headers
  | "POST" => withBody "POST" req.url (req.body.getD []) req.headers
  | "PUT" => withBody "PUT" req.url (req.body.getD []) req.headers
  | "PATCH" => withBody "PATCH" req.url (req.body.getD []) req.headers
  | "DELETE" =>
    match req.body with
    | none => bodyless "DELETE" req.url req.headers
    | some body => anyMethod "DELETE" req.url (some body) req.headers
  | "HEAD" => bodyless "HEAD" req.url req.headers
  | "OPTIONS" => bodyless "OPTIONS" req.url req.headers
  | method => anyMethod method req.url req.body req.headers

theorem callNative_headers (req : Request) : (callNative req).headers = nativeHeaders req.method req.headers := by
  unfold callNative
  split <;> try simp_all [nativeHeaders,bodyless,withBody]
  next => cases req.body <;> rfl
  next => simp_all [anyMethod]

/-- `fd.contentType()`, with the digits that its boundary is drawn from. -/
def contentType (random : List (Fin 16)) : String :=
  "multipart/form-data; boundary=" ++ String.ofList ((FormData.boundary random).map Char.ofNat)

/-- A body that is nothing but a file becomes a form of one part. `display` is what other
values than texts are shown as in it. -/
def expandFile (display : Option JsonReader.Value → Option Text) (random : List (Fin 16))
    (req : Request) : Option Request :=
  match req.body with
  | none => some req
  | some marker =>
    match FormData.parseFileMarker marker with
    | none => some req
    | some _ =>
      (FormData.body display (FormData.boundary random) [(ascii "file",marker)]).map fun body =>
        { req with body := some body, headers := req.headers.insert "Content-Type" (contentType random) }

/-- The request that the arguments of `dispatch` and the default headers come to. -/
def request (defaults : Option HeaderMap) (method : Option String) (url : String) (body : Option Text)
    (headers : Option HeaderMap) : Request :=
  ⟨(method.getD "GET").toUpper,url,body,mergeDefaults defaults headers⟩

/-- The merged options that `dispatch` itself looks at; of the functions whether they are there. -/
structure Options where
  retry : Option F64 := none
  retryDelay : Option F64 := none
  retryOn : Bool := false
  retryDelayFn : Bool := false

def Options.retries (merged : Options) : F64 := merged.retry.getD (.finite 0)

/-- `attempt <= retries` -/
def Options.allows (merged : Options) (attempt : Nat) : Bool := F64.le (.finite attempt) merged.retries

def Options.delayMs (merged : Options) (attempt : Nat) : F64 :=
  ScriptSleep.delayMs ⟨merged.retry,merged.retryDelay,none⟩ attempt

inductive Phase (Res : Type) where
  | before (i : Nat)
  | calling (attempt : Nat)
  | responded (attempt : Nat) (res : Res)
  | pausing (attempt : Nat) (res : Res)
  | after (i : Nat) (res : Res)
  | returned (res : Res)
  | thrown
  deriving DecidableEq

structure State (Fn Res : Type) where
  hooks : Hooks Fn
  req : Request
  phase : Phase Res := .before 0
  deriving DecidableEq

structure Left (Fn : Type) where
  hooks : Option (Hooks Fn) := none
  req : Option Request := none
  deriving DecidableEq

inductive Event (Fn Res : Type) where
  | beforeHook (fn : Fn) (left : Left Fn)
  | expand (random : List (Fin 16))
  /-- The response, or none where the function throws. -/
  | native (wire : Wire) (answer : Option Res)
  | judge (shouldRetry : Option Bool) (left : Left Fn)
  | giveUp
  /-- The sleep may come to no end. -/
  | pause (delay : Option F64) (left : Left Fn) (slept : Bool)
  | afterHook (fn : Fn) (res : Res) (left : Left Fn)
  | finish

section

variable {Fn Res : Type} [DecidableEq Fn] [DecidableEq Res]

def State.leave (s : State Fn Res) (left : Left Fn) (phase : Phase Res) : State Fn Res :=
  ⟨left.hooks.getD s.hooks,left.req.getD s.req,phase⟩

variable (merged : Options) (status : Res → Nat) (display : Option JsonReader.Value → Option Text)

def step (s : State Fn Res) : Event Fn Res → Option (State Fn Res)
  | .beforeHook fn left =>
    match s.phase with
    | .before i => if s.hooks.beforeRequest[i]? = some fn then some (s.leave left (.before (i + 1))) else none
    | _ => none
  | .expand random =>
    match s.phase with
    | .before i =>
      if s.hooks.beforeRequest.length ≤ i then
        match expandFile display random s.req with
        | some req => some ⟨s.hooks,req,.calling 0⟩
        | none => some { s with phase := .thrown }
      else none
    | _ => none
  | .native wire answer =>
    match s.phase with
    | .calling attempt =>
      if wire = callNative s.req then
        match answer with
        | some res => some { s with phase := .responded (attempt + 1) res }
        | none => some { s with phase := .thrown }
      else none
    | _ => none
  | .judge shouldRetry left =>
    match s.phase with
    | .responded attempt res =>
      if merged.allows attempt ∧ (merged.retryOn ∨ shouldRetry = some (status res == 0) ∧ left = {}) then
        match shouldRetry with
        | some true => some (s.leave left (.pausing attempt res))
        | some false => some (s.leave left (.after 0 res))
        | none => some (s.leave left .thrown)
      else none
    | _ => none
  | .giveUp =>
    match s.phase with
    | .responded attempt res => if merged.allows attempt then none else some { s with phase := .after 0 res }
    | _ => none
  | .pause delay left slept =>
    match s.phase with
    | .pausing attempt _ =>
      if merged.retryDelayFn ∨ delay = some (merged.delayMs attempt) ∧ left = {} then
        match delay with
        | some delay =>
          if slept then some (s.leave left (.calling attempt))
          else if delay.positive then some (s.leave left .thrown) else none
        | none => some (s.leave left .thrown)
      else none
    | _ => none
  | .afterHook fn last left =>
    match s.phase with
    | .after i res =>
      if s.hooks.afterResponse[i]? = some fn ∧ last = res then some (s.leave left (.after (i + 1) res))
      else none
    | _ => none
  | .finish =>
    match s.phase with
    | .after i res =>
      if s.hooks.afterResponse.length ≤ i then some { s with phase := .returned res } else none
    | _ => none

inductive Step (s : State Fn Res) : Event Fn Res → State Fn Res → Prop where
  | beforeHook {i fn left} : s.phase = .before i → s.hooks.beforeRequest[i]? = some fn →
      Step s (.beforeHook fn left) (s.leave left (.before (i + 1)))
  | expand {i random req} : s.phase = .before i → s.hooks.beforeRequest.length ≤ i →
      expandFile display random s.req = some req → Step s (.expand random) ⟨s.hooks,req,.calling 0⟩
  | unreadable {i random} : s.phase = .before i → s.hooks.beforeRequest.length ≤ i →
      expandFile display random s.req = none → Step s (.expand random) { s with phase := .thrown }
  | answered {attempt res} : s.phase = .calling attempt →
      Step s (.native (callNative s.req) (some res)) { s with phase := .responded (attempt + 1) res }
  | failed {attempt} : s.phase = .calling attempt →
      Step s (.native (callNative s.req) none) { s with phase := .thrown }
  | retry {attempt res left} : s.phase = .responded attempt res → merged.allows attempt →
      (merged.retryOn = false → status res = 0 ∧ left = {}) →
      Step s (.judge (some true) left) (s.leave left (.pausing attempt res))
  | accept {attempt res left} : s.phase = .responded attempt res → merged.allows attempt →
      (merged.retryOn = false → status res ≠ 0 ∧ left = {}) →
      Step s (.judge (some false) left) (s.leave left (.after 0 res))
  | judgeThrows {attempt res left} : s.phase = .responded attempt res → merged.allows attempt →
      Step s (.judge none left) (s.leave left .thrown)
  | giveUp {attempt res} : s.phase = .responded attempt res → merged.allows attempt = false →
      Step s .giveUp { s with phase := .after 0 res }
  | slept {attempt res delay left} : s.phase = .pausing attempt res →
      (merged.retryDelayFn = false → delay = merged.delayMs attempt ∧ left = {}) →
      Step s (.pause (some delay) left true) (s.leave left (.calling attempt))
  | overslept {attempt res delay left} : s.phase = .pausing attempt res → F64.positive delay →
      Step s (.pause (some delay) left false) (s.leave left .thrown)
  | delayThrows {attempt res left slept} : s.phase = .pausing attempt res →
      Step s (.pause none left slept) (s.leave left .thrown)
  | afterHook {i res fn left} : s.phase = .after i res → s.hooks.afterResponse[i]? = some fn →
      Step s (.afterHook fn res left) (s.leave left (.after (i + 1) res))
  | finish {i res} : s.phase = .after i res → s.hooks.afterResponse.length ≤ i →
      Step s .finish { s with phase := .returned res }

variable {merged status display} {s t : State Fn Res} {e : Event Fn Res}

theorem step_cases (taken : step merged status display s e = some t) : Step merged status display s e t := by
  cases e with
  | beforeHook fn left =>
    simp only [step] at taken
    split at taken <;> try cases taken
    split at taken <;> cases taken
    exact .beforeHook ‹_› ‹_›
  | expand random =>
    simp only [step] at taken
    split at taken <;> try cases taken
    split at taken <;> try cases taken
    split at taken <;> cases taken
    · exact .expand ‹_› ‹_› ‹_›
    · exact .unreadable ‹_› ‹_› ‹_›
  | native wire answer =>
    simp only [step] at taken
    split at taken <;> try cases taken
    split at taken
    next same =>
      subst same
      split at taken <;> cases taken
      · exact .answered ‹_›
      · exact .failed ‹_›
    next => cases taken
  | judge shouldRetry left =>
    simp only [step] at taken
    split at taken <;> try cases taken
    split at taken
    next allowed =>
      obtain ⟨allowed,plain⟩ := allowed
      split at taken <;> cases taken
      · exact .retry ‹_› allowed fun none => by simpa [none] using plain
      · exact .accept ‹_› allowed fun none => by simpa [none] using plain
      · exact .judgeThrows ‹_› allowed
    next => cases taken
  | giveUp =>
    simp only [step] at taken
    split at taken <;> try cases taken
    split at taken <;> cases taken
    exact .giveUp ‹_› (Bool.eq_false_iff.mpr ‹_›)
  | pause delay left slept =>
    simp only [step] at taken
    split at taken <;> try cases taken
    split at taken
    next allowed =>
      split at taken
      next =>
        split at taken
        next here =>
          cases taken
          subst here
          exact .slept ‹_› fun none => by simpa [none] using allowed
        next awake =>
          split at taken <;> cases taken
          obtain rfl := Bool.eq_false_iff.mpr awake
          exact .overslept ‹_› ‹_›
      next =>
        cases taken
        exact .delayThrows ‹_›
    next => cases taken
  | afterHook fn last left =>
    simp only [step] at taken
    split at taken <;> try cases taken
    split at taken <;> cases taken
    next phase called =>
    obtain ⟨next,rfl⟩ := called
    exact .afterHook phase next
  | finish =>
    simp only [step] at taken
    split at taken <;> try cases taken
    split at taken <;> cases taken
    exact .finish ‹_› ‹_›

def Event.wire : Event Fn Res → Option Wire
  | .native wire _ => some wire
  | _ => none

def Event.answer : Event Fn Res → Option Res
  | .native _ answer => answer
  | _ => none

def Event.verdict : Event Fn Res → Option Bool
  | .judge shouldRetry _ => shouldRetry
  | _ => none

inductive Mark where
  | call
  | judged (shouldRetry : Bool)
  deriving DecidableEq

def Event.mark : Event Fn Res → Option Mark
  | .native .. => some .call
  | .judge shouldRetry _ => shouldRetry.map .judged
  | _ => none

/-- So many calls of which each was answered and judged to be retried. -/
def retried (n : Nat) : List Mark := (List.replicate n [Mark.call,.judged true]).flatten

/-- Behind these there is one more call at most, and a judgement that its response is kept. -/
def InTurn (merged : Options) (events : List (Event Fn Res)) : Prop :=
  ∃ n last, events.filterMap Event.mark = retried n ++ last ∧
    last ∈ [[],[Mark.call],[.call,.judged false]] ∧ (n = 0 ∨ merged.allows n)

/-- The native function has been called once and then `n` times again: the response is the
last one, and all before it were to be retried. -/
structure Answered (merged : Options) (events : List (Event Fn Res)) (n : Nat) (res : Res) : Prop where
  calls : (events.filterMap Event.wire).length = n + 1
  answers : ∃ earlier, earlier.length = n ∧ events.filterMap Event.answer = earlier ++ [res]
  allowed : n = 0 ∨ merged.allows n

/-- The response is the one to keep: it was judged so, or there may be no other try. -/
def Kept (merged : Options) (events : List (Event Fn Res)) (n : Nat) : Prop :=
  events.filterMap Event.verdict = List.replicate n true ++ [false] ∨
    events.filterMap Event.verdict = List.replicate n true ∧ merged.allows (n + 1) = false

def Attempts (merged : Options) (events : List (Event Fn Res)) (s : State Fn Res) : Prop :=
  match s.phase with
  | .before _ => events.filterMap Event.wire = [] ∧ events.filterMap Event.answer = [] ∧
      events.filterMap Event.verdict = []
  | .calling attempt => (events.filterMap Event.wire).length = attempt ∧
      (events.filterMap Event.answer).length = attempt ∧
      events.filterMap Event.verdict = List.replicate attempt true ∧ (attempt = 0 ∨ merged.allows attempt)
  | .responded attempt res => ∃ n, attempt = n + 1 ∧ Answered merged events n res ∧
      events.filterMap Event.verdict = List.replicate n true
  | .pausing attempt res => ∃ n, attempt = n + 1 ∧ Answered merged events n res ∧
      events.filterMap Event.verdict = List.replicate (n + 1) true ∧ merged.allows (n + 1)
  | .after _ res | .returned res => ∃ n, Answered merged events n res ∧ Kept merged events n
  | .thrown => True

/-- The calls and judgements at each point of a dispatch. -/
def Turns (merged : Options) (events : List (Event Fn Res)) (s : State Fn Res) : Prop :=
  match s.phase with
  | .before _ => events.filterMap Event.mark = []
  | .calling attempt | .pausing attempt _ => events.filterMap Event.mark = retried attempt ∧
      (attempt = 0 ∨ merged.allows attempt)
  | .responded attempt _ => ∃ n, attempt = n + 1 ∧ events.filterMap Event.mark = retried n ++ [.call] ∧
      (n = 0 ∨ merged.allows n)
  | .after .. | .returned _ | .thrown => InTurn merged events

omit [DecidableEq Fn] [DecidableEq Res] in
theorem Answered.append {events : List (Event Fn Res)} {n : Nat} {res : Res}
    (answered : Answered merged events n res) (wire : e.wire = none) (answer : e.answer = none) :
    Answered merged (events ++ [e]) n res where
  calls := by simp [answered.calls,wire]
  answers := by simpa [answer] using answered.answers
  allowed := answered.allowed

theorem attempts_step {past : List (Event Fn Res)} (holds : Attempts merged past s)
    (taken : step merged status display s e = some t) : Attempts merged (past ++ [e]) t := by
  cases step_cases taken with
  | beforeHook reached | expand reached =>
    simp only [Attempts,reached] at holds
    simp [Attempts,State.leave,holds,Event.wire,Event.answer,Event.verdict]
  | unreadable | failed | judgeThrows | overslept | delayThrows => trivial
  | @answered attempt res reached =>
    simp only [Attempts,reached] at holds
    obtain ⟨calls,answers,verdicts,allowed⟩ := holds
    refine ⟨attempt,rfl,⟨by simp [calls,Event.wire],⟨_,answers,by simp [Event.answer]⟩,allowed⟩,?_⟩
    simp [verdicts,Event.verdict]
  | retry reached allowed =>
    simp only [Attempts,reached] at holds
    obtain ⟨n,rfl,answered,verdicts⟩ := holds
    refine ⟨n,rfl,answered.append rfl rfl,?_,allowed⟩
    simp [verdicts,Event.verdict,List.replicate_succ']
  | accept reached allowed =>
    simp only [Attempts,reached] at holds
    obtain ⟨n,rfl,answered,verdicts⟩ := holds
    exact ⟨n,answered.append rfl rfl,.inl (by simp [verdicts,Event.verdict])⟩
  | giveUp reached refused =>
    simp only [Attempts,reached] at holds
    obtain ⟨n,rfl,answered,verdicts⟩ := holds
    exact ⟨n,answered.append rfl rfl,.inr ⟨by simp [verdicts,Event.verdict],refused⟩⟩
  | slept reached =>
    simp only [Attempts,reached] at holds
    obtain ⟨n,rfl,answered,verdicts,allowed⟩ := holds
    obtain ⟨earlier,length,answers⟩ := answered.answers
    refine ⟨by simp [answered.calls,Event.wire],by simp [answers,length,Event.answer],?_,.inr allowed⟩
    simp [verdicts,Event.verdict]
  | afterHook reached | finish reached =>
    simp only [Attempts,reached] at holds
    obtain ⟨n,answered,kept⟩ := holds
    refine ⟨n,answered.append rfl rfl,?_⟩
    simpa [Kept,List.filterMap_cons,Event.verdict] using kept

theorem retried_succ (n : Nat) : retried (n + 1) = retried n ++ [.call,.judged true] := by
  rw [retried,List.replicate_succ',List.flatten_append]
  simp [retried]

theorem turns_step {past : List (Event Fn Res)} (holds : Turns merged past s)
    (taken : step merged status display s e = some t) : Turns merged (past ++ [e]) t := by
  have unmarked (none : e.mark = none) : (past ++ [e]).filterMap Event.mark = past.filterMap Event.mark := by
    simp [none]
  cases step_cases taken with
  | beforeHook now =>
    simp only [Turns,now] at holds
    exact (unmarked rfl).trans holds
  | expand now =>
    simp only [Turns,now] at holds
    exact ⟨(unmarked rfl).trans holds,.inl rfl⟩
  | unreadable now =>
    simp only [Turns,now] at holds
    exact ⟨0,[],(unmarked rfl).trans holds,by simp,.inl rfl⟩
  | @answered attempt _ now =>
    simp only [Turns,now] at holds
    exact ⟨attempt,rfl,by simp [holds.1,Event.mark],holds.2⟩
  | @failed attempt now =>
    simp only [Turns,now] at holds
    exact ⟨attempt,[.call],by simp [holds.1,Event.mark],by simp,holds.2⟩
  | retry now allowed =>
    simp only [Turns,now] at holds
    obtain ⟨n,rfl,marks,-⟩ := holds
    exact ⟨by simp [marks,Event.mark,retried_succ],.inr allowed⟩
  | accept now =>
    simp only [Turns,now] at holds
    obtain ⟨n,-,marks,allowed⟩ := holds
    exact ⟨n,[.call,.judged false],by simp [marks,Event.mark],by simp,allowed⟩
  | judgeThrows now | giveUp now =>
    simp only [Turns,now] at holds
    obtain ⟨n,-,marks,allowed⟩ := holds
    exact ⟨n,[.call],by simp [marks,Event.mark],by simp,allowed⟩
  | slept now =>
    simp only [Turns,now] at holds
    exact ⟨(unmarked rfl).trans holds.1,holds.2⟩
  | @overslept attempt _ _ _ now | @delayThrows attempt _ _ _ now =>
    simp only [Turns,now] at holds
    exact ⟨attempt,[],by simp [holds.1,Event.mark],by simp,holds.2⟩
  | afterHook now | finish now =>
    simp only [Turns,now] at holds
    obtain ⟨n,last,marks,rest⟩ := holds
    exact ⟨n,last,(unmarked rfl).trans marks,rest⟩

omit [DecidableEq Fn] [DecidableEq Res] in
theorem Turns.inTurn {past : List (Event Fn Res)} (holds : Turns merged past s) : InTurn merged past := by
  unfold Turns at holds
  split at holds
  next => exact ⟨0,[],holds,by simp,.inl rfl⟩
  next => exact ⟨_,[],by simpa using holds.1,by simp,holds.2⟩
  next => exact ⟨_,[],by simpa using holds.1,by simp,holds.2⟩
  next =>
    obtain ⟨n,-,marks,allowed⟩ := holds
    exact ⟨n,[.call],marks,by simp,allowed⟩
  all_goals exact holds

variable {hooks : Hooks Fn} {req : Request} {events : List (Event Fn Res)}

theorem dispatch_answered
    (run : Machine.exec (step merged status display) ⟨hooks,req,.before 0⟩ events = some s) {res : Res}
    (returned : s.phase = .returned res) : ∃ n, Answered merged events n res ∧ Kept merged events n := by
  have first : Attempts merged [] (⟨hooks,req,.before 0⟩ : State Fn Res) := ⟨rfl,rfl,rfl⟩
  have told := Machine.exec_history (Attempts merged) first (fun _ _ _ _ => attempts_step) run
  simpa only [Attempts,returned] using told

/-- Whatever the functions of the script do, and also in a dispatch that throws, a request is sent
once and then no more often than `retry` allows, each time after a response that was judged to be
retried; the caller gets the last response. -/
theorem dispatch_attempts (run : Machine.exec (step merged status display) ⟨hooks,req,.before 0⟩ events = some s) :
    InTurn merged events ∧
      ∀ res, s.phase = .returned res → ∃ n, Answered merged events n res ∧ Kept merged events n := by
  have start : Turns merged [] (⟨hooks,req,.before 0⟩ : State Fn Res) := rfl
  have turns := Machine.exec_history (Turns merged) start (fun _ _ _ _ => turns_step) run
  exact ⟨turns.inTurn,fun res returned => dispatch_answered run returned⟩

def page : Request := ⟨"GET","/",none,∅⟩

def signed : Request := ⟨"GET","/?signed",none,∅⟩

def flaky : List (Event Nat Nat) :=
  [.beforeHook 0 ⟨none,some signed⟩,.expand [],.native (callNative signed) (some 0),.judge (some true) {},
    .pause (some (.finite 100)) {} true,.native (callNative signed) (some 200),.giveUp,
    .afterHook 2 200 {},.afterHook 1 200 {},.finish]

def hooking : List (Registration Nat) :=
  [.addHook "afterResponse" 3,.clearHooks,.addHook "afterResponse" 2,.addHook "beforeRequest" 0,
    .addHook "afterResponse" 1]

theorem flaky_run : Machine.exec
    (step ⟨some (.finite 1),none,false,true⟩ id fun _ => none) ⟨registered hooking,page,.before 0⟩ flaky =
      some ⟨⟨[0],[2,1]⟩,signed,.returned 200⟩ := by decide +kernel

/-- The second attempt never comes to an answer. -/
theorem flaky_attempts : ∃ s : State Nat Nat, Machine.exec (step ⟨some (.finite 1),none,false,true⟩ id fun _ => none)
      ⟨registered hooking,page,.before 0⟩ (flaky.take 5 ++ [.native (callNative signed) none]) = some s ∧
    s.phase = .thrown ∧
    InTurn ⟨some (.finite 1),none,false,true⟩ (flaky.take 5 ++ [.native (callNative signed) none]) ∧
    ∃ n, Answered ⟨some (.finite 1),none,false,true⟩ flaky n 200 ∧
      Kept ⟨some (.finite 1),none,false,true⟩ flaky n := by
  have run : Machine.exec (step ⟨some (.finite 1),none,false,true⟩ id fun _ => none)
      ⟨registered hooking,page,.before 0⟩ (flaky.take 5 ++ [.native (callNative signed) none]) =
        some (⟨⟨[0],[2,1]⟩,signed,.thrown⟩ : State Nat Nat) := by decide +kernel
  exact ⟨_,run,rfl,(dispatch_attempts run).1,(dispatch_attempts flaky_run).2 200 rfl⟩

def Event.left : Event Fn Res → Left Fn
  | .beforeHook _ left | .judge _ left | .pause _ left _ | .afterHook _ _ left => left
  | .expand _ | .native .. | .giveUp | .finish => {}

def Event.beforeFn : Event Fn Res → Option Fn
  | .beforeHook fn _ => some fn
  | _ => none

def Event.afterCall : Event Fn Res → Option (Fn × Res)
  | .afterHook fn res _ => some (fn,res)
  | _ => none

def Event.part : Event Fn Res → Nat
  | .beforeHook .. => 0
  | .expand _ => 1
  | .native .. | .judge .. | .giveUp | .pause .. => 2
  | .afterHook .. => 3
  | .finish => 4

/-- No function changes the hooks, and only the hooks before it change the request. -/
def Event.Quiet (e : Event Fn Res) : Prop := e.left.hooks = none ∧ (e.part ≠ 0 → e.left.req = none)

omit [DecidableEq Fn] [DecidableEq Res] in
theorem Event.Quiet.left_eq (quiet : e.Quiet) (later : e.part ≠ 0) : e.left = {} := by
  obtain ⟨hooks,req⟩ := quiet
  rw [show e.left = ⟨e.left.hooks,e.left.req⟩ from rfl,hooks,req later]

def hooked (req : Request) (events : List (Event Fn Res)) : Request :=
  events.foldl (fun req e => e.left.req.getD req) req

def Phase.part : Phase Res → Nat
  | .before _ => 0
  | .calling _ | .responded .. | .pausing .. => 2
  | .after .. => 3
  | .returned _ | .thrown => 4

theorem part_step (taken : step merged status display s e = some t) :
    s.phase.part ≤ e.part ∧ e.part ≤ t.phase.part := by
  cases step_cases taken <;> simp_all [Phase.part,Event.part,State.leave]

theorem parts_ordered (run : Machine.exec (step merged status display) ⟨hooks,req,.before 0⟩ events = some s) :
    events.Pairwise (fun e later => e.part ≤ later.part) := by
  suffices ordered : events.Pairwise (fun e later => e.part ≤ later.part) ∧ ∀ e ∈ events, e.part ≤ s.phase.part
    from ordered.1
  refine Machine.exec_history (fun (past : List (Event Fn Res)) (s : State Fn Res) =>
    past.Pairwise (fun e later => e.part ≤ later.part) ∧ ∀ e ∈ past, e.part ≤ s.phase.part)
    ⟨.nil,nofun⟩ ?_ run
  rintro past s e t ⟨ordered,below⟩ taken
  obtain ⟨up,on⟩ := part_step taken
  refine ⟨List.pairwise_append.mpr ⟨ordered,List.pairwise_singleton ..,?_⟩,?_⟩
  · intro a member b last
    obtain rfl := List.mem_singleton.mp last
    exact (below a member).trans up
  · intro a member
    rcases List.mem_append.mp member with before | last
    · exact (below a before).trans (up.trans on)
    · obtain rfl := List.mem_singleton.mp last
      exact on

/-- The hooks before the request are done, and only what they have made of it is sent. -/
structure Sending (display : Option JsonReader.Value → Option Text) (hooks : Hooks Fn) (req : Request)
    (events : List (Event Fn Res)) (sent : Request) : Prop where
  called : events.filterMap Event.beforeFn = hooks.beforeRequest
  expanded : ∃ random, expandFile display random (hooked req events) = some sent
  wires : ∀ wire ∈ events.filterMap Event.wire, wire = callNative sent

def Told (display : Option JsonReader.Value → Option Text) (hooks : Hooks Fn) (req : Request)
    (events : List (Event Fn Res)) (s : State Fn Res) : Prop :=
  s.hooks = hooks ∧
  match s.phase with
  | .before i => i ≤ hooks.beforeRequest.length ∧ events.filterMap Event.beforeFn = hooks.beforeRequest.take i ∧
      events.filterMap Event.wire = [] ∧ events.filterMap Event.afterCall = [] ∧ s.req = hooked req events
  | .calling _ | .responded .. | .pausing .. =>
      Sending display hooks req events s.req ∧ events.filterMap Event.afterCall = []
  | .after i res => Sending display hooks req events s.req ∧ i ≤ hooks.afterResponse.length ∧
      events.filterMap Event.afterCall = (hooks.afterResponse.take i).map (·,res)
  | .returned res => Sending display hooks req events s.req ∧
      events.filterMap Event.afterCall = hooks.afterResponse.map (·,res)
  | .thrown => True

omit [DecidableEq Fn] [DecidableEq Res] in
theorem Sending.append {past : List (Event Fn Res)} {sent : Request}
    (sending : Sending display hooks req past sent) (called : e.beforeFn = none) (kept : e.left.req = none)
    (wires : ∀ wire ∈ e.wire, wire = callNative sent) : Sending display hooks req (past ++ [e]) sent where
  called := by simpa [List.filterMap_cons,called] using sending.called
  expanded := by simpa [hooked,kept] using sending.expanded
  wires := by
    intro wire member
    rw [List.filterMap_append,List.mem_append] at member
    rcases member with before | now
    · exact sending.wires wire before
    · exact wires wire (by simpa using now)

omit [DecidableEq Fn] [DecidableEq Res] in
theorem take_next {fns : List Fn} {fn : Fn} {i : Nat} (next : fns[i]? = some fn) :
    i + 1 ≤ fns.length ∧ fns.take i ++ [fn] = fns.take (i + 1) := by
  obtain ⟨less,rfl⟩ := List.getElem?_eq_some_iff.mp next
  exact ⟨less,(List.take_succ_eq_append_getElem less).symm⟩

theorem told_step {past : List (Event Fn Res)} (told : Told display hooks req past s) (quiet : e.Quiet)
    (taken : step merged status display s e = some t) : Told display hooks req (past ++ [e]) t := by
  obtain ⟨same,told⟩ := told
  cases step_cases taken with
  | @beforeHook i fn left reached next =>
    simp only [reached] at told
    obtain ⟨-,called,wires,after,now⟩ := told
    rw [same] at next
    obtain ⟨inside,more⟩ := take_next next
    have untouched : left.hooks = none := quiet.1
    refine ⟨by simp [State.leave,untouched,same],inside,?_,?_,?_,?_⟩
    · rw [List.filterMap_append,called,← more]
      rfl
    · rw [List.filterMap_append,wires]
      rfl
    · rw [List.filterMap_append,after]
      rfl
    · simp [State.leave,hooked,now,Event.left]
  | expand reached done expanded =>
    simp only [reached] at told
    obtain ⟨-,called,wires,after,now⟩ := told
    rw [same] at done
    rw [List.take_of_length_le done] at called
    rw [now] at expanded
    refine ⟨same,⟨?_,⟨_,by simpa [hooked,Event.left] using expanded⟩,?_⟩,?_⟩
    · simpa [List.filterMap_cons,Event.beforeFn] using called
    · simp [List.filterMap_cons,wires,Event.wire]
    · simpa [List.filterMap_cons,Event.afterCall] using after
  | unreadable | failed => exact ⟨same,trivial⟩
  | @judgeThrows _ _ left | @overslept _ _ _ left | @delayThrows _ _ left =>
    obtain rfl : left = {} := quiet.left_eq (by simp [Event.part])
    exact ⟨same,trivial⟩
  | answered reached =>
    simp only [reached] at told
    obtain ⟨sending,after⟩ := told
    refine ⟨same,sending.append rfl rfl (by simp [Event.wire]),?_⟩
    simpa [List.filterMap_cons,Event.afterCall] using after
  | @retry _ _ left reached | @slept _ _ _ left reached =>
    obtain rfl : left = {} := quiet.left_eq (by simp [Event.part])
    simp only [reached] at told
    obtain ⟨sending,after⟩ := told
    refine ⟨same,sending.append rfl rfl (by simp [Event.wire]),?_⟩
    simpa [List.filterMap_cons,Event.afterCall] using after
  | @accept _ _ left reached =>
    obtain rfl : left = {} := quiet.left_eq (by simp [Event.part])
    simp only [reached] at told
    obtain ⟨sending,after⟩ := told
    refine ⟨same,sending.append rfl rfl (by simp [Event.wire]),Nat.zero_le _,?_⟩
    simpa [List.filterMap_cons,Event.afterCall] using after
  | giveUp reached =>
    simp only [reached] at told
    obtain ⟨sending,after⟩ := told
    refine ⟨same,sending.append rfl rfl (by simp [Event.wire]),Nat.zero_le _,?_⟩
    simpa [List.filterMap_cons,Event.afterCall] using after
  | @afterHook _ _ _ left reached next =>
    obtain rfl : left = {} := quiet.left_eq (by simp [Event.part])
    simp only [reached] at told
    obtain ⟨sending,-,called⟩ := told
    rw [same] at next
    obtain ⟨inside,more⟩ := take_next next
    refine ⟨same,sending.append rfl rfl (by simp [Event.wire]),inside,?_⟩
    rw [List.filterMap_append,called,← more,List.map_append]
    rfl
  | finish reached done =>
    simp only [reached] at told
    obtain ⟨sending,-,called⟩ := told
    rw [same] at done
    rw [List.take_of_length_le done] at called
    refine ⟨same,sending.append rfl rfl (by simp [Event.wire]),?_⟩
    simpa [List.filterMap_cons,Event.afterCall] using called

theorem told_run (run : Machine.exec (step merged status display) ⟨hooks,req,.before 0⟩ events = some s)
    (quiet : ∀ e ∈ events, e.Quiet) : Told display hooks req events s := by
  have first : Told display hooks req [] (⟨hooks,req,.before 0⟩ : State Fn Res) :=
    ⟨rfl,Nat.zero_le _,rfl,rfl,rfl,rfl⟩
  exact Machine.exec_history (fun past s => (∀ e ∈ past, e.Quiet) → Told display hooks req past s)
    (fun _ => first) (fun past s e t before taken quiet => told_step
      (before fun e member => quiet e (List.mem_append_left _ member))
      (quiet e (List.mem_append_right _ (List.mem_singleton_self e))) taken) run quiet

/-- Where the functions of the script leave the hooks as they are, and only the hooks before the
request change it, each hook is called once, in the order in which they were registered, and those
after the request with the last response; and what is sent is what the hooks before it have made of
the request, each time the same. -/
theorem hooks_called_once {calls : List (Registration Fn)}
    (run : Machine.exec (step merged status display) ⟨registered calls,req,.before 0⟩ events = some s)
    (quiet : ∀ e ∈ events, e.Quiet) {res : Res} (returned : s.phase = .returned res) :
    events.filterMap Event.beforeFn = added "beforeRequest" calls ∧
      events.filterMap Event.afterCall = (added "afterResponse" calls).map (·,res) ∧
      (events.filterMap Event.answer).getLast? = some res ∧
      events.Pairwise (fun e later => e.part ≤ later.part) ∧
      ∃ random sent, expandFile display random (hooked req events) = some sent ∧
        ∀ wire ∈ events.filterMap Event.wire, wire = callNative sent := by
  have told := told_run run quiet
  simp only [Told,returned] at told
  obtain ⟨-,sending,after⟩ := told
  have called := sending.called
  obtain ⟨random,expanded⟩ := sending.expanded
  obtain ⟨n,answered,-⟩ := dispatch_answered run returned
  obtain ⟨earlier,-,answers⟩ := answered.answers
  rw [registered_eq] at called after
  exact ⟨called,after,by rw [answers,List.getLast?_concat],parts_ordered run,random,_,expanded,
    sending.wires⟩

omit [DecidableEq Fn] [DecidableEq Res] in
theorem hooked_eq_self (quiet : ∀ e ∈ events, e.Quiet) (nothing : events.filterMap Event.beforeFn = []) :
    hooked req events = req := by
  unfold hooked
  induction events with
  | nil => rfl
  | cons e rest ih =>
    obtain ⟨here,later⟩ := List.forall_mem_cons.mp quiet
    cases e with
    | beforeHook => cases nothing
    | _ =>
      rw [List.foldl_cons,here.2 (by simp [Event.part])]
      exact ih later (by simpa [List.filterMap_cons,Event.beforeFn] using nothing)

/-- Without hooks what is sent has the headers of the call, and those of a form for a file. -/
theorem unhooked_headers {defaults headers : Option HeaderMap} {method : Option String} {url : String}
    {body : Option Text} (unhooked : hooks.beforeRequest = [])
    (run : Machine.exec (step merged status display) ⟨hooks,request defaults method url body headers,.before 0⟩ events =
      some s) (quiet : ∀ e ∈ events, e.Quiet) {res : Res} (returned : s.phase = .returned res) :
    ∃ random, ∀ wire ∈ events.filterMap Event.wire,
      wire.headers = callHeaders (method.getD "GET").toUpper
        ((body.bind FormData.parseFileMarker).map fun _ => contentType random) defaults headers := by
  have told := told_run run quiet
  simp only [Told,returned] at told
  obtain ⟨-,⟨called,⟨random,expanded⟩,wires⟩,-⟩ := told
  rw [hooked_eq_self quiet (called.trans unhooked)] at expanded
  have sent : s.req.method = (method.getD "GET").toUpper ∧ s.req.headers =
      withForm ((body.bind FormData.parseFileMarker).map fun _ => contentType random)
        (mergeDefaults defaults headers) := by
    unfold expandFile at expanded
    cases body with
    | none =>
      rw [← Option.some.inj expanded]
      exact ⟨rfl,rfl⟩
    | some marker =>
      cases file : FormData.parseFileMarker marker with
      | none =>
        simp only [request,file] at expanded
        rw [← Option.some.inj expanded]
        simp [file,withForm]
      | some _ =>
        simp only [request,file] at expanded
        obtain ⟨form,-,made⟩ := Option.map_eq_some_iff.mp expanded
        rw [← made]
        simp [file,withForm]
  refine ⟨random,fun wire member => ?_⟩
  rw [wires wire member,callNative_headers,sent.1,sent.2]
  rfl

theorem flaky_quiet : ∀ e ∈ flaky, e.Quiet := by
  simp [flaky,Event.Quiet,Event.left,Event.part]

theorem flaky_hooks : flaky.filterMap Event.beforeFn = [0] ∧
    flaky.filterMap Event.afterCall = [(2,200),(1,200)] ∧
    (flaky.filterMap Event.answer).getLast? = some 200 ∧
    flaky.Pairwise (fun e later => e.part ≤ later.part) ∧
    ∃ random sent, expandFile (fun _ => none) random (hooked page flaky) = some sent ∧
      ∀ wire ∈ flaky.filterMap Event.wire, wire = callNative sent :=
  hooks_called_once flaky_run flaky_quiet rfl

/-- The events that are left at most, when there may be `limit` retries. -/
def State.remaining (limit : Nat) (s : State Fn Res) : Nat :=
  match s.phase with
  | .before i => (s.hooks.beforeRequest.length - i) + s.hooks.afterResponse.length + 3 * limit + 4
  | .calling attempt => s.hooks.afterResponse.length + 3 * (limit - attempt) + 3
  | .responded attempt _ => s.hooks.afterResponse.length + 3 * (limit + 1 - attempt) + 2
  | .pausing attempt _ => s.hooks.afterResponse.length + 3 * (limit - attempt) + 4
  | .after i _ => (s.hooks.afterResponse.length - i) + 1
  | .returned _ | .thrown => 0

theorem remaining_step {limit : Nat} (limited : ∀ attempt, merged.allows attempt → attempt ≤ limit)
    (untouched : e.left.hooks = none) (taken : step merged status display s e = some t) :
    t.remaining limit < s.remaining limit := by
  cases step_cases taken with
  | beforeHook reached next | afterHook reached next =>
    have inside := (take_next next).1
    simp only [Event.left] at untouched
    simp only [State.remaining,State.leave,reached,untouched,Option.getD_none]
    omega
  | retry reached allowed | accept reached allowed =>
    have inside := limited _ allowed
    simp only [Event.left] at untouched
    simp only [State.remaining,State.leave,reached,untouched,Option.getD_none]
    omega
  | slept reached =>
    simp only [Event.left] at untouched
    simp only [State.remaining,State.leave,reached,untouched,Option.getD_none]
    omega
  | _ reached =>
    simp only [State.remaining,State.leave,reached]
    omega

/-- A dispatch is never stuck: as long as it has not returned or thrown there is a step to take. -/
theorem step_enabled (going : s.phase.part ≠ 4) : ∃ e t, step merged status display s e = some t := by
  cases phase : s.phase with
  | before i =>
    cases next : s.hooks.beforeRequest[i]? with
    | some fn => exact ⟨.beforeHook fn {},by simp [step,phase,next]⟩
    | none =>
      have done := List.getElem?_eq_none_iff.mp next
      cases expanded : expandFile display [] s.req with
      | some req => exact ⟨.expand [],by simp [step,phase,done,expanded]⟩
      | none => exact ⟨.expand [],by simp [step,phase,done,expanded]⟩
  | calling attempt => exact ⟨.native (callNative s.req) none,by simp [step,phase]⟩
  | responded attempt res =>
    cases allowed : merged.allows attempt with
    | true => exact ⟨.judge (some (status res == 0)) {},by cases same : status res == 0 <;> simp_all [step]⟩
    | false => exact ⟨.giveUp,by simp [step,phase,allowed]⟩
  | pausing attempt res => exact ⟨.pause (some (merged.delayMs attempt)) {} true,by simp [step,phase]⟩
  | after i res =>
    cases next : s.hooks.afterResponse[i]? with
    | some fn => exact ⟨.afterHook fn res {},by simp [step,phase,next]⟩
    | none =>
      have done := List.getElem?_eq_none_iff.mp next
      exact ⟨.finish,by simp [step,phase,done]⟩
  | returned | thrown => simp [phase,Phase.part] at going

/-- Where no function of the script registers hooks on the way and the retries have a limit, every
dispatch comes to its end. -/
theorem dispatch_ends {limit : Nat} (limited : ∀ attempt, merged.allows attempt → attempt ≤ limit)
    (untouched : ∀ e ∈ events, e.left.hooks = none)
    (run : Machine.exec (step merged status display) ⟨hooks,req,.before 0⟩ events = some s) :
    events.length ≤ hooks.beforeRequest.length + hooks.afterResponse.length + 3 * limit + 4 ∧
      (s.phase.part = 4 ∨ ∃ e t, step merged status display s e = some t) := by
  refine ⟨?_,or_iff_not_imp_left.mpr step_enabled⟩
  have first : (⟨hooks,req,.before 0⟩ : State Fn Res).remaining limit =
      hooks.beforeRequest.length + hooks.afterResponse.length + 3 * limit + 4 := rfl
  have spent := Machine.exec_history
    (fun past s => (∀ e ∈ past, e.left.hooks = none) → past.length + s.remaining limit ≤
      hooks.beforeRequest.length + hooks.afterResponse.length + 3 * limit + 4)
    (fun _ => by rw [first]; exact (Nat.zero_add _).le) ?_ run untouched
  · omega
  · intro past s e t before taken untouched
    have earlier := before fun e member => untouched e (List.mem_append_left _ member)
    have less := remaining_step limited (untouched e (by simp)) taken
    rw [List.length_append,List.length_singleton]
    omega

theorem flaky_ends : flaky.length ≤ [0].length + [2,1].length + 3 * 1 + 4 := by
  have once (attempt : Nat) (allowed : Options.allows ⟨some (.finite 1),none,false,true⟩ attempt) : attempt ≤ 1 := by
    have small : (attempt : ℚ) ≤ 1 := of_decide_eq_true allowed
    exact_mod_cast small
  exact (dispatch_ends once (fun e member => (flaky_quiet e member).1) flaky_run).1

end

end Fusillade.Bridge.HttpDispatch
