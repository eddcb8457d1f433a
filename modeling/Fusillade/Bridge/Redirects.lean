import Fusillade.Bridge.CookieJar
import Fusillade.Bridge.Emission

/-! Redirects, which both HTTP paths follow by hand: the bridge to the asynchronous client
and the pooled blocking agent. Each has its own loop, over the same jar. A transport answers
one hop; the clock is read by the redirects that are left. -/
namespace Fusillade.Bridge.Redirects

open Stats CookieJar

/-- A header value is text for `http` when it is visible ASCII, for `ureq` when it is UTF-8. -/
inductive HeaderValue where
  | ascii (text : String)
  | utf8 (text : String)
  | bytes (raw : List UInt8)
  deriving DecidableEq

/-- `HeaderValue::to_str` of `http`. -/
def HeaderValue.toStr : HeaderValue → Option String
  | .ascii text => some text
  | _ => none

/-- `Header::value` of `ureq`. -/
def HeaderValue.value : HeaderValue → Option String
  | .ascii text | .utf8 text => some text
  | .bytes _ => none

structure RawResponse where
  status : UInt16
  headers : List (String × HeaderValue)
  body : List UInt8 := []
  deriving DecidableEq

/-- One request on the wire. No body and an empty body are the same. -/
structure Hop where
  method : String
  url : String
  headers : Headers
  body : String
  deriving DecidableEq

abbrev Transport := Hop → Except String RawResponse

/-- What `ureq` gives of the header lines of a response. -/
structure UreqResponse where
  headersNames : List (String × HeaderValue) → List String
  header : List (String × HeaderValue) → String → Option String
  /-- A name for each line, in lower case. -/
  names_lower : ∀ headers, headersNames headers = headers.map fun header => header.1.toLower
  /-- The first line of that name, when it is text. -/
  header_first : ∀ headers name, header headers name =
    (headers.find? fun header => header.1.toLower == name.toLower).bind fun header => header.2.value

/-- What the loops use of the crates beside the jar. -/
structure Crates extends CookieStore, UreqResponse where
  join : Url → String → Option Url
  urlText : Url → String
  /-- `Response::into_string` of `ureq`. -/
  intoString : RawResponse → Option String

structure Reading where
  /-- What the asynchronous client measures of the hop. -/
  timings : RequestTimings := {}
  elapsed : Duration := 0
  waiting : Duration := 0
  receiving : Duration := 0
  /-- `pool_reuse_heuristic`. -/
  poolReused : Bool := false

structure SyncHttpResponse where
  status : UInt16
  statusText : String
  body : List UInt8
  headers : Headers := []
  timings : RequestTimings
  proto : String
  setCookieHeaders : List String := []
  error : Option String := none
  errorCode : Option String := none

def statusTextForCode (code : UInt16) : String :=
  match code.toNat with
  | 200 => "OK"
  | 201 => "Created"
  | 204 => "No Content"
  | 301 => "Moved Permanently"
  | 302 => "Found"
  | 304 => "Not Modified"
  | 400 => "Bad Request"
  | 401 => "Unauthorized"
  | 403 => "Forbidden"
  | 404 => "Not Found"
  | 405 => "Method Not Allowed"
  | 408 => "Request Timeout"
  | 429 => "Too Many Requests"
  | 500 => "Internal Server Error"
  | 502 => "Bad Gateway"
  | 503 => "Service Unavailable"
  | 504 => "Gateway Timeout"
  | 0 => "Network Error"
  | _ => ""

/-- `str::contains`. -/
def contains (text part : String) : Bool := decide (part.toList <:+: text.toList)

def categorizeError (error : String) : String × String :=
  let lower := error.toLower
  if contains lower "timed out" || contains lower "timeout" then ("TIMEOUT","ETIMEDOUT")
  else if contains lower "dns" || contains lower "resolve" || contains lower "getaddrinfo" then
    ("DNS","ENOTFOUND")
  else if contains lower "certificate" || contains lower "ssl" || contains lower "tls" then
    ("TLS","ECERT")
  else if contains lower "connection refused" then ("CONNECT","ECONNREFUSED")
  else if contains lower "reset" then ("RESET","ECONNRESET")
  else if contains lower "broken pipe" then ("RESET","EPIPE")
  else ("NETWORK","ENETWORK")

/-- `HashMap::insert` of a header. -/
def insertHeader (headers : Headers) (name text : String) : Headers :=
  match headers with
  | [] => [(name,text)]
  | header :: rest =>
    if header.1 = name then (name,text) :: rest else header :: insertHeader rest name text

/-- The headers of a response so far, and its `Set-Cookie` headers. -/
def recordHeader (decoded : Headers × List String) (name text : String) : Headers × List String :=
  (insertHeader decoded.1 name text,
    if name.toLower = "set-cookie" then decoded.2 ++ [text] else decoded.2)

/-- The `http` crate keeps header names in lower case. -/
def hyperHeaders (headers : List (String × HeaderValue)) : Headers × List String :=
  headers.foldl (fun decoded header =>
    recordHeader decoded header.1.toLower (header.2.toStr.getD "")) ([],[])

def ureqHeaders (ureq : UreqResponse) (headers : List (String × HeaderValue)) : Headers × List String :=
  (ureq.headersNames headers).foldl (fun decoded name =>
    match ureq.header headers name with
    | some text => recordHeader decoded name text
    | none => decoded) ([],[])

def hyperResponseToSync (response : RawResponse) (timings : RequestTimings) : SyncHttpResponse :=
  let decoded := hyperHeaders response.headers
  { status := response.status
    statusText := statusTextForCode response.status
    body := response.body
    headers := decoded.1
    timings
    proto := "h2"
    setCookieHeaders := decoded.2 }

@[simp] theorem hyperResponseToSync_status (response : RawResponse) (timings : RequestTimings) :
    (hyperResponseToSync response timings).status = response.status := rfl

@[simp] theorem hyperResponseToSync_headers (response : RawResponse) (timings : RequestTimings) :
    (hyperResponseToSync response timings).headers = (hyperHeaders response.headers).1 := rfl

@[simp] theorem hyperResponseToSync_setCookieHeaders (response : RawResponse)
    (timings : RequestTimings) :
    (hyperResponseToSync response timings).setCookieHeaders = (hyperHeaders response.headers).2 := rfl

/-- A sunk body is read and thrown away inside the asynchronous client. -/
def executeViaBridge (transport : Transport) (hop : Hop) (responseSink : Bool)
    (timings : RequestTimings) : Except String SyncHttpResponse :=
  match transport hop with
  | .ok response =>
    .ok (hyperResponseToSync { response with body := if responseSink then [] else response.body }
      timings)
  | .error message => .error message

def estimateRequestSize (method url : String) (headers : Headers) (bodyLen : Nat) : Nat :=
  headers.foldl (fun size header => size + (header.1.utf8ByteSize + 2 + header.2.utf8ByteSize + 2))
    (bodyLen + (method.utf8ByteSize + 1 + url.utf8ByteSize + 11)) + 2

def responseSize (headers : Headers) (bodyLen : Nat) : Nat :=
  headers.foldl (fun size header => size + (header.1.utf8ByteSize + 2 + header.2.utf8ByteSize + 2))
    (bodyLen + 15) + 2

def isContentHeader (name : String) : Bool :=
  name.toLower == "content-type" || name.toLower == "content-length"

def location (headers : Headers) : Option String :=
  (headers.find? fun header => header.1.toLower == "location").map Prod.snd

def redirects (status : UInt16) : Bool := status ∈ [301,302,303,307,308]

def collapses (status : UInt16) : Bool := status ∈ [301,302,303]

/-- What a request of the script fixes for all of its hops. -/
structure Call where
  method : String
  url : String
  headers : Headers := []
  body : Option String := none
  maxRedirects : Nat := 10
  responseSink : Bool := false
  group : String := ""
  nameTag : Option String := none
  tags : HashMap String String := ∅

/-- The variables that a loop carries from hop to hop, beside the jar. -/
structure Pending where
  method : String
  url : String
  headers : Headers
  body : Option String

def Call.pending (call : Call) : Pending := ⟨call.method,call.url,call.headers,call.body⟩

def Call.metric (call : Call) (timings : RequestTimings) (outcome : HttpOutcome) : Metric :=
  HttpRequest.metric
    { group := call.group
      nameTag := call.nameTag
      url := call.url
      timings
      outcome
      tags := call.tags }

def Pending.follow (pending : Pending) (nextUrl : String) (collapseToGet : Bool) : Pending :=
  if collapseToGet = true ∧ pending.method ≠ "GET" ∧ pending.method ≠ "HEAD" then
    { method := "GET"
      url := nextUrl
      headers := pending.headers.filter fun header => !isContentHeader header.1
      body := none }
  else { pending with url := nextUrl }

variable (crates : Crates)

def redirectTarget (status : UInt16) (location : Option String) (currentUrl : String) :
    Option (String × Bool) :=
  if !redirects status then none
  else do
    let current ← crates.parseUrl currentUrl
    let next ← crates.join current (← location)
    some (crates.urlText next,collapses status)

def Pending.hop (pending : Pending) (jar : crates.Jar) : Hop where
  method := pending.method
  url := pending.url
  headers := applyJarCookies crates.toCookieStore jar pending.url pending.headers
  body := pending.body.getD ""

/-- The hops of a request in their order, the jar and the metrics that it leaves behind, and
what the script gets. -/
structure Outcome where
  hops : List Hop
  jar : crates.Jar
  metrics : List Metric
  response : SyncHttpResponse

variable {crates}

def Outcome.after (hop : Hop) (rest : Outcome crates) : Outcome crates :=
  { rest with hops := hop :: rest.hops }

variable (crates)

/-- The end of either loop when the transport fails. -/
def failedOutcome (call : Call) (hop : Hop) (jar : crates.Jar) (message : String)
    (timings : RequestTimings) : Outcome crates :=
  let category := categorizeError message
  { hops := [hop]
    jar
    metrics := [call.metric timings (.transportError message)]
    response :=
      { status := 0
        statusText := statusTextForCode 0
        body := message.toUTF8.toList
        timings
        proto := "h1"
        error := some category.1
        errorCode := some category.2 } }

def bridgeFinished (call : Call) (hop : Hop) (jar : crates.Jar) (response : SyncHttpResponse)
    (reading : Reading) : Outcome crates :=
  let timings := { response.timings with duration := reading.elapsed }
  { hops := [hop]
    jar
    metrics := [call.metric timings (.response response.status)]
    response := { response with timings } }

def bridgeLoop (transport : Transport) (call : Call) (clock : Nat → Reading) :
    (remaining : Nat) → Pending → crates.Jar → Outcome crates
  | remaining, pending, jar =>
    let hop := pending.hop crates jar
    match executeViaBridge transport hop call.responseSink (clock remaining).timings with
    | .ok response =>
      let jar := storeResponseCookies crates.toCookieStore pending.url response.setCookieHeaders jar
      match remaining with
      | remaining + 1 =>
        match redirectTarget crates response.status (location response.headers) pending.url with
        | some (nextUrl,collapseToGet) =>
          (bridgeLoop transport call clock remaining (pending.follow nextUrl collapseToGet) jar).after
            hop
        | none => bridgeFinished crates call hop jar response (clock (remaining + 1))
      | 0 => bridgeFinished crates call hop jar response (clock 0)
    | .error message =>
      failedOutcome crates call hop jar message { duration := (clock remaining).elapsed }

def runBridgeRequest (transport : Transport) (call : Call) (clock : Nat → Reading)
    (jar : crates.Jar) : Outcome crates :=
  bridgeLoop crates transport call clock call.maxRedirects call.pending jar

def Call.requestSize (call : Call) : Nat :=
  estimateRequestSize call.method call.url call.headers
    (call.body.elim 0 String.utf8ByteSize)

def ureqFinished (call : Call) (hop : Hop) (jar : crates.Jar) (response : RawResponse)
    (decoded : Headers × List String) (reading : Reading) : Outcome crates :=
  let text := (crates.intoString response).getD ""
  let timings : RequestTimings :=
    { duration := reading.elapsed
      waiting := reading.waiting
      receiving := reading.receiving
      requestSize := call.requestSize
      responseSize := responseSize decoded.1 text.utf8ByteSize
      poolReused := reading.poolReused }
  { hops := [hop]
    jar
    metrics := [call.metric timings (.response response.status)]
    response :=
      { status := response.status
        statusText := statusTextForCode response.status
        body := if call.responseSink then [] else text.toUTF8.toList
        headers := decoded.1
        timings
        proto := "h1"
        setCookieHeaders := decoded.2 } }

def ureqLoop (transport : Transport) (call : Call) (clock : Nat → Reading) :
    (remaining : Nat) → Pending → crates.Jar → Outcome crates
  | remaining, pending, jar =>
    let hop := pending.hop crates jar
    match transport hop with
    | .ok response =>
      let decoded := ureqHeaders crates.toUreqResponse response.headers
      let jar := storeResponseCookies crates.toCookieStore pending.url decoded.2 jar
      match remaining with
      | remaining + 1 =>
        match redirectTarget crates response.status (location decoded.1) pending.url with
        | some (nextUrl,collapseToGet) =>
          (ureqLoop transport call clock remaining (pending.follow nextUrl collapseToGet) jar).after hop
        | none => ureqFinished crates call hop jar response decoded (clock (remaining + 1))
      | 0 => ureqFinished crates call hop jar response decoded (clock 0)
    | .error message =>
      failedOutcome crates call hop jar message
        { duration := (clock remaining).elapsed, requestSize := call.requestSize }

def executeUreqRequest (transport : Transport) (call : Call) (clock : Nat → Reading)
    (jar : crates.Jar) : Outcome crates :=
  ureqLoop crates transport call clock call.maxRedirects call.pending jar

section Decoding

theorem toLower_toLower (name : String) : name.toLower.toLower = name.toLower := by
  have again : Char.toLower ∘ Char.toLower = Char.toLower := by
    funext c
    rw [Function.comp]
    unfold Char.toLower
    split
    next upper =>
      have low : 65 ≤ c.val.toNat := upper.1
      have high : c.val.toNat ≤ 90 := upper.2
      rw [dif_neg]
      rintro ⟨_,still⟩
      have still : (c.val + ('a'.val - 'A'.val)).toNat ≤ 90 := still
      rw [UInt32.toNat_add] at still
      have apart : ('a'.val - 'A'.val).toNat = 32 := rfl
      omega
    next => rfl
  have lowered (text : String) : text.toLower = text.map Char.toLower := rfl
  rw [lowered,lowered,String.map_map,again]

/-- Header names are pairwise distinct, and values are text for both clients. -/
structure Textual (response : RawResponse) : Prop where
  distinct : (response.headers.map fun header => header.1.toLower).Nodup
  ascii : ∀ header ∈ response.headers, ∃ text, header.2 = .ascii text

variable {ureq : UreqResponse}

theorem header_of_mem {headers : List (String × HeaderValue)}
    (distinct : (headers.map fun header => header.1.toLower).Nodup) {entry : String × HeaderValue}
    (member : entry ∈ headers) : ureq.header headers entry.1.toLower = entry.2.value := by
  rw [ureq.header_first,toLower_toLower]
  induction headers with
  | nil => simp at member
  | cons first rest ih =>
    obtain ⟨fresh,later⟩ := List.nodup_cons.mp distinct
    rcases List.mem_cons.mp member with rfl | member
    · simp
    · have other : first.1.toLower ≠ entry.1.toLower := by
        intro same
        exact fresh (List.mem_map.mpr ⟨_,member,same.symm⟩)
      simpa [other] using ih later member

/-- Both clients read the same headers and the same `Set-Cookie` values. -/
theorem ureqHeaders_eq {response : RawResponse} (textual : Textual response) :
    ureqHeaders ureq response.headers = hyperHeaders response.headers := by
  unfold ureqHeaders hyperHeaders
  rw [ureq.names_lower,List.foldl_map]
  refine List.foldl_ext _ _ _ fun decoded entry member => ?_
  obtain ⟨text,ascii⟩ := textual.ascii entry member
  have found : ureq.header response.headers entry.1.toLower = entry.2.value :=
    header_of_mem textual.distinct member
  simp [found,ascii,HeaderValue.value,HeaderValue.toStr]

end Decoding

variable {crates}

/-- The two loops leave the same behind, up to what their clients measure. -/
structure Agrees (call : Call) (bridge ureq : Outcome crates) : Prop where
  hops : bridge.hops = ureq.hops
  jar : bridge.jar = ureq.jar
  status : bridge.response.status = ureq.response.status
  headers : bridge.response.headers = ureq.response.headers
  setCookieHeaders : bridge.response.setCookieHeaders = ureq.response.setCookieHeaders
  /-- One metric each, under the name of the request that the script made. -/
  metrics : ∃ error timings timings',
    bridge.metrics = [.request (metricName call.group call.nameTag call.url) timings
      bridge.response.status error call.tags] ∧
    ureq.metrics = [.request (metricName call.group call.nameTag call.url) timings'
      ureq.response.status error call.tags]

theorem Agrees.after {call : Call} {bridge ureq : Outcome crates} (agrees : Agrees call bridge ureq)
    (hop : Hop) : Agrees call (bridge.after hop) (ureq.after hop) where
  hops := by simp [Outcome.after,agrees.hops]
  jar := agrees.jar
  status := agrees.status
  headers := agrees.headers
  setCookieHeaders := agrees.setCookieHeaders
  metrics := agrees.metrics

theorem failedOutcome_agrees (call : Call) (hop : Hop) (jar : crates.Jar) (message : String)
    (timings timings' : RequestTimings) : Agrees call (failedOutcome crates call hop jar message timings)
      (failedOutcome crates call hop jar message timings') :=
  ⟨rfl,rfl,rfl,rfl,rfl,_,_,_,rfl,rfl⟩

theorem finished_agrees (call : Call) (hop : Hop) (jar : crates.Jar) (response : RawResponse)
    (body : List UInt8) (timings : RequestTimings) (reading reading' : Reading) :
    Agrees call
      (bridgeFinished crates call hop jar (hyperResponseToSync { response with body } timings) reading)
      (ureqFinished crates call hop jar response (hyperHeaders response.headers) reading') :=
  ⟨rfl,rfl,rfl,rfl,rfl,_,_,_,rfl,rfl⟩

theorem loops_agree {transport : Transport}
    (textual : ∀ hop response, transport hop = .ok response → Textual response) (call : Call)
    (clock clock' : Nat → Reading) (remaining : Nat) (pending : Pending) (jar : crates.Jar) :
    Agrees call (bridgeLoop crates transport call clock remaining pending jar)
      (ureqLoop crates transport call clock' remaining pending jar) := by
  induction remaining generalizing pending jar with
  | zero =>
    rw [bridgeLoop,ureqLoop,executeViaBridge]
    cases answer : transport (pending.hop crates jar) with
    | error message => exact failedOutcome_agrees _ _ _ _ _ _
    | ok response =>
      simp only [ureqHeaders_eq (textual _ _ answer)]
      exact finished_agrees _ _ _ _ _ _ _ _
  | succ remaining ih =>
    rw [bridgeLoop,ureqLoop,executeViaBridge]
    cases answer : transport (pending.hop crates jar) with
    | error message => exact failedOutcome_agrees _ _ _ _ _ _
    | ok response =>
      simp only [ureqHeaders_eq (textual _ _ answer),hyperResponseToSync_status,
        hyperResponseToSync_headers,hyperResponseToSync_setCookieHeaders]
      split
      · exact (ih _ _).after _
      · exact finished_agrees _ _ _ _ _ _ _ _

/-- Without a body and without the headers that describe one. -/
def Pending.Bare (pending : Pending) : Prop :=
  pending.method = "GET" ∧ pending.body = none ∧
    ∀ header ∈ pending.headers, isContentHeader header.1 = false

def Hop.Bare (hop : Hop) : Prop :=
  hop.method = "GET" ∧ hop.body = "" ∧ ∀ header ∈ hop.headers, isContentHeader header.1 = false

/-- The answer to a hop takes its method and its body away. -/
def Collapses (hop : Hop) (status : UInt16) : Prop :=
  collapses status = true ∧ hop.method ≠ "GET" ∧ hop.method ≠ "HEAD"

theorem mergeCookies_name {text : String} {headers : Headers} {header : String × String}
    (member : header ∈ mergeCookies text headers) :
    header.1 = "Cookie" ∨ ∃ old ∈ headers, old.1 = header.1 := by
  induction headers with
  | nil =>
    obtain rfl := List.mem_singleton.mp member
    exact .inl rfl
  | cons first rest ih =>
    rw [mergeCookies] at member
    split at member
    · rcases List.mem_cons.mp member with rfl | later
      · exact .inr ⟨first,List.mem_cons_self ..,rfl⟩
      · exact .inr ⟨header,List.mem_cons_of_mem _ later,rfl⟩
    · rcases List.mem_cons.mp member with rfl | later
      · exact .inr ⟨_,List.mem_cons_self ..,rfl⟩
      · obtain cookie | ⟨old,there,same⟩ := ih later
        · exact .inl cookie
        · exact .inr ⟨old,List.mem_cons_of_mem _ there,same⟩

theorem applyJarCookies_name {store : CookieStore} {jar : store.Jar} {url : String}
    {headers : Headers} {header : String × String}
    (member : header ∈ applyJarCookies store jar url headers) :
    header.1 = "Cookie" ∨ ∃ old ∈ headers, old.1 = header.1 := by
  unfold applyJarCookies at member
  split at member
  · exact .inr ⟨header,member,rfl⟩
  · exact mergeCookies_name member

theorem Pending.Bare.hop {pending : Pending} (bare : pending.Bare) (jar : crates.Jar) :
    (pending.hop crates jar).Bare := by
  obtain ⟨get,empty,plain⟩ := bare
  refine ⟨get,by simp [Pending.hop,empty],?_⟩
  intro header member
  obtain cookie | ⟨old,there,same⟩ := applyJarCookies_name member
  · rw [cookie]
    decide +kernel
  · rw [← same]
    exact plain old there

theorem Pending.Bare.follow {pending : Pending} (bare : pending.Bare) (nextUrl : String)
    (collapseToGet : Bool) : (pending.follow nextUrl collapseToGet).Bare := by
  have get := bare.1
  rw [Pending.follow,if_neg (by simp [get])]
  exact bare

/-- Hops as the redirects ask for them: each is the pending request, and the next one follows
the answer to it. -/
inductive Chase (crates : Crates) (transport : Transport) :
    Nat → Pending → crates.Jar → List Hop → Prop where
  | last (remaining : Nat) (pending : Pending) (jar : crates.Jar) :
      Chase crates transport remaining pending jar [pending.hop crates jar]
  | next {remaining : Nat} {pending : Pending} {jar jar' : crates.Jar} {response : RawResponse}
      {nextUrl : String} {hops : List Hop}
      (answer : transport (pending.hop crates jar) = .ok response)
      (redirected : redirects response.status = true)
      (later : Chase crates transport remaining
        (pending.follow nextUrl (collapses response.status)) jar' hops) :
      Chase crates transport (remaining + 1) pending jar (pending.hop crates jar :: hops)

theorem redirectTarget_some {status : UInt16} {location : Option String} {url nextUrl : String}
    {collapseToGet : Bool}
    (target : redirectTarget crates status location url = some (nextUrl,collapseToGet)) :
    redirects status = true ∧ collapseToGet = collapses status := by
  unfold redirectTarget at target
  split at target
  · contradiction
  next redirected =>
    simp only [Option.bind_eq_bind,Option.bind_eq_some_iff] at target
    obtain ⟨_,_,_,_,_,_,same⟩ := target
    obtain ⟨_,collapse⟩ := Prod.mk.inj (Option.some.inj same)
    exact ⟨by simpa using redirected,collapse.symm⟩

theorem bridgeLoop_chase (transport : Transport) (call : Call) (clock : Nat → Reading)
    (remaining : Nat) (pending : Pending) (jar : crates.Jar) :
    Chase crates transport remaining pending jar
      (bridgeLoop crates transport call clock remaining pending jar).hops := by
  induction remaining generalizing pending jar with
  | zero =>
    rw [bridgeLoop,executeViaBridge]
    cases answer : transport (pending.hop crates jar) with
    | error message => exact .last _ _ _
    | ok response => exact .last _ _ _
  | succ remaining ih =>
    rw [bridgeLoop,executeViaBridge]
    cases answer : transport (pending.hop crates jar) with
    | error message => exact .last _ _ _
    | ok response =>
      simp only [hyperResponseToSync_status,hyperResponseToSync_headers]
      split
      next nextUrl collapseToGet target =>
        obtain ⟨redirected,rfl⟩ := redirectTarget_some target
        exact .next answer redirected (ih _ _)
      next => exact .last _ _ _

section Chase

variable {transport : Transport} {remaining : Nat} {pending : Pending} {jar : crates.Jar}
  {hops : List Hop}

theorem Chase.length_le (chase : Chase crates transport remaining pending jar hops) :
    hops.length ≤ remaining + 1 := by
  induction chase with
  | last => simp
  | next _ _ _ ih => simpa using ih

theorem Chase.head (chase : Chase crates transport remaining pending jar hops) :
    hops.head? = some (pending.hop crates jar) := by
  cases chase <;> rfl

theorem Chase.bare (chase : Chase crates transport remaining pending jar hops)
    (bare : pending.Bare) : ∀ hop ∈ hops, hop.Bare := by
  induction chase with
  | last remaining pending jar => simpa using bare.hop jar
  | @next remaining pending jar _ _ _ _ _ _ _ ih =>
    intro hop member
    rcases List.mem_cons.mp member with rfl | later
    · exact bare.hop jar
    · exact ih (bare.follow _ _) hop later

/-- A collapse strips the pending request, another redirect only changes its URL. -/
theorem follow_collapse (pending : Pending) (nextUrl : String) {collapseToGet : Bool}
    (collapse : collapseToGet = true ∧ pending.method ≠ "GET" ∧ pending.method ≠ "HEAD") :
    (pending.follow nextUrl collapseToGet).Bare := by
  rw [Pending.follow,if_pos collapse]
  exact ⟨rfl,rfl,by simp⟩

theorem follow_keep (pending : Pending) (nextUrl : String) {collapseToGet : Bool}
    (keep : ¬(collapseToGet = true ∧ pending.method ≠ "GET" ∧ pending.method ≠ "HEAD")) :
    pending.follow nextUrl collapseToGet = { pending with url := nextUrl } := if_neg keep

/-- What the redirect of one hop makes of the next hop. -/
def Redirected (transport : Transport) (hop next : Hop) : Prop :=
  ∃ response, transport hop = .ok response ∧ redirects response.status = true ∧
    (¬Collapses hop response.status → next.method = hop.method ∧ next.body = hop.body)

theorem Chase.chain (chase : Chase crates transport remaining pending jar hops) :
    hops.IsChain (Redirected transport) := by
  induction chase with
  | last => exact .singleton _
  | next answer redirected later ih =>
    refine List.IsChain.cons ih fun next head => ?_
    rw [later.head] at head
    obtain rfl := Option.some.inj head
    refine ⟨_,answer,redirected,fun keep => ?_⟩
    rw [follow_keep _ _ keep]
    exact ⟨rfl,rfl⟩

/-- From a collapse on, every hop is a GET without body and content headers. -/
def CollapsedAfter (transport : Transport) (hop later : Hop) : Prop :=
  ∀ response, transport hop = .ok response → Collapses hop response.status → later.Bare

theorem Chase.collapsed (chase : Chase crates transport remaining pending jar hops) :
    hops.Pairwise (CollapsedAfter transport) := by
  induction chase with
  | last => simp
  | next answer redirected later ih =>
    refine List.pairwise_cons.mpr ⟨?_,ih⟩
    intro hop member response again collapse
    obtain rfl := Except.ok.inj (answer.symm.trans again)
    exact later.bare (follow_collapse _ _ collapse) hop member

end Chase

/-- Both paths do the same hops and leave the same jar, status and metric; the hops are
bounded and keep to what each redirect asks for. -/
theorem redirects_equivalent {transport : Transport}
    (textual : ∀ hop response, transport hop = .ok response → Textual response) (call : Call)
    (clock clock' : Nat → Reading) (jar : crates.Jar) :
    let bridge := runBridgeRequest crates transport call clock jar
    let ureq := executeUreqRequest crates transport call clock' jar
    Agrees call bridge ureq ∧ bridge.hops.length ≤ call.maxRedirects + 1 ∧
      bridge.hops.head? = some (call.pending.hop crates jar) ∧
      bridge.hops.IsChain (Redirected transport) ∧
      bridge.hops.Pairwise (CollapsedAfter transport) := by
  intro bridge ureq
  have chase := bridgeLoop_chase transport call clock call.maxRedirects call.pending jar
  exact ⟨loops_agree textual call clock clock' call.maxRedirects call.pending jar,
    chase.length_le,chase.head,chase.chain,chase.collapsed⟩

/-- The names and the first values read off the lines. -/
def lineUreq : UreqResponse where
  headersNames headers := headers.map fun header => header.1.toLower
  header headers name :=
    (headers.find? fun header => header.1.toLower == name.toLower).bind fun header => header.2.value
  names_lower _ := rfl
  header_first _ _ := rfl

def hostCrates : Crates where
  toCookieStore := hostStore
  toUreqResponse := lineUreq
  join _ location := hostUrl location
  urlText := fun host : String => "https://" ++ host ++ "/"
  intoString _ := some ""

/-- A login that sets a cookie and redirects to the start page. -/
def loginTransport : Transport := fun hop =>
  if hop.method = "POST" then
    .ok ⟨302,[("Location",.ascii "https://shop.test/"),("Set-Cookie",.ascii "session=alice")],[]⟩
  else .ok ⟨200,[("Server",.ascii "shop")],[]⟩

theorem loginTransport_textual (hop : Hop) (response : RawResponse)
    (answer : loginTransport hop = .ok response) : Textual response := by
  unfold loginTransport at answer
  split at answer
  all_goals
    obtain rfl := Except.ok.inj answer
    exact ⟨by decide +kernel,by simp⟩

def login : Call where
  method := "POST"
  url := "https://shop.test/"
  headers := [("Content-Type","text/plain"),("Accept","*/*")]
  body := some "alice"

theorem login_equivalent :
    (runBridgeRequest hostCrates loginTransport login (fun _ => {}) ([] : List HostCookie)).hops =
      [⟨"POST","https://shop.test/",[("Content-Type","text/plain"),("Accept","*/*")],"alice"⟩,
        ⟨"GET","https://shop.test/",[("Accept","*/*"),("Cookie","session=alice")],""⟩] ∧
    Agrees login (runBridgeRequest hostCrates loginTransport login (fun _ => {}) ([] : List HostCookie))
      (executeUreqRequest hostCrates loginTransport login (fun _ => {}) ([] : List HostCookie)) :=
  ⟨by decide +kernel,
    (redirects_equivalent loginTransport_textual login _ _ _).1⟩

end Fusillade.Bridge.Redirects
