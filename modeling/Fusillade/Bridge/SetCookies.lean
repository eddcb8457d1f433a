import Fusillade.Bridge.HttpClient
import Fusillade.Lib.Utf8

/-! What both HTTP paths hand to the jar of a response with several cookies. The blocking
agent is asked for the first value of a name once for each line of that name; the response of
the asynchronous client has been rebuilt, once its body was read. -/
namespace Fusillade.Bridge.SetCookies

open Stats CookieJar Redirects HttpClient

/-- `is_visible_ascii` of `http`. -/
def visible (b : UInt8) : Bool := (32 ≤ b && b < 127) || b == 9

/-- How the clients take the bytes of a value. -/
def ofBytes (raw : List UInt8) : HeaderValue :=
  match Utf8.decode raw with
  | some text => if raw.all visible then .ascii (String.ofList text) else .utf8 (String.ofList text)
  | none => .bytes raw

abbrev Line := String × List UInt8

def received (lines : List Line) : List (String × HeaderValue) :=
  lines.map fun line => (line.1,ofBytes line.2)

def parsed (maps : HeaderMaps) (lines : List Line) : maps.Map :=
  ((received lines).map fun header => (header.1.toLower,header.2)).foldl
    (fun map header => maps.append header.1 header.2 map) maps.empty

def isSetCookie (name : String) : Bool := name.toLower == "set-cookie"

def setCookieLines (lines : List Line) : List (List UInt8) :=
  (lines.filter fun line => isSetCookie line.1).map Prod.snd

/-- A response as it arrives: its header lines, the frames of its body, and whether the deadline
of the request passes before the body has ended. -/
structure Response where
  lines : List Line
  body : BodyStream := []
  late : Bool := false

/-- What `execute_ureq_request` stores, before it reads the body. -/
def ureqStored (ureq : UreqResponse) (lines : List Line) : List String :=
  (ureqHeaders ureq (received lines)).2

/-- What `run_bridge_request` stores of the rebuilt response, once the body has been read. -/
def bridgeStored (maps : HeaderMaps) (responseSink : Bool) (response : Response) : List String :=
  if response.late then []
  else match readBody responseSink response.body with
    | .ok _ => (hyperHeaders (maps.iter (rebuild maps (parsed maps response.lines)))).2
    | .error _ => []

def AllStored (lines : List (List UInt8)) (stored : List String) : Prop :=
  (stored.map fun text => Utf8.encode text.toList).Perm lines

def Complete (ureq : UreqResponse) (maps : HeaderMaps) (responseSink : Bool) (response : Response) :
    Prop :=
  AllStored (setCookieLines response.lines) (ureqStored ureq response.lines) ∧
    AllStored (setCookieLines response.lines) (bridgeStored maps responseSink response)

/-- The body arrives in time and without an error, which only a sunk body may have. -/
def Arrives (responseSink : Bool) (response : Response) : Prop :=
  response.late = false ∧ (responseSink = true ∨ ∀ chunk ∈ response.body, chunk.isOk = true)

/-- At most one cookie, of visible ASCII, in a response that arrives. -/
def AtMostOne (responseSink : Bool) (response : Response) : Prop :=
  ∀ raw rest, setCookieLines response.lines = raw :: rest →
    rest = [] ∧ raw.all visible = true ∧ Arrives responseSink response

/-- `IoBridge::request`: past the deadline the answer is an error. -/
def withinDeadline (late : Bool) (result : Except String (RawResponse × RequestTimings)) :
    Except String (RawResponse × RequestTimings) :=
  if late then .error "Request timeout" else result

/-- What the arms of `run_bridge_request` store. -/
def stored : Except String (RawResponse × RequestTimings) → List String
  | .ok result => (hyperResponseToSync result.1 result.2).setCookieHeaders
  | .error _ => []

/-- The bridge stores the cookies of the response that the client rebuilt. -/
theorem stored_request {maps : HeaderMaps} {connection : Hop → Except String (Streaming maps)}
    {req : Hop} {responseSink : Bool} {measured : Measured} {response : Response} {status : UInt16}
    (answer : connection req = .ok ⟨status,parsed maps response.lines,response.body⟩) :
    stored (withinDeadline response.late (request maps connection req responseSink measured)) =
      bridgeStored maps responseSink response := by
  unfold withinDeadline bridgeStored
  split
  · rfl
  · simp only [request,answer]
    cases readBody responseSink response.body <;> rfl

theorem readBody_isOk (responseSink : Bool) (body : BodyStream) :
    (readBody responseSink body).isOk = true ↔
      responseSink = true ∨ ∀ chunk ∈ body, chunk.isOk = true := by
  rw [← collect_isOk,readBody]
  cases responseSink with
  | true => simp [Except.isOk,Except.toBool]
  | false => cases collect body <;> simp [Except.isOk,Except.toBool]

theorem bridgeStored_cases (maps : HeaderMaps) (responseSink : Bool) (response : Response) :
    (Arrives responseSink response ∧ bridgeStored maps responseSink response =
      (hyperHeaders (maps.iter (rebuild maps (parsed maps response.lines)))).2) ∨
    (¬Arrives responseSink response ∧ bridgeStored maps responseSink response = []) := by
  unfold bridgeStored
  cases late : response.late with
  | true => exact .inr ⟨by simp [Arrives,late],rfl⟩
  | false =>
    have arrives : Arrives responseSink response ↔ (readBody responseSink response.body).isOk = true := by
      rw [readBody_isOk,Arrives,late,eq_self,true_and]
    rw [arrives]
    cases readBody responseSink response.body with
    | ok => exact .inl ⟨rfl,rfl⟩
    | error => exact .inr ⟨by simp [Except.isOk,Except.toBool],rfl⟩

section Decoding

theorem ofBytes_visible {raw : List UInt8} (seen : raw.all visible = true) :
    ∃ text, ofBytes raw = .ascii text ∧ Utf8.encode text.toList = raw := by
  have low : ∀ b ∈ raw, b.toNat < 128 := by
    intro b member
    have range := List.all_eq_true.mp seen b member
    simp only [visible,Bool.or_eq_true,Bool.and_eq_true,decide_eq_true_eq,beq_iff_eq,
      UInt8.lt_iff_toNat_lt] at range
    rcases range with ⟨_,high⟩ | rfl
    · exact high.trans (by decide)
    · decide
  have encoded := Utf8.encode_chars low
  refine ⟨String.ofList (raw.map fun b => Char.ofNat b.toNat),?_,by simpa using encoded⟩
  rw [ofBytes,Utf8.decode_eq_some.mpr encoded]
  simp [seen]

theorem ofBytes_hidden {raw : List UInt8} (hidden : ¬raw.all visible = true) :
    (ofBytes raw).toStr = none := by
  unfold ofBytes
  split
  · rw [if_neg hidden]
    rfl
  · rfl

theorem toStr_encodes (raw : List UInt8) :
    Utf8.encode ((ofBytes raw).toStr.getD "").toList = raw ↔ raw.all visible = true := by
  constructor
  · intro same
    by_contra hidden
    rw [ofBytes_hidden hidden] at same
    obtain rfl : [] = raw := same
    exact hidden rfl
  · intro seen
    obtain ⟨text,ascii,encoded⟩ := ofBytes_visible seen
    rw [ascii]
    exact encoded

theorem hyperHeaders_snd (headers : List (String × HeaderValue)) :
    (hyperHeaders headers).2 =
      (headers.filter fun header => isSetCookie header.1).map fun header => header.2.toStr.getD "" := by
  suffices kept : ∀ decoded : Headers × List String, (headers.foldl (fun decoded header =>
      recordHeader decoded header.1.toLower (header.2.toStr.getD "")) decoded).2 =
      decoded.2 ++ (headers.filter fun header => isSetCookie header.1).map
        fun header => header.2.toStr.getD "" from kept ([],[])
  induction headers with
  | nil => simp
  | cons header rest ih =>
    intro decoded
    rw [List.foldl_cons,ih,recordHeader,toLower_toLower]
    by_cases cookie : header.1.toLower = "set-cookie" <;> simp [isSetCookie,cookie]

theorem ureqHeaders_eq (ureq : UreqResponse) (headers : List (String × HeaderValue)) :
    ureqHeaders ureq headers = (headers.map fun header => header.1.toLower).foldl (fun decoded name =>
      (ureq.header headers name).elim decoded (recordHeader decoded name)) ([],[]) := by
  unfold ureqHeaders
  rw [ureq.names_lower]
  congr
  funext decoded name
  cases ureq.header headers name <;> rfl

theorem ureqHeaders_snd (ureq : UreqResponse) (headers : List (String × HeaderValue)) :
    (ureqHeaders ureq headers).2 =
      (headers.filter fun header => isSetCookie header.1).flatMap
        fun _ => (ureq.header headers "set-cookie").toList := by
  suffices kept : ∀ (names : List (String × HeaderValue)) (decoded : Headers × List String),
      ((names.map fun header => header.1.toLower).foldl (fun decoded name =>
        (ureq.header headers name).elim decoded (recordHeader decoded name)) decoded).2 =
      decoded.2 ++ (names.filter fun header => isSetCookie header.1).flatMap
        fun _ => (ureq.header headers "set-cookie").toList from ureqHeaders_eq ureq headers ▸ kept headers ([],[])
  intro names
  induction names with
  | nil => simp
  | cons first rest ih =>
    intro decoded
    rw [List.map_cons,List.foldl_cons,ih]
    by_cases cookie : first.1.toLower = "set-cookie"
    · have lowered : "set-cookie".toLower = "set-cookie" := by rw [← cookie,toLower_toLower]
      rw [cookie]
      cases ureq.header headers "set-cookie" <;> simp [isSetCookie,cookie,recordHeader,lowered]
    · cases ureq.header headers first.1.toLower <;>
        simp [isSetCookie,cookie,recordHeader,toLower_toLower]

end Decoding

theorem ureqStored_eq (ureq : UreqResponse) (lines : List Line) : ureqStored ureq lines =
    (setCookieLines lines).flatMap fun _ => (ureq.header (received lines) "set-cookie").toList := by
  rw [ureqStored,ureqHeaders_snd]
  generalize (ureq.header (received lines) "set-cookie").toList = first
  simp only [received,setCookieLines,List.filter_map,List.flatMap_map]
  rfl

theorem header_received (ureq : UreqResponse) (lines : List Line) :
    ureq.header (received lines) "set-cookie" =
      (setCookieLines lines).head?.bind fun raw => (ofBytes raw).value := by
  have lowered : "set-cookie".toLower = "set-cookie" := by decide +kernel
  rw [ureq.header_first,lowered,received,List.find?_map,setCookieLines,List.head?_map,List.head?_filter,
    Option.bind_map,Option.bind_map]
  rfl

theorem parsed_values {maps : HeaderMaps} (lawful : maps.Lawful) (name : String) (lines : List Line) :
    valuesOf name (maps.iter (parsed maps lines)) =
      (lines.filter fun line => line.1.toLower == name).map fun line => ofBytes line.2 := by
  rw [parsed,lawful.appended,lawful.empty_iter]
  simp only [valuesOf,received,List.filter_map,List.map_map,List.filter_nil,List.map_nil,List.nil_append]
  rfl

theorem rebuilt_lower {maps : HeaderMaps} (lawful : maps.Lawful) (lines : List Line)
    {header : String × HeaderValue} (member : header ∈ maps.iter (rebuild maps (parsed maps lines))) :
    header.1.toLower = header.1 := by
  have listed : header.2 ∈ valuesOf header.1 (maps.iter (rebuild maps (parsed maps lines))) :=
    List.mem_map.mpr ⟨header,List.mem_filter.mpr ⟨member,beq_self_eq_true _⟩,rfl⟩
  rw [lawful.rebuilt,parsed_values lawful] at listed
  obtain ⟨line,kept,_⟩ := List.mem_map.mp (List.mem_of_mem_take listed)
  have named : line.1.toLower = header.1 := by simpa using (List.mem_filter.mp kept).2
  rw [← named,toLower_toLower]

theorem rebuilt_cookies {maps : HeaderMaps} (lawful : maps.Lawful) (lines : List Line) :
    (hyperHeaders (maps.iter (rebuild maps (parsed maps lines)))).2 =
      ((setCookieLines lines).take 1).map fun raw => (ofBytes raw).toStr.getD "" := by
  have cookies : (maps.iter (rebuild maps (parsed maps lines))).filter (fun header => isSetCookie header.1) =
      (maps.iter (rebuild maps (parsed maps lines))).filter fun header => header.1 == "set-cookie" :=
    List.filter_congr fun header member => by rw [isSetCookie,rebuilt_lower lawful lines member]
  have values := lawful.rebuilt "set-cookie" (parsed maps lines)
  rw [parsed_values lawful,valuesOf] at values
  have texts := congrArg (List.map fun value => value.toStr.getD "") values
  rw [List.map_map] at texts
  rw [hyperHeaders_snd,cookies,setCookieLines]
  refine texts.trans ?_
  simp only [← List.map_take,List.map_map]
  rfl

/-- Both paths store every line of a response exactly when there is none, or a single one of
visible ASCII and the response arrives. -/
theorem everySetCookie_kept_iff (ureq : UreqResponse) {maps : HeaderMaps} (lawful : maps.Lawful)
    (responseSink : Bool) (response : Response) :
    Complete ureq maps responseSink response ↔ AtMostOne responseSink response := by
  unfold Complete AllStored AtMostOne
  rw [ureqStored_eq,header_received]
  rcases bridgeStored_cases maps responseSink response with ⟨arrives,bridge⟩ | ⟨lost,bridge⟩
  · rw [bridge,rebuilt_cookies lawful]
    generalize setCookieLines response.lines = cookies
    cases cookies with
    | nil => simp
    | cons raw rest =>
      constructor
      · rintro ⟨-,bridge⟩ _ _ ⟨⟩
        have alone : rest = [] := by simpa using bridge.length_eq.symm
        subst alone
        have same := List.perm_singleton.mp bridge
        exact ⟨rfl,(toStr_encodes raw).mp (List.singleton_inj.mp same),arrives⟩
      · intro only
        obtain ⟨rfl,seen,_⟩ := only raw rest rfl
        obtain ⟨text,ascii,encoded⟩ := ofBytes_visible seen
        simp [ascii,HeaderValue.value,HeaderValue.toStr,encoded]
  · rw [bridge]
    generalize setCookieLines response.lines = cookies
    cases cookies with
    | nil => simp
    | cons raw rest =>
      refine iff_of_false ?_ fun only => lost (only raw rest rfl).2.2
      rintro ⟨-,bridge⟩
      simpa using bridge.length_eq

def session : List UInt8 := Utf8.encode "session=alice".toList

def cart : List UInt8 := Utf8.encode "cart=7".toList

theorem ofBytes_session : ofBytes session = .ascii "session=alice" := by decide +kernel

theorem session_complete :
    Complete lineUreq lineMaps false ⟨[("Server",[104]),("Set-Cookie",session)],[.ok (.data [104,105])],false⟩ := by
  have alone : setCookieLines [("Server",[104]),("Set-Cookie",session)] = [session] := by
    decide +kernel
  refine (everySetCookie_kept_iff lineUreq lineMaps_lawful false _).mpr ?_
  rintro raw rest same
  obtain ⟨rfl,rfl⟩ := List.cons.inj (same.symm.trans alone)
  exact ⟨rfl,by decide +kernel,rfl,.inr (by simp [Except.isOk,Except.toBool])⟩

def twoCookies : Response where
  lines := [("Set-Cookie",session),("Set-Cookie",cart)]

/-- Of two cookies the one path stores the first twice, the other one the first alone. -/
theorem second_cookie_lost : lineMaps.Lawful ∧
    ureqStored lineUreq twoCookies.lines = ["session=alice","session=alice"] ∧
    bridgeStored lineMaps false twoCookies = ["session=alice"] ∧
    ¬AllStored (setCookieLines twoCookies.lines) (ureqStored lineUreq twoCookies.lines) ∧
    ¬AllStored (setCookieLines twoCookies.lines) (bridgeStored lineMaps false twoCookies) := by
  have lines : setCookieLines twoCookies.lines = [session,cart] := by decide +kernel
  have ureq : ureqStored lineUreq twoCookies.lines = ["session=alice","session=alice"] := by
    rw [ureqStored_eq,header_received,lines]
    simp [ofBytes_session,HeaderValue.value]
  have bridge : bridgeStored lineMaps false twoCookies = ["session=alice"] := by
    refine (rebuilt_cookies lineMaps_lawful twoCookies.lines).trans ?_
    rw [lines]
    simp [ofBytes_session,HeaderValue.toStr]
  refine ⟨lineMaps_lawful,ureq,bridge,?_,?_⟩
  · rw [ureq,lines,AllStored]
    decide +kernel
  · rw [bridge,lines,AllStored]
    decide +kernel

end Fusillade.Bridge.SetCookies
