import Fusillade.Bridge.Redirects
import Mathlib.Data.List.Dedup

/-! The asynchronous client behind the bridge. It reads the body of a response to its end,
keeps it or throws it away, and rebuilds the response around it. The maps of headers and the
connections are those of the crates in use. -/
namespace Fusillade.Bridge.HttpClient

open Stats Redirects

/-- What the client uses of `http::HeaderMap`, whose names are in lower case. -/
structure HeaderMaps where
  Map : Type
  empty : Map
  append : String → HeaderValue → Map → Map
  iter : Map → List (String × HeaderValue)
  intoIter : Map → List (Option String × HeaderValue)

def valuesOf (name : String) (headers : List (String × HeaderValue)) : List HeaderValue :=
  (headers.filter fun header => header.1 == name).map Prod.snd

/-- A name with its values, of which there is at least one. -/
structure Entry where
  name : String
  first : HeaderValue
  further : List HeaderValue

/-- What the owned iterator makes of an entry: only the first value comes with the name. -/
def Entry.owned (entry : Entry) : List (Option String × HeaderValue) :=
  (some entry.name,entry.first) :: entry.further.map fun value => (none,value)

/-- The documented behaviour of a map: it keeps every value that is appended, in the order of
its name. -/
structure HeaderMaps.Lawful (maps : HeaderMaps) : Prop where
  empty_iter : maps.iter maps.empty = []
  append_iter : ∀ name value map other, valuesOf other (maps.iter (maps.append name value map)) =
    valuesOf other (maps.iter map) ++ if other = name then [value] else []
  intoIter_eq : ∀ map, ∃ entries : List Entry, maps.intoIter map = entries.flatMap Entry.owned ∧
    (entries.map Entry.name).Nodup ∧
    ∀ name, valuesOf name (maps.iter map) =
      (entries.filter fun entry => entry.name == name).flatMap
        fun entry => entry.first :: entry.further

inductive Frame where
  | data (bytes : List UInt8)
  | trailers (headers : List (String × HeaderValue))
  deriving DecidableEq

def Frame.dataRef : Frame → Option (List UInt8)
  | .data bytes => some bytes
  | .trailers _ => none

/-- The frames of a body as the connection yields them, errors among them. -/
abbrev BodyStream := List (Except String Frame)

/-- A round of the loop of sink mode, which passes over whatever is no data. -/
def countChunk (totalSize : Nat) : Except String Frame → Nat
  | .ok frame => match frame.dataRef with
    | some data => totalSize + data.length
    | none => totalSize
  | .error _ => totalSize

def sinkSize (stream : BodyStream) : Nat := stream.foldl countChunk 0

/-- `BodyExt::collect` and `to_bytes`: the data up to the end of the stream or its first error. -/
def collect : BodyStream → Except String (List UInt8)
  | [] => .ok []
  | .error message :: _ => .error message
  | .ok frame :: rest =>
    match collect rest with
    | .ok body => .ok (frame.dataRef.getD [] ++ body)
    | .error message => .error message

/-- The body that the response gets, and the size that is reported of it. -/
def readBody (responseSink : Bool) (stream : BodyStream) : Except String (List UInt8 × Nat) :=
  if responseSink then .ok ([],sinkSize stream)
  else match collect stream with
    | .ok body => .ok (body,body.length)
    | .error message => .error message

def HeaderValue.len : HeaderValue → Nat
  | .ascii text | .utf8 text => text.utf8ByteSize
  | .bytes raw => raw.length

def headersSize (headers : List (String × HeaderValue)) (size : Nat) : Nat :=
  headers.foldl (fun size header =>
    size + (header.1.utf8ByteSize + 2 + HeaderValue.len header.2 + 2)) size

/-- What the clocks and the connectors measure of a request. -/
structure Measured where
  connecting : Duration := 0
  tls : Duration := 0
  timeToHeaders : Duration := 0
  receiving : Duration := 0

def Measured.timings (measured : Measured) (requestSize responseSize : Nat) : RequestTimings :=
  let tlsHandshaking := measured.tls - measured.connecting
  let connectionTime := measured.connecting + tlsHandshaking
  let sending : Duration := 100000
  let waiting := measured.timeToHeaders - connectionTime - sending
  { blocked := 0
    connecting := measured.connecting
    tlsHandshaking
    sending
    waiting
    receiving := measured.receiving
    duration := connectionTime + sending + waiting + measured.receiving
    responseSize
    requestSize
    poolReused := connectionTime == 0 }

variable (maps : HeaderMaps)

/-- A response with its body still on the connection. -/
structure Streaming where
  status : UInt16
  headers : maps.Map
  bodyStream : BodyStream

/-- The new response gets what comes with a name. -/
def rebuild (headers : maps.Map) : maps.Map :=
  (maps.intoIter headers).foldl (fun builder header =>
    match header.1 with
    | some key => maps.append key header.2 builder
    | none => builder) maps.empty

def request (connection : Hop → Except String (Streaming maps)) (req : Hop) (responseSink : Bool)
    (measured : Measured) : Except String (RawResponse × RequestTimings) :=
  match connection req with
  | .error message => .error message
  | .ok response =>
    match readBody responseSink response.bodyStream with
    | .error message => .error message
    | .ok (body,respBodySize) =>
      let reqSize := estimateRequestSize req.method req.url req.headers req.body.utf8ByteSize
      let respSize := headersSize (maps.iter response.headers) (respBodySize + 15) + 2
      .ok (⟨response.status,maps.iter (rebuild maps response.headers),body⟩,
        measured.timings reqSize respSize)

section Sink

/-- A body that is read without an error has the size that the sink counts. -/
theorem sinkSize_of_collect {stream : BodyStream} {body : List UInt8}
    (read : collect stream = .ok body) : sinkSize stream = body.length := by
  suffices counted : ∀ totalSize, stream.foldl countChunk totalSize = totalSize + body.length by
    rw [sinkSize,counted,Nat.zero_add]
  induction stream generalizing body with
  | nil =>
    obtain rfl := Except.ok.inj read
    simp
  | cons chunk rest ih =>
    intro totalSize
    cases chunk with
    | error message => cases read
    | ok frame =>
      rw [collect] at read
      split at read
      next later found =>
        obtain rfl := Except.ok.inj read
        rw [List.foldl_cons,ih found]
        cases frame with
        | data bytes => simp [countChunk,Frame.dataRef,Nat.add_assoc]
        | trailers headers => simp [countChunk,Frame.dataRef]
      next => cases read

theorem collect_isOk (stream : BodyStream) :
    (collect stream).isOk = true ↔ ∀ chunk ∈ stream, chunk.isOk = true := by
  induction stream with
  | nil => simp [collect,Except.isOk,Except.toBool]
  | cons chunk rest ih =>
    rw [List.forall_mem_cons,← ih]
    cases chunk with
    | error message => simp [collect,Except.isOk,Except.toBool]
    | ok frame =>
      rw [collect]
      cases collect rest <;> simp [Except.isOk,Except.toBool]

variable {maps} (connection : Hop → Except String (Streaming maps)) (req : Hop)
  (sinkClock clock : Measured)

/-- Sink mode succeeds with the normal mode, and then they differ in the body alone. -/
def SinkEquivalent : Prop :=
  ((request maps connection req true sinkClock).isOk = true ↔
    (request maps connection req false clock).isOk = true) ∧
  ∀ sunk kept, request maps connection req true sinkClock = .ok sunk →
    request maps connection req false clock = .ok kept →
      sunk.1 = { kept.1 with body := [] } ∧ sunk.2.responseSize = kept.2.responseSize ∧
        sunk.2.requestSize = kept.2.requestSize

variable {connection req}

theorem request_sunk {response : Streaming maps} (answer : connection req = .ok response) :
    (request maps connection req true sinkClock).isOk = true := by
  simp [request,answer,readBody,Except.isOk,Except.toBool]

theorem request_kept {response : Streaming maps} (answer : connection req = .ok response) :
    (request maps connection req false clock).isOk = (collect response.bodyStream).isOk := by
  simp only [request,answer,readBody,Bool.false_eq_true,if_false]
  cases collect response.bodyStream <;> rfl

variable (connection req)

/-- The modes agree exactly on the bodies that arrive without an error. -/
theorem sinkEquivalent_iff : SinkEquivalent connection req sinkClock clock ↔
    ∀ response, connection req = .ok response → ∀ chunk ∈ response.bodyStream,
      chunk.isOk = true := by
  constructor
  · intro equivalent response answer
    rw [← collect_isOk,← request_kept clock answer,← equivalent.1]
    exact request_sunk sinkClock answer
  · intro clean
    cases answer : connection req with
    | error message => simp [SinkEquivalent,request,answer]
    | ok response =>
      have read := (collect_isOk _).mpr (clean response answer)
      refine ⟨by rw [request_sunk sinkClock answer,request_kept clock answer,read],?_⟩
      intro sunk kept sinking keeping
      simp only [request,answer,readBody,if_true,Except.ok.injEq] at sinking
      subst sinking
      cases collected : collect response.bodyStream with
      | error message => simp [collected,Except.isOk,Except.toBool] at read
      | ok body =>
        simp only [request,answer,readBody,collected,Bool.false_eq_true,if_false,
          Except.ok.injEq] at keeping
        subst keeping
        exact ⟨rfl,by simp [Measured.timings,sinkSize_of_collect collected],rfl⟩

end Sink

def entryOf (headers : List (String × HeaderValue)) (name : String) : Option Entry :=
  match valuesOf name headers with
  | [] => none
  | first :: further => some ⟨name,first,further⟩

/-- A map that is the list of its values, as they came. -/
def lineMaps : HeaderMaps where
  Map := List (String × HeaderValue)
  empty := []
  append name value headers := headers ++ [(name,value)]
  iter headers := headers
  intoIter headers :=
    ((headers.map Prod.fst).dedup.filterMap (entryOf headers)).flatMap Entry.owned

/-- The connection breaks within the body. -/
def brokenConnection : Hop → Except String (Streaming lineMaps) := fun _ =>
  .ok ⟨200,[],[.ok (.data [104,105]),.error "error reading a body from connection"]⟩

theorem not_sinkEquivalent :
    ¬SinkEquivalent brokenConnection ⟨"GET","https://shop.test/",[],""⟩ {} {} := by
  intro equivalent
  have kept := equivalent.1.mp (by decide +kernel)
  exact absurd kept (by decide +kernel)

section Rebuild

variable {maps}

theorem valuesOf_append (name : String) (front rest : List (String × HeaderValue)) :
    valuesOf name (front ++ rest) = valuesOf name front ++ valuesOf name rest := by
  simp [valuesOf]

theorem valuesOf_cons (name : String) (header : String × HeaderValue)
    (rest : List (String × HeaderValue)) :
    valuesOf name (header :: rest) = (if name = header.1 then [header.2] else []) ++ valuesOf name rest := by
  by_cases same : name = header.1
  · simp [valuesOf,same]
  · simp [valuesOf,same,Ne.symm same]

/-- What comes out of a map is what was put into it. -/
theorem HeaderMaps.Lawful.appended (lawful : maps.Lawful) (name : String)
    (headers : List (String × HeaderValue)) (map : maps.Map) :
    valuesOf name (maps.iter (headers.foldl (fun map header => maps.append header.1 header.2 map) map)) =
      valuesOf name (maps.iter map) ++ valuesOf name headers := by
  induction headers generalizing map with
  | nil => simp [valuesOf]
  | cons header rest ih =>
    rw [List.foldl_cons,ih,lawful.append_iter,valuesOf_cons,List.append_assoc]

/-- The values that come with a name. -/
def named (headers : List (Option String × HeaderValue)) : List (String × HeaderValue) :=
  headers.filterMap fun header => header.1.map fun name => (name,header.2)

theorem rebuild_eq (map : maps.Map) : rebuild maps map =
    (named (maps.intoIter map)).foldl (fun map header => maps.append header.1 header.2 map) maps.empty := by
  unfold rebuild named
  generalize maps.empty = builder
  induction maps.intoIter map generalizing builder with
  | nil => rfl
  | cons header rest ih =>
    obtain ⟨name,value⟩ := header
    cases name <;> simpa using ih _

theorem named_owned (entries : List Entry) :
    named (entries.flatMap Entry.owned) = entries.map fun entry => (entry.name,entry.first) := by
  induction entries with
  | nil => rfl
  | cons entry rest ih =>
    rw [List.flatMap_cons,named,List.filterMap_append]
    simpa [Entry.owned,named] using ih

/-- The response that is rebuilt has the first value of each name, and no other. -/
theorem HeaderMaps.Lawful.rebuilt (lawful : maps.Lawful) (name : String) (map : maps.Map) :
    valuesOf name (maps.iter (rebuild maps map)) = (valuesOf name (maps.iter map)).take 1 := by
  obtain ⟨entries,owned,distinct,values⟩ := lawful.intoIter_eq map
  rw [rebuild_eq,lawful.appended,lawful.empty_iter,owned,named_owned,values name]
  clear owned values
  induction entries with
  | nil => rfl
  | cons entry rest ih =>
    obtain ⟨fresh,distinct⟩ := List.nodup_cons.mp distinct
    rw [List.map_cons,valuesOf_cons]
    by_cases same : name = entry.name
    · subst same
      have others : rest.filter (fun other => other.name == entry.name) = [] := by
        refine List.filter_eq_nil_iff.mpr fun other member => ?_
        intro again
        exact fresh (List.mem_map.mpr ⟨other,member,by simpa using again⟩)
      have alone : valuesOf entry.name (rest.map fun entry => (entry.name,entry.first)) = [] := by
        simpa [others,valuesOf] using ih distinct
      rw [alone,List.filter_cons,others]
      simp [valuesOf]
    · have later := ih distinct
      simpa [same,Ne.symm same,valuesOf] using later

end Rebuild

theorem entryOf_name {headers : List (String × HeaderValue)} {name : String} {entry : Entry}
    (found : entryOf headers name = some entry) :
    entry.name = name ∧ entry.first :: entry.further = valuesOf name headers := by
  unfold entryOf at found
  split at found
  next => cases found
  next values =>
    obtain rfl := Option.some.inj found
    exact ⟨rfl,values.symm⟩

theorem entries_values (headers : List (String × HeaderValue)) (name : String) {names : List String}
    (distinct : names.Nodup) :
    ((names.filterMap (entryOf headers)).filter fun entry => entry.name == name).flatMap
        (fun entry => entry.first :: entry.further) =
      if name ∈ names then valuesOf name headers else [] := by
  induction names with
  | nil => simp
  | cons next rest ih =>
    obtain ⟨fresh,distinct⟩ := List.nodup_cons.mp distinct
    have later := ih distinct
    cases found : entryOf headers next with
    | none =>
      have absent : valuesOf next headers = [] := by
        unfold entryOf at found
        split at found
        next values => exact values
        next => cases found
      rw [List.filterMap_cons_none found,later]
      by_cases same : name = next
      · simp [same,fresh,absent]
      · simp [same]
    | some entry =>
      obtain ⟨rfl,values⟩ := entryOf_name found
      rw [List.filterMap_cons_some found]
      by_cases same : name = entry.name
      · subst same
        rw [if_neg fresh] at later
        simp [later,values]
      · simp [same,Ne.symm same,later]

theorem valuesOf_concat (other name : String) (value : HeaderValue)
    (headers : List (String × HeaderValue)) : valuesOf other (headers ++ [(name,value)]) =
      valuesOf other headers ++ if other = name then [value] else [] := by
  rw [valuesOf_append,valuesOf_cons]
  simp [valuesOf]

theorem valuesOf_unnamed {headers : List (String × HeaderValue)} {name : String}
    (absent : name ∉ headers.map Prod.fst) : valuesOf name headers = [] := by
  have unnamed : headers.filter (fun header => header.1 == name) = [] := by
    refine List.filter_eq_nil_iff.mpr fun header member => ?_
    intro same
    exact absent (List.mem_map.mpr ⟨header,member,by simpa using same⟩)
  rw [valuesOf,unnamed,List.map_nil]

theorem lineMaps_lawful : lineMaps.Lawful where
  empty_iter := rfl
  append_iter name value headers other := valuesOf_concat other name value headers
  intoIter_eq headers := by
    refine ⟨_,rfl,?_,fun name => ?_⟩
    · refine (List.nodup_dedup (headers.map Prod.fst)).sublist ?_
      generalize (headers.map Prod.fst).dedup = names
      induction names with
      | nil => exact .refl _
      | cons name rest ih =>
        cases found : entryOf headers name with
        | none =>
          rw [List.filterMap_cons_none found]
          exact ih.cons _
        | some entry =>
          rw [List.filterMap_cons_some found,List.map_cons,(entryOf_name found).1]
          exact ih.cons_cons _
    · rw [entries_values headers name (List.nodup_dedup _)]
      split
      next => rfl
      next absent => exact valuesOf_unnamed fun member => absent (List.mem_dedup.mpr member)

end Fusillade.Bridge.HttpClient
