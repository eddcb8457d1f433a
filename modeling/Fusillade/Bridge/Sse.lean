import Fusillade.Lib.Utf8
import Fusillade.Bridge.Protocols
import Fusillade.Engine.DurationSyntax
import Mathlib.Data.List.DropRight

/-! Server-sent events: the lines that the buffered reader of a response makes of its bytes,
the loop that gathers an event from them, and the `recv` of a client, which keeps its stream
over a transient error. -/
namespace Fusillade.Bridge.Sse

open Stats Utils

abbrev Text := List Char

inductive ErrorKind where
  | wouldBlock
  | timedOut
  | interrupted
  | invalidData
  | other
  deriving DecidableEq, Repr

structure ReadError where
  kind : ErrorKind
  message : String
  deriving DecidableEq, Repr

/-- What a read of the response comes to, byte by byte. -/
inductive Item where
  | byte (b : UInt8)
  | error (e : ReadError)
  deriving DecidableEq

abbrev LineRead := Except ReadError Text

def invalidUtf8 : ReadError := ⟨.invalidData,"stream did not contain valid UTF-8"⟩

def decodeLine (bytes : List UInt8) : LineRead :=
  match Utf8.decode bytes with
  | some line => .ok line
  | none => .error invalidUtf8

def newline : UInt8 := Utf8.byte '\n'

/-- What the calls of `read_line` return until the stream ends, each with a new buffer: the
bytes that came before an error go with it. An interrupted read is repeated. -/
def lineReads : (line : List UInt8) → List Item → List LineRead
  | line, [] => if line = [] then [] else [decodeLine line]
  | line, .byte b :: rest =>
    if b = newline then decodeLine (line ++ [b]) :: lineReads [] rest else lineReads (line ++ [b]) rest
  | line, .error e :: rest =>
    if e.kind = .interrupted then lineReads line rest else .error e :: lineReads [] rest

@[ext] structure SseEvent where
  event : Option Text
  data : Text
  id : Option Text
  deriving DecidableEq

/-- The variables of a call of `read_sse_event`. -/
structure Pending where
  eventType : Option Text := none
  dataLines : List Text := []
  id : Option Text := none
  hasContent : Bool := false
  deriving DecidableEq

/-- `data_lines.join("\n")` -/
def join (lines : List Text) : Text := List.intercalate ['\n'] lines

def Pending.event (p : Pending) : SseEvent := ⟨p.eventType,join p.dataLines,p.id⟩

/-- `trim_end_matches(['\r', '\n'])` -/
def trimLineEnd (line : Text) : Text := line.rdropWhile (· ∈ ['\r','\n'])

/-- A line that is neither empty nor a comment. -/
def Pending.field (p : Pending) (line : Text) : Pending :=
  let p := { p with hasContent := true }
  match line.dropPrefix? "event:".toList with
  | some value => { p with eventType := some (trim value) }
  | none =>
    match line.dropPrefix? "data:".toList with
    | some value => { p with dataLines := p.dataLines ++ [trim value] }
    | none =>
      match line.dropPrefix? "id:".toList with
      | some value => { p with id := some (trim value) }
      -- `retry:` and unknown fields
      | none => p

/-- The event or the error, and the reads that are left. -/
def readSseEvent : List LineRead → Pending → Except ReadError (Option SseEvent) × List LineRead
  | [], p => (.ok (if p.hasContent then some p.event else none),[])
  | .error e :: rest, _ => (.error e,rest)
  | .ok line :: rest, p =>
    let line := trimLineEnd line
    if line = [] then
      if p.hasContent then (.ok (some p.event),rest) else readSseEvent rest p
    else if line.head? = some ':' then readSseEvent rest p
    else readSseEvent rest (p.field line)

structure SseStream where
  reader : List LineRead
  lastEventId : Option Text

structure JsSseClient where
  inner : Option SseStream

/-- The object that a script gets. -/
structure JsEvent where
  event : Text
  data : Text
  id : Option Text
  deriving DecidableEq

def SseEvent.toJs (e : SseEvent) : JsEvent := ⟨e.event.getD "message".toList,e.data,e.id⟩

def isTransient (e : ReadError) : Bool := e.kind ∈ [.wouldBlock,.timedOut,.interrupted]

/-- What a call leaves: the client, its metric, and the value, none for null. -/
structure Received where
  client : JsSseClient
  metrics : List Metric
  value : Option JsEvent

def JsSseClient.recv (client : JsSseClient) (duration : Duration) : Received :=
  match client.inner with
  | none => ⟨client,[],none⟩
  | some stream =>
    match readSseEvent stream.reader {} with
    | (.ok (some e),rest) =>
      ⟨⟨some ⟨rest,e.id <|> stream.lastEventId⟩⟩,[Protocols.makeMetric "sse::recv" duration none],
        some e.toJs⟩
    | (.ok none,_) => ⟨⟨none⟩,[],none⟩
    | (.error e,rest) =>
      let metric := Protocols.makeMetric "sse::recv" duration (some ("SSE Read Error: " ++ e.message))
      if isTransient e then ⟨⟨some { stream with reader := rest }⟩,[metric],none⟩
      else ⟨⟨none⟩,[metric],none⟩

/-- A connection over the answer to its request. -/
def connected (items : List Item) : JsSseClient := ⟨some ⟨lineReads [] items,none⟩⟩

/-- The events that successive calls of `recv` return. -/
def received (durations : Nat → Duration) : (calls : Nat) → JsSseClient → List JsEvent
  | 0, _ => []
  | calls + 1, client =>
    let result := client.recv (durations calls)
    result.value.toList ++ received durations calls result.client

/-- `read_sse_event` until the end of the stream: the events, and the error that cut it short. -/
def eventsUntilEnd : (calls : Nat) → List LineRead → List SseEvent × Option ReadError
  | 0, _ => ([],none)
  | calls + 1, reads =>
    match readSseEvent reads {} with
    | (.ok (some e),rest) =>
      let (events,error) := eventsUntilEnd calls rest
      (e :: events,error)
    | (.ok none,_) => ([],none)
    | (.error e,_) => ([],some e)

/-- The events of a stream of bytes; a call returns none before the reads have run out. -/
def parseStream (bytes : List UInt8) : List SseEvent × Option ReadError :=
  let reads := lineReads [] (bytes.map .byte)
  eventsUntilEnd (reads.length + 1) reads

/-- All that the reads lead to, where a caller goes on after some of the errors. -/
def eventsFrom (resumes : ReadError → Bool) : Pending → List LineRead → List SseEvent × Option ReadError
  | p, [] => (if p.hasContent then [p.event] else [],none)
  | _, .error e :: rest => if resumes e then eventsFrom resumes {} rest else ([],some e)
  | p, .ok line :: rest =>
    let line := trimLineEnd line
    if line = [] then
      if p.hasContent then
        let (events,error) := eventsFrom resumes {} rest
        (p.event :: events,error)
      else eventsFrom resumes p rest
    else if line.head? = some ':' then eventsFrom resumes p rest
    else eventsFrom resumes (p.field line) rest

variable {resumes : ReadError → Bool} {p : Pending} {reads rest : List LineRead}

/-- One call of `read_sse_event`, and what the reads after it lead to. -/
theorem eventsFrom_eq (resumes : ReadError → Bool) (p : Pending) (reads : List LineRead) :
    eventsFrom resumes p reads =
      match readSseEvent reads p with
      | (.ok (some e),rest) => (e :: (eventsFrom resumes {} rest).1,(eventsFrom resumes {} rest).2)
      | (.ok none,_) => ([],none)
      | (.error e,rest) => if resumes e then eventsFrom resumes {} rest else ([],some e) := by
  induction reads generalizing p with
  | nil =>
    cases content : p.hasContent <;> simp [eventsFrom,readSseEvent,content]
  | cons read rest ih =>
    cases read with
    | error e => rfl
    | ok line =>
      simp only [eventsFrom,readSseEvent]
      split
      next =>
        cases content : p.hasContent with
        | true => rfl
        | false => exact ih p
      next =>
        split
        · exact ih p
        · exact ih (p.field _)

/-- A call takes a read from a stream that has not ended. -/
theorem readSseEvent_length (reads : List LineRead) (p : Pending) :
    (readSseEvent reads p).2.length ≤ reads.length - 1 := by
  induction reads generalizing p with
  | nil => exact Nat.le_refl 0
  | cons read rest ih =>
    have later (p : Pending) : (readSseEvent rest p).2.length ≤ rest.length :=
      (ih p).trans (Nat.sub_le _ _)
    cases read with
    | error e => exact Nat.le_refl _
    | ok line =>
      simp only [readSseEvent]
      split
      · split
        · exact Nat.le_refl _
        · exact later p
      · split
        · exact later p
        · exact later (p.field _)

/-- As many calls as there are reads, and one, give all of the events. -/
theorem eventsUntilEnd_eq {calls : Nat} (enough : reads.length < calls) :
    eventsUntilEnd calls reads = eventsFrom (fun _ => false) {} reads := by
  induction calls generalizing reads with
  | zero => exact absurd enough (Nat.not_lt_zero _)
  | succ calls ih =>
    rw [eventsFrom_eq,eventsUntilEnd]
    cases reads with
    | nil => rfl
    | cons read rest =>
      have shorter := readSseEvent_length (read :: rest) {}
      split
      next e later found =>
        rw [found] at shorter
        rw [ih (by simp at shorter enough; omega)]
      next => rfl
      next => simp

theorem parseStream_eq (bytes : List UInt8) :
    parseStream bytes = eventsFrom (fun _ => false) {} (lineReads [] (bytes.map .byte)) :=
  eventsUntilEnd_eq (Nat.lt_succ_self _)

theorem received_ended (durations : Nat → Duration) (calls : Nat) : received durations calls ⟨none⟩ = [] := by
  induction calls with
  | zero => rfl
  | succ calls ih => exact ih

/-- More calls than there are reads give all of the events, and then null. -/
theorem received_eq (durations : Nat → Duration) {calls : Nat} (lastEventId : Option Text)
    (enough : reads.length < calls) :
    received durations calls ⟨some ⟨reads,lastEventId⟩⟩ =
      (eventsFrom isTransient {} reads).1.map SseEvent.toJs := by
  induction calls generalizing reads lastEventId with
  | zero => exact absurd enough (Nat.not_lt_zero _)
  | succ calls ih =>
    rw [eventsFrom_eq,received,JsSseClient.recv]
    cases reads with
    | nil => exact received_ended durations calls
    | cons read rest =>
      have shorter := readSseEvent_length (read :: rest) {}
      dsimp only
      split
      next e later found =>
        rw [found] at shorter
        simp only [List.map_cons,Option.toList_some,List.singleton_append]
        rw [ih _ (by simp at shorter enough; omega)]
      next => exact received_ended durations calls
      next e later found =>
        rw [found] at shorter
        split
        next => exact ih _ (by simp at shorter enough; omega)
        next => exact received_ended durations calls

/-- What the bytes that come next lead to, when a call holds a part of a line and some fields. -/
def following (resumes : ReadError → Bool) (line : List UInt8) (p : Pending) (bytes : List UInt8) :
    List SseEvent × Option ReadError :=
  eventsFrom resumes p (lineReads line (bytes.map .byte))

variable {line bytes : List UInt8} {text : Text}

theorem following_nil (p : Pending) :
    following resumes [] p [] = (if p.hasContent then [p.event] else [],none) := rfl

theorem following_inside {b : UInt8} (inside : b ≠ newline) (bytes : List UInt8) :
    following resumes line p (b :: bytes) = following resumes (line ++ [b]) p bytes := by
  rw [following,List.map_cons,lineReads,if_neg inside,following]

theorem following_append {front : List UInt8} (inside : newline ∉ front) (line bytes : List UInt8) :
    following resumes line p (front ++ bytes) = following resumes (line ++ front) p bytes := by
  induction front generalizing line with
  | nil => rw [List.nil_append,List.append_nil]
  | cons b front ih =>
    obtain ⟨here,later⟩ := not_or.mp (mt List.mem_cons.mpr inside)
    rw [List.cons_append,following_inside (Ne.symm here),ih later,List.append_assoc]
    rfl

theorem following_newline (line : List UInt8) (p : Pending) (bytes : List UInt8) :
    following resumes line p (newline :: bytes) =
      eventsFrom resumes p (decodeLine (line ++ [newline]) :: lineReads [] (bytes.map .byte)) := by
  rw [following,List.map_cons,lineReads,if_pos rfl]

theorem trimLineEnd_newline (text : Text) : trimLineEnd (text ++ ['\n']) = trimLineEnd text :=
  List.rdropWhile_concat_pos _ _ _ rfl

theorem trimLineEnd_concat {c : Char} (inside : c ∉ ['\r','\n']) (text : Text) :
    trimLineEnd (text ++ [c]) = text ++ [c] :=
  List.rdropWhile_concat_neg _ _ _ (by simpa using inside)

theorem decode_newline : Utf8.decode (line ++ [newline]) = (Utf8.decode line).map (· ++ ['\n']) :=
  Utf8.decode_concat (by decide)

theorem decode_nil : Utf8.decode [] = some [] := rfl

/-- A line that is not text ends the stream. -/
theorem following_invalid (invalid : Utf8.decode line = none) (dropped : resumes invalidUtf8 = false) :
    following resumes line p (newline :: bytes) = ([],some invalidUtf8) := by
  simp [following_newline,decodeLine,decode_newline,invalid,eventsFrom,dropped]

theorem following_blank (valid : Utf8.decode line = some text) (blank : trimLineEnd text = []) :
    following resumes line p (newline :: bytes) =
      if p.hasContent then
        (p.event :: (following resumes [] {} bytes).1,(following resumes [] {} bytes).2)
      else following resumes [] p bytes := by
  simp only [following_newline,decodeLine,decode_newline,valid,Option.map_some,eventsFrom,trimLineEnd_newline,
    blank,if_true]
  rfl

theorem following_comment (valid : Utf8.decode line = some text)
    (comment : (trimLineEnd text).head? = some ':') :
    following resumes line p (newline :: bytes) = following resumes [] p bytes := by
  have content : trimLineEnd text ≠ [] := by
    intro blank
    rw [blank] at comment
    cases comment
  simp only [following_newline,decodeLine,decode_newline,valid,Option.map_some,eventsFrom,trimLineEnd_newline,
    content,comment,if_false,if_true]
  rfl

theorem following_field (valid : Utf8.decode line = some text) (content : trimLineEnd text ≠ [])
    (field : (trimLineEnd text).head? ≠ some ':') :
    following resumes line p (newline :: bytes) =
      following resumes [] (p.field (trimLineEnd text)) bytes := by
  simp only [following_newline,decodeLine,decode_newline,valid,Option.map_some,eventsFrom,trimLineEnd_newline,
    content,field,if_false]
  rfl

theorem field_hasContent (p : Pending) (line : Text) : (p.field line).hasContent = true := by
  unfold Pending.field
  dsimp only
  split
  · rfl
  · split
    · rfl
    · split <;> rfl

theorem parseStream_following (bytes : List UInt8) :
    parseStream bytes = following (fun _ => false) [] {} bytes := parseStream_eq bytes

end Fusillade.Bridge.Sse
