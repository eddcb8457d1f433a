import Fusillade.Bridge.Chaos
import Fusillade.Stats.FailureRate
import Fusillade.Lib.Machine

/-! Failed requests in a file of JSON lines: the two functions that append to it and read it,
and the requests of a run with a capture path, of which none calls the first. -/
namespace Fusillade.Bridge.Replay

open Stats CookieJar Redirects Chaos Machine

structure CapturedRequest where
  timestamp : String
  method : String
  url : String
  headers : Headers
  body : Option String
  status : UInt16
  error : Option String
  responseBody : Option String
  deriving DecidableEq

/-- A line as it was read, in reverse, without a carriage return at its end. -/
def dropCarriageReturn : List Char → List Char
  | '\r' :: read => read
  | read => read

/-- `lines()` of a buffered reader: a line ends in a newline or at the end of the file. -/
def linesFrom (read : List Char) : List Char → List String
  | [] => if read = [] then [] else [String.ofList read.reverse]
  | '\n' :: rest =>
    String.ofList (dropCarriageReturn read).reverse :: linesFrom [] rest
  | c :: rest => linesFrom (c :: read) rest

section

variable (toString : CapturedRequest → Option String) (fromStr : String → Option CapturedRequest)

/-- The file is made where there is none. -/
def captureFailedRequest (request : CapturedRequest) (file : Option (List Char)) : List Char :=
  let content := file.getD []
  match toString request with
  | some json => content ++ json.toList ++ ['\n']
  | none => content

/-- Lines that are no request are skipped; without a file it is an error. -/
def loadCapturedRequests (file : Option (List Char)) : Option (List CapturedRequest) :=
  file.map fun content => (linesFrom [] content).filterMap fromStr

end

variable {toString : CapturedRequest → Option String} {fromStr : String → Option CapturedRequest}

theorem linesFrom_line {line : List Char} (inside : '\n' ∉ line) (read rest : List Char) :
    linesFrom read (line ++ rest) = linesFrom (line.reverse ++ read) rest := by
  induction line generalizing read with
  | nil => rfl
  | cons c line ih =>
    have step : linesFrom read (c :: (line ++ rest)) = linesFrom (c :: read) (line ++ rest) := by
      rw [linesFrom]
      exact fun newline => inside (newline ▸ List.mem_cons_self)
    rw [List.cons_append,step,ih fun member => inside (List.mem_cons_of_mem _ member)]
    simp

theorem linesFrom_append (content rest : List Char) (read : List Char) :
    linesFrom read (content ++ '\n' :: rest) = linesFrom read (content ++ ['\n']) ++ linesFrom [] rest := by
  induction content generalizing read with
  | nil => simp [linesFrom]
  | cons c content ih =>
    by_cases newline : c = '\n'
    · subst newline
      simp only [List.cons_append,linesFrom,ih]
    · have step (rest : List Char) : linesFrom read (c :: rest) = linesFrom (c :: read) rest := by
        rw [linesFrom]
        exact newline
      rw [List.cons_append,List.cons_append,step,step,ih]

def Complete (file : Option (List Char)) : Prop :=
  file.getD [] = [] ∨ ∃ content, file = some (content ++ ['\n'])

theorem linesFrom_complete {file : Option (List Char)} (complete : Complete file) (rest : List Char) :
    linesFrom [] (file.getD [] ++ rest) = linesFrom [] (file.getD []) ++ linesFrom [] rest := by
  rcases complete with empty | ⟨content,rfl⟩
  · rw [empty]
    rfl
  · simpa using linesFrom_append content rest []

theorem linesFrom_ended {line : List Char} (oneLine : '\n' ∉ line) (plain : line.getLast? ≠ some '\r') :
    linesFrom [] (line ++ ['\n']) = [String.ofList line] := by
  have kept : dropCarriageReturn line.reverse = line.reverse := by
    unfold dropCarriageReturn
    split
    next read same => exact absurd (by rw [← List.head?_reverse,same]; rfl) plain
    next => rfl
  rw [linesFrom_line oneLine,List.append_nil,linesFrom,kept,List.reverse_reverse]
  rfl

theorem load_capture {request : CapturedRequest} {json : String} {file : Option (List Char)}
    (complete : Complete file) (serialised : toString request = some json)
    (oneLine : '\n' ∉ json.toList) (plain : json.toList.getLast? ≠ some '\r')
    (parses : fromStr json = some request) :
    loadCapturedRequests fromStr (some (captureFailedRequest toString request file)) =
      some ((loadCapturedRequests fromStr file).getD [] ++ [request]) ∧
    Complete (some (captureFailedRequest toString request file)) := by
  have appended : captureFailedRequest toString request file =
      file.getD [] ++ (json.toList ++ ['\n']) := by
    simp [captureFailedRequest,serialised]
  have before : (loadCapturedRequests fromStr file).getD [] =
      (linesFrom [] (file.getD [])).filterMap fromStr := by
    cases file <;> rfl
  constructor
  · rw [appended,before,loadCapturedRequests,Option.map_some,linesFrom_complete complete,
      linesFrom_ended oneLine plain,String.ofList_toList,List.filterMap_append]
    simp [parses]
  · exact .inr ⟨file.getD [] ++ json.toList,by rw [appended,List.append_assoc]⟩

/-- What the file is to say about a failed request. -/
structure FailedRequest where
  method : String
  url : String
  headers : Headers
  body : Option String
  status : UInt16
  error : Option String
  deriving DecidableEq

def CapturedRequest.failed (request : CapturedRequest) : FailedRequest where
  method := request.method
  url := request.url
  headers := request.headers
  body := request.body
  status := request.status
  error := request.error

def failedRequest (call : Call) (response : SyncHttpResponse) : FailedRequest where
  method := call.method
  url := call.url
  headers := call.headers
  body := call.body
  status := response.status
  error := response.error

/-- Status 0 stands for a failed transport. -/
def failed (response : SyncHttpResponse) : Bool := HttpOutcome.failed (.response response.status)

/-- The file at the capture path, the jars of the threads, and the failed requests so far. -/
structure State (crates : Crates) where
  file : Option (List Char)
  jars : Nat → crates.Jar
  failures : List FailedRequest

/-- A worker on some thread makes a request and gets the answers of a transport. -/
structure Action where
  worker : Nat
  thread : Nat
  call : Call
  transport : Transport
  clock : Nat → Reading

variable {crates : Crates}

def Action.outcome (globals : Nat → Globals) (a : Action) (s : State crates) : Outcome crates :=
  (globals a.worker).request crates a.transport a.call a.clock (s.jars a.thread)

/-- Both paths end without a call of `capture_failed_request`. -/
def step (globals : Nat → Globals) (s : State crates) (a : Action) : Option (State crates) :=
  let outcome := a.outcome globals s
  some { s with
    jars := Function.update s.jars a.thread outcome.jar
    failures := if failed outcome.response then s.failures ++ [failedRequest a.call outcome.response]
      else s.failures }

/-- The file returns what it returned before the run and each failed request once. -/
def Captured (fromStr : String → Option CapturedRequest) (before after : State crates) : Prop :=
  (((loadCapturedRequests fromStr after.file).getD []).map CapturedRequest.failed).Perm
    (((loadCapturedRequests fromStr before.file).getD []).map CapturedRequest.failed ++ after.failures)

def Succeeds (globals : Nat → Globals) (s : State crates) (a : Action) : Prop :=
  failed (a.outcome globals s).response = false

variable {globals : Nat → Globals} {s t : State crates} {actions : List Action}

theorem exec_file (run : exec (step globals) s actions = some t) : t.file = s.file := by
  refine exec_invariant (fun u : State crates => u.file = s.file) ?_ run rfl
  intro u a v same taken
  obtain rfl := Option.some.inj taken
  exact same

theorem exec_failures (run : exec (step globals) s actions = some t) :
    s.failures <+: t.failures ∧
      (t.failures = s.failures ↔ Guarded (step globals) (Succeeds globals) s actions) := by
  induction actions generalizing s with
  | nil =>
    cases run
    exact ⟨List.prefix_rfl,iff_of_true rfl trivial⟩
  | cons a rest ih =>
    obtain ⟨u,first,later⟩ := exec_cons_iff.mp run
    obtain ⟨grows,same⟩ := ih later
    obtain rfl := Option.some.inj first
    by_cases fails : failed (a.outcome globals s).response
    · simp only [fails,if_true] at grows
      have longer := List.IsPrefix.length_le grows
      simp only [List.length_append,List.length_singleton] at longer
      refine ⟨(List.prefix_append _ _).trans grows,iff_of_false ?_ ?_⟩
      · intro kept
        rw [kept] at longer
        omega
      · intro guarded
        exact absurd fails (Bool.eq_false_iff.mp guarded.1)
    · have succeeds : Succeeds globals s a := Bool.eq_false_iff.mpr fails
      simp only [if_neg fails] at grows same
      refine ⟨grows,same.trans ⟨fun guarded => ⟨succeeds,fun v taken => ?_⟩,fun guarded => ?_⟩⟩
      · obtain rfl := Option.some.inj taken
        simpa [fails] using guarded
      · have := guarded.2 _ rfl
        simpa [fails] using this

/-- Nothing is ever captured, so the file is complete exactly when nothing fails. -/
theorem captured_iff (fromStr : String → Option CapturedRequest)
    (run : exec (step globals) s actions = some t) (start : s.failures = []) :
    Captured fromStr s t ↔ Guarded (step globals) (Succeeds globals) s actions := by
  rw [← (exec_failures run).2,start,Captured,exec_file run]
  constructor
  · intro perm
    have sizes := perm.length_eq
    rw [List.length_append] at sizes
    exact List.length_eq_zero_iff.mp (by omega)
  · intro none
    rw [none,List.append_nil]

def checkout : Action where
  worker := 0
  thread := 0
  call := { method := "POST", url := "https://shop.test/checkout", body := some "item=1" }
  transport _ := .ok ⟨500,[],[]⟩
  clock _ := {}

def beforeRun : State hostCrates := ⟨none,fun _ => ([] : List HostCookie),[]⟩

theorem failure_not_captured :
    (exec (step fun _ => ⟨false,false⟩) beforeRun [checkout]).map
        (fun s => (loadCapturedRequests (fun _ => none) s.file,s.failures)) =
      some (none,[⟨"POST","https://shop.test/checkout",[],some "item=1",500,none⟩]) := by
  decide +kernel

theorem captured_iff_checkout : ∃ t,
    exec (step fun _ => ⟨false,false⟩) beforeRun [checkout] = some t ∧
      (Captured (fun _ => none) beforeRun t ↔
        Guarded (step fun _ => ⟨false,false⟩) (Succeeds fun _ => ⟨false,false⟩) beforeRun [checkout]) :=
  ⟨_,rfl,captured_iff _ rfl rfl⟩

end Fusillade.Bridge.Replay
