import Fusillade.Cluster.Ingestion
import Fusillade.Cluster.Registry
import Fusillade.Cluster.Wire

/-! The two servers of a controller over one state. The gRPC service checks the cluster token
of every call; the HTTP router has no check on any route, and the workers stream their metrics
to it. -/
namespace Fusillade.Cluster

open Stats

structure StartTest where
  scriptContent : String
  configJson : String
  assets : HashMap String String
  metricsUrl : String
  deriving DecidableEq

/-- `configJson` is what `serde_json::to_string` makes of the configuration. -/
structure DispatchTestRequest where
  scriptContent : String
  configJson : Except String String
  assets : HashMap String String

structure DispatchTestResponse where
  success : Bool
  workersDispatched : Nat
  message : String
  deriving DecidableEq

namespace Controller

structure State where
  cluster : Cluster.State
  aggregator : Lock
  /-- The commands put into the channel of each stream. -/
  enqueued : Nat → List StartTest

inductive HttpRequest where
  | index
  | dashboard
  | metrics (batch : MetricBatch)
  | apiStats
  | apiHistory
  | apiScreenshots
  | apiWorkers
  /-- `accepts` tells the channels that are neither full nor closed. -/
  | apiDispatch (payload : DispatchTestRequest) (accepts : Nat → Bool)
  | screenshot (path : String)
  /-- No such route or method, or a body that does not deserialize. -/
  | rejected

inductive Action where
  /-- `register`: the call, and then what its stream does. -/
  | register (a : Cluster.Action)
  | reportMetrics (authorization : Option String) (batches : List (List ProtoMetric))
  | http (authorization : Option String) (request : HttpRequest)

def takes (workers : WorkerRegistry) (accepts : Nat → Bool) (id : String) : Bool :=
  (workers.lookup id).any fun worker => accepts worker.sender

def dispatchTestToWorkers (workers : WorkerRegistry) (accepts : Nat → Bool) : Except String Nat :=
  if workers.keys.card = 0 then .error "No workers connected"
  else .ok (workers.keys.filter fun id => takes workers accepts id).card

/-- A registered worker gets the command on this stream. -/
def receives (workers : WorkerRegistry) (accepts : Nat → Bool) (stream : Nat) : Bool :=
  accepts stream && decide (∃ id ∈ workers.keys, (workers.lookup id).any (·.sender = stream))

def delivered (metricsUrl : String) (workers : WorkerRegistry) (payload : DispatchTestRequest)
    (accepts : Nat → Bool) (stream : Nat) : List StartTest :=
  match payload.configJson with
  | .error _ => []
  | .ok configJson =>
    if receives workers accepts stream then
      [⟨payload.scriptContent,configJson,payload.assets,metricsUrl⟩]
    else []

def handleApiDispatch (metricsUrl : String) (s : State) (payload : DispatchTestRequest)
    (accepts : Nat → Bool) : State × DispatchTestResponse :=
  match payload.configJson with
  | .error e => (s,⟨false,0,"Failed to serialize config: " ++ e⟩)
  | .ok _ =>
    match dispatchTestToWorkers s.cluster.workers accepts with
    | .ok count =>
      ({ s with enqueued := fun stream =>
          s.enqueued stream ++ delivered metricsUrl s.cluster.workers payload accepts stream },
        ⟨true,count,"Test dispatched to " ++ toString count ++ " workers"⟩)
    | .error e => (s,⟨false,0,e⟩)

section

variable (bucketOf : Nat → Option Nat) (clusterToken : Option String) (metricsUrl : String)

def handle (s : State) : HttpRequest → State
  | .metrics batch => { s with aggregator := handleMetrics bucketOf s.aggregator batch }
  | .apiDispatch payload accepts => (handleApiDispatch metricsUrl s payload accepts).1
  | .index | .dashboard | .apiStats | .apiHistory | .apiScreenshots | .apiWorkers | .screenshot _
  | .rejected => s

/-- A call that is refused gets `UNAUTHENTICATED` and leaves no trace. -/
def step (s : State) : Action → Option State
  | .register (.connect authorization) =>
    match Cluster.step clusterToken s.cluster (.connect authorization) with
    | some cluster => some { s with cluster }
    | none => some s
  | .register a => (Cluster.step clusterToken s.cluster a).map fun cluster => { s with cluster }
  | .reportMetrics authorization batches =>
    if checkAuth clusterToken authorization then
      some { s with aggregator := batches.foldl (fun lock batch =>
        handleMetrics bucketOf lock ⟨0,batch.map reportedMetric⟩) s.aggregator }
    else some s
  | .http _ request => some (handle bucketOf metricsUrl s request)

end

/-- A request without the token. What a stream does is part of the call that opened it, so it
is not one of the streams that were open before. -/
def Tokenless (token : String) (opened : Nat) : Action → Prop
  | .register (.connect authorization) | .reportMetrics authorization _ | .http authorization _ =>
    authorization ≠ some ("Bearer " ++ token)
  | .register (.message stream _) | .register (.disconnect stream) => opened ≤ stream

def posted (actions : List Action) : List MetricBatch :=
  actions.filterMap fun
    | .http _ (.metrics batch) => some batch
    | _ => none

def dispatched (metricsUrl : String) (workers : WorkerRegistry) (stream : Nat)
    (actions : List Action) : List StartTest :=
  actions.flatMap fun
    | .http _ (.apiDispatch payload accepts) => delivered metricsUrl workers payload accepts stream
    | _ => []

variable {bucketOf : Nat → Option Nat} {token metricsUrl : String} {s t : State} {a : Action}

/-- An empty token is matched by a missing header, any other by the right header alone. -/
theorem checkAuth_refuses {authorization : Option String} (nonempty : token ≠ "")
    (other : authorization ≠ some ("Bearer " ++ token)) :
    checkAuth (some token) authorization = false := by
  have letters : token.toList ≠ [] := fun none => nonempty (String.toList_inj.mp none)
  by_contra accepted
  have same : (authorization.bind stripBearer).getD [] = token.toList := by
    simpa [checkAuth] using accepted
  cases authorization with
  | none => exact letters same.symm
  | some header =>
    simp only [Option.bind_some,stripBearer] at same
    split at same
    next bearer =>
      obtain ⟨rest,text⟩ := List.isPrefixOf_iff_prefix.mp bearer
      rw [← text] at same
      refine other (congrArg some (String.toList_inj.mp ?_))
      rw [← text,String.toList_append,← same]
      rfl
    next => exact letters same.symm

/-- Whether it succeeds or not, a dispatch enqueues what is delivered and touches nothing else. -/
theorem handleApiDispatch_eq (payload : DispatchTestRequest) (accepts : Nat → Bool) :
    (handleApiDispatch metricsUrl s payload accepts).1 = { s with
      enqueued := fun stream =>
        s.enqueued stream ++ delivered metricsUrl s.cluster.workers payload accepts stream } := by
  unfold handleApiDispatch
  cases config : payload.configJson with
  | error e => simp [delivered,config]
  | ok configJson =>
    simp only [dispatchTestToWorkers]
    split
    next => rfl
    next failed =>
      have empty : s.cluster.workers.keys = ∅ := by
        by_contra connected
        simp [connected] at failed
      simp [delivered,config,receives,empty]

/-- What a request without the token does to the state. -/
structure Untouched (metricsUrl : String) (bucketOf : Nat → Option Nat) (s : State)
    (actions : List Action) (t : State) : Prop where
  cluster : t.cluster = s.cluster
  aggregator : t.aggregator = (posted actions).foldl (handleMetrics bucketOf) s.aggregator
  enqueued : ∀ stream, t.enqueued stream =
    s.enqueued stream ++ dispatched metricsUrl s.cluster.workers stream actions

theorem handle_untouched (authorization : Option String) (request : HttpRequest) :
    Untouched metricsUrl bucketOf s [.http authorization request]
      (handle bucketOf metricsUrl s request) := by
  cases request with
  | metrics batch => exact ⟨rfl,rfl,fun stream => (List.append_nil _).symm⟩
  | apiDispatch payload accepts =>
    rw [handle,handleApiDispatch_eq]
    exact ⟨rfl,rfl,fun stream => by simp [dispatched]⟩
  | index | dashboard | apiStats | apiHistory | apiScreenshots | apiWorkers | screenshot | rejected =>
    exact ⟨rfl,rfl,fun stream => (List.append_nil _).symm⟩

theorem refused_untouched (other : ∀ authorization request, a ≠ .http authorization request) :
    Untouched metricsUrl bucketOf s [a] s := by
  cases a with
  | http authorization request => exact absurd rfl (other authorization request)
  | register | reportMetrics => exact ⟨rfl,rfl,fun stream => (List.append_nil _).symm⟩

theorem step_tokenless (nonempty : token ≠ "") (tokenless : Tokenless token s.cluster.streams.length a)
    (taken : step bucketOf (some token) metricsUrl s a = some t) :
    Untouched metricsUrl bucketOf s [a] t := by
  cases a with
  | http authorization request =>
    obtain rfl := Option.some.inj taken
    exact handle_untouched authorization request
  | reportMetrics authorization batches =>
    rw [step,checkAuth_refuses nonempty tokenless,if_neg (by simp)] at taken
    obtain rfl := Option.some.inj taken
    exact refused_untouched (by simp)
  | register rpc =>
    cases rpc with
    | connect authorization =>
      simp only [step,Cluster.step,checkAuth_refuses nonempty tokenless] at taken
      obtain rfl := Option.some.inj taken
      exact refused_untouched (by simp)
    | message i message =>
      have outside : s.cluster.streams[i]? = none := List.getElem?_eq_none_iff.mpr tokenless
      simp [step,Cluster.step,outside] at taken
    | disconnect i =>
      have outside : s.cluster.streams[i]? = none := List.getElem?_eq_none_iff.mpr tokenless
      simp [step,Cluster.step,outside] at taken

/-- Requests without the token leave the registry alone; the aggregator gets the batches of
`POST /metrics` and the channels the commands of `POST /api/dispatch`, and nothing else. -/
theorem tokenless_requests (bucketOf : Nat → Option Nat) (metricsUrl token : String)
    (nonempty : token ≠ "") {s t : State} {actions : List Action}
    (run : Machine.exec (step bucketOf (some token) metricsUrl) s actions = some t)
    (tokenless : ∀ a ∈ actions, Tokenless token s.cluster.streams.length a) :
    t.cluster = s.cluster ∧
      t.aggregator = (posted actions).foldl (handleMetrics bucketOf) s.aggregator ∧
      ∀ stream, t.enqueued stream =
        s.enqueued stream ++ dispatched metricsUrl s.cluster.workers stream actions := by
  induction actions generalizing s with
  | nil =>
    obtain rfl := Option.some.inj run
    exact ⟨rfl,rfl,fun stream => (List.append_nil _).symm⟩
  | cons a rest ih =>
    obtain ⟨u,first,later⟩ := Machine.exec_cons_iff.mp run
    obtain ⟨here,after⟩ := List.forall_mem_cons.mp tokenless
    have one := step_tokenless nonempty here first
    obtain ⟨cluster,aggregator,enqueued⟩ := ih later (one.cluster ▸ after)
    refine ⟨cluster.trans one.cluster,?_,?_⟩
    · rw [aggregator,one.aggregator,← List.foldl_append,posted,posted,← List.filterMap_append]
      rfl
    · intro stream
      rw [enqueued,one.enqueued,one.cluster]
      simp [dispatched]

/-- A controller with the token `secret` and one worker, which knows it. -/
def withWorker : State :=
  { cluster := ⟨[.registered "w1"],FiniteMap.upsert ⟨"","",0,0⟩ (fun _ => ⟨"w1","10.0.0.2",4,0⟩) "w1" ∅⟩
    aggregator := some .new
    enqueued := fun _ => [] }

def anyTest : DispatchTestRequest := ⟨"export default function() {}",.ok "null",∅⟩

/-- The calls of the gRPC service leave no trace; the routes of the HTTP server do their work. -/
def withoutToken : List Action :=
  [.register (.connect none),.reportMetrics (some "Bearer guess") [[⟨"GET /",1,200,none,0,0,0,0,0,0,0,0,0⟩]],
    .http none (.metrics ⟨0,[.log "up"]⟩),.http none .apiWorkers,
    .http (some "Bearer guess") (.apiDispatch anyTest fun _ => true)]

theorem open_routes_only :
    ∃ t, Machine.exec (step some (some "secret") "http://c/metrics") withWorker withoutToken = some t ∧
      t.cluster = withWorker.cluster ∧
      t.aggregator = handleMetrics some (some .new) ⟨0,[.log "up"]⟩ ∧
      t.enqueued 0 = [⟨"export default function() {}","null",∅,"http://c/metrics"⟩] ∧ t.enqueued 1 = [] := by
  obtain ⟨t,run⟩ : ∃ t, Machine.exec (step some (some "secret") "http://c/metrics") withWorker withoutToken =
      some t := ⟨_,rfl⟩
  obtain ⟨cluster,aggregator,enqueued⟩ :=
    tokenless_requests some "http://c/metrics" "secret" (by decide) run (by simp [Tokenless,withoutToken])
  refine ⟨t,run,cluster,aggregator,?_,?_⟩ <;> rw [enqueued] <;> decide +kernel

/-- Without any header a log line reaches the aggregator, and a test the worker. -/
theorem http_unchecked :
    ∃ t, Machine.exec (step some (some "secret") "http://c/metrics") withWorker
        [.http none (.metrics ⟨0,[.log "up"]⟩),.http none (.apiDispatch anyTest fun _ => true)] = some t ∧
      t.aggregator ≠ withWorker.aggregator ∧ t.enqueued 0 ≠ withWorker.enqueued 0 := by
  decide +kernel

end Controller

end Fusillade.Cluster
