import Fusillade.Engine.Pipeline

/-! The controller side of a distributed run: the URL it assigns, the routes it serves and
what its aggregator gets out of the batches that the first aggregator thread posts. -/
namespace Fusillade.Engine.Controller

open Fusillade.Stats Pipeline

def inAuthority (c : Char) : Bool := c != '/' && c != '?' && c != '#'
def inPath (c : Char) : Bool := c != '?' && c != '#'

def uriPath (uri : String) : List Char :=
  ((uri.toList.drop 7).dropWhile inAuthority).takeWhile inPath

/-- The address of `ControllerServer::run`: it parses as a socket address, so it has none
of the characters that end the authority of a URI. -/
structure ListenAddr where
  text : String
  authority : ∀ c ∈ text.toList, inAuthority c

def metricsUrl (addr : ListenAddr) : String := "http://" ++ addr.text ++ "/metrics"

/-- An empty URL in `StartTest` turns reporting off. -/
def assignedUrl (startTestUrl : String) : Option String :=
  if startTestUrl.isEmpty then none else some startTestUrl

inductive Method where
  | get
  | post
  deriving DecidableEq

inductive Handler where
  | index
  | dashboard
  | metrics
  | apiStats
  | apiHistory
  | apiScreenshots
  | apiWorkers
  | apiDispatch
  | serveScreenshots
  deriving DecidableEq

/-- The `route` calls of `ControllerServer::run`. -/
def routes : List (String × Method × Handler) :=
  [("/",.get,.index),("/dashboard",.get,.dashboard),("/metrics",.post,.metrics),
    ("/api/stats",.get,.apiStats),("/api/history",.get,.apiHistory),
    ("/api/screenshots",.get,.apiScreenshots),("/api/workers",.get,.apiWorkers),
    ("/api/dispatch",.post,.apiDispatch)]

/-- Routes without parameters match a path as a whole; the nested service takes every path
below its prefix. -/
def route (method : Method) (path : List Char) : Option Handler :=
  match routes.find? (fun entry => entry.1.toList == path && entry.2.1 == method) with
  | some entry => some entry.2.2
  | none =>
    if path = "/screenshots".toList ∨ "/screenshots/".toList.isPrefixOf path
    then some .serveScreenshots else none

variable (bucketOf : Nat → Option Nat)

def handleMetrics (aggregator : StatsAggregator) (batch : List Sent) : StatsAggregator :=
  batch.foldl (fun aggregator item => aggregator.add bucketOf item.metric) aggregator

/-- The batches that reach `handle_metrics`: a post to any other path is answered with an
error status that the worker ignores. -/
def deliveries (posts : List (String × List Sent)) : List (List Sent) :=
  posts.filterMap fun post =>
    if route .post (uriPath post.1) = some .metrics then some post.2 else none

def controllerAggregator (posts : List (String × List Sent)) : StatsAggregator :=
  (deliveries posts).foldl (handleMetrics bucketOf) StatsAggregator.new

def assigned (cfg : Settings) (addr : ListenAddr) : Settings :=
  { cfg with metricsUrl := assignedUrl (metricsUrl addr) }

variable {bucketOf} {cfg : Settings} {addr : ListenAddr}

theorem assigned_metricsUrl (cfg : Settings) (addr : ListenAddr) :
    (assigned cfg addr).metricsUrl = some (metricsUrl addr) := by
  have nonempty : (metricsUrl addr).isEmpty = false := by
    rw [Bool.eq_false_iff,ne_eq,String.isEmpty_iff]
    intro empty
    have chars := congrArg String.toList empty
    simp [metricsUrl] at chars
  simp [assigned,assignedUrl,nonempty]

theorem uriPath_posted (addr : ListenAddr) :
    uriPath (metricsUrl addr ++ "/metrics") = "/metrics/metrics".toList := by
  have scheme : "http://".toList.length = 7 := by decide
  have chars : (metricsUrl addr ++ "/metrics").toList =
      "http://".toList ++ (addr.text.toList ++ "/metrics/metrics".toList) := by
    simp [metricsUrl]
  rw [uriPath,chars,← scheme,List.drop_left,List.dropWhile_append_of_pos addr.authority]
  decide

theorem route_posted : route .post "/metrics/metrics".toList = none := by decide

theorem deliveries_eq_nil {posts : List (String × List Sent)}
    (urls : ∀ post ∈ posts, ∃ url, (assigned cfg addr).metricsUrl = some url ∧
      post.1 = url ++ "/metrics") : deliveries posts = [] := by
  apply List.filterMap_eq_nil_iff.mpr
  intro post member
  obtain ⟨url,found,shape⟩ := urls post member
  rw [assigned_metricsUrl] at found
  obtain rfl := Option.some.inj found
  rw [shape,uriPath_posted,route_posted]
  simp

/-- Every metric that a thread received reached `handle_metrics` in exactly one batch. -/
def InOneBatch (s : State n) : Prop :=
  ∀ call ∈ s.added, (deliveries s.posts).countP (fun batch => call.2.2 ∈ batch) = 1

instance (s : State n) : Decidable (InOneBatch s) := inferInstanceAs (Decidable (∀ _, _))

/-- The controller then totals what the worker's own merge does. -/
def Delivered (bucketOf : Nat → Option Nat) (s : State n) : Prop :=
  InOneBatch s ∧ (controllerAggregator bucketOf s.posts).summary = s.shards.merge.summary

theorem sent_eq_zero_iff (senders : List Sender) :
    (senders.map (·.pending.length)).sum = 0 ↔ ∀ sender ∈ senders, sender.pending = [] := by
  simp [List.sum_eq_zero_iff_forall_eq_nat]

/-- When the channel has closed, delivery is complete exactly when no thread had a metric
to send. -/
theorem delivered_iff {senders : List Sender}
    {actions : List (Action (assigned cfg addr).numAggregators)}
    {s : State (assigned cfg addr).numAggregators}
    (run : Machine.exec (step bucketOf (assigned cfg addr)) (initial (assigned cfg addr) senders)
      actions = some s)
    (finished : Finished s) :
    Delivered bucketOf s ↔ ∀ sender ∈ senders, sender.pending = [] := by
  have received := finished_contained run finished
  have undelivered := deliveries_eq_nil (reachable_reporting run).url
  rw [← sent_eq_zero_iff]
  constructor
  · rintro ⟨delivered,_⟩
    by_contra offered
    have first : 0 ∈ contained s := by
      rw [received]
      exact Multiset.mem_range.mpr (Nat.pos_of_ne_zero offered)
    obtain ⟨call,member,_⟩ := List.mem_map.mp (Multiset.mem_coe.mp first)
    simpa [undelivered] using delivered call member
  · intro none
    have empty : s.added = [] := by
      rw [none] at received
      simpa [contained] using received
    refine ⟨by simp [InOneBatch,empty],?_⟩
    rw [controllerAggregator,undelivered,(reachable_invariant run).shards,empty]
    exact (ShardedAggregator.merge_addAll_eq_foldl bucketOf cfg.noEndpointTracking _
      cfg.someShards []).symm

def loopback : ListenAddr := ⟨"127.0.0.1:9000",List.all_eq_true.mp (by decide)⟩
def postedInTime : List (Action (assigned oneWorker loopback).numAggregators) :=
  [.send 0,.recv firstThread,.add firstThread,.report firstThread true,.join,.merge,.close,
    .exit firstThread]

/-- The only batch is posted in time, but to a path that the controller does not serve. -/
theorem batch_not_delivered :
    ∃ s, Machine.exec (step some (assigned oneWorker loopback))
        (initial (assigned oneWorker loopback) oneIteration) postedInTime = some s ∧
      Finished s ∧ ¬Delivered some s := by
  have missed : ∃ s, Machine.exec (step some (assigned oneWorker loopback))
      (initial (assigned oneWorker loopback) oneIteration) postedInTime = some s ∧
      Finished s ∧ ¬InOneBatch s := by decide +kernel
  obtain ⟨s,run,finished,lost⟩ := missed
  exact ⟨s,run,finished,fun delivered => lost delivered.1⟩

theorem delivered_without_metrics :
    ∃ s, Machine.exec (step some (assigned oneWorker loopback))
        (initial (assigned oneWorker loopback) [⟨true,[]⟩])
        [.join,.merge,.close,.exit firstThread] = some s ∧ Delivered some s := by
  have closed : ∃ s, Machine.exec (step some (assigned oneWorker loopback))
      (initial (assigned oneWorker loopback) [⟨true,[]⟩])
      [.join,.merge,.close,.exit firstThread] = some s ∧ Finished s := by decide +kernel
  obtain ⟨s,run,finished⟩ := closed
  exact ⟨s,run,(delivered_iff run finished).mpr (by simp)⟩

end Fusillade.Engine.Controller
