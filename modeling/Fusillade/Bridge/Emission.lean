import Fusillade.Stats.Metric

/-! What the workers send on the metric channel: one metric for each HTTP request, under
the name that the segment and the options give it, and two for each iteration. -/
namespace Fusillade.Bridge

open Stats

def groupPrefix (group : String) : String := if group = "" then "" else group ++ "::"

def enterGroup (group name : String) : String := if group = "" then name else group ++ "::" ++ name

def metricName (group : String) (nameTag : Option String) (url : String) : String :=
  groupPrefix group ++ nameTag.getD url

/-- How a request ends on either HTTP path: a response of any status, or a failed transport. -/
inductive HttpOutcome where
  | response (status : UInt16)
  | transportError (message : String)
  deriving DecidableEq

structure HttpRequest where
  group : String := ""
  nameTag : Option String := none
  url : String
  timings : RequestTimings := {}
  outcome : HttpOutcome
  tags : HashMap String String := ∅

def HttpRequest.name (request : HttpRequest) : String :=
  metricName request.group request.nameTag request.url

/-- A response is sent without an error whatever its status is. -/
def HttpRequest.metric (request : HttpRequest) : Metric :=
  match request.outcome with
  | .response status => .request request.name request.timings status none request.tags
  | .transportError message => .request request.name request.timings 0 (some message) request.tags

/-- One call of the script: its scenario, outside legacy mode, and the message of what it threw. -/
structure Iteration where
  scenario : Option String := none
  active : Duration := 0
  elapsed : Duration := 0
  error : Option String := none
  tags : HashMap String String := ∅

def iterationName (scenario : Option String) (base : String) : String :=
  match scenario with
  | some scenario => scenario ++ "::" ++ base
  | none => base

/-- The primary metric leaves the sleeps out, its twin keeps them. -/
def Iteration.metrics (iteration : Iteration) : List Metric :=
  let status := if iteration.error.isNone then 200 else 0
  [.request (iterationName iteration.scenario "iteration") { duration := iteration.active } status
      iteration.error iteration.tags,
    .request (iterationName iteration.scenario "iteration_total") { duration := iteration.elapsed }
      status iteration.error iteration.tags]

inductive Event where
  | http (request : HttpRequest)
  | iteration (run : Iteration)

def Event.metrics : Event → List Metric
  | .http request => [request.metric]
  | .iteration run => run.metrics

theorem isIterationTotal_last {name : String} (total : isIterationTotal name = true) :
    name.toList.getLast? = some 'l' := by
  rcases Bool.or_eq_true_iff.mp total with same | ends
  · rw [eq_of_beq same]; decide
  · rw [endsWith_last ends (by decide)]; decide

theorem isIteration_iterationName (scenario : Option String) :
    isIteration (iterationName scenario "iteration") = true := by
  cases scenario with
  | none => decide
  | some scenario =>
    have ends := endsWith_append scenario "::iteration"
    simp [isIteration,iterationName,String.append_assoc,ends]

theorem isIterationTotal_iterationName (scenario : Option String) :
    isIterationTotal (iterationName scenario "iteration_total") = true := by
  cases scenario with
  | none => decide
  | some scenario =>
    have ends := endsWith_append scenario "::iteration_total"
    simp [isIterationTotal,iterationName,String.append_assoc,ends]

theorem primary_not_total (scenario : Option String) :
    isIterationTotal (iterationName scenario "iteration") = false := by
  by_contra total
  have last := isIterationTotal_last (Bool.not_eq_false _ ▸ total)
  cases scenario <;> simp [iterationName] at last

end Fusillade.Bridge
