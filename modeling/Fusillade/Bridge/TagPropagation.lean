import Fusillade.Bridge.Protocols
import Fusillade.Lib.Machine
import Fusillade.Bridge.Emission

/-! Tags that a `Tag` command puts into the shared control state, against the tags that the
metrics of the workers carry. A worker inside a script call sends what its HTTP requests and
protocol operations record; after the call it reads the shared tags and sends its two
iteration metrics, one step each. -/
namespace Fusillade.Bridge

open Stats

/-- The modules beside HTTP that send metrics; each has the same `make_metric`. -/
inductive Protocol where
  | ws
  | grpc
  | sse
  | mqtt
  | amqp
  | browser
  deriving DecidableEq

structure Operation where
  protocol : Protocol
  name : String
  duration : Duration
  error : Option String

def Operation.metric (operation : Operation) : Metric :=
  Protocols.makeMetric operation.name operation.duration operation.error

namespace TagPropagation

inductive Pc where
  /-- In the script. -/
  | calling
  /-- The tags are read; `iteration` is to be sent. -/
  | primary (run : Iteration)
  /-- `iteration_total` is to be sent. -/
  | total (run : Iteration)

/-- The iteration whose metrics are still to be sent, with the tags that were read. -/
def Pc.pending : Pc → Option Iteration
  | .calling => none
  | .primary run | .total run => some run

structure State where
  /-- The map behind the mutex of the control state. -/
  tags : HashMap String String
  pc : Nat → Pc
  /-- The `Tag` commands processed so far, the last one first. -/
  processed : List (String × String)

def State.start : State := ⟨∅,fun _ => .calling,[]⟩

def State.setPc (s : State) (worker : Nat) (pc : Pc) : State :=
  { s with pc := fun other => if other = worker then pc else s.pc other }

inductive Action where
  | tag (key value : String)
  | http (worker : Nat) (request : HttpRequest)
  | operate (worker : Nat) (operation : Operation)
  /-- The call is over: `get_tags`. -/
  | readTags (worker : Nat) (run : Iteration)
  | send (worker : Nat)

def step (s : State) : Action → Option State
  | .tag key value => some { s with
      tags := s.tags.insert key value
      processed := (key,value) :: s.processed }
  | .http worker _ | .operate worker _ =>
    match s.pc worker with
    | .calling => some s
    | _ => none
  | .readTags worker run =>
    match s.pc worker with
    | .calling => some (s.setPc worker (.primary { run with tags := s.tags }))
    | _ => none
  | .send worker =>
    match s.pc worker with
    | .calling => none
    | .primary run => some (s.setPc worker (.total run))
    | .total _ => some (s.setPc worker .calling)

/-- What a step puts on the metric channel. -/
def emitted (s : State) : Action → Option Metric
  | .http _ request => some request.metric
  | .operate _ operation => some operation.metric
  | .send worker =>
    match s.pc worker with
    | .calling => none
    | .primary run => run.metrics.head?
    | .total run => run.metrics.getLast?
  | .tag _ _ | .readTags _ _ => none

def tagsOf : Metric → HashMap String String
  | .request _ _ _ _ tags | .histogram _ _ tags | .rate _ _ tags | .counter _ _ tags
  | .gauge _ _ tags => tags
  | .check _ _ _ | .log _ => ∅

/-- The last value of every key in the commands is among the tags. -/
def Carries (processed : List (String × String)) (tags : HashMap String String) : Prop :=
  ∀ key value, processed.lookup key = some value → tags.lookup key = some value

def Propagates (s : State) (a : Action) : Prop :=
  ∀ metric ∈ emitted s a, Carries s.processed (tagsOf metric)

/-- A request brings the tags along in its own options; a protocol operation has none to
bring; the tags that an iteration has read are still the shared ones. -/
def Covered (s : State) : Action → Prop
  | .http _ request => Carries s.processed request.tags
  | .operate _ _ => s.processed = []
  | .send worker => ∀ run ∈ (s.pc worker).pending, run.tags = s.tags
  | .tag _ _ | .readTags _ _ => True

structure Invariant (s : State) : Prop where
  lastWins : ∀ key, s.tags.lookup key = s.processed.lookup key
  known : ∀ worker, ∀ run ∈ (s.pc worker).pending,
    ∀ key, (run.tags.lookup key).isSome → (s.tags.lookup key).isSome

variable {s t : State} {a : Action}

@[simp] theorem tagsOf_http (request : HttpRequest) : tagsOf request.metric = request.tags := by
  unfold HttpRequest.metric
  split <;> rfl

@[simp] theorem setPc_same (s : State) (worker : Nat) (pc : Pc) : (s.setPc worker pc).pc worker = pc := by
  simp [State.setPc]

@[simp] theorem setPc_other (s : State) {worker other : Nat} (pc : Pc) (apart : other ≠ worker) :
    (s.setPc worker pc).pc other = s.pc other := by
  simp [State.setPc,apart]

theorem start_invariant : Invariant .start := ⟨fun _ => rfl,by simp [State.start,Pc.pending]⟩

theorem setPc_invariant (valid : Invariant s) {worker : Nat} {pc : Pc}
    (known : ∀ run ∈ pc.pending, ∀ key, (run.tags.lookup key).isSome → (s.tags.lookup key).isSome) :
    Invariant (s.setPc worker pc) := by
  refine ⟨valid.lastWins,?_⟩
  intro other run there
  by_cases here : other = worker
  · subst other
    rw [setPc_same] at there
    exact known run there
  · rw [setPc_other s pc here] at there
    exact valid.known other run there

theorem tag_invariant (valid : Invariant s) (key value : String) :
    Invariant { s with
      tags := s.tags.insert key value
      processed := (key,value) :: s.processed } := by
  have after (other : String) := FiniteMap.lookup_insert s.tags key other value
  constructor
  · intro other
    rw [after,valid.lastWins,List.lookup_cons]
    by_cases same : other = key
    · simp [same]
    · simp [same,beq_false_of_ne same]
  · intro worker run there other present
    rw [after]
    split
    · rfl
    · exact valid.known worker run there other present

theorem step_invariant (valid : Invariant s) (taken : step s a = some t) : Invariant t := by
  cases a with
  | tag key value => obtain rfl := Option.some.inj taken; exact tag_invariant valid key value
  | http worker _ | operate worker _ =>
    simp only [step] at taken
    split at taken
    next => obtain rfl := Option.some.inj taken; exact valid
    next => contradiction
  | readTags worker run =>
    simp only [step] at taken
    split at taken
    next =>
      obtain rfl := Option.some.inj taken
      apply setPc_invariant valid
      intro read held
      obtain rfl := Option.some.inj held
      exact fun _ => id
    next => contradiction
  | send worker =>
    simp only [step] at taken
    split at taken
    next => contradiction
    next run reached =>
      obtain rfl := Option.some.inj taken
      exact setPc_invariant valid (fun read held => valid.known worker read (reached ▸ held))
    next run reached =>
      obtain rfl := Option.some.inj taken
      exact setPc_invariant valid (by simp [Pc.pending])

/-- Tags that a worker has read carry the commands exactly when nothing changed since. -/
theorem carries_iff_current (valid : Invariant s) {worker : Nat} {run : Iteration}
    (pending : run ∈ (s.pc worker).pending) : Carries s.processed run.tags ↔ run.tags = s.tags := by
  constructor
  · intro carries
    apply Finmap.ext_lookup
    intro key
    cases shared : s.tags.lookup key with
    | some value => exact carries key value ((valid.lastWins key).symm.trans shared)
    | none =>
      by_contra present
      have kept := valid.known worker run pending key (Option.isSome_iff_ne_none.mpr present)
      simp [shared] at kept
  · intro same key value last
    rw [same,valid.lastWins]
    exact last

theorem carries_empty_iff (processed : List (String × String)) : Carries processed ∅ ↔ processed = [] := by
  constructor
  · intro carries
    cases processed with
    | nil => rfl
    | cons command earlier =>
      have missing := carries command.1 command.2 List.lookup_cons_self
      simp at missing
  · rintro rfl key value last
    simp at last

theorem emitted_send {worker : Nat} {metric : Metric} (sent : metric ∈ emitted s (.send worker)) :
    ∃ run ∈ (s.pc worker).pending, tagsOf metric = run.tags := by
  simp only [emitted] at sent
  split at sent
  next => contradiction
  next run reached =>
    obtain rfl := Option.some.inj sent
    exact ⟨run,by rw [reached]; rfl,rfl⟩
  next run reached =>
    obtain rfl := Option.some.inj sent
    exact ⟨run,by rw [reached]; rfl,rfl⟩

theorem pending_sends {worker : Nat} {run : Iteration} (pending : run ∈ (s.pc worker).pending) :
    ∃ metric ∈ emitted s (.send worker), tagsOf metric = run.tags := by
  cases reached : s.pc worker with
  | calling => simp [reached,Pc.pending] at pending
  | primary other | total other =>
    rw [reached] at pending
    obtain rfl := Option.some.inj pending
    exact ⟨_,by simp only [emitted,reached]; rfl,rfl⟩

theorem propagates_iff (valid : Invariant s) (a : Action) : Propagates s a ↔ Covered s a := by
  cases a with
  | tag | readTags => simp [Propagates,emitted,Covered]
  | http worker request => simp [Propagates,emitted,Covered]
  | operate worker operation =>
    simpa [Propagates,emitted,Covered,Operation.metric,Protocols.makeMetric,tagsOf] using carries_empty_iff s.processed
  | send worker =>
    constructor
    · intro propagates run pending
      obtain ⟨metric,sent,same⟩ := pending_sends pending
      exact (carries_iff_current valid pending).mp (same ▸ propagates metric sent)
    · intro current metric sent
      obtain ⟨run,pending,same⟩ := emitted_send sent
      rw [same]
      exact (carries_iff_current valid pending).mpr (current run pending)

/-- Every metric of a run carries the tags of the commands before it exactly when each is
covered. -/
theorem tags_propagate_iff (actions : List Action) :
    Machine.Guarded step Propagates .start actions ↔ Machine.Guarded step Covered .start actions :=
  Machine.guarded_congr Invariant (fun _ _ _ => step_invariant) (fun _ a valid => propagates_iff valid a)
    start_invariant actions

/-- After `tag env=prod` neither a request nor a WebSocket operation carries the tag, nor does
an iteration whose tags were read just before. -/
theorem tag_missing :
    ∃ s, Machine.exec step .start [.readTags 0 {},.tag "env" "prod"] = some s ∧
      ¬Propagates s (.http 1 { url := "/", outcome := .response 200 }) ∧
      ¬Propagates s (.operate 1 ⟨.ws,"ws::send",5,none⟩) ∧ ¬Propagates s (.send 0) := by
  refine ⟨_,rfl,?_,?_,?_⟩ <;> intro propagates
  · have missing := propagates _ rfl "env" "prod" rfl
    simp at missing
  · have missing := propagates _ rfl "env" "prod" rfl
    simp [Operation.metric,Protocols.makeMetric,tagsOf] at missing
  · have missing := propagates _ rfl "env" "prod" rfl
    simp [tagsOf,State.start] at missing

end TagPropagation

end Fusillade.Bridge
