import Fusillade.Bridge.Console

/-! The console in the lifecycle functions. Each of them runs over a channel of its own, whose
messages a thread prints; the call that sends a message has printed it before. -/
namespace Fusillade.Bridge.Lifecycle

open Stats Machine Console

/-- The text of a log metric, which is what the pattern of the thread's loop takes. -/
def logMessage : Metric → Option String
  | .log message => some message
  | _ => none

/-- What happens while `setup`, `teardown` or `handleSummary` runs. -/
inductive Event where
  | print (msg : String)
  | console (call : Call)
  /-- A request, a check or a metric of the script. -/
  | metric (other : { metric : Metric // logMessage metric = none })
  /-- The terminal interface opens or closes. -/
  | tui (active : Bool)

def Event.sent (cells : Cells) : Event → Option Metric
  | .print msg => some (.log msg)
  | .console call => (call.output cells).map .log
  | .metric other => some other
  | .tui _ => none

structure State where
  tuiActive : Bool
  queue : List Metric := []
  /-- The thread is in its loop, with the receiver in its hands. -/
  listening : Bool := true
  droppedMetrics : Nat := 0
  /-- What is on the terminal, with whether the TUI was active then. -/
  stdout : List (String × Bool) := []
  /-- The messages that were logged while it was not. -/
  logged : List String := []

/-- A call prints at once, and then sends the metric. -/
def State.emit (s : State) (metric : Metric) : State :=
  let s := match logMessage metric with
    | some message =>
      if s.tuiActive then s
      else { s with stdout := s.stdout ++ [(message,false)], logged := s.logged ++ [message] }
    | none => s
  if s.listening then { s with queue := s.queue ++ [metric] }
  else { s with droppedMetrics := s.droppedMetrics + 1 }

def State.run (cells : Cells) (s : State) : Event → State
  | .tui active => { s with tuiActive := active }
  | event =>
    match event.sent cells with
    | some metric => s.emit metric
    | none => s

inductive Action where
  | run (event : Event)
  | receive

def step (cells : Cells) (s : State) : Action → Option State
  | .run event => some (s.run cells event)
  | .receive =>
    match s.listening, s.queue with
    | true, metric :: rest =>
      match logMessage metric with
      | some message =>
        some { s with queue := rest, stdout := s.stdout ++ [(message,s.tuiActive)] }
      | none => some { s with queue := [], listening := false }
    | _, _ => none

def Action.event : Action → Option Event
  | .run event => some event
  | .receive => none

/-- What is on the terminal is what was logged for it: each message once and in its place. -/
def State.Faithful (s : State) : Prop := s.stdout = s.logged.map fun message => (message,false)

/-- Whatever the thread does meanwhile, at every moment of the function. -/
def PrintsOnce (cells : Cells) (tuiActive : Bool) (events : List Event) : Prop :=
  ∀ actions : List Action, actions.filterMap Action.event <+: events →
    ∀ s, exec (step cells) { tuiActive } actions = some s → s.Faithful

/-- A metric of another kind than a log comes first and ends the thread's loop. -/
def FirstNoLog (cells : Cells) (events : List Event) : Prop :=
  ∀ metric rest, events.filterMap (Event.sent cells) = metric :: rest → logMessage metric = none

/-- Nothing that the thread gets from here on is printed. -/
def State.Silent (s : State) : Prop :=
  s.listening = true → ∃ metric rest, s.queue = metric :: rest ∧ logMessage metric = none

variable {cells : Cells} {s t : State} {a : Action}

theorem emit_faithful (faithful : s.Faithful) (metric : Metric) : (s.emit metric).Faithful := by
  unfold State.emit
  cases logMessage metric with
  | none =>
    dsimp only
    split <;> exact faithful
  | some message =>
    dsimp only
    split
    · split <;> exact faithful
    · have added : s.stdout ++ [(message,false)] =
          (s.logged ++ [message]).map fun message => (message,false) := by
        rw [faithful,List.map_append]
        rfl
      split <;> exact added

theorem emit_listening (s : State) (metric : Metric) : (s.emit metric).listening = s.listening := by
  unfold State.emit
  cases logMessage metric <;> dsimp only <;> split <;> (try split) <;> rfl

theorem emit_queue (listening : s.listening = true) (metric : Metric) :
    (s.emit metric).queue = s.queue ++ [metric] := by
  unfold State.emit
  cases logMessage metric with
  | none => simp [listening]
  | some message => cases active : s.tuiActive <;> simp [listening]

theorem emit_silent (silent : s.Silent) (metric : Metric) : (s.emit metric).Silent := by
  rw [State.Silent,emit_listening]
  intro listening
  obtain ⟨first,rest,queue,noLog⟩ := silent listening
  exact ⟨first,rest ++ [metric],by rw [emit_queue listening,queue]; rfl,noLog⟩

theorem run_sent (cells : Cells) (s : State) {event : Event} {metric : Metric}
    (sent : event.sent cells = some metric) : s.run cells event = s.emit metric := by
  cases event with
  | tui active => cases sent
  | _ => simp only [State.run,sent]

theorem run_unsent (cells : Cells) (s : State) {event : Event} (unsent : event.sent cells = none) :
    ∃ tuiActive, s.run cells event = { s with tuiActive } := by
  cases event with
  | tui active => exact ⟨active,rfl⟩
  | _ => exact ⟨s.tuiActive,by simp only [State.run,unsent]⟩

theorem step_silent (s : State) (a : Action) (t : State) (kept : s.Silent ∧ s.Faithful)
    (taken : step cells s a = some t) : t.Silent ∧ t.Faithful := by
  obtain ⟨silent,faithful⟩ := kept
  cases a with
  | run event =>
    obtain rfl := Option.some.inj taken
    cases sent : event.sent cells with
    | some metric =>
      rw [run_sent cells s sent]
      exact ⟨emit_silent silent _,emit_faithful faithful _⟩
    | none =>
      obtain ⟨_,same⟩ := run_unsent cells s sent
      rw [same]
      exact ⟨silent,faithful⟩
  | receive =>
    simp only [step] at taken
    split at taken
    next metric rest listening queue =>
      obtain ⟨first,later,same,noLog⟩ := silent listening
      obtain ⟨rfl,rfl⟩ := List.cons.inj (queue.symm.trans same)
      rw [noLog] at taken
      obtain rfl := Option.some.inj taken
      exact ⟨by simp [State.Silent],faithful⟩
    next => cases taken

structure State.Waiting (s : State) : Prop where
  queue : s.queue = []
  listening : s.listening = true
  faithful : s.Faithful

theorem initial_waiting (tuiActive : Bool) : State.Waiting { tuiActive } := ⟨rfl,rfl,rfl⟩

theorem State.Waiting.unsent (waiting : s.Waiting) {event : Event} (unsent : event.sent cells = none) :
    (s.run cells event).Waiting := by
  obtain ⟨_,same⟩ := run_unsent cells s unsent
  rw [same]
  exact ⟨waiting.queue,waiting.listening,waiting.faithful⟩

theorem State.Waiting.emit (waiting : s.Waiting) {metric : Metric} (noLog : logMessage metric = none) :
    (s.emit metric).Silent ∧ (s.emit metric).Faithful := by
  refine ⟨?_,emit_faithful waiting.faithful metric⟩
  intro _
  exact ⟨metric,[],by rw [emit_queue waiting.listening,waiting.queue]; rfl,noLog⟩

theorem faithful_of_waiting {actions : List Action} (waiting : s.Waiting)
    (first : FirstNoLog cells (actions.filterMap Action.event))
    (run : exec (step cells) s actions = some t) : t.Faithful := by
  induction actions generalizing s with
  | nil =>
    obtain rfl := Option.some.inj run
    exact waiting.faithful
  | cons a rest ih =>
    obtain ⟨u,taken,later⟩ := exec_cons_iff.mp run
    cases a with
    | receive => simp [step,waiting.queue] at taken
    | run event =>
      obtain rfl := Option.some.inj taken
      cases sent : event.sent cells with
      | some metric =>
        have noLog := first metric _ (List.filterMap_cons_some sent)
        rw [run_sent cells s sent] at later
        exact (exec_invariant (fun s => s.Silent ∧ s.Faithful) step_silent later
          (waiting.emit noLog)).2
      | none =>
        refine ih (waiting.unsent sent) (fun metric more same => ?_) later
        exact first metric more ((List.filterMap_cons_none sent).trans same)

theorem waiting_run {events : List Event} (waiting : s.Waiting)
    (unsent : ∀ event ∈ events, event.sent cells = none) :
    ∃ t, exec (step cells) s (events.map .run) = some t ∧ t.Waiting := by
  induction events generalizing s with
  | nil => exact ⟨s,rfl,waiting⟩
  | cons event rest ih =>
    obtain ⟨here,later⟩ := List.forall_mem_cons.mp unsent
    exact ih (waiting.unsent here) later

/-- A log that comes first is printed a second time when it is received at once. -/
theorem State.Waiting.twice (waiting : s.Waiting) {metric : Metric} {message : String}
    (log : logMessage metric = some message) :
    ∃ t, step cells (s.emit metric) .receive = some t ∧ ¬t.Faithful := by
  have listening := (emit_listening s metric).trans waiting.listening
  have queue : (s.emit metric).queue = [metric] := by
    rw [emit_queue waiting.listening,waiting.queue]
    rfl
  refine ⟨_,by simp only [step,listening,queue,log]; rfl,?_⟩
  intro again
  have once := congrArg List.length (emit_faithful waiting.faithful metric)
  have twice := congrArg List.length again
  simp only [List.length_append,List.length_map,List.length_singleton] at once twice
  omega

theorem FirstNoLog.start {front events : List Event} (first : FirstNoLog cells events)
    (starts : front <+: events) : FirstNoLog cells front := by
  obtain ⟨rest,rfl⟩ := starts
  intro metric more sent
  exact first metric _ (by rw [List.filterMap_append,sent]; rfl)

/-- Each message of a lifecycle function is printed once, whatever the schedule, exactly when
no log is the first metric that the function sends. -/
theorem printsOnce_iff (cells : Cells) (tuiActive : Bool) (events : List Event) :
    PrintsOnce cells tuiActive events ↔ FirstNoLog cells events := by
  constructor
  · intro once metric rest sent
    obtain ⟨before,event,after,rfl,unsent,here,-⟩ := List.filterMap_eq_cons_iff.mp sent
    by_contra isLog
    obtain ⟨message,log⟩ := Option.ne_none_iff_exists'.mp isLog
    obtain ⟨s,started,waiting⟩ := waiting_run (initial_waiting tuiActive) unsent
    obtain ⟨t,received,twice⟩ := waiting.twice log
    refine twice (once (before.map .run ++ [.run event,.receive]) ?_ t ?_)
    · have events : (before.map Action.run).filterMap Action.event = before := by
        rw [List.filterMap_map]
        exact List.filterMap_some
      refine ⟨after,?_⟩
      rw [List.filterMap_append,events]
      simp [Action.event]
    · refine exec_append_iff.mpr ⟨s,started,?_⟩
      refine exec_cons_iff.mpr ⟨_,rfl,?_⟩
      rw [run_sent cells s here]
      exact exec_cons_iff.mpr ⟨t,received,rfl⟩
  · intro first actions interleaved t run
    exact faithful_of_waiting (initial_waiting tuiActive) (first.start interleaved) run

theorem hello_twice :
    ((exec (step {}) { tuiActive := false } [.run (.print "hello"),.receive]).map State.stdout =
      some [("hello",false),("hello",false)]) ∧ ¬PrintsOnce {} false [.print "hello"] := by
  refine ⟨rfl,fun once => ?_⟩
  have again := once [.run (.print "hello"),.receive] (List.prefix_refl _) _ rfl
  exact absurd (congrArg List.length again) (by decide)

end Fusillade.Bridge.Lifecycle
