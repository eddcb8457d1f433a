import Fusillade.Lib.Machine
import Fusillade.Lib.Family
import Fusillade.Stats.Sharded
import Mathlib.Tactic.Abel

/-! The metric pipeline of `run_load_test`: worker and scenario threads send on a bounded
channel, the aggregator threads receive and add to the shards, the first of them also
posts batches to a controller, and the main thread merges the shards for the report. A
sent metric carries the ordinal of its send, so that "exactly once" can be counted. -/
namespace Fusillade.Engine.Pipeline

open Fusillade.Stats

structure Sent where
  ordinal : Nat
  metric : Metric
  deriving DecidableEq

/-- A thread holding a clone of `tx`, with what it is still going to send. `pooled` says
whether the main thread joins its pool before the merge: workers of the legacy mode and
workers removed by a ramp-down are not joined. -/
structure Sender where
  pooled : Bool
  pending : List Metric
  deriving DecidableEq

inductive ConsumerPc where
  | recv
  | adding (item : Sent)
  | reporting
  | exited
  deriving DecidableEq

/-- The locals of an aggregator thread. -/
structure Consumer where
  pc : ConsumerPc
  localCounter : Nat
  batch : List Sent
  deriving DecidableEq

inductive MainPc where
  | running
  | joined
  | merged
  | closed
  deriving DecidableEq

/-- `run_load_test` clamps the number of shards from below by 16, and takes half of at least
two CPUs for the number of aggregator threads. -/
structure Settings where
  noEndpointTracking : Bool
  numShards : Nat
  someShards : 0 < numShards
  numAggregators : Nat
  someAggregators : 0 < numAggregators
  channelSize : Nat
  metricsUrl : Option String

structure State (n : Nat) where
  senders : List Sender
  queue : List Sent
  sends : Nat
  consumers : Fin n → Consumer
  shards : ShardedAggregator
  /-- Every `add` on a shard so far: the thread, the shard index and the metric. -/
  added : List (Fin n × Nat × Sent)
  posts : List (String × List Sent)
  main : MainPc
  /-- The number of sends completed when the pools had been joined. -/
  joinMark : Nat
  final : Option StatsAggregator

inductive Action (n : Nat) where
  | send (thread : Nat)
  | recv (thread : Fin n)
  | add (thread : Fin n)
  | report (thread : Fin n) (due : Bool)
  | exit (thread : Fin n)
  | join
  | merge
  | close
  deriving DecidableEq

def initial (cfg : Settings) (senders : List Sender) : State cfg.numAggregators where
  senders := senders
  queue := []
  sends := 0
  consumers := fun aggId => ⟨.recv,aggId.val,[]⟩
  shards := ShardedAggregator.create cfg.noEndpointTracking cfg.numShards
  added := []
  posts := []
  main := .running
  joinMark := 0
  final := none

/-- All clones of `tx` are gone: the receivers see the end of the channel. -/
def Disconnected (s : State n) : Prop :=
  s.main = .closed ∧ ∀ sender ∈ s.senders, sender.pending = []

instance (s : State n) : Decidable (Disconnected s) :=
  inferInstanceAs (Decidable (_ ∧ _))

/-- Only the first aggregator forwards, and only when a URL is set. -/
def forwards (cfg : Settings) (aggId : Nat) : Bool := aggId == 0 && cfg.metricsUrl.isSome

/-- A full batch is posted at once, a smaller one when a second has passed (`due`). -/
def postBatch (url : String) (due : Bool) (batch : List Sent) : Option (String × List Sent) :=
  if due || batch.length ≥ 100 then some (url ++ "/metrics",batch) else none

/-- The shard of the next metric of a thread, and its counter after that. -/
def shardOf (cfg : Settings) (c : Consumer) : Nat := c.localCounter % cfg.numShards
def bumpCounter (cfg : Settings) (c : Consumer) : Nat :=
  (c.localCounter + cfg.numAggregators) % 2^64

variable (bucketOf : Nat → Option Nat)

def step (cfg : Settings) (s : State cfg.numAggregators) :
    Action cfg.numAggregators → Option (State cfg.numAggregators)
  | .send i =>
    match s.senders[i]? with
    | some ⟨pooled,metric :: rest⟩ =>
      -- A full channel blocks the sender.
      if s.queue.length < cfg.channelSize then
        some { s with
          senders := s.senders.set i ⟨pooled,rest⟩
          queue := s.queue ++ [⟨s.sends,metric⟩]
          sends := s.sends + 1 }
      else none
    | _ => none
  | .recv c =>
    match (s.consumers c).pc, s.queue with
    | .recv, item :: rest => some { s with
        queue := rest
        consumers := Function.update s.consumers c { s.consumers c with pc := .adding item } }
    | _, _ => none
  | .add c =>
    match (s.consumers c).pc with
    | .adding item =>
      let thread := s.consumers c
      let next := if forwards cfg c.val
        then ⟨.reporting,bumpCounter cfg thread,thread.batch ++ [item]⟩
        else ⟨.recv,bumpCounter cfg thread,thread.batch⟩
      some { s with
        consumers := Function.update s.consumers c next
        shards := s.shards.add bucketOf (shardOf cfg thread) item.metric
        added := s.added ++ [(c,shardOf cfg thread,item)] }
    | _ => none
  | .report c due =>
    match (s.consumers c).pc, cfg.metricsUrl with
    | .reporting, some url =>
      match postBatch url due (s.consumers c).batch with
      | some post => some { s with
          consumers := Function.update s.consumers c { s.consumers c with pc := .recv, batch := [] }
          posts := s.posts ++ [post] }
      | none => some { s with
          consumers := Function.update s.consumers c { s.consumers c with pc := .recv } }
    | _, _ => none
  | .exit c =>
    if (s.consumers c).pc = .recv ∧ s.queue = [] ∧ Disconnected s then some { s with
      consumers := Function.update s.consumers c { s.consumers c with pc := .exited } }
    else none
  | .join =>
    if s.main = .running ∧ ∀ sender ∈ s.senders, sender.pooled → sender.pending = [] then
      some { s with main := .joined, joinMark := s.sends }
    else none
  | .merge =>
    if s.main = .joined then some { s with main := .merged, final := some s.shards.merge }
    else none
  | .close => if s.main = .merged then some { s with main := .closed } else none

variable {bucketOf} {cfg : Settings} {s t : State cfg.numAggregators}

theorem step_send {i : Nat} (taken : step bucketOf cfg s (.send i) = some t) :
    ∃ pooled metric rest, s.senders[i]? = some ⟨pooled,metric :: rest⟩ ∧
      t = { s with
        senders := s.senders.set i ⟨pooled,rest⟩
        queue := s.queue ++ [⟨s.sends,metric⟩]
        sends := s.sends + 1 } := by
  simp only [step] at taken
  split at taken
  next pooled metric rest found =>
    split at taken
    · exact ⟨pooled,metric,rest,found,(Option.some.inj taken).symm⟩
    · contradiction
  next => contradiction

theorem step_recv {c : Fin cfg.numAggregators}
    (taken : step bucketOf cfg s (.recv c) = some t) :
    ∃ item rest, (s.consumers c).pc = .recv ∧ s.queue = item :: rest ∧
      t = { s with
        queue := rest
        consumers := Function.update s.consumers c
          { s.consumers c with pc := .adding item } } := by
  simp only [step] at taken
  split at taken
  next item rest pc queue => exact ⟨item,rest,pc,queue,(Option.some.inj taken).symm⟩
  next => contradiction

theorem step_add {c : Fin cfg.numAggregators} (taken : step bucketOf cfg s (.add c) = some t) :
    ∃ item next, (s.consumers c).pc = .adding item ∧
      next = (if forwards cfg c.val
        then ⟨.reporting,bumpCounter cfg (s.consumers c),(s.consumers c).batch ++ [item]⟩
        else ⟨.recv,bumpCounter cfg (s.consumers c),(s.consumers c).batch⟩) ∧
      t = { s with
        consumers := Function.update s.consumers c next
        shards := s.shards.add bucketOf (shardOf cfg (s.consumers c)) item.metric
        added := s.added ++ [(c,shardOf cfg (s.consumers c),item)] } := by
  simp only [step] at taken
  split at taken
  next item pc => exact ⟨item,_,pc,rfl,(Option.some.inj taken).symm⟩
  next => contradiction

/-- A report keeps the batch or posts all of it, and lets the thread receive again. -/
theorem step_report {c : Fin cfg.numAggregators} {due : Bool}
    (taken : step bucketOf cfg s (.report c due) = some t) :
    ∃ url next posted, (s.consumers c).pc = .reporting ∧ cfg.metricsUrl = some url ∧
      next.pc = .recv ∧ posted.flatMap Prod.snd ++ next.batch = (s.consumers c).batch ∧
      (∀ post ∈ posted, post.1 = url ++ "/metrics") ∧
      t = { s with consumers := Function.update s.consumers c next, posts := s.posts ++ posted } := by
  simp only [step] at taken
  split at taken
  next url pc found =>
    split at taken
    next post full =>
      unfold postBatch at full
      split at full
      · obtain rfl := Option.some.inj full
        exact ⟨url,_,[_],pc,found,rfl,by simp,by simp,(Option.some.inj taken).symm⟩
      · contradiction
    next =>
      refine ⟨url,{ s.consumers c with pc := .recv },[],pc,found,rfl,by simp,by simp,?_⟩
      simpa using (Option.some.inj taken).symm
  next => contradiction

theorem step_exit {c : Fin cfg.numAggregators}
    (taken : step bucketOf cfg s (.exit c) = some t) :
    (s.consumers c).pc = .recv ∧ s.queue = [] ∧ Disconnected s ∧
      t = { s with
        consumers := Function.update s.consumers c { s.consumers c with pc := .exited } } := by
  simp only [step] at taken
  split at taken
  next guard => exact ⟨guard.1,guard.2.1,guard.2.2,(Option.some.inj taken).symm⟩
  next => contradiction

theorem step_join (taken : step bucketOf cfg s .join = some t) :
    s.main = .running ∧ (∀ sender ∈ s.senders, sender.pooled → sender.pending = []) ∧
      t = { s with main := .joined, joinMark := s.sends } := by
  simp only [step] at taken
  split at taken
  next guard => exact ⟨guard.1,guard.2,(Option.some.inj taken).symm⟩
  next => contradiction

theorem step_merge (taken : step bucketOf cfg s .merge = some t) :
    s.main = .joined ∧ t = { s with main := .merged, final := some s.shards.merge } := by
  simp only [step] at taken
  split at taken
  next guard => exact ⟨guard,(Option.some.inj taken).symm⟩
  next => contradiction

theorem step_close (taken : step bucketOf cfg s .close = some t) :
    s.main = .merged ∧ t = { s with main := .closed } := by
  simp only [step] at taken
  split at taken
  next guard => exact ⟨guard,(Option.some.inj taken).symm⟩
  next => contradiction

/-- The ordinal of the metric a thread has received and not yet added. -/
def held (c : Consumer) : Multiset Nat :=
  match c.pc with
  | .adding item => {item.ordinal}
  | _ => 0

def queued (s : State n) : Multiset Nat := s.queue.map Sent.ordinal
def contained (s : State n) : Multiset Nat := s.added.map (·.2.2.ordinal)

/-- No metric is lost or duplicated on its way from `send` to `add`. -/
structure Invariant (bucketOf : Nat → Option Nat) (cfg : Settings)
    (s : State cfg.numAggregators) : Prop where
  accounted : queued s + Family.total held s.consumers + contained s = Multiset.range s.sends
  shards : s.shards = (ShardedAggregator.create cfg.noEndpointTracking cfg.numShards).addAll
    bucketOf (s.added.map fun call => (call.2.1,call.2.2.metric))
  mark : s.joinMark ≤ s.sends

theorem initial_invariant (cfg : Settings) (senders : List Sender) :
    Invariant bucketOf cfg (initial cfg senders) where
  accounted := by
    rw [Family.total_zero (by simp [initial,held])]
    simp [queued,contained,initial]
  shards := rfl
  mark := Nat.le_refl 0

theorem step_invariant (s : State cfg.numAggregators) (a : Action cfg.numAggregators)
    (t : State cfg.numAggregators) (valid : Invariant bucketOf cfg s)
    (taken : step bucketOf cfg s a = some t) : Invariant bucketOf cfg t := by
  have accounted := valid.accounted
  cases a with
  | send i =>
    obtain ⟨pooled,metric,rest,_,rfl⟩ := step_send taken
    refine ⟨?_,valid.shards,Nat.le_succ_of_le valid.mark⟩
    have sent : queued s + {s.sends} + Family.total held s.consumers + contained s =
        Multiset.range (s.sends + 1) := by
      rw [Multiset.range_succ,← accounted,← Multiset.singleton_add]
      abel
    refine Eq.trans ?_ sent
    simp only [queued,contained,List.map_append,List.map_cons,List.map_nil,
      ← Multiset.coe_add,Multiset.coe_singleton]
  | recv c =>
    obtain ⟨item,rest,pc,queue,rfl⟩ := step_recv taken
    refine ⟨?_,valid.shards,valid.mark⟩
    have taken := Family.total_gain (f := held) { s.consumers c with pc := .adding item }
      (by simp [held,pc] : held (s.consumers c) = 0)
    have front : queued s = {item.ordinal} + ↑(rest.map Sent.ordinal) := by
      simp [queued,queue]
    rw [← accounted,front]
    simp only [queued,contained,taken,held]
    abel
  | add c =>
    obtain ⟨item,next,pc,shape,rfl⟩ := step_add taken
    refine ⟨?_,?_,valid.mark⟩
    · have idle : held next = 0 := by subst shape; split <;> rfl
      have given := Family.total_spend (f := held) (g := s.consumers) (i := c) next idle
      have holding : held (s.consumers c) = {item.ordinal} := by simp [held,pc]
      rw [← accounted,← given,holding]
      simp only [queued,contained,List.map_append,List.map_cons,List.map_nil,
        ← Multiset.coe_add,Multiset.coe_singleton]
      abel
    · rw [valid.shards]
      simp [ShardedAggregator.addAll,List.foldl_append]
  | report c due =>
    obtain ⟨url,next,posted,pc,_,nextPc,_,_,rfl⟩ := step_report taken
    refine ⟨?_,valid.shards,valid.mark⟩
    have same := Family.total_same (f := held) (g := s.consumers) (i := c) next
      (by simp [held,pc,nextPc])
    simpa [queued,contained,same] using accounted
  | exit c =>
    obtain ⟨pc,_,_,rfl⟩ := step_exit taken
    refine ⟨?_,valid.shards,valid.mark⟩
    have same := Family.total_same (f := held) (g := s.consumers) (i := c)
      { s.consumers c with pc := .exited } (by simp [held,pc])
    simpa [queued,contained,same] using accounted
  | join =>
    obtain ⟨_,_,rfl⟩ := step_join taken
    exact ⟨accounted,valid.shards,Nat.le_refl _⟩
  | merge =>
    obtain ⟨_,rfl⟩ := step_merge taken
    exact ⟨accounted,valid.shards,valid.mark⟩
  | close =>
    obtain ⟨_,rfl⟩ := step_close taken
    exact ⟨accounted,valid.shards,valid.mark⟩

theorem reachable_invariant {senders : List Sender} {actions : List (Action cfg.numAggregators)}
    (run : Machine.exec (step bucketOf cfg) (initial cfg senders) actions = some s) :
    Invariant bucketOf cfg s :=
  Machine.exec_invariant _ step_invariant run (initial_invariant cfg senders)

/-- What the threads with a clone of `tx` are still going to send. -/
def pendingSends (s : State n) : Nat := (s.senders.map (·.pending.length)).sum

/-- A thread leaves its loop only when nothing is queued and nothing will be. -/
structure Closing (offered : Nat) (s : State n) : Prop where
  offered : s.sends + pendingSends s = offered
  exited : ∀ c, (s.consumers c).pc = .exited → s.queue = [] ∧ ∀ sender ∈ s.senders, sender.pending = []

/-- What holds of the threads in a phase still does when one moves to another phase. -/
theorem pc_of_update {c : Fin n} {consumers : Fin n → Consumer} {next : Consumer}
    {phase : ConsumerPc} {property : Fin n → Prop} (apart : next.pc ≠ phase)
    (before : ∀ d, (consumers d).pc = phase → property d) :
    ∀ d, (Function.update consumers c next d).pc = phase → property d :=
  (Function.forall_update_iff consumers fun d thread => thread.pc = phase → property d).mpr
    ⟨fun here => absurd here apart,fun d _ => before d⟩

theorem batch_of_update {c : Fin n} {consumers : Fin n → Consumer} {next : Consumer}
    (same : next.batch = (consumers c).batch) :
    ∀ d, (Function.update consumers c next d).batch = (consumers d).batch :=
  (Function.forall_update_iff consumers fun d thread => thread.batch = (consumers d).batch).mpr
    ⟨same,fun _ _ => rfl⟩

theorem step_closing {offered : Nat} (s : State cfg.numAggregators)
    (a : Action cfg.numAggregators) (t : State cfg.numAggregators)
    (valid : Closing offered s) (taken : step bucketOf cfg s a = some t) :
    Closing offered t := by
  cases a with
  | send i =>
    obtain ⟨pooled,metric,rest,found,rfl⟩ := step_send taken
    constructor
    · have moved := Family.sum_set (f := fun sender : Sender => sender.pending.length)
        ⟨pooled,rest⟩ found
      have before := valid.offered
      simp only [pendingSends,List.length_cons] at before moved ⊢
      omega
    · intro c gone
      have waiting := (valid.exited c gone).2 _ (List.mem_of_getElem? found)
      contradiction
  | recv c =>
    obtain ⟨item,rest,_,queue,rfl⟩ := step_recv taken
    refine ⟨valid.offered,?_⟩
    intro d gone
    have empty := pc_of_update (by simp) (fun d gone => (valid.exited d gone).1) d gone
    exact absurd (queue.symm.trans empty) (List.cons_ne_nil item rest)
  | add c =>
    obtain ⟨item,next,_,shape,rfl⟩ := step_add taken
    refine ⟨valid.offered,pc_of_update ?_ valid.exited⟩
    subst shape; split <;> simp
  | report c due =>
    obtain ⟨url,next,posted,_,_,nextPc,_,_,rfl⟩ := step_report taken
    exact ⟨valid.offered,pc_of_update (by simp [nextPc]) valid.exited⟩
  | exit c =>
    obtain ⟨_,queue,closed,rfl⟩ := step_exit taken
    exact ⟨valid.offered,fun _ _ => ⟨queue,closed.2⟩⟩
  | join =>
    obtain ⟨_,_,rfl⟩ := step_join taken
    exact ⟨valid.offered,valid.exited⟩
  | merge =>
    obtain ⟨_,rfl⟩ := step_merge taken
    exact ⟨valid.offered,valid.exited⟩
  | close =>
    obtain ⟨_,rfl⟩ := step_close taken
    exact ⟨valid.offered,valid.exited⟩

theorem reachable_closing {senders : List Sender} {actions : List (Action cfg.numAggregators)}
    (run : Machine.exec (step bucketOf cfg) (initial cfg senders) actions = some s) :
    Closing (senders.map (·.pending.length)).sum s :=
  Machine.exec_invariant _ step_closing run
    ⟨Nat.zero_add _,fun _ gone => by simp [initial] at gone⟩

/-- The channel is closed and every aggregator thread has left its loop. -/
def Finished (s : State n) : Prop := ∀ c, (s.consumers c).pc = .exited

instance (s : State n) : Decidable (Finished s) := inferInstanceAs (Decidable (∀ _, _))

/-- In the end every metric of every sender is in the shards once. -/
theorem finished_contained {senders : List Sender} {actions : List (Action cfg.numAggregators)}
    (run : Machine.exec (step bucketOf cfg) (initial cfg senders) actions = some s)
    (finished : Finished s) :
    contained s = Multiset.range (senders.map (·.pending.length)).sum := by
  have closing := reachable_closing run
  obtain ⟨queue,idle⟩ := closing.exited ⟨0,cfg.someAggregators⟩ (finished _)
  have sends : s.sends = (senders.map (·.pending.length)).sum := by
    have none : pendingSends s = 0 :=
      List.sum_eq_zero fun length member => by
        obtain ⟨sender,inside,rfl⟩ := List.mem_map.mp member
        simp [idle sender inside]
    rw [← closing.offered,none,Nat.add_zero]
  have accounted := (reachable_invariant run).accounted
  rw [Family.total_zero fun c => by simp [held,finished c]] at accounted
  simpa [queued,queue,sends] using accounted

def addedBy (c : Fin n) (s : State n) : List Sent :=
  (s.added.filter (·.1 = c)).map (·.2.2)

/-- The forwarding thread posts what it adds, in order and without a gap, up to the batch
it still holds. The other threads post nothing. -/
structure Reporting (cfg : Settings) (s : State cfg.numAggregators) : Prop where
  url : ∀ post ∈ s.posts, ∃ url, cfg.metricsUrl = some url ∧ post.1 = url ++ "/metrics"
  forwarded : ∀ c, forwards cfg c.val →
    s.posts.flatMap Prod.snd ++ (s.consumers c).batch = addedBy c s
  reporting : ∀ c, (s.consumers c).pc = .reporting → forwards cfg c.val

theorem Reporting.forwarded_update (valid : Reporting cfg s) {c : Fin cfg.numAggregators} {next : Consumer}
    (same : next.batch = (s.consumers c).batch) (d : Fin cfg.numAggregators) (active : forwards cfg d.val) :
    s.posts.flatMap Prod.snd ++ (Function.update s.consumers c next d).batch = addedBy d s := by
  rw [batch_of_update same d]
  exact valid.forwarded d active

theorem step_reporting (s : State cfg.numAggregators) (a : Action cfg.numAggregators)
    (t : State cfg.numAggregators) (valid : Reporting cfg s)
    (taken : step bucketOf cfg s a = some t) : Reporting cfg t := by
  cases a with
  | send i =>
    obtain ⟨_,_,_,_,rfl⟩ := step_send taken
    exact ⟨valid.url,valid.forwarded,valid.reporting⟩
  | recv c =>
    obtain ⟨item,rest,_,_,rfl⟩ := step_recv taken
    exact ⟨valid.url,valid.forwarded_update rfl,pc_of_update (by simp) valid.reporting⟩
  | add c =>
    obtain ⟨item,next,_,shape,rfl⟩ := step_add taken
    refine ⟨valid.url,?_,?_⟩
    · intro d active
      have before := valid.forwarded d active
      by_cases here : d = c
      · subst d
        rw [if_pos active] at shape
        simp [shape,addedBy,← List.append_assoc,before]
      · simp [here,addedBy,before,Ne.symm here]
    · intro d running
      by_cases here : d = c
      · subst d
        by_contra idle
        simp [shape,idle] at running
      · exact valid.reporting d (by simpa [here] using running)
  | report c due =>
    obtain ⟨url,next,posted,pc,found,nextPc,batch,urls,rfl⟩ := step_report taken
    refine ⟨?_,?_,pc_of_update (by simp [nextPc]) valid.reporting⟩
    · intro post member
      rcases List.mem_append.mp member with old | new
      · exact valid.url post old
      · exact ⟨url,found,urls post new⟩
    · intro d active
      have only : d = c := by
        have first := valid.reporting c pc
        simp only [forwards,Bool.and_eq_true,beq_iff_eq] at first active
        exact Fin.ext (active.1.trans first.1.symm)
      subst d
      have before := valid.forwarded c active
      simpa [addedBy,batch] using before
  | exit c =>
    obtain ⟨_,_,_,rfl⟩ := step_exit taken
    exact ⟨valid.url,valid.forwarded_update rfl,pc_of_update (by simp) valid.reporting⟩
  | join =>
    obtain ⟨_,_,rfl⟩ := step_join taken
    exact ⟨valid.url,valid.forwarded,valid.reporting⟩
  | merge =>
    obtain ⟨_,rfl⟩ := step_merge taken
    exact ⟨valid.url,valid.forwarded,valid.reporting⟩
  | close =>
    obtain ⟨_,rfl⟩ := step_close taken
    exact ⟨valid.url,valid.forwarded,valid.reporting⟩

theorem reachable_reporting {senders : List Sender} {actions : List (Action cfg.numAggregators)}
    (run : Machine.exec (step bucketOf cfg) (initial cfg senders) actions = some s) :
    Reporting cfg s :=
  Machine.exec_invariant _ step_reporting run
    ⟨fun _ member => absurd member List.not_mem_nil,fun _ _ => rfl,
      fun _ reporting => by simp [initial] at reporting⟩

/-- The report is built from `merged`: every metric whose send was complete when the pools
were joined is among the metrics it was fed, once. -/
def FinalMergeComplete (bucketOf : Nat → Option Nat) (cfg : Settings)
    (t : State cfg.numAggregators) : Prop :=
  ∃ merged, t.final = some merged ∧
    merged.summary = ((t.added.map (·.2.2.metric)).foldl (StatsAggregator.add bucketOf)
      { StatsAggregator.new with noEndpointTracking := cfg.noEndpointTracking }).summary ∧
    ∀ ordinal < t.joinMark, (contained t).count ordinal = 1

/-- Nothing sent before the join is still on the channel or in an aggregator thread. -/
def Drained (s : State n) : Prop :=
  (∀ item ∈ s.queue, s.joinMark ≤ item.ordinal) ∧
  ∀ c item, (s.consumers c).pc = .adding item → s.joinMark ≤ item.ordinal

theorem total_held_eq_zero_iff (s : State n) (ordinal : Nat) :
    (Family.total held s.consumers).count ordinal = 0 ↔
      ∀ c item, (s.consumers c).pc = .adding item → item.ordinal ≠ ordinal := by
  simp only [Family.total,Multiset.count_sum',Finset.sum_eq_zero_iff,Finset.mem_univ,true_implies]
  apply forall_congr'
  intro c
  cases pc : (s.consumers c).pc <;> simp [held,pc,Multiset.count_singleton,eq_comm]

/-- The metric at an ordinal is in the shards exactly when it has left the channel and
the hands of the threads. -/
theorem contained_once_iff (valid : Invariant bucketOf cfg s) (ordinal : Nat)
    (sent : ordinal < s.sends) :
    (contained s).count ordinal = 1 ↔
      (∀ item ∈ s.queue, item.ordinal ≠ ordinal) ∧
      ∀ c item, (s.consumers c).pc = .adding item → item.ordinal ≠ ordinal := by
  have counted := congrArg (Multiset.count ordinal) valid.accounted
  rw [Multiset.count_add,Multiset.count_add,
    Multiset.count_eq_one_of_mem (Multiset.nodup_range _) (Multiset.mem_range.mpr sent)] at counted
  have queuedIff : (queued s).count ordinal = 0 ↔ ∀ item ∈ s.queue, item.ordinal ≠ ordinal := by
    simp [queued,List.count_eq_zero]
  rw [← queuedIff,← total_held_eq_zero_iff]
  omega

/-- The report is complete exactly when the threads happen to have caught up: nothing
between the join and the merge waits for them. -/
theorem final_merge_complete_iff {senders : List Sender}
    {actions : List (Action cfg.numAggregators)}
    (run : Machine.exec (step bucketOf cfg) (initial cfg senders) actions = some s)
    (merging : step bucketOf cfg s .merge = some t) :
    FinalMergeComplete bucketOf cfg t ↔ Drained s := by
  have valid := reachable_invariant run
  obtain ⟨_,rfl⟩ := step_merge merging
  have summary : s.shards.merge.summary =
      ((s.added.map (·.2.2.metric)).foldl (StatsAggregator.add bucketOf)
        { StatsAggregator.new with noEndpointTracking := cfg.noEndpointTracking }).summary := by
    rw [valid.shards,ShardedAggregator.merge_addAll_eq_foldl bucketOf _ _ cfg.someShards,
      List.map_map]
    rfl
  constructor
  · rintro ⟨merged,_,_,once⟩
    have gone (ordinal : Nat) (before : ordinal < s.joinMark) :=
      (contained_once_iff valid ordinal (Nat.lt_of_lt_of_le before valid.mark)).mp (once ordinal before)
    constructor
    · intro item member
      exact Nat.le_of_not_lt fun before => (gone item.ordinal before).1 item member rfl
    · intro c item pc
      exact Nat.le_of_not_lt fun before => (gone item.ordinal before).2 c item pc rfl
  · intro drained
    refine ⟨s.shards.merge,rfl,summary,?_⟩
    intro ordinal before
    refine (contained_once_iff valid ordinal (Nat.lt_of_lt_of_le before valid.mark)).mpr ⟨?_,?_⟩
    · rintro item member rfl
      exact Nat.not_lt_of_le (drained.1 item member) before
    · rintro c item pc rfl
      exact Nat.not_lt_of_le (drained.2 c item pc) before

/-- Two cores, sixteen shards and one worker whose only iteration takes 200 microseconds. -/
def oneWorker : Settings := ⟨false,16,by decide,1,by decide,20000,none⟩
def firstThread : Fin oneWorker.numAggregators := ⟨0,by decide⟩
def oneIteration : List Sender :=
  [⟨true,[.request "s::iteration" { duration := 200000 } 200 none ∅]⟩]

/-- The worker has sent its metric and is joined; the aggregator thread was not scheduled. -/
theorem final_merge_misses_queued_metric :
    ∃ s t, Machine.exec (step some oneWorker) (initial oneWorker oneIteration)
        [.send 0,.join] = some s ∧
      step some oneWorker s .merge = some t ∧ ¬FinalMergeComplete some oneWorker t := by
  refine ⟨_,_,rfl,rfl,?_⟩
  rintro ⟨_,_,_,once⟩
  exact absurd (once 0 (by decide)) (by decide)

theorem final_merge_complete_when_drained :
    ∃ s t, Machine.exec (step some oneWorker) (initial oneWorker oneIteration)
        [.send 0,.recv firstThread,.add firstThread,.join] = some s ∧
      step some oneWorker s .merge = some t ∧ FinalMergeComplete some oneWorker t := by
  have run : Machine.exec (step some oneWorker) (initial oneWorker oneIteration)
    [.send 0,.recv firstThread,.add firstThread,.join] = some _ := rfl
  refine ⟨_,_,run,rfl,(final_merge_complete_iff run rfl).mpr ⟨?_,?_⟩⟩
  · exact fun item member => absurd member List.not_mem_nil
  · intro c item pc
    obtain rfl : c = firstThread := Fin.ext (Nat.lt_one_iff.mp c.isLt)
    exact nomatch pc

end Fusillade.Engine.Pipeline
