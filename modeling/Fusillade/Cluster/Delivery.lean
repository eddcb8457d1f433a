import Fusillade.Cluster.Dispatch

/-! The tests on their way from the dispatches of a controller to its workers, over the bounded
channel of each stream and its connection. The loops of dispatches share the read lock of the
registry: they run side by side, send by send, and keep out whoever would write. A connection
that is lost is one whose commands are never received. -/
namespace Fusillade.Cluster.Delivery

open Dispatch
open Controller (anyTest)

/-- A call of `dispatch_test_to_workers` that is in its loop, with what is left of the registry's
list, or has given its answer. -/
structure Call where
  command : StartTest
  rest : List (String × WorkerInfo)
  sentCount : Nat
  answer : Option Nat

/-- Calls are numbered in the order in which their loops begin. -/
structure State where
  cluster : Cluster.State
  channels : Channels
  calls : List Call
  /-- The calls whose command went into the channel of a stream. -/
  sent : Nat → List Nat
  wire : Nat → List StartTest
  received : Nat → List StartTest

inductive Action where
  | register (a : Cluster.Action)
  /-- A request that comes to the loop, which goes through the map in some order. -/
  | dispatch (payload : DispatchTestRequest) (order : List (String × WorkerInfo))
  | send (call : Nat)
  | answer (call : Nat)
  /-- A command leaves the channel of a stream for its connection. -/
  | take (stream : Nat)
  | receive (stream : Nat)
  /-- The response stream is dropped, and the receiver of the channel with it. -/
  | hangUp (stream : Nat)

def initial : State := ⟨Cluster.initial,fun _ => freshChannel,[],fun _ => [],fun _ => [],fun _ => []⟩

/-- The steps of streams that write to the registry. -/
def writes (s : Cluster.State) : Cluster.Action → Bool
  | .message i (.register _) => decide (s.streams[i]? = some .awaiting)
  | .disconnect i => (announced s i).isSome
  | _ => false

/-- Some loop holds the read lock. -/
def State.locked (s : State) : Bool := s.calls.any (·.answer.isNone)

def step (clusterToken : Option String) (metricsUrl : String) (s : State) : Action → Option State
  | .register a =>
    if writes s.cluster a && s.locked then none
    else (Cluster.step clusterToken s.cluster a).map fun cluster => { s with cluster := cluster }
  | .dispatch payload order =>
    if FiniteMap.Lists s.cluster.workers order then
      match payload.configJson, order with
      | .ok configJson, _ :: _ => some { s with
          calls := s.calls ++ [⟨⟨payload.scriptContent,configJson,payload.assets,metricsUrl⟩,order,0,none⟩] }
      -- These are answered before any loop.
      | .error _, _ | .ok _, [] => some s
    else none
  | .send call =>
    match s.calls[call]? with
    | some ⟨command,(_,worker) :: rest,sentCount,none⟩ =>
      match (s.channels worker.sender).trySend command with
      | some channel => some { s with
          calls := s.calls.set call ⟨command,rest,sentCount + 1,none⟩
          channels := Function.update s.channels worker.sender channel
          sent := Function.update s.sent worker.sender (s.sent worker.sender ++ [call]) }
      | none => some { s with calls := s.calls.set call ⟨command,rest,sentCount,none⟩ }
    | _ => none
  | .answer call =>
    match s.calls[call]? with
    | some ⟨command,[],sentCount,none⟩ =>
      some { s with calls := s.calls.set call ⟨command,[],sentCount,some sentCount⟩ }
    | _ => none
  | .take i =>
    match (s.channels i).queue with
    | command :: rest => some { s with
        channels := Function.update s.channels i { s.channels i with queue := rest }
        wire := Function.update s.wire i (s.wire i ++ [command]) }
    | [] => none
  | .receive i =>
    match s.wire i with
    | command :: rest => some { s with
        wire := Function.update s.wire i rest
        received := Function.update s.received i (s.received i ++ [command]) }
    | [] => none
  | .hangUp i =>
    if i < s.cluster.streams.length then some { s with
      channels := Function.update s.channels i { s.channels i with queue := [], closed := true } }
    else none

def commandOf (calls : List Call) (call : Nat) : Option StartTest := calls[call]?.map (·.command)

/-- What was put into the channel of a stream. -/
def State.commands (s : State) (i : Nat) : List StartTest := (s.sent i).filterMap (commandOf s.calls)

def State.answered (s : State) (call : Nat) : Prop := ∃ c ∈ s.calls[call]?, c.answer.isSome

/-- What was put into a channel is received in that order, all of it as long as the receiver is
there. -/
structure Flow (commands received wire : List StartTest) (channel : Channel) : Prop where
  kept : channel.closed = false → commands = received ++ wire ++ channel.queue
  ordered : received ++ wire <+: commands
  cleared : channel.closed = true → channel.queue = []
  bounded : channel.queue.length ≤ 100
  capacity : channel.capacity = 100

/-- No call puts its command twice into a channel, and an answer counts the streams that have it. -/
structure Delivered (s : State) : Prop where
  flow : ∀ i, Flow (s.commands i) (s.received i) (s.wire i) (s.channels i)
  once : ∀ i, (s.sent i).Nodup
  begun : ∀ i, ∀ call ∈ s.sent i, call < s.calls.length
  counted : ∀ (call : Nat) (c : Call) (count : Nat), s.calls[call]? = some c → c.answer = some count →
    count = Set.ncard { i | call ∈ s.sent i }

/-- The calls that are over by the first state send nothing any more, and the later ones have sent
nothing yet: every stream has the commands of the former before those of the latter. -/
def Follows (s t : State) : Prop :=
  ∀ i, ∃ later, t.sent i = s.sent i ++ later ∧ (∀ call ∈ s.sent i, call < s.calls.length) ∧
    ∀ call ∈ later, ¬s.answered call

variable {clusterToken : Option String} {metricsUrl : String} {s t : State}

/-- What a step does. -/
inductive Stepped (clusterToken : Option String) (s : State) : Action → State → Prop where
  | registers (a : Cluster.Action) (cluster : Cluster.State)
      (taken : Cluster.step clusterToken s.cluster a = some cluster) :
      Stepped clusterToken s (.register a) { s with cluster := cluster }
  | refuses (payload : DispatchTestRequest) (order : List (String × WorkerInfo)) :
      Stepped clusterToken s (.dispatch payload order) s
  | begins (payload : DispatchTestRequest) (order : List (String × WorkerInfo)) (command : StartTest)
      (lists : FiniteMap.Lists s.cluster.workers order) :
      Stepped clusterToken s (.dispatch payload order) { s with calls := s.calls ++ [⟨command,order,0,none⟩] }
  | sends (call : Nat) (command : StartTest) (id : String) (worker : WorkerInfo)
      (rest : List (String × WorkerInfo)) (sentCount : Nat)
      (here : s.calls[call]? = some ⟨command,(id,worker) :: rest,sentCount,none⟩)
      (room : (s.channels worker.sender).hasRoom = true) :
      Stepped clusterToken s (.send call) { s with
        calls := s.calls.set call ⟨command,rest,sentCount + 1,none⟩
        channels := Function.update s.channels worker.sender ((s.channels worker.sender).push command)
        sent := Function.update s.sent worker.sender (s.sent worker.sender ++ [call]) }
  | skips (call : Nat) (command : StartTest) (id : String) (worker : WorkerInfo)
      (rest : List (String × WorkerInfo)) (sentCount : Nat)
      (here : s.calls[call]? = some ⟨command,(id,worker) :: rest,sentCount,none⟩)
      (full : (s.channels worker.sender).hasRoom = false) :
      Stepped clusterToken s (.send call) { s with calls := s.calls.set call ⟨command,rest,sentCount,none⟩ }
  | answers (call : Nat) (command : StartTest) (sentCount : Nat)
      (here : s.calls[call]? = some ⟨command,[],sentCount,none⟩) :
      Stepped clusterToken s (.answer call)
        { s with calls := s.calls.set call ⟨command,[],sentCount,some sentCount⟩ }
  | takes (i : Nat) (command : StartTest) (rest : List StartTest)
      (here : (s.channels i).queue = command :: rest) :
      Stepped clusterToken s (.take i) { s with
        channels := Function.update s.channels i { s.channels i with queue := rest }
        wire := Function.update s.wire i (s.wire i ++ [command]) }
  | receives (i : Nat) (command : StartTest) (rest : List StartTest) (here : s.wire i = command :: rest) :
      Stepped clusterToken s (.receive i) { s with
        wire := Function.update s.wire i rest
        received := Function.update s.received i (s.received i ++ [command]) }
  | hangsUp (i : Nat) : Stepped clusterToken s (.hangUp i) { s with
        channels := Function.update s.channels i { s.channels i with queue := [], closed := true } }

theorem step_cases {a : Action} (taken : step clusterToken metricsUrl s a = some t) :
    Stepped clusterToken s a t := by
  cases a with
  | register a =>
    simp only [step] at taken
    split at taken
    · contradiction
    · obtain ⟨cluster,moved,rfl⟩ := Option.map_eq_some_iff.mp taken
      exact .registers a cluster moved
  | dispatch payload order =>
    simp only [step] at taken
    split at taken
    next lists =>
      split at taken <;> obtain rfl := Option.some.inj taken
      · exact .begins payload _ _ lists
      · exact .refuses ..
      · exact .refuses ..
    next => contradiction
  | send call =>
    simp only [step] at taken
    split at taken
    next command id worker rest sentCount here =>
      cases room : (s.channels worker.sender).hasRoom with
      | true =>
        simp only [Channel.trySend,room,if_true] at taken
        obtain rfl := Option.some.inj taken
        exact .sends call command id worker rest sentCount here room
      | false =>
        simp only [Channel.trySend,room] at taken
        obtain rfl := Option.some.inj taken
        exact .skips call command id worker rest sentCount here room
    next => contradiction
  | answer call =>
    simp only [step] at taken
    split at taken
    next command sentCount here =>
      obtain rfl := Option.some.inj taken
      exact .answers call command sentCount here
    next => contradiction
  | take i =>
    simp only [step] at taken
    split at taken
    next command rest here =>
      obtain rfl := Option.some.inj taken
      exact .takes i command rest here
    next => contradiction
  | receive i =>
    simp only [step] at taken
    split at taken
    next command rest here =>
      obtain rfl := Option.some.inj taken
      exact .receives i command rest here
    next => contradiction
  | hangUp i =>
    simp only [step] at taken
    split at taken
    · obtain rfl := Option.some.inj taken
      exact .hangsUp i
    · contradiction

section Flow

variable {commands received wire : List StartTest} {channel : Channel} {command : StartTest}

theorem Flow.push (flow : Flow commands received wire channel) (room : channel.hasRoom = true) :
    Flow (commands ++ [command]) received wire (channel.push command) := by
  simp only [Channel.hasRoom,Bool.and_eq_true,Bool.not_eq_true',decide_eq_true_eq] at room
  obtain ⟨unclosed,less⟩ := room
  refine ⟨fun _ => ?_,flow.ordered.trans (List.prefix_append _ _),fun closed => ?_,?_,flow.capacity⟩
  · rw [flow.kept unclosed]
    simp [Channel.push]
  · exact absurd (unclosed.symm.trans closed) Bool.false_ne_true
  · rw [flow.capacity] at less
    simpa [Channel.push] using less

theorem Flow.take {rest : List StartTest} (flow : Flow commands received wire channel)
    (here : channel.queue = command :: rest) :
    Flow commands received (wire ++ [command]) { channel with queue := rest } := by
  have unclosed : channel.closed = false := by
    by_contra closed
    rw [flow.cleared (by simpa using closed)] at here
    contradiction
  have all := flow.kept unclosed
  have bounded := flow.bounded
  rw [here] at all bounded
  refine ⟨fun _ => by simpa using all,?_,fun closed => ?_,Nat.le_of_succ_le bounded,flow.capacity⟩
  · rw [all]
    simp
  · exact absurd (unclosed.symm.trans closed) Bool.false_ne_true

theorem Flow.receive {rest : List StartTest} (flow : Flow commands received wire channel)
    (here : wire = command :: rest) : Flow commands (received ++ [command]) rest channel := by
  subst here
  exact ⟨fun unclosed => by simpa using flow.kept unclosed,by simpa using flow.ordered,flow.cleared,
    flow.bounded,flow.capacity⟩

theorem Flow.hangUp (flow : Flow commands received wire channel) :
    Flow commands received wire { channel with queue := [], closed := true } :=
  ⟨nofun,flow.ordered,fun _ => rfl,Nat.zero_le _,flow.capacity⟩

end Flow

section Calls

variable {calls : List Call} {call : Nat} {c : Call} {sent : Nat → List Nat}

theorem commandOf_append (begun : call < calls.length) (c : Call) :
    commandOf (calls ++ [c]) call = commandOf calls call := by
  rw [commandOf,List.getElem?_append_left begun,commandOf]

theorem commandOf_set {new : Call} (here : calls[call]? = some c) (same : new.command = c.command) :
    commandOf (calls.set call new) = commandOf calls := by
  funext other
  by_cases own : other = call
  · subst own
    have inside := (List.getElem?_eq_some_iff.mp here).1
    rw [commandOf,commandOf,List.getElem?_set_self inside,here,Option.map_some,Option.map_some,same]
  · simp [commandOf,List.getElem?_set_ne (Ne.symm own)]

/-- What is known of a call while the channels have what `sent` says. -/
structure Call.Sound (sent : Nat → List Nat) (call : Nat) (c : Call) : Prop where
  nodup : (senders c.rest).Nodup
  fresh : ∀ i ∈ senders c.rest, call ∉ sent i
  finite : { i | call ∈ sent i }.Finite
  counted : c.sentCount = Set.ncard { i | call ∈ sent i }
  answered : ∀ count, c.answer = some count → c.rest = [] ∧ count = c.sentCount

theorem mem_update {sender other i : Nat} :
    other ∈ Function.update sent sender (sent sender ++ [call]) i ↔
      other ∈ sent i ∨ i = sender ∧ other = call := by
  by_cases here : i = sender
  · subst here
    simp
  · simp [here]

/-- The sends of one call are nothing to another. -/
theorem Call.Sound.elsewhere {sender other : Nat} (sound : c.Sound sent other) (apart : other ≠ call) :
    c.Sound (Function.update sent sender (sent sender ++ [call])) other := by
  have same (i : Nat) : other ∈ Function.update sent sender (sent sender ++ [call]) i ↔ other ∈ sent i := by
    simp [mem_update,apart]
  exact ⟨sound.nodup,fun i member => by simpa only [same] using sound.fresh i member,
    by simpa only [same] using sound.finite,by simpa only [same] using sound.counted,sound.answered⟩

theorem Call.Sound.send {command : StartTest} {id : String} {worker : WorkerInfo}
    {rest : List (String × WorkerInfo)} {sentCount : Nat}
    (sound : Call.Sound sent call ⟨command,(id,worker) :: rest,sentCount,none⟩) :
    Call.Sound (Function.update sent worker.sender (sent worker.sender ++ [call])) call
      ⟨command,rest,sentCount + 1,none⟩ := by
  obtain ⟨nodup,fresh,finite,counted,_⟩ := sound
  obtain ⟨head,tail⟩ := List.nodup_cons.mp nodup
  have set : { i | call ∈ Function.update sent worker.sender (sent worker.sender ++ [call]) i } =
      insert worker.sender { i | call ∈ sent i } := by
    ext i
    simp [mem_update,or_comm]
  have new : worker.sender ∉ { i | call ∈ sent i } := fresh worker.sender List.mem_cons_self
  refine ⟨tail,?_,?_,?_,by simp⟩
  · intro i member already
    rcases mem_update.mp already with before | ⟨rfl,_⟩
    · exact fresh i (List.mem_cons_of_mem _ member) before
    · exact head member
  · rw [set]
    exact finite.insert _
  · rw [set,Set.ncard_insert_of_notMem new finite,← counted]

theorem Call.Sound.skip {command : StartTest} {id : String} {worker : WorkerInfo}
    {rest : List (String × WorkerInfo)} {sentCount : Nat}
    (sound : Call.Sound sent call ⟨command,(id,worker) :: rest,sentCount,none⟩) :
    Call.Sound sent call ⟨command,rest,sentCount,none⟩ :=
  ⟨(List.nodup_cons.mp sound.nodup).2,fun i member => sound.fresh i (List.mem_cons_of_mem _ member),
    sound.finite,sound.counted,nofun⟩

theorem Call.Sound.answer {command : StartTest} {sentCount : Nat}
    (sound : Call.Sound sent call ⟨command,[],sentCount,none⟩) :
    Call.Sound sent call ⟨command,[],sentCount,some sentCount⟩ :=
  ⟨sound.nodup,sound.fresh,sound.finite,sound.counted,
    fun _ same => ⟨rfl,(Option.some.inj same).symm⟩⟩

/-- A call that begins has the channels of a registry before it, and has sent nothing. -/
theorem Call.Sound.start {command : StartTest} {order : List (String × WorkerInfo)}
    (nodup : (senders order).Nodup) (unsent : ∀ i, call ∉ sent i) :
    Call.Sound sent call ⟨command,order,0,none⟩ := by
  have empty : { i | call ∈ sent i } = ∅ := Set.eq_empty_of_forall_notMem unsent
  exact ⟨nodup,fun i _ => unsent i,by simp [empty],by simp [empty],by simp⟩

/-- A change of one call. -/
theorem sound_set {new : Call} {after : Nat → List Nat}
    (all : ∀ (other : Nat) (c : Call), calls[other]? = some c → c.Sound sent other)
    (here : new.Sound after call)
    (others : ∀ (other : Nat) (c : Call), other ≠ call → c.Sound sent other → c.Sound after other) :
    ∀ (other : Nat) (c : Call), (calls.set call new)[other]? = some c → c.Sound after other := by
  intro other c found
  by_cases same : other = call
  · subst same
    have inside : other < (calls.set other new).length := (List.getElem?_eq_some_iff.mp found).1
    rw [List.length_set] at inside
    rw [List.getElem?_set_self inside] at found
    exact Option.some.inj found ▸ here
  · rw [List.getElem?_set_ne (Ne.symm same)] at found
    exact others other c same (all other c found)

theorem sound_append {new : Call}
    (all : ∀ (other : Nat) (c : Call), calls[other]? = some c → c.Sound sent other)
    (last : new.Sound sent calls.length) :
    ∀ (other : Nat) (c : Call), (calls ++ [new])[other]? = some c → c.Sound sent other := by
  intro other c found
  rcases Nat.lt_or_ge other calls.length with before | after
  · exact all other c (by rwa [List.getElem?_append_left before] at found)
  · rw [List.getElem?_append_right after,List.getElem?_singleton] at found
    split at found
    next first =>
      obtain rfl : other = calls.length := by omega
      exact Option.some.inj found ▸ last
    next => contradiction

end Calls

structure Invariant (clusterToken : Option String) (s : State) : Prop where
  registry : ∃ actions, Machine.exec (Cluster.step clusterToken) Cluster.initial actions = some s.cluster
  flow : ∀ i, Flow (s.commands i) (s.received i) (s.wire i) (s.channels i)
  once : ∀ i, (s.sent i).Nodup
  begun : ∀ i, ∀ call ∈ s.sent i, call < s.calls.length
  calls : ∀ (call : Nat) (c : Call), s.calls[call]? = some c → c.Sound s.sent call

theorem initial_invariant : Invariant clusterToken initial where
  registry := ⟨[],rfl⟩
  flow _ := ⟨fun _ => rfl,List.nil_prefix,fun _ => rfl,Nat.zero_le _,rfl⟩
  once _ := List.nodup_nil
  begun _ _ member := by simp [initial] at member
  calls _ _ found := by simp [initial] at found

theorem step_invariant (s : State) (a : Action) (t : State) (valid : Invariant clusterToken s)
    (taken : step clusterToken metricsUrl s a = some t) : Invariant clusterToken t := by
  cases step_cases taken with
  | registers a cluster moved =>
    obtain ⟨actions,run⟩ := valid.registry
    exact ⟨⟨actions ++ [a],Machine.exec_snoc_iff.mpr ⟨_,run,moved⟩⟩,valid.flow,valid.once,valid.begun,valid.calls⟩
  | refuses => exact valid
  | begins payload order command lists =>
    obtain ⟨actions,run⟩ := valid.registry
    refine ⟨valid.registry,fun i => ?_,valid.once,fun i call member => ?_,fun call c found => ?_⟩
    · have same : State.commands { s with calls := s.calls ++ [⟨command,order,0,none⟩] } i = s.commands i :=
        List.filterMap_congr fun call member => commandOf_append (valid.begun i call member) _
      rw [same]
      exact valid.flow i
    · have before := valid.begun i call member
      rw [List.length_append]
      omega
    · refine sound_append valid.calls (Call.Sound.start (senders_nodup run lists) fun i member => ?_) call c found
      exact Nat.lt_irrefl _ (valid.begun i _ member)
  | sends call command id worker rest sentCount here room =>
    have inside := (List.getElem?_eq_some_iff.mp here).1
    have sound := valid.calls call _ here
    have same : commandOf (s.calls.set call ⟨command,rest,sentCount + 1,none⟩) = commandOf s.calls :=
      commandOf_set here rfl
    have own : commandOf s.calls call = some command := by rw [commandOf,here,Option.map_some]
    refine ⟨valid.registry,fun i => ?_,fun i => ?_,fun i other member => ?_,?_⟩
    · simp only [State.commands,same]
      by_cases hit : i = worker.sender
      · subst hit
        simpa [own,State.commands] using (valid.flow worker.sender).push room
      · simpa [hit,State.commands] using valid.flow i
    · by_cases hit : i = worker.sender
      · subst hit
        simp only [Function.update_self]
        exact (valid.once worker.sender).append (List.nodup_singleton call)
          (List.disjoint_singleton.mpr (sound.fresh worker.sender List.mem_cons_self))
      · simpa [hit] using valid.once i
    · simp only [List.length_set]
      rcases mem_update.mp member with before | ⟨_,rfl⟩
      · exact valid.begun i other before
      · exact inside
    · exact sound_set valid.calls sound.send fun other c apart already => already.elsewhere apart
  | skips call command id worker rest sentCount here full =>
    have same : commandOf (s.calls.set call ⟨command,rest,sentCount,none⟩) = commandOf s.calls :=
      commandOf_set here rfl
    refine ⟨valid.registry,fun i => ?_,valid.once,fun i other member => ?_,?_⟩
    · simpa only [State.commands,same] using valid.flow i
    · simpa only [List.length_set] using valid.begun i other member
    · exact sound_set valid.calls (valid.calls call _ here).skip fun _ _ _ already => already
  | answers call command sentCount here =>
    have same : commandOf (s.calls.set call ⟨command,[],sentCount,some sentCount⟩) = commandOf s.calls :=
      commandOf_set here rfl
    refine ⟨valid.registry,fun i => ?_,valid.once,fun i other member => ?_,?_⟩
    · simpa only [State.commands,same] using valid.flow i
    · simpa only [List.length_set] using valid.begun i other member
    · exact sound_set valid.calls (valid.calls call _ here).answer fun _ _ _ already => already
  | takes i command rest here =>
    refine ⟨valid.registry,fun j => ?_,valid.once,valid.begun,valid.calls⟩
    by_cases hit : j = i
    · subst hit
      simpa [State.commands] using (valid.flow j).take here
    · simpa [State.commands,hit] using valid.flow j
  | receives i command rest here =>
    refine ⟨valid.registry,fun j => ?_,valid.once,valid.begun,valid.calls⟩
    by_cases hit : j = i
    · subst hit
      simpa [State.commands] using (valid.flow j).receive here
    · simpa [State.commands,hit] using valid.flow j
  | hangsUp i =>
    refine ⟨valid.registry,fun j => ?_,valid.once,valid.begun,valid.calls⟩
    by_cases hit : j = i
    · subst hit
      simpa [State.commands] using (valid.flow j).hangUp
    · simpa [State.commands,hit] using valid.flow j

theorem Invariant.delivered (valid : Invariant clusterToken s) : Delivered s where
  flow := valid.flow
  once := valid.once
  begun := valid.begun
  counted call c count found answer := by
    have sound := valid.calls call c found
    exact (sound.answered count answer).2.trans sound.counted

theorem answered_ne {call other : Nat} {c : Call} (here : s.calls[call]? = some c)
    (running : c.answer = none) (answered : s.answered other) : other ≠ call := by
  obtain ⟨found,located,given⟩ := answered
  rintro rfl
  obtain rfl := Option.some.inj (here.symm.trans located)
  rw [running] at given
  contradiction

theorem answered_set {call other : Nat} {c new : Call} (here : s.calls[call]? = some c)
    (running : c.answer = none) (answered : s.answered other) :
    ∃ c ∈ (s.calls.set call new)[other]?, c.answer.isSome := by
  have apart := answered_ne here running answered
  obtain ⟨found,located,given⟩ := answered
  exact ⟨found,by rwa [List.getElem?_set_ne (Ne.symm apart)],given⟩

/-- Answers stay, and what is sent is sent by a call without one. -/
structure Extends (s t : State) : Prop where
  answered : ∀ call, s.answered call → t.answered call
  sent : ∀ i, ∃ later, t.sent i = s.sent i ++ later ∧ ∀ call ∈ later, ¬s.answered call

theorem Extends.refl (s : State) : Extends s s :=
  ⟨fun _ => id,fun i => ⟨[],(List.append_nil _).symm,by simp⟩⟩

theorem Extends.trans {u : State} (first : Extends s t) (second : Extends t u) : Extends s u where
  answered call before := second.answered call (first.answered call before)
  sent i := by
    obtain ⟨xs,front,fresh⟩ := first.sent i
    obtain ⟨ys,back,still⟩ := second.sent i
    refine ⟨xs ++ ys,by rw [back,front,List.append_assoc],fun call member => ?_⟩
    rcases List.mem_append.mp member with early | late
    · exact fresh call early
    · exact fun before => still call late (first.answered call before)

/-- A step that sends nothing. -/
theorem Extends.of_sent (same : t.sent = s.sent) (answered : ∀ call, s.answered call → t.answered call) :
    Extends s t :=
  ⟨answered,fun i => ⟨[],by rw [same,List.append_nil],by simp⟩⟩

theorem step_extends {a : Action} (taken : step clusterToken metricsUrl s a = some t) : Extends s t := by
  cases step_cases taken with
  | registers | takes | receives | hangsUp => exact .of_sent rfl fun _ before => before
  | refuses => exact .refl s
  | begins payload order command lists =>
    refine .of_sent rfl fun call ⟨c,here,given⟩ => ⟨c,?_,given⟩
    have inside := (List.getElem?_eq_some_iff.mp here).1
    exact (List.getElem?_append_left inside).trans here
  | sends call command id worker rest sentCount here room =>
    refine ⟨fun other before => answered_set here rfl before,fun i => ?_⟩
    by_cases own : i = worker.sender
    · subst own
      refine ⟨[call],by simp,fun other member before => ?_⟩
      exact answered_ne here rfl before (List.mem_singleton.mp member)
    · exact ⟨[],by simp [own],by simp⟩
  | skips call command id worker rest sentCount here full =>
    exact .of_sent rfl fun other before => answered_set here rfl before
  | answers call command sentCount here =>
    exact .of_sent rfl fun other before => answered_set here rfl before

theorem run_invariant {actions : List Action}
    (run : Machine.exec (step clusterToken metricsUrl) initial actions = some s) : Invariant clusterToken s :=
  Machine.exec_invariant (Invariant clusterToken) step_invariant run initial_invariant

/-- **Whatever happens between the dispatches of a controller and its workers, in whatever order:
no command comes twice or before an earlier one of its channel, none is lost while the receiver
is there, every answer counts the streams that have its command, and what one dispatch sends
comes, on every stream, before all of a dispatch that begins after its answer.** -/
theorem tests_delivered {before after : List Action}
    (run : Machine.exec (step clusterToken metricsUrl) initial before = some s)
    (goes : Machine.exec (step clusterToken metricsUrl) s after = some t) : Delivered t ∧ Follows s t := by
  have whole := Machine.exec_append_iff.mpr ⟨s,run,goes⟩
  refine ⟨(run_invariant whole).delivered,fun i => ?_⟩
  have extension := Machine.exec_invariant (Extends s)
    (fun _ _ _ first taken => first.trans (step_extends taken)) goes (.refl s)
  obtain ⟨later,same,fresh⟩ := extension.sent i
  exact ⟨later,same,(run_invariant run).begun i,fresh⟩

def joined : List Action := [.register (.connect none),.register (.message 0 (.register workerA))]

def oneTest (call : Nat) : List Action :=
  [.dispatch anyTest [("worker-a",infoA)],.send call,.answer call]

theorem tests_in_turn :
    ∃ s t, Machine.exec (step none "") initial (joined ++ oneTest 0) = some s ∧
      Machine.exec (step none "") s (.take 0 :: .receive 0 :: oneTest 1) = some t ∧ t.sent 0 = [0,1] ∧
      (t.received 0).length = 1 ∧ Delivered t ∧ Follows s t := by
  obtain ⟨s,run⟩ : ∃ s, Machine.exec (step none "") initial (joined ++ oneTest 0) = some s := ⟨_,rfl⟩
  obtain ⟨t,goes,sent,received⟩ : ∃ t, Machine.exec (step none "") s (.take 0 :: .receive 0 :: oneTest 1) = some t ∧
      t.sent 0 = [0,1] ∧ (t.received 0).length = 1 := by
    obtain rfl := Option.some.inj run
    exact ⟨_,rfl,rfl,rfl⟩
  exact ⟨s,t,run,goes,sent,received,tests_delivered run goes⟩

/-- The registry lists the stream under an id that no other open stream has, and the receiver of
its channel is there. -/
structure Serving (s : State) (i : Nat) (id : String) : Prop where
  listed : ∃ info, s.cluster.workers.lookup id = some info ∧ info.sender = i
  own : ∀ j, announced s.cluster j = some id → j = i
  unclosed : (s.channels i).closed = false

/-- Nobody else takes the id, and the stream goes on. -/
def Spares (i : Nat) (id : String) : Action → Prop
  | .register (.message j (.register request)) => j ≠ i → request.id ≠ id
  | .register (.disconnect j) | .hangUp j => j ≠ i
  | _ => True

/-- Fewer commands wait for the stream than its channel takes whenever a loop sends. -/
def KeepsUp (i : Nat) (s : State) : Action → Prop
  | .send _ => (s.channels i).queue.length < 100
  | _ => True

instance (i : Nat) (name : String) : ∀ a, Decidable (Spares i name a)
  | .register (.message _ (.register _)) => inferInstanceAs (Decidable (_ → _ ≠ _))
  | .register (.disconnect _) | .hangUp _ => inferInstanceAs (Decidable (_ ≠ _))
  | .register (.connect _) | .register (.message _ (.heartbeat _)) | .register (.message _ (.testFinished _))
  | .register (.message _ .empty) | .dispatch .. | .send _ | .answer _ | .take _ | .receive _ =>
    inferInstanceAs (Decidable True)

instance (i : Nat) (s : State) : ∀ a, Decidable (KeepsUp i s a)
  | .send _ => inferInstanceAs (Decidable (_ < _))
  | .register _ | .dispatch .. | .answer _ | .take _ | .receive _ | .hangUp _ => inferInstanceAs (Decidable True)

/-- A stream that comes to stand for another worker, or for none. -/
theorem own_set {cluster : Cluster.State} {i j : Nat} {id : String} {stream : Stream} {workers : WorkerRegistry}
    {located : Stream} (own : ∀ k, announced cluster k = some id → k = i) (here : cluster.streams[j]? = some located)
    (other : stream.worker ≠ some id) (k : Nat)
    (found : announced ⟨cluster.streams.set j stream,workers⟩ k = some id) : k = i := by
  rw [announced_set j k _ (List.getElem?_eq_some_iff.mp here).1] at found
  split at found
  · exact absurd found other
  · exact own k found

theorem cluster_serving {cluster next : Cluster.State} {i : Nat} {id : String} {a : Cluster.Action}
    (listed : ∃ info, cluster.workers.lookup id = some info ∧ info.sender = i)
    (own : ∀ j, announced cluster j = some id → j = i) (here : announced cluster i = some id)
    (spared : Spares i id (.register a)) (taken : Cluster.step clusterToken cluster a = some next) :
    (∃ info, next.workers.lookup id = some info ∧ info.sender = i) ∧
      ∀ j, announced next j = some id → j = i := by
  cases a with
  | connect authorization =>
    simp only [Cluster.step] at taken
    split at taken
    · obtain rfl := Option.some.inj taken
      exact ⟨listed,fun j found => own j (by rwa [announced_append] at found)⟩
    · contradiction
  | message j message =>
    simp only [Cluster.step] at taken
    split at taken
    next request located =>
      obtain rfl := Option.some.inj taken
      have apart : j ≠ i := by
        rintro rfl
        simp [announced,located,Stream.worker] at here
      have other : request.id ≠ id := spared apart
      exact ⟨by simpa [FiniteMap.lookup_insert,Ne.symm other] using listed,
        own_set own located (by simpa [Stream.worker] using other)⟩
    next located _ =>
      obtain rfl := Option.some.inj taken
      exact ⟨listed,own_set own located (by simp [Stream.worker])⟩
    next =>
      obtain rfl := Option.some.inj taken
      exact ⟨listed,own⟩
    next => contradiction
  | disconnect j =>
    simp only [Cluster.step] at taken
    split at taken
    next located =>
      obtain rfl := Option.some.inj taken
      exact ⟨listed,own_set own located (by simp [Stream.worker])⟩
    next other located =>
      obtain rfl := Option.some.inj taken
      have apart : id ≠ other := by
        rintro rfl
        exact spared (own j (by simp [announced,located,Stream.worker]))
      exact ⟨by simpa [FiniteMap.lookup_erase,apart] using listed,own_set own located (by simp [Stream.worker])⟩
    next => contradiction

theorem step_serving {i : Nat} {id : String} {a : Action} (sound : Sound s.cluster) (serving : Serving s i id)
    (spared : Spares i id a) (taken : step clusterToken metricsUrl s a = some t) : Serving t i id := by
  obtain ⟨listed,own,unclosed⟩ := serving
  cases step_cases taken with
  | registers a cluster moved =>
    obtain ⟨info,found,sender⟩ := listed
    obtain ⟨still,alone⟩ := cluster_serving ⟨info,found,sender⟩ own (sender ▸ sound id info found) spared moved
    exact ⟨still,alone,unclosed⟩
  | refuses | begins | skips | answers | receives => exact ⟨listed,own,unclosed⟩
  | sends call command other worker rest sentCount here room =>
    refine ⟨listed,own,?_⟩
    by_cases hit : i = worker.sender
    · subst hit
      simpa [Channel.push] using unclosed
    · simpa [hit] using unclosed
  | takes j command rest here =>
    refine ⟨listed,own,?_⟩
    by_cases hit : i = j
    · subst hit
      simpa using unclosed
    · simpa [hit] using unclosed
  | hangsUp j =>
    refine ⟨listed,own,?_⟩
    simpa [Ne.symm spared] using unclosed

/-- Each later call has sent its command to the stream or has it before it. -/
def Owed (base i : Nat) (s : State) : Prop :=
  ∀ (call : Nat) (c : Call), base ≤ call → s.calls[call]? = some c → call ∈ s.sent i ∨ i ∈ senders c.rest

theorem owed_set {base i call : Nat} {c : Call} {calls : List Call} {sent : List Nat}
    (owed : ∀ (other : Nat) (c : Call), base ≤ other → calls[other]? = some c →
      other ∈ sent ∨ i ∈ senders c.rest)
    (here : base ≤ call → call ∈ sent ∨ i ∈ senders c.rest) (other : Nat) (found : Call)
    (later : base ≤ other) (located : (calls.set call c)[other]? = some found) :
    other ∈ sent ∨ i ∈ senders found.rest := by
  by_cases same : other = call
  · subst same
    have inside : other < (calls.set other c).length := (List.getElem?_eq_some_iff.mp located).1
    rw [List.length_set] at inside
    rw [List.getElem?_set_self inside] at located
    exact Option.some.inj located ▸ here later
  · rw [List.getElem?_set_ne (Ne.symm same)] at located
    exact owed other found later located

theorem step_owed {base i : Nat} {id : String} {a : Action} (capacity : ∀ i, (s.channels i).capacity = 100)
    (serving : Serving s i id) (keeps : KeepsUp i s a) (owed : Owed base i s)
    (taken : step clusterToken metricsUrl s a = some t) : Owed base i t := by
  cases step_cases taken with
  | registers | refuses | takes | receives | hangsUp => exact owed
  | begins payload order command lists =>
    intro call c later found
    rcases Nat.lt_or_ge call s.calls.length with before | after
    · exact owed call c later ((List.getElem?_append_left before).symm.trans found)
    · simp only [List.getElem?_append_right after,List.getElem?_singleton] at found
      split at found
      next =>
        obtain rfl := Option.some.inj found
        obtain ⟨info,listed,sender⟩ := serving.listed
        exact .inr (List.mem_map.mpr ⟨(id,info),(lists.lookup id info).mp listed,sender⟩)
      next => contradiction
  | sends call command other worker rest sentCount here room =>
    refine owed_set ?_ ?_
    · intro other c later found
      exact (owed other c later found).imp_left fun member => mem_update.mpr (.inl member)
    · intro later
      rcases owed call _ later here with already | ahead
      · exact .inl (mem_update.mpr (.inl already))
      · rcases List.mem_cons.mp ahead with now | afterwards
        · exact .inl (mem_update.mpr (.inr ⟨now,rfl⟩))
        · exact .inr afterwards
  | skips call command other worker rest sentCount here full =>
    refine owed_set owed fun later => ?_
    refine (owed call _ later here).imp_right fun ahead => (List.mem_cons.mp ahead).resolve_left ?_
    -- a channel that is passed over is full
    rintro rfl
    have unclosed := serving.unclosed
    have less : (s.channels worker.sender).queue.length < 100 := keeps
    simp [Channel.hasRoom,unclosed,capacity,less] at full
  | answers call command sentCount here =>
    exact owed_set owed fun later => owed call ⟨command,[],sentCount,none⟩ later here

/-- The reads that take everything off a stream. -/
def reads (s : State) (i : Nat) : List Action :=
  List.replicate (s.channels i).queue.length (.take i) ++
    List.replicate ((s.wire i).length + (s.channels i).queue.length) (.receive i)

theorem exec_takes {i : Nat} (queue : List StartTest) (here : (s.channels i).queue = queue) :
    ∃ t, Machine.exec (step clusterToken metricsUrl) s (List.replicate queue.length (.take i)) = some t ∧
      t.calls = s.calls ∧ t.sent = s.sent ∧ t.received = s.received ∧ t.wire i = s.wire i ++ queue := by
  induction queue generalizing s with
  | nil => exact ⟨s,rfl,rfl,rfl,rfl,by simp⟩
  | cons command rest ih =>
    have first : step clusterToken metricsUrl s (.take i) = some { s with
        channels := Function.update s.channels i { s.channels i with queue := rest }
        wire := Function.update s.wire i (s.wire i ++ [command]) } := by simp [step,here]
    obtain ⟨t,later,calls,sent,received,wire⟩ := @ih { s with
      channels := Function.update s.channels i { s.channels i with queue := rest }
      wire := Function.update s.wire i (s.wire i ++ [command]) } (by simp)
    exact ⟨t,Machine.exec_cons_iff.mpr ⟨_,first,later⟩,calls,sent,received,by simpa using wire⟩

theorem exec_receives {i : Nat} (wire : List StartTest) (here : s.wire i = wire) :
    ∃ t, Machine.exec (step clusterToken metricsUrl) s (List.replicate wire.length (.receive i)) = some t ∧
      t.calls = s.calls ∧ t.sent = s.sent ∧ t.received i = s.received i ++ wire := by
  induction wire generalizing s with
  | nil => exact ⟨s,rfl,rfl,rfl,by simp⟩
  | cons command rest ih =>
    have first : step clusterToken metricsUrl s (.receive i) = some { s with
        wire := Function.update s.wire i rest
        received := Function.update s.received i (s.received i ++ [command]) } := by simp [step,here]
    obtain ⟨t,later,calls,sent,received⟩ := @ih { s with
      wire := Function.update s.wire i rest
      received := Function.update s.received i (s.received i ++ [command]) } (by simp)
    exact ⟨t,Machine.exec_cons_iff.mpr ⟨_,first,later⟩,calls,sent,by simpa using received⟩

/-- A worker whose receiver is there can read all that was sent to it, with nothing in between. -/
theorem exec_reads {i : Nat} (flow : Flow (s.commands i) (s.received i) (s.wire i) (s.channels i))
    (unclosed : (s.channels i).closed = false) :
    ∃ t, Machine.exec (step clusterToken metricsUrl) s (reads s i) = some t ∧ t.sent = s.sent ∧
      t.received i = s.commands i := by
  obtain ⟨u,first,calls,sent,received,wire⟩ := exec_takes (s.channels i).queue rfl
  obtain ⟨t,second,_,sent',all⟩ := exec_receives (s := u) _ wire
  rw [List.length_append] at second
  refine ⟨t,Machine.exec_append_iff.mpr ⟨u,first,second⟩,sent'.trans sent,?_⟩
  rw [all,received,flow.kept unclosed,List.append_assoc]

theorem Invariant.sound (valid : Invariant clusterToken s) : Sound s.cluster := by
  obtain ⟨actions,run⟩ := valid.registry
  exact Machine.exec_invariant Sound step_sound run fun id info found => by simp [Cluster.initial] at found

structure Attended (clusterToken : Option String) (base i : Nat) (id : String) (s : State) : Prop where
  valid : Invariant clusterToken s
  serving : Serving s i id
  owed : Owed base i s

theorem step_attended {base i : Nat} {id : String} (s : State) (a : Action) (t : State)
    (attended : Attended clusterToken base i id s) (guard : Spares i id a ∧ KeepsUp i s a)
    (taken : step clusterToken metricsUrl s a = some t) : Attended clusterToken base i id t := by
  obtain ⟨valid,serving,owed⟩ := attended
  exact ⟨step_invariant s a t valid taken,step_serving valid.sound serving guard.1 taken,
    step_owed (fun j => (valid.flow j).capacity) serving guard.2 owed taken⟩

/-- **A worker under an id of its own that keeps up with the dispatches gets every test: each
dispatch that begins while it is listed has put its command into its channel by the time it is
answered, and the worker can read all of them.** -/
theorem connected_worker_gets_all {before after : List Action} {i : Nat} {name : String}
    (run : Machine.exec (step clusterToken metricsUrl) initial before = some s) (serving : Serving s i name)
    (goes : Machine.exec (step clusterToken metricsUrl) s after = some t)
    (attended : Machine.Guarded (step clusterToken metricsUrl) (fun s a => Spares i name a ∧ KeepsUp i s a) s after) :
    (∀ call, s.calls.length ≤ call → t.answered call → call ∈ t.sent i) ∧
      ∃ u, Machine.exec (step clusterToken metricsUrl) t (reads t i) = some u ∧ u.sent = t.sent ∧
        u.received i = t.commands i := by
  have start : Owed s.calls.length i s := fun call c later found => by
    rw [List.getElem?_eq_none later] at found
    contradiction
  obtain ⟨valid,still,owed⟩ := (attended.along step_attended (fun _ => id)
    ⟨run_invariant run,serving,start⟩).last goes
  refine ⟨fun call later answered => ?_,exec_reads (valid.flow i) still.unclosed⟩
  obtain ⟨c,here,given⟩ := answered
  obtain ⟨count,answer⟩ := Option.isSome_iff_exists.mp given
  refine (owed call c later here).resolve_right fun ahead => ?_
  rw [((valid.calls call c here).answered count answer).1] at ahead
  contradiction

theorem one_worker_gets_all :
    ∃ s t, Machine.exec (step none "") initial joined = some s ∧ Serving s 0 "worker-a" ∧
      Machine.exec (step none "") s (oneTest 0 ++ oneTest 1) = some t ∧
      (∀ call, s.calls.length ≤ call → t.answered call → call ∈ t.sent 0) ∧
        ∃ u, Machine.exec (step none "") t (reads t 0) = some u ∧ u.sent = t.sent ∧
          u.received 0 = t.commands 0 := by
  obtain ⟨s,run⟩ : ∃ s, Machine.exec (step none "") initial joined = some s := ⟨_,rfl⟩
  have serving : Serving s 0 "worker-a" := by
    obtain rfl := Option.some.inj run
    refine ⟨⟨infoA,rfl,rfl⟩,?_,rfl⟩
    rintro (_ | j) found
    · rfl
    · contradiction
  have attended : Machine.Guarded (step none "") (fun s a => Spares 0 "worker-a" a ∧ KeepsUp 0 s a) s
      (oneTest 0 ++ oneTest 1) := by
    obtain rfl := Option.some.inj run
    decide +kernel
  obtain ⟨t,goes⟩ : ∃ t, Machine.exec (step none "") s (oneTest 0 ++ oneTest 1) = some t := by
    obtain rfl := Option.some.inj run
    exact ⟨_,rfl⟩
  exact ⟨s,t,run,serving,goes,connected_worker_gets_all run serving goes attended⟩

end Fusillade.Cluster.Delivery
