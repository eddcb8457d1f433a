import Fusillade.Lib.Relay
import Fusillade.Lib.Family
import Fusillade.Bridge.Protocols

/-! What a script receives of a server stream, a bidirectional stream, an MQTT client and an
AMQP client. Each has a thread that polls the connection and passes the messages on over a
channel; the script, the threads and the servers take their steps in any order. -/
namespace Fusillade.Bridge.Subscriptions

open Relay Stats

/-- `reason` tells why there is no value. `present` is the conversion of a message to a value
of the script, which may throw. -/
inductive Reply (Shown : Type) where
  | value (shown : Shown)
  | timeout
  | closed
  | notConnected
  deriving DecidableEq, Repr

def Reply.reason {Shown : Type} : Reply Shown → Option String
  | .value _ => none
  | .timeout => some "timeout"
  | .closed => some "closed"
  | .notConnected => some "not_connected"

def Reply.shown {Shown : Type} : Reply Shown → Option Shown
  | .value shown => some shown
  | _ => none

/-- One of the four, by its thread, whether that thread opens the connection itself, and the
metric of a message received. -/
structure Kind (Event Message : Type) extends Policy Event Message where
  opens : Bool
  metric : Option String

/-- A stream error ends the loop as the end of the stream does. -/
def grpcServerStream (Message : Type) : Kind Message Message :=
  { pick := some, capacity := 1000, survives := false, opens := false, metric := none }

def grpcBidiStream (Message : Type) : Kind Message Message :=
  { pick := some, capacity := 1000, survives := false, opens := true, metric := none }

inductive QoS where
  | atMostOnce
  | atLeastOnce
  | exactlyOnce
  deriving DecidableEq, Repr

def QoS.level : QoS → UInt8
  | .atMostOnce => 0
  | .atLeastOnce => 1
  | .exactlyOnce => 2

def mapQos (qos : Option UInt8) : QoS :=
  match qos.getD 1 with
  | 0 => .atMostOnce
  | 2 => .exactlyOnce
  | _ => .atLeastOnce

structure MqttMessage where
  topic : String
  payload : List UInt8
  qos : UInt8
  deriving DecidableEq, Repr

/-- A packet that was published to the client, or any other event or error of the connection. -/
inductive MqttEvent where
  | publish (topic : String) (payload : List UInt8) (qos : QoS)
  | other
  deriving DecidableEq, Repr

def MqttEvent.message : MqttEvent → Option MqttMessage
  | .publish topic payload qos => some { topic, payload, qos := qos.level }
  | .other => none

/-- The result of `tx.send` is ignored. -/
def jsMqttClient : Kind MqttEvent MqttMessage :=
  { pick := MqttEvent.message, capacity := 1000, survives := true, opens := false,
    metric := some "mqtt::recv" }

structure AmqpMessage where
  body : List UInt8
  deliveryTag : UInt64
  deriving DecidableEq, Repr

/-- A delivery error is passed over. -/
def jsAmqpClient : Kind (Except String AmqpMessage) AmqpMessage :=
  { pick := Except.toOption, capacity := 1000, survives := false, opens := false,
    metric := some "amqp::recv" }

/-- The client or stream of a script. `running` is one flag for all its threads. -/
structure Client (Event Message Shown : Type) where
  running : Bool := false
  messageRx : Option (Relay.State Event Message) := none
  /-- `close` has cleared the flag and waits for the thread. -/
  closing : Bool := false
  /-- The connections before this one: their threads may still run. -/
  retired : List (Relay.State Event Message) := []
  /-- What `recv` has returned. -/
  replies : List (Reply Shown) := []
  metrics : List Metric := []

inductive Action (Event : Type) where
  /-- The stream is opened, `connect` of MQTT, or `subscribe` of AMQP. -/
  | connect
  | thread (move : Move Event)
  | retired (index : Nat) (move : Move Event)
  /-- `recv`, at the moment that its wait is over. -/
  | recv (duration : Duration)
  | close
  /-- The receiver is dropped. -/
  | release

variable {Event Message Shown : Type} (kind : Kind Event Message) (present : Message → Shown)

def Kind.spawn : Relay.State Event Message :=
  { phase := if kind.opens then .starting else .checking }

abbrev Client.connections (c : Client Event Message Shown) : List (Relay.State Event Message) :=
  c.retired ++ c.messageRx.toList

def Client.retire (c : Client Event Message Shown) : List (Relay.State Event Message) :=
  c.retired ++ c.messageRx.toList.map State.release

def Client.answer (c : Client Event Message Shown) (reply : Reply Shown) : Client Event Message Shown :=
  { c with replies := c.replies ++ [reply] }

def Client.recv (c : Client Event Message Shown) (duration : Duration) : Client Event Message Shown :=
  match c.messageRx with
  | none => c.answer .notConnected
  | some relay =>
    match relay.receive with
    | (.value message,rest) =>
      { c with
        messageRx := some rest
        replies := c.replies ++ [.value (present message)]
        metrics := c.metrics ++
          kind.metric.toList.map fun name => Protocols.makeMetric name duration none }
    | (.empty,_) => c.answer .timeout
    | (.disconnected,_) => c.answer .closed

def Client.moveRetired (c : Client Event Message Shown) (index : Nat) (move : Move Event) :
    Option (Client Event Message Shown) :=
  (c.retired[index]?).bind fun relay =>
    (Relay.step kind.toPolicy c.running relay move).map fun moved =>
      { c with retired := c.retired.set index moved }

def Client.moveThread (c : Client Event Message Shown) (move : Move Event) :
    Option (Client Event Message Shown) :=
  c.messageRx.bind fun relay =>
    (Relay.step kind.toPolicy c.running relay move).map fun moved =>
      { c with messageRx := some moved }

/-- `close` clears the flag, and drops the receiver once it has waited for the thread. -/
def step (c : Client Event Message Shown) : Action Event → Option (Client Event Message Shown)
  | .connect =>
    if c.closing then none
    else some { c with running := true, retired := c.retire, messageRx := some kind.spawn }
  | .thread move => c.moveThread kind move
  | .retired index move => c.moveRetired kind index move
  | .recv duration => if c.closing then none else some (c.recv kind present duration)
  | .close => if c.closing then none else some { c with running := false, closing := true }
  | .release =>
    if c.closing then some { c with retired := c.retire, messageRx := none, closing := false }
    else none

structure Invariant (c : Client Event Message Shown) : Prop where
  sound : ∀ relay ∈ c.connections, Sound kind.toPolicy relay
  opening : ∀ relay ∈ c.connections, relay.phase = .starting → kind.opens = true
  receiver : ∀ relay ∈ c.messageRx, relay.receiver = true
  dropped : ∀ relay ∈ c.retired, relay.receiver = false
  opened : c.closing = false → ∀ relay ∈ c.messageRx, c.running = true ∧ Exhausting relay
  shown : c.replies.filterMap Reply.shown = (c.connections.flatMap (·.taken)).map present
  counted : c.metrics.length = (c.connections.flatMap (·.taken)).length * kind.metric.toList.length

variable {kind present} {c d : Client Event Message Shown}

theorem start_invariant : Invariant kind present ({} : Client Event Message Shown) := by
  constructor <;> simp

theorem spawn_sound : Sound kind.toPolicy kind.spawn := by
  constructor <;> grind [Kind.spawn,State.pending,Phase.held]

theorem spawn_opening (starting : (kind.spawn : Relay.State Event Message).phase = .starting) :
    kind.opens = true := by
  grind [Kind.spawn]

theorem spawn_exhausting : Exhausting kind.spawn := by
  constructor <;> grind [Kind.spawn]

theorem retire_taken : c.retire.flatMap (·.taken) = c.connections.flatMap (·.taken) := by
  cases rx : c.messageRx <;> simp [Client.retire,rx,State.release]

theorem Invariant.retire (valid : Invariant kind present c) :
    ∀ relay ∈ c.retire, Sound kind.toPolicy relay ∧
      (relay.phase = .starting → kind.opens = true) ∧ relay.receiver = false := by
  intro relay member
  rcases List.mem_append.mp member with old | current
  · have here := List.mem_append_left c.messageRx.toList old
    exact ⟨valid.sound relay here,valid.opening relay here,valid.dropped relay old⟩
  · obtain ⟨before,present,rfl⟩ := List.mem_map.mp current
    have here := List.mem_append_right c.retired present
    exact ⟨(valid.sound before here).release,valid.opening before here,rfl⟩

theorem set_taken {relays : List (Relay.State Event Message)} {index : Nat}
    {relay moved : Relay.State Event Message} (here : relays[index]? = some relay)
    (same : moved.taken = relay.taken) :
    (relays.set index moved).map (·.taken) = relays.map (·.taken) := by
  rw [List.map_set,same]
  apply List.ext_getElem?
  intro other
  by_cases hit : other = index
  · subst hit
    obtain ⟨bound,rfl⟩ := List.getElem?_eq_some_iff.mp here
    simp [bound]
  · rw [List.getElem?_set_ne (Ne.symm hit)]

/-- Only `recv` adds to the replies, and a thread cannot touch what was taken. -/
theorem Invariant.moveRetired {index : Nat} {move : Move Event} (valid : Invariant kind present c)
    (taken : c.moveRetired kind index move = some d) : Invariant kind present d := by
  obtain ⟨relay,here,rest⟩ := Option.bind_eq_some_iff.mp taken
  obtain ⟨moved,stepped,rfl⟩ := Option.map_eq_some_iff.mp rest
  obtain ⟨sameTaken,sameReceiver⟩ := step_taken stepped
  have member : relay ∈ c.retired := List.mem_of_getElem? here
  have unchanged : (c.retired.set index moved ++ c.messageRx.toList).flatMap (·.taken) =
      c.connections.flatMap (·.taken) := by
    simp only [List.flatMap_def,List.map_append,set_taken here sameTaken]
  constructor
  · intro other present
    rcases List.mem_append.mp present with old | current
    · rcases List.mem_or_eq_of_mem_set old with before | rfl
      · exact valid.sound other (List.mem_append_left _ before)
      · exact (valid.sound relay (List.mem_append_left _ member)).step stepped
    · exact valid.sound other (List.mem_append_right _ current)
  · intro other present
    rcases List.mem_append.mp present with old | current
    · rcases List.mem_or_eq_of_mem_set old with before | rfl
      · exact valid.opening other (List.mem_append_left _ before)
      · exact fun starting => valid.opening relay (List.mem_append_left _ member)
          (step_starting stepped starting)
    · exact valid.opening other (List.mem_append_right _ current)
  · exact valid.receiver
  · intro other present
    rcases List.mem_or_eq_of_mem_set present with before | rfl
    · exact valid.dropped other before
    · rw [sameReceiver]
      exact valid.dropped relay member
  · exact valid.opened
  · rw [valid.shown,unchanged]
  · rw [valid.counted,unchanged]

theorem Invariant.moveThread {move : Move Event} (valid : Invariant kind present c)
    (taken : c.moveThread kind move = some d) : Invariant kind present d := by
  obtain ⟨relay,here,rest⟩ := Option.bind_eq_some_iff.mp taken
  obtain ⟨moved,stepped,rfl⟩ := Option.map_eq_some_iff.mp rest
  obtain ⟨sameTaken,sameReceiver⟩ := step_taken stepped
  have unchanged : (c.retired ++ (some moved).toList).flatMap (·.taken) =
      c.connections.flatMap (·.taken) := by
    simp [here,sameTaken]
  constructor
  · intro other present
    rcases List.mem_append.mp present with old | current
    · exact valid.sound other (List.mem_append_left _ old)
    · have new : other = moved := by simpa using current
      exact new ▸ (valid.sound relay (by simp [here])).step stepped
  · intro other present starting
    rcases List.mem_append.mp present with old | current
    · exact valid.opening other (List.mem_append_left _ old) starting
    · have new : other = moved := by simpa using current
      exact valid.opening relay (by simp [here]) (step_starting stepped (new ▸ starting))
  · rintro other ⟨⟩
    rw [sameReceiver]
    exact valid.receiver relay here
  · exact valid.dropped
  · rintro still other ⟨⟩
    obtain ⟨running,exhausting⟩ := valid.opened still relay here
    exact ⟨running,exhausting.step (valid.receiver relay here) (running ▸ stepped)⟩
  · rw [valid.shown,unchanged]
  · rw [valid.counted,unchanged]

theorem Invariant.answer (valid : Invariant kind present c) {reply : Reply Shown}
    (empty : reply.shown = none) : Invariant kind present (c.answer reply) := by
  refine ⟨valid.sound,valid.opening,valid.receiver,valid.dropped,valid.opened,?_,valid.counted⟩
  rw [Client.answer,List.filterMap_append,valid.shown]
  simp [empty]

theorem Invariant.recv (valid : Invariant kind present c) (duration : Duration) :
    Invariant kind present (c.recv kind present duration) := by
  unfold Client.recv
  split
  · exact valid.answer rfl
  · next relay here =>
    have receiver := valid.receiver relay here
    have sound := valid.sound relay (by simp [here])
    split
    · next message rest got =>
      obtain ⟨others,queue,taken⟩ := receive_value got
      have next : Sound kind.toPolicy rest := by simpa [got] using sound.receive receiver
      have samePhase : rest.phase = relay.phase := by rw [taken]
      constructor
      · intro other present
        rcases List.mem_append.mp present with old | current
        · exact valid.sound other (List.mem_append_left _ old)
        · have here' : other = rest := by simpa using current
          exact here' ▸ next
      · intro other present starting
        rcases List.mem_append.mp present with old | current
        · exact valid.opening other (List.mem_append_left _ old) starting
        · have here' : other = rest := by simpa using current
          exact valid.opening relay (by simp [here]) (samePhase ▸ here' ▸ starting)
      · rintro other ⟨⟩
        simpa [taken] using receiver
      · exact valid.dropped
      · rintro still other ⟨⟩
        obtain ⟨running,exhausting⟩ := valid.opened still relay here
        refine ⟨running,?_⟩
        simpa [got] using exhausting.receive
      · rw [List.filterMap_append,valid.shown]
        simp [Client.connections,here,taken,Reply.shown]
      · simp [valid.counted,Client.connections,here,taken,Nat.add_mul,Nat.add_assoc]
    · exact valid.answer rfl
    · exact valid.answer rfl

theorem step_invariant (action : Action Event) (valid : Invariant kind present c)
    (taken : step kind present c action = some d) : Invariant kind present d := by
  cases action with
  | connect =>
    simp only [step,Option.ite_none_left_eq_some,Option.some.injEq] at taken
    obtain ⟨-,rfl⟩ := taken
    have fresh : kind.spawn.taken = [] := rfl
    constructor
    · intro relay present
      rcases List.mem_append.mp present with old | current
      · exact (valid.retire relay old).1
      · have new : relay = kind.spawn := by simpa using current
        exact new ▸ spawn_sound
    · intro relay present starting
      rcases List.mem_append.mp present with old | current
      · exact (valid.retire relay old).2.1 starting
      · have new : relay = kind.spawn := by simpa using current
        exact spawn_opening (new ▸ starting)
    · rintro relay ⟨⟩
      rfl
    · exact fun relay old => (valid.retire relay old).2.2
    · rintro - relay ⟨⟩
      exact ⟨rfl,spawn_exhausting⟩
    · simp [valid.shown,Client.connections,← retire_taken (c := c),fresh]
    · simp [valid.counted,Client.connections,← retire_taken (c := c),fresh]
  | thread move => exact valid.moveThread taken
  | retired index move => exact valid.moveRetired taken
  | recv duration =>
    simp only [step,Option.ite_none_left_eq_some,Option.some.injEq] at taken
    obtain ⟨-,rfl⟩ := taken
    exact valid.recv duration
  | close =>
    simp only [step,Option.ite_none_left_eq_some,Option.some.injEq] at taken
    obtain ⟨-,rfl⟩ := taken
    exact ⟨valid.sound,valid.opening,valid.receiver,valid.dropped,nofun,valid.shown,valid.counted⟩
  | release =>
    simp only [step,Option.ite_none_right_eq_some,Option.some.injEq] at taken
    obtain ⟨-,rfl⟩ := taken
    constructor
    · intro relay present
      exact (valid.retire relay (by simpa using present)).1
    · intro relay present
      exact (valid.retire relay (by simpa using present)).2.1
    · nofun
    · exact fun relay old => (valid.retire relay old).2.2
    · nofun
    · simp [valid.shown,Client.connections,← retire_taken (c := c)]
    · simp [valid.counted,Client.connections,← retire_taken (c := c)]

theorem exec_valid {actions : List (Action Event)}
    (run : Machine.exec (step kind present) {} actions = some c) : Invariant kind present c :=
  Machine.exec_invariant (Invariant kind present) (fun _ action _ valid => step_invariant action valid)
    run start_invariant

/-- Whatever the order of the steps: the script gets the messages of a connection in the order
they came, each at most once, and as long as the connection is open none of them is dropped,
however slowly the script receives. -/
theorem received_in_order {actions : List (Action Event)}
    (run : Machine.exec (step kind present) {} actions = some c) :
    c.replies.filterMap Reply.shown = (c.connections.flatMap (·.taken)).map present ∧
      (∀ relay ∈ c.connections, relay.taken <+: relay.supplied.filterMap kind.pick ∧
        relay.queue.length ≤ kind.capacity) ∧
      ∀ relay ∈ c.messageRx,
        relay.supplied.filterMap kind.pick = relay.taken ++ relay.pending kind.toPolicy := by
  have valid := exec_valid run
  refine ⟨valid.shown,?_,?_⟩
  · intro relay member
    have sound := valid.sound relay member
    exact ⟨sound.ordered,sound.bounded⟩
  · intro relay here
    exact (valid.sound relay (by simp [Option.mem_def.mp here])).kept (valid.receiver relay here)

def narrow : Kind MqttEvent MqttMessage := { jsMqttClient with capacity := 2 }

def letter (topic : String) : MqttEvent := .publish topic [] .atLeastOnce

/-- Three messages with another packet among them, then the end. The channel is full before the
third, which the thread has in its hand. -/
def crowded : List (Action MqttEvent) :=
  [.connect,.thread (.supply (letter "a")),.thread (.supply .other),.thread (.supply (letter "b")),
    .thread (.supply (letter "c")),.thread .finish,
    .thread .check,.thread .read,.thread .send,.thread .check,.thread .read,
    .thread .check,.thread .read,.thread .send,.thread .check,.thread .read]

/-- The steps that bring them to the script, and the `recv` that finds the end. -/
def drained : List (Action MqttEvent) :=
  [.recv 0,.thread .send,.recv 0,.thread .check,.recv 0,.recv 0,.thread .read,.recv 0]

def reconnected : List (Action MqttEvent) :=
  [.connect,.recv 0,.thread (.supply (letter "d")),.thread .check,.thread .read,.thread .send,.recv 0]

theorem crowded_received_in_order :
    ∃ c : Client MqttEvent MqttMessage String,
      Machine.exec (step narrow MqttMessage.topic) {} (crowded ++ drained ++ reconnected) = some c ∧
        c.replies = [.value "a",.value "b",.value "c",.timeout,.closed,.timeout,.value "d"] ∧
        c.metrics = List.replicate 4 (Protocols.makeMetric "mqtt::recv" 0 none) ∧
        c.replies.filterMap Reply.shown =
          (c.connections.flatMap (·.taken)).map MqttMessage.topic :=
  ⟨_,rfl,rfl,rfl,(@received_in_order _ _ _ narrow MqttMessage.topic _
    (crowded ++ drained ++ reconnected) rfl).1⟩

theorem recv_connected {relay : Relay.State Event Message} (here : c.messageRx = some relay)
    (duration : Duration) :
    (∃ message rest, relay.receive = (.value message,rest) ∧
        c.recv kind present duration = { c with
          messageRx := some rest
          replies := c.replies ++ [.value (present message)]
          metrics := c.metrics ++
            kind.metric.toList.map fun name => Protocols.makeMetric name duration none }) ∨
      (relay.receive.1 = .empty ∧ c.recv kind present duration = c.answer .timeout) ∨
      (relay.receive.1 = .disconnected ∧ c.recv kind present duration = c.answer .closed) := by
  unfold Client.recv
  cases got : relay.receive with
  | mk receipt rest => cases receipt <;> simp [here,got]

theorem answer_replies {reply other : Reply Shown} :
    (c.answer reply).replies = c.replies ++ [other] ↔ reply = other := by
  simp [Client.answer]

/-- What the reason of a reply says: `closed` that the other side has ended the stream and
that the script has had every message, `timeout` that none is waiting, and `not_connected`
that there is no connection. -/
theorem reason_truthful {actions : List (Action Event)}
    (run : Machine.exec (step kind present) {} actions = some c) (still : c.closing = false)
    {duration : Duration} {reply : Reply Shown}
    (replied : (c.recv kind present duration).replies = c.replies ++ [reply]) :
    (reply.reason = some "not_connected" ↔ c.messageRx = none) ∧
      (reply.reason = some "closed" → ∃ relay ∈ c.messageRx, relay.ended = true ∧
        relay.taken = relay.supplied.filterMap kind.pick) ∧
      (reply.reason = some "timeout" → ∃ relay ∈ c.messageRx, relay.queue = []) ∧
      (reply.reason = none → ∃ relay ∈ c.messageRx, ∃ message, reply = .value (present message) ∧
        relay.taken ++ [message] <+: relay.supplied.filterMap kind.pick) := by
  have valid := exec_valid run
  cases rx : c.messageRx with
  | none =>
    have same : c.recv kind present duration = c.answer .notConnected := by simp [Client.recv,rx]
    rw [same,answer_replies] at replied
    subst replied
    simp [Reply.reason]
  | some relay =>
    have sound := valid.sound relay (by simp [rx])
    have receiver := valid.receiver relay rx
    rcases recv_connected rx duration with ⟨message,rest,got,same⟩ | ⟨empty,same⟩ | ⟨done,same⟩
    · obtain ⟨others,queue,-⟩ := receive_value got
      obtain rfl : reply = .value (present message) := by
        rw [same] at replied
        simpa using replied.symm
      refine ⟨by simp [Reply.reason],by simp [Reply.reason],by simp [Reply.reason],fun _ => ?_⟩
      refine ⟨relay,rfl,message,rfl,?_⟩
      rw [sound.kept receiver,State.pending,queue]
      exact ⟨others ++ relay.phase.held ++ relay.incoming.filterMap kind.pick,by simp⟩
    · rw [same,answer_replies] at replied
      subst replied
      have queue := (receive_nothing (s := relay) (by simp [empty])).1
      simp [Reply.reason,queue]
    · rw [same,answer_replies] at replied
      subst replied
      have drained := sound.drained (valid.opened still relay rx).2 receiver done
      simp [Reply.reason,drained]

theorem crowded_reason_truthful :
    ∃ c : Client MqttEvent MqttMessage String,
      Machine.exec (step narrow MqttMessage.topic) {} (crowded ++ drained) = some c ∧
        ∃ relay ∈ c.messageRx, relay.ended = true ∧
          relay.taken = relay.supplied.filterMap MqttEvent.message :=
  ⟨_,rfl,(@reason_truthful _ _ _ narrow MqttMessage.topic _ (crowded ++ drained) rfl rfl
    0 .closed rfl).2.1 rfl⟩

def Client.rank (c : Client Event Message Shown) : Nat := (c.retired.map fun relay => relay.phase.rank).sum

def Action.own : Action Event → Bool
  | .thread move | .retired _ move => move.own
  | _ => false

/-- Closed: no flag, no receiver, and nothing that another action than `connect` brings back. -/
structure Closed (c : Client Event Message Shown) : Prop where
  running : c.running = false
  messageRx : c.messageRx = none
  dropped : ∀ relay ∈ c.retired, relay.receiver = false

theorem Closed.step {action : Action Event} (closed : Closed c) (other : action ≠ .connect)
    (taken : step kind present c action = some d) :
    Closed d ∧ d.rank + (if action.own then 1 else 0) ≤ c.rank ∧
      ∃ n, d.replies = c.replies ++ List.replicate n .notConnected := by
  obtain ⟨running,none,dropped⟩ := closed
  cases action with
  | connect => exact absurd rfl other
  | thread move => simp [Subscriptions.step,Client.moveThread,none] at taken
  | retired index move =>
    obtain ⟨relay,here,rest⟩ := Option.bind_eq_some_iff.mp taken
    obtain ⟨moved,stepped,rfl⟩ := Option.map_eq_some_iff.mp rest
    have released := dropped relay (List.mem_of_getElem? here)
    have less := step_rank released (running ▸ stepped)
    have sum := Family.sum_set (f := fun relay => relay.phase.rank) moved here
    refine ⟨⟨running,none,?_⟩,?_,0,by simp⟩
    · intro other' present
      rcases List.mem_or_eq_of_mem_set present with before | rfl
      · exact dropped other' before
      · rw [(step_taken stepped).2]
        exact released
    · change Client.rank _ + (if move.own = true then 1 else 0) ≤ c.rank
      simp only [Client.rank]
      omega
  | recv duration =>
    simp only [Subscriptions.step,Option.ite_none_left_eq_some,Option.some.injEq] at taken
    obtain ⟨-,rfl⟩ := taken
    have same : c.recv kind present duration = c.answer .notConnected := by simp [Client.recv,none]
    rw [same]
    exact ⟨⟨running,none,dropped⟩,Nat.le_refl _,1,rfl⟩
  | close =>
    simp only [Subscriptions.step,Option.ite_none_left_eq_some,Option.some.injEq] at taken
    obtain ⟨-,rfl⟩ := taken
    exact ⟨⟨rfl,none,dropped⟩,Nat.le_refl _,0,by simp⟩
  | release =>
    simp only [Subscriptions.step,Option.ite_none_right_eq_some,Option.some.injEq] at taken
    obtain ⟨-,rfl⟩ := taken
    have same : c.retire = c.retired := by simp [Client.retire,none]
    refine ⟨⟨running,rfl,same ▸ dropped⟩,?_,0,by simp⟩
    simp [Client.rank,same,Action.own]

theorem Closed.exec {actions : List (Action Event)} (closed : Closed c)
    (run : Machine.exec (Subscriptions.step kind present) c actions = some d)
    (other : ∀ action ∈ actions, action ≠ .connect) :
    Closed d ∧ d.rank + actions.countP Action.own ≤ c.rank ∧
      ∃ n, d.replies = c.replies ++ List.replicate n .notConnected := by
  induction actions generalizing c with
  | nil =>
    obtain rfl := Option.some.inj run
    exact ⟨closed,Nat.le_refl _,0,by simp⟩
  | cons action rest ih =>
    obtain ⟨u,first,later⟩ := Machine.exec_cons_iff.mp run
    obtain ⟨here,after⟩ := List.forall_mem_cons.mp other
    obtain ⟨next,rank,n,replies⟩ := closed.step here first
    obtain ⟨last,less,m,more⟩ := ih next later after
    refine ⟨last,?_,n + m,?_⟩
    · rw [List.countP_cons]
      omega
    · rw [more,replies,List.append_assoc,List.replicate_append_replicate]

theorem rank_le (c : Client Event Message Shown) : c.rank ≤ 3 * c.retired.length := by
  have each : ∀ rank ∈ c.retired.map (fun relay => relay.phase.rank), rank ≤ 3 := by
    intro rank member
    obtain ⟨relay,-,rfl⟩ := List.mem_map.mp member
    cases relay.phase <;> simp [Phase.rank]
  have := List.sum_le_card_nsmul _ 3 each
  simpa [Client.rank,Nat.mul_comm] using this

/-- After `close` every thread has three steps of its own at most, and waits for none of them
unless the server of a bidirectional stream has not answered yet; the script receives nothing
more unless it connects again. -/
theorem threads_finish_after_close {before after : List (Action Event)}
    (run : Machine.exec (step kind present) {} before = some c)
    (stopped : c.running = false) (closed : c.messageRx = none)
    (rest : Machine.exec (step kind present) c after = some d)
    (only : ∀ action ∈ after, action ≠ .connect) :
    after.countP Action.own ≤ 3 * c.retired.length ∧
      (∀ relay ∈ d.retired, relay.phase ≠ .finished →
        kind.opens = true ∧ relay.phase = .starting ∨
          ∃ move : Move Event, move.own = true ∧
            (Relay.step kind.toPolicy d.running relay move).isSome) ∧
      ∃ n, d.replies = c.replies ++ List.replicate n .notConnected := by
  have start : Closed c := ⟨stopped,closed,(exec_valid run).dropped⟩
  obtain ⟨last,rank,replies⟩ := start.exec rest only
  have later : Invariant kind present d :=
    Machine.exec_invariant (Invariant kind present)
      (fun _ action _ valid => step_invariant action valid) rest (exec_valid run)
  refine ⟨?_,?_,replies⟩
  · have := rank_le c
    omega
  · intro relay member alive
    by_cases starting : relay.phase = .starting
    · exact .inl ⟨later.opening relay (List.mem_append_left _ member) starting,starting⟩
    · exact .inr (exists_own alive starting (.inl (last.dropped relay member)))

/-- The thread of the first connection is freed of its message by `close`, and both threads
come to their end. -/
def abandoned : List (Action MqttEvent) :=
  [.recv 0,.retired 0 .send,.retired 1 .check,.retired 0 .check]

theorem crowded_threads_finish :
    ∃ c d : Client MqttEvent MqttMessage String,
      Machine.exec (step narrow MqttMessage.topic) {} (crowded ++ [.connect,.close,.release]) =
          some c ∧
        Machine.exec (step narrow MqttMessage.topic) c abandoned = some d ∧
        c.retired.map (·.phase) = [.sending { topic := "c", payload := [], qos := 1 },.checking] ∧
        d.retired.map (·.phase) = [.finished,.finished] ∧
        abandoned.countP Action.own ≤ 3 * c.retired.length :=
  ⟨_,_,rfl,rfl,rfl,rfl,(@threads_finish_after_close _ _ _ narrow MqttMessage.topic _ _
    (crowded ++ [.connect,.close,.release]) abandoned rfl rfl rfl rfl (by simp [abandoned])).1⟩

/-- The steps of the script and the thread that bring the messages of a stream to the script. -/
def Action.delivers : Action Event → Bool
  | .thread move => move.own
  | .recv _ => true
  | _ => false

/-- A source that has ended, with what is left to do bounded. -/
structure Ending (left : Nat) (c : Client Event Message Shown) : Prop where
  still : c.closing = false
  here : ∃ relay ∈ c.messageRx, relay.ended = true ∧ relay.work ≤ left

abbrev Client.shown (c : Client Event Message Shown) : List Shown := c.replies.filterMap Reply.shown

/-- A thread's step or a message received brings the end closer; the other receives say
`timeout` or `closed`. -/
theorem Ending.step {left : Nat} {action : Action Event} (valid : Invariant kind present c)
    (ending : Ending left c) (delivers : action.delivers = true)
    (taken : step kind present c action = some d) :
    ∃ rest, Ending rest d ∧
      d.shown.length + (if action.own then 1 else 0) + rest ≤ c.shown.length + left := by
  obtain ⟨still,relay,here,ended,work⟩ := ending
  cases action with
  | thread move =>
    have own : move.own = true := delivers
    obtain ⟨before,same,rest⟩ := Option.bind_eq_some_iff.mp taken
    obtain ⟨moved,stepped,rfl⟩ := Option.map_eq_some_iff.mp rest
    obtain rfl := Option.some.inj (same.symm.trans here)
    obtain ⟨again,less⟩ := step_work ended (valid.receiver _ here) own stepped
    refine ⟨moved.work,⟨still,moved,rfl,again,Nat.le_refl _⟩,?_⟩
    simp only [Client.shown,Action.own,own,if_true]
    omega
  | recv duration =>
    simp only [Subscriptions.step,Option.ite_none_left_eq_some,Option.some.injEq] at taken
    obtain ⟨-,rfl⟩ := taken
    rcases recv_connected here duration with ⟨message,rest,got,same⟩ | ⟨-,same⟩ | ⟨-,same⟩
    · obtain ⟨again,less⟩ := receive_work got
      rw [same]
      refine ⟨rest.work,⟨still,rest,rfl,again.trans ended,Nat.le_refl _⟩,?_⟩
      simp [Client.shown,Reply.shown,Action.own]
      omega
    · rw [same]
      exact ⟨left,⟨still,relay,here,ended,work⟩,by simp [Client.shown,Client.answer,Reply.shown,Action.own]⟩
    · rw [same]
      exact ⟨left,⟨still,relay,here,ended,work⟩,by simp [Client.shown,Client.answer,Reply.shown,Action.own]⟩
  | connect | retired _ _ | close | release => cases delivers

theorem Ending.exec {left : Nat} {actions : List (Action Event)} (valid : Invariant kind present c)
    (ending : Ending left c) (run : Machine.exec (Subscriptions.step kind present) c actions = some d)
    (only : ∀ action ∈ actions, action.delivers = true) :
    ∃ rest, Ending rest d ∧
      d.shown.length + actions.countP Action.own + rest ≤ c.shown.length + left := by
  induction actions generalizing c left with
  | nil =>
    obtain rfl := Option.some.inj run
    exact ⟨left,ending,Nat.le_refl _⟩
  | cons action rest ih =>
    obtain ⟨u,first,later⟩ := Machine.exec_cons_iff.mp run
    obtain ⟨here,after⟩ := List.forall_mem_cons.mp only
    obtain ⟨middle,next,less⟩ := ending.step valid here first
    obtain ⟨last,done,final⟩ := ih (step_invariant action valid first) next later after
    refine ⟨last,done,?_⟩
    rw [List.countP_cons]
    omega

/-- Once the other side has ended the stream, a script that goes on receiving gets all of it:
a state in which neither the thread nor `recv` can bring a message closer has them all, and the
steps to it are bounded by what was left. -/
theorem all_delivered {before after : List (Action Event)} {relay : Relay.State Event Message}
    (room : 0 < kind.capacity) (run : Machine.exec (step kind present) {} before = some c)
    (still : c.closing = false) (here : c.messageRx = some relay) (ended : relay.ended = true)
    (rest : Machine.exec (step kind present) c after = some d)
    (only : ∀ action ∈ after, action.delivers = true) :
    d.shown.length + after.countP Action.own ≤ c.shown.length + relay.work ∧
      ((∃ move : Move Event, move.own = true ∧ (step kind present d (.thread move)).isSome) ∨
        (∃ message, ∀ duration, (d.recv kind present duration).replies =
          d.replies ++ [.value (present message)]) ∨
        (∃ last ∈ d.messageRx, last.taken = last.supplied.filterMap kind.pick ∧
          ∀ duration, (d.recv kind present duration).replies = d.replies ++ [.closed])) := by
  have valid := exec_valid run
  obtain ⟨left,⟨quiet,last,there,done,-⟩,less⟩ :=
    Ending.exec valid ⟨still,relay,here,ended,Nat.le_refl _⟩ rest only
  have later : Invariant kind present d :=
    Machine.exec_invariant (Invariant kind present)
      (fun _ action _ valid => step_invariant action valid) rest valid
  refine ⟨by omega,?_⟩
  by_cases queue : last.queue = []
  · by_cases phase : last.phase = .finished
    · refine .inr (.inr ⟨last,there,?_,?_⟩)
      · have sound := later.sound last (by simp [Option.mem_def.mp there])
        exact (sound.drained (later.opened quiet last there).2 (later.receiver last there)
          (receive_disconnected.mpr ⟨queue,phase⟩)).2
      · intro duration
        have disconnected := receive_disconnected.mpr ⟨queue,phase⟩
        rcases @recv_connected _ _ _ kind present d last there duration with
          ⟨message,rest,got,-⟩ | ⟨empty,-⟩ | ⟨-,same⟩
        · simp [got] at disconnected
        · simp [empty] at disconnected
        · rw [same,Client.answer]
    · have free : last.queue.length < kind.capacity := by simpa [queue] using room
      have started := (later.opened quiet last there).2.started done
      obtain ⟨move,own,enabled⟩ :=
        @exists_own _ _ kind.toPolicy d.running last phase started (.inr free)
      obtain ⟨moved,stepped⟩ := Option.isSome_iff_exists.mp enabled
      refine .inl ⟨move,own,?_⟩
      simp [step,Client.moveThread,Option.mem_def.mp there,stepped]
  · obtain ⟨message,others,queue⟩ := List.exists_cons_of_ne_nil queue
    refine .inr (.inl ⟨message,fun duration => ?_⟩)
    rcases @recv_connected _ _ _ kind present d last there duration with
      ⟨value,rest,got,same⟩ | ⟨empty,-⟩ | ⟨done,-⟩
    · obtain ⟨tail,first,-⟩ := receive_value got
      obtain ⟨rfl,-⟩ := List.cons.inj (first.symm.trans queue)
      rw [same]
    · have := (receive_nothing (s := last) (by simp [empty])).1
      simp [queue] at this
    · have := (receive_disconnected.mp done).1
      simp [queue] at this

theorem crowded_all_delivered :
    ∃ c d : Client MqttEvent MqttMessage String, ∃ relay,
      Machine.exec (step narrow MqttMessage.topic) {} crowded = some c ∧
        c.messageRx = some relay ∧
        Machine.exec (step narrow MqttMessage.topic) c drained = some d ∧
        d.shown = ["a","b","c"] ∧
        d.shown.length + drained.countP Action.own ≤ c.shown.length + relay.work :=
  ⟨_,_,_,rfl,rfl,rfl,rfl,(@all_delivered _ _ _ narrow MqttMessage.topic _ _ crowded drained _
    (by decide) rfl rfl rfl rfl rfl (by decide)).1⟩

end Fusillade.Bridge.Subscriptions
