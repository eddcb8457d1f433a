import Fusillade.Lib.Machine
import Fusillade.Stats.Metric
import Mathlib.Logic.Function.Basic

/-! The WebSocket, MQTT and AMQP clients of a script and the metrics their calls send. What
a peer answers and how long it takes comes with each call; an answer is an error with its
text, or nothing. -/
namespace Fusillade.Bridge.Protocols

open Stats Machine

/-- `make_metric`, the same in the module of every protocol but HTTP. -/
def makeMetric (name : String) (duration : Duration) (error : Option String) : Metric :=
  .request name { duration, waiting := duration } (if error.isNone then 200 else 0) error ∅

abbrev Answer := Except String Unit

/-- What a call leaves: the client, the metrics in their order, and whether it returned `Ok`. -/
structure Returned (Client : Type) where
  client : Client
  metrics : List Metric
  ok : Bool

def Returned.succeeds {Client : Type} (client : Client) (name : String) (duration : Duration) :
    Returned Client := ⟨client,[makeMetric name duration none],true⟩

def Returned.fails {Client : Type} (client : Client) (name : String) (duration : Duration)
    (error : String) : Returned Client := ⟨client,[makeMetric name duration (some error)],false⟩

def Returned.silent {Client : Type} (client : Client) (ok : Bool) : Returned Client := ⟨client,[],ok⟩

structure JsWebSocket where
  /-- Whether `inner` holds a socket. -/
  inner : Bool
  reconnect : Bool
  maxRetries : Nat
  deriving DecidableEq, Repr

/-- What the peer does in a call: the attempts to reconnect with their durations, then the
message itself. -/
structure Peer where
  attempts : Nat → Answer × Duration := fun _ => (.ok (),0)
  answer : Answer := .ok ()
  /-- The message received closes the connection. -/
  closes : Bool := false
  duration : Duration := 0

/-- The loop of `attempt_reconnect`, with the attempts that are left. -/
def attemptReconnect (attempts : Nat → Answer × Duration) (maxRetries : Nat) :
    (remaining : Nat) → Bool × List Metric
  | 0 => (false,[])
  | remaining + 1 =>
    let attempt := maxRetries - (remaining + 1)
    match attempts attempt with
    | (.ok (),duration) => (true,[makeMetric "ws::reconnect" duration none])
    | (.error e,duration) =>
      let (connected,metrics) := attemptReconnect attempts maxRetries remaining
      (connected,makeMetric "ws::reconnect" duration
        (some ("WebSocket reconnect attempt " ++ toString (attempt + 1) ++ "/" ++
          toString maxRetries ++ " failed: " ++ e)) :: metrics)

namespace JsWebSocket

/-- `ws.connect`: a new client, or none and an exception. -/
def connect (reconnect : Bool) (maxRetries : Nat) (peer : Peer) : Returned (Option JsWebSocket) :=
  match peer.answer with
  | .ok () => .succeeds (some ⟨true,reconnect,maxRetries⟩) "ws::connect" peer.duration
  | .error e => .fails none "ws::connect" peer.duration ("WebSocket connection failed: " ++ e)

def sendText (ws : JsWebSocket) (peer : Peer) : Returned JsWebSocket :=
  if ws.inner then
    match peer.answer with
    | .ok () => .succeeds ws "ws::send" peer.duration
    | .error e => .fails ws "ws::send" peer.duration ("WS Send Error: " ++ e)
  else .fails ws "ws::send" peer.duration "WebSocket not connected"

def send (ws : JsWebSocket) (peer : Peer) : Returned JsWebSocket :=
  if !ws.inner && ws.reconnect then
    let (connected,metrics) := attemptReconnect peer.attempts ws.maxRetries ws.maxRetries
    let sent := if connected then { ws with inner := true }.sendText peer
      else .fails ws "ws::send" peer.duration "WebSocket not connected, reconnect failed"
    { sent with metrics := metrics ++ sent.metrics }
  else ws.sendText peer

/-- The data has to be base64; a closed socket is not reconnected. -/
def sendBinary (ws : JsWebSocket) (decoded : Except String (List UInt8)) (peer : Peer) :
    Returned JsWebSocket :=
  match decoded with
  | .error e => .fails ws "ws::sendBinary" peer.duration ("Base64 decode error: " ++ e)
  | .ok _ =>
    if ws.inner then
      match peer.answer with
      | .ok () => .succeeds ws "ws::sendBinary" peer.duration
      | .error e => .fails ws "ws::sendBinary" peer.duration ("WS SendBinary Error: " ++ e)
    else .fails ws "ws::sendBinary" peer.duration "WebSocket not connected"

def readMessage (ws : JsWebSocket) (peer : Peer) : Returned JsWebSocket :=
  if ws.inner then
    match peer.answer with
    | .ok () => .succeeds { ws with inner := !peer.closes } "ws::recv" peer.duration
    | .error e => .fails ws "ws::recv" peer.duration ("WS Recv Error: " ++ e)
  else .silent ws true

/-- Returns null and not an exception when it cannot reconnect. -/
def recv (ws : JsWebSocket) (peer : Peer) : Returned JsWebSocket :=
  if !ws.inner && ws.reconnect then
    let (connected,metrics) := attemptReconnect peer.attempts ws.maxRetries ws.maxRetries
    let read := if connected then { ws with inner := true }.readMessage peer
      else { Returned.fails ws "ws::recv" peer.duration
        "WebSocket not connected, reconnect failed" with ok := true }
    { read with metrics := metrics ++ read.metrics }
  else ws.readMessage peer

def close (ws : JsWebSocket) : Returned JsWebSocket := .silent { ws with inner := false } true

end JsWebSocket

/-- Whether `client` is there. -/
structure JsMqttClient where
  client : Bool := false
  deriving DecidableEq, Repr

namespace JsMqttClient

/-- The client is made without waiting for the broker. -/
def connect (_ : JsMqttClient) (duration : Duration) : Returned JsMqttClient :=
  .succeeds ⟨true⟩ "mqtt::connect" duration

def subscribe (mqtt : JsMqttClient) (peer : Peer) : Returned JsMqttClient :=
  if mqtt.client then
    match peer.answer with
    | .ok () => .succeeds mqtt "mqtt::subscribe" peer.duration
    | .error e => .fails mqtt "mqtt::subscribe" peer.duration ("MQTT Subscribe failed: " ++ e)
  else .silent mqtt false

def publish (mqtt : JsMqttClient) (peer : Peer) : Returned JsMqttClient :=
  if mqtt.client then
    match peer.answer with
    | .ok () => .succeeds mqtt "mqtt::publish" peer.duration
    | .error e => .fails mqtt "mqtt::publish" peer.duration ("MQTT Publish failed: " ++ e)
  else .silent mqtt false

def close (_ : JsMqttClient) : Returned JsMqttClient := .silent ⟨false⟩ true

end JsMqttClient

/-- Whether `channel` is there; `connection` comes and goes with it. -/
structure JsAmqpClient where
  channel : Bool := false
  deriving DecidableEq, Repr

namespace JsAmqpClient

/-- A failure leaves the connection and the channel from before. -/
def connect (amqp : JsAmqpClient) (connection createChannel : Answer) (duration : Duration) :
    Returned JsAmqpClient :=
  match connection with
  | .error e => .fails amqp "amqp::connect" duration ("AMQP Connect failed: " ++ e)
  | .ok () =>
    match createChannel with
    | .error e => .fails amqp "amqp::connect" duration ("AMQP Channel creation failed: " ++ e)
    | .ok () => .succeeds ⟨true⟩ "amqp::connect" duration

/-- Every early exit goes without a metric. -/
def subscribe (amqp : JsAmqpClient) (queueDeclare basicConsume : Answer) (duration : Duration) :
    Returned JsAmqpClient :=
  if amqp.channel then
    match queueDeclare with
    | .error _ => .silent amqp false
    | .ok () =>
      match basicConsume with
      | .error _ => .silent amqp false
      | .ok () => .succeeds amqp "amqp::subscribe" duration
  else .silent amqp false

def publish (amqp : JsAmqpClient) (peer : Peer) : Returned JsAmqpClient :=
  if amqp.channel then
    match peer.answer with
    | .ok () => .succeeds amqp "amqp::publish" peer.duration
    | .error e => .fails amqp "amqp::publish" peer.duration ("AMQP Publish failed: " ++ e)
  else .silent amqp false

def close (_ : JsAmqpClient) : Returned JsAmqpClient := .silent ⟨false⟩ true

end JsAmqpClient

structure State where
  ws : Nat → Option JsWebSocket
  mqtt : Nat → JsMqttClient
  amqp : Nat → JsAmqpClient
  metrics : List Metric

inductive Call where
  | wsConnect (reconnect : Bool) (maxRetries : Nat) (peer : Peer)
  | wsSend (peer : Peer)
  | wsSendBinary (decoded : Except String (List UInt8)) (peer : Peer)
  | wsRecv (peer : Peer)
  | wsClose
  | mqttConnect (duration : Duration)
  | mqttSubscribe (peer : Peer)
  | mqttPublish (peer : Peer)
  | mqttClose
  | amqpConnect (connection createChannel : Answer) (duration : Duration)
  | amqpSubscribe (queueDeclare basicConsume : Answer) (duration : Duration)
  | amqpPublish (peer : Peer)
  | amqpClose

def Call.name : Call → Option String
  | wsConnect .. => some "ws::connect"
  | wsSend .. => some "ws::send"
  | wsSendBinary .. => some "ws::sendBinary"
  | mqttConnect .. => some "mqtt::connect"
  | mqttSubscribe .. => some "mqtt::subscribe"
  | mqttPublish .. => some "mqtt::publish"
  | amqpConnect .. => some "amqp::connect"
  | amqpSubscribe .. => some "amqp::subscribe"
  | amqpPublish .. => some "amqp::publish"
  | wsRecv .. | wsClose | mqttClose | amqpClose => none

structure Action where
  client : Nat
  call : Call

def onSocket (s : State) (client : Nat) (call : JsWebSocket → Returned JsWebSocket) :
    Option (Returned State) :=
  (s.ws client).map fun ws =>
    let returned := call ws
    { returned with client := { s with ws := Function.update s.ws client (some returned.client) } }

def onMqtt (s : State) (client : Nat) (returned : Returned JsMqttClient) : Returned State :=
  { returned with client := { s with mqtt := Function.update s.mqtt client returned.client } }

def onAmqp (s : State) (client : Nat) (returned : Returned JsAmqpClient) : Returned State :=
  { returned with client := { s with amqp := Function.update s.amqp client returned.client } }

/-- A call, which for a WebSocket needs a client that was connected once. -/
def perform (s : State) (a : Action) : Option (Returned State) :=
  match a.call with
  | .wsConnect reconnect maxRetries peer =>
    let returned := JsWebSocket.connect reconnect maxRetries peer
    some { returned with client := { s with
      ws := Function.update s.ws a.client (returned.client <|> s.ws a.client) } }
  | .wsSend peer => onSocket s a.client (·.send peer)
  | .wsSendBinary decoded peer => onSocket s a.client (·.sendBinary decoded peer)
  | .wsRecv peer => onSocket s a.client (·.recv peer)
  | .wsClose => onSocket s a.client (·.close)
  | .mqttConnect duration => some (onMqtt s a.client ((s.mqtt a.client).connect duration))
  | .mqttSubscribe peer => some (onMqtt s a.client ((s.mqtt a.client).subscribe peer))
  | .mqttPublish peer => some (onMqtt s a.client ((s.mqtt a.client).publish peer))
  | .mqttClose => some (onMqtt s a.client (s.mqtt a.client).close)
  | .amqpConnect connection createChannel duration =>
    some (onAmqp s a.client ((s.amqp a.client).connect connection createChannel duration))
  | .amqpSubscribe queueDeclare basicConsume duration =>
    some (onAmqp s a.client ((s.amqp a.client).subscribe queueDeclare basicConsume duration))
  | .amqpPublish peer => some (onAmqp s a.client ((s.amqp a.client).publish peer))
  | .amqpClose => some (onAmqp s a.client (s.amqp a.client).close)

def step (s : State) (a : Action) : Option State :=
  (perform s a).map fun returned => { returned.client with metrics := s.metrics ++ returned.metrics }

def isReconnect : Metric → Bool
  | .request name .. => name == "ws::reconnect"
  | _ => false

/-- One request metric of this name beside those of attempts to reconnect, with an error
unless the call has returned. -/
def Recorded (name : String) (metrics : List Metric) (ok : Bool) : Prop :=
  ∃ timings status error tags,
    metrics.filter (!isReconnect ·) = [.request name timings status error tags] ∧
      (error = none ↔ ok = true)

def Complete (s : State) (a : Action) : Prop :=
  ∀ returned name, perform s a = some returned → a.call.name = some name →
    Recorded name returned.metrics returned.ok

/-- MQTT and AMQP clients are used while connected, and a queue is declared and consumed from. -/
def Reports (s : State) (a : Action) : Prop :=
  match a.call with
  | .mqttSubscribe _ | .mqttPublish _ => (s.mqtt a.client).client = true
  | .amqpSubscribe queueDeclare basicConsume _ =>
    (s.amqp a.client).channel = true ∧ queueDeclare = .ok () ∧ basicConsume = .ok ()
  | .amqpPublish _ => (s.amqp a.client).channel = true
  | _ => True

section

variable {Client : Type} {client : Client} {name : String} {duration : Duration}

theorem recorded_succeeds (other : name ≠ "ws::reconnect") :
    Recorded name (Returned.succeeds client name duration).metrics true :=
  ⟨{ duration, waiting := duration },200,none,∅,
    by simp [Returned.succeeds,makeMetric,isReconnect,other],by simp⟩

theorem recorded_fails (other : name ≠ "ws::reconnect") (error : String) :
    Recorded name (Returned.fails client name duration error).metrics false :=
  ⟨{ duration, waiting := duration },0,some error,∅,
    by simp [Returned.fails,makeMetric,isReconnect,other],by simp⟩

theorem not_recorded_silent (ok : Bool) : ¬Recorded name (Returned.silent client ok).metrics ok := by
  rintro ⟨timings,status,error,tags,none,-⟩
  cases none

theorem answered_recorded {after : Client} (other : name ≠ "ws::reconnect") (answer : Answer)
    (text : String → String) :
    let returned : Returned Client := match answer with
      | .ok () => .succeeds after name duration
      | .error e => .fails client name duration (text e)
    Recorded name returned.metrics returned.ok := by
  cases answer with
  | ok => exact recorded_succeeds other
  | error e => exact recorded_fails other (text e)

theorem connected_recorded (other : name ≠ "ws::reconnect") (connected : Bool) (answer : Answer)
    (text : String → String) :
    let returned : Returned Client :=
      if connected then
        match answer with
        | .ok () => .succeeds client name duration
        | .error e => .fails client name duration (text e)
      else .silent client false
    Recorded name returned.metrics returned.ok ↔ connected = true := by
  cases connected with
  | true => exact iff_of_true (answered_recorded other answer text) rfl
  | false => exact iff_of_false (not_recorded_silent false) (by decide)

theorem recorded_append {before metrics : List Metric} {ok : Bool}
    (attempts : ∀ metric ∈ before, isReconnect metric = true) (recorded : Recorded name metrics ok) :
    Recorded name (before ++ metrics) ok := by
  obtain ⟨timings,status,error,tags,only,outcome⟩ := recorded
  refine ⟨timings,status,error,tags,?_,outcome⟩
  rw [List.filter_append,only,List.filter_eq_nil_iff.mpr]
  · rfl
  · intro metric member
    simp [attempts metric member]

end

theorem attemptReconnect_metrics (attempts : Nat → Answer × Duration) (maxRetries remaining : Nat) :
    ∀ metric ∈ (attemptReconnect attempts maxRetries remaining).2, isReconnect metric = true := by
  induction remaining with
  | zero => simp [attemptReconnect]
  | succ remaining ih =>
    unfold attemptReconnect
    dsimp only
    split
    · simp [makeMetric,isReconnect]
    · exact List.forall_mem_cons.mpr ⟨by simp [makeMetric,isReconnect],ih⟩

theorem connect_recorded (reconnect : Bool) (maxRetries : Nat) (peer : Peer) :
    Recorded "ws::connect" (JsWebSocket.connect reconnect maxRetries peer).metrics
      (JsWebSocket.connect reconnect maxRetries peer).ok := by
  exact answered_recorded (by decide) peer.answer ("WebSocket connection failed: " ++ ·)

theorem sendText_recorded (ws : JsWebSocket) (peer : Peer) :
    Recorded "ws::send" (ws.sendText peer).metrics (ws.sendText peer).ok := by
  unfold JsWebSocket.sendText
  split
  · exact answered_recorded (by decide) peer.answer ("WS Send Error: " ++ ·)
  · exact recorded_fails (by decide) _

theorem send_recorded (ws : JsWebSocket) (peer : Peer) :
    Recorded "ws::send" (ws.send peer).metrics (ws.send peer).ok := by
  unfold JsWebSocket.send
  split
  · apply recorded_append (attemptReconnect_metrics peer.attempts _ _)
    dsimp only
    split
    · exact sendText_recorded _ peer
    · exact recorded_fails (by decide) _
  · exact sendText_recorded ws peer

theorem sendBinary_recorded (ws : JsWebSocket) (decoded : Except String (List UInt8)) (peer : Peer) :
    Recorded "ws::sendBinary" (ws.sendBinary decoded peer).metrics (ws.sendBinary decoded peer).ok := by
  unfold JsWebSocket.sendBinary
  split
  · exact recorded_fails (by decide) _
  · split
    · exact answered_recorded (by decide) peer.answer ("WS SendBinary Error: " ++ ·)
    · exact recorded_fails (by decide) _

theorem mqttSubscribe_recorded (mqtt : JsMqttClient) (peer : Peer) :
    Recorded "mqtt::subscribe" (mqtt.subscribe peer).metrics (mqtt.subscribe peer).ok ↔
      mqtt.client = true := by
  exact connected_recorded (by decide) mqtt.client peer.answer ("MQTT Subscribe failed: " ++ ·)

theorem mqttPublish_recorded (mqtt : JsMqttClient) (peer : Peer) :
    Recorded "mqtt::publish" (mqtt.publish peer).metrics (mqtt.publish peer).ok ↔
      mqtt.client = true := by
  exact connected_recorded (by decide) mqtt.client peer.answer ("MQTT Publish failed: " ++ ·)

theorem amqpConnect_recorded (amqp : JsAmqpClient) (connection createChannel : Answer)
    (duration : Duration) :
    Recorded "amqp::connect" (amqp.connect connection createChannel duration).metrics
      (amqp.connect connection createChannel duration).ok := by
  unfold JsAmqpClient.connect
  split
  · exact recorded_fails (by decide) _
  · split
    · exact recorded_fails (by decide) _
    · exact recorded_succeeds (by decide)

theorem amqpSubscribe_recorded (amqp : JsAmqpClient) (queueDeclare basicConsume : Answer)
    (duration : Duration) :
    Recorded "amqp::subscribe" (amqp.subscribe queueDeclare basicConsume duration).metrics
      (amqp.subscribe queueDeclare basicConsume duration).ok ↔
      amqp.channel = true ∧ queueDeclare = .ok () ∧ basicConsume = .ok () := by
  unfold JsAmqpClient.subscribe
  split
  next connected =>
    split
    · exact iff_of_false (not_recorded_silent false) (by simp)
    · split
      · exact iff_of_false (not_recorded_silent false) (by simp)
      · exact iff_of_true (recorded_succeeds (by decide)) ⟨connected,rfl,rfl⟩
  next absent => exact iff_of_false (not_recorded_silent false) fun reports => absent reports.1

theorem amqpPublish_recorded (amqp : JsAmqpClient) (peer : Peer) :
    Recorded "amqp::publish" (amqp.publish peer).metrics (amqp.publish peer).ok ↔
      amqp.channel = true := by
  exact connected_recorded (by decide) amqp.channel peer.answer ("AMQP Publish failed: " ++ ·)

/-- For a call that is made and that records, what it leaves is what counts. -/
theorem complete_iff_recorded {s : State} {a : Action} {returned : Returned State} {name : String}
    (made : perform s a = some returned) (named : a.call.name = some name) :
    Complete s a ↔ Recorded name returned.metrics returned.ok := by
  simp [Complete,made,named]

theorem complete_socket {s : State} {a : Action} {call : JsWebSocket → Returned JsWebSocket}
    {name : String} (made : perform s a = onSocket s a.client call) (named : a.call.name = some name)
    (recorded : ∀ ws, Recorded name (call ws).metrics (call ws).ok) : Complete s a := by
  intro returned other performed same
  obtain rfl : name = other := Option.some.inj (named.symm.trans same)
  obtain ⟨ws,-,rfl⟩ := Option.map_eq_some_iff.mp (made.symm.trans performed)
  exact recorded ws

theorem complete_iff (s : State) (a : Action) : Complete s a ↔ Reports s a := by
  obtain ⟨client,call⟩ := a
  cases call with
  | wsConnect reconnect maxRetries peer =>
    exact iff_of_true ((complete_iff_recorded rfl rfl).mpr (connect_recorded reconnect maxRetries peer))
      trivial
  | wsSend peer =>
    exact iff_of_true (complete_socket rfl rfl fun ws => send_recorded ws peer) trivial
  | wsSendBinary decoded peer =>
    exact iff_of_true (complete_socket rfl rfl fun ws => sendBinary_recorded ws decoded peer) trivial
  | mqttConnect duration =>
    exact iff_of_true ((complete_iff_recorded rfl rfl).mpr (recorded_succeeds (by decide))) trivial
  | mqttSubscribe peer => exact (complete_iff_recorded rfl rfl).trans (mqttSubscribe_recorded _ peer)
  | mqttPublish peer => exact (complete_iff_recorded rfl rfl).trans (mqttPublish_recorded _ peer)
  | amqpConnect connection createChannel duration =>
    exact iff_of_true ((complete_iff_recorded rfl rfl).mpr
      (amqpConnect_recorded _ connection createChannel duration)) trivial
  | amqpSubscribe queueDeclare basicConsume duration =>
    exact (complete_iff_recorded rfl rfl).trans
      (amqpSubscribe_recorded _ queueDeclare basicConsume duration)
  | amqpPublish peer => exact (complete_iff_recorded rfl rfl).trans (amqpPublish_recorded _ peer)
  | wsRecv | wsClose | mqttClose | amqpClose => exact iff_of_true (fun _ _ _ named => by cases named) trivial

/-- Every call of a sequence is recorded, whatever the clients are and the peers do, exactly
when no MQTT or AMQP call takes an exit without a metric. -/
theorem protocol_metrics_iff (s : State) (actions : List Action) :
    Guarded step Complete s actions ↔ Guarded step Reports s actions :=
  guarded_congr (fun _ => True) (fun _ _ _ _ _ => trivial) (fun s a _ => complete_iff s a) trivial actions

/-- A client that was never connected publishes, and a broker refuses to declare a queue. -/
theorem silent_exits :
    let s : State := ⟨fun _ => none,fun _ => {},fun _ => ⟨true⟩,[]⟩
    ((perform s ⟨0,.mqttPublish {}⟩).map fun returned => (returned.metrics,returned.ok)) =
      some ([],false) ∧
    ((perform s ⟨0,.amqpSubscribe (.error "access refused") (.ok ()) 0⟩).map fun returned =>
      (returned.metrics,returned.ok)) = some ([],false) := by
  exact ⟨rfl,rfl⟩

end Fusillade.Bridge.Protocols
