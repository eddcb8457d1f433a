import Fusillade.Bridge.Protocols

/-! Reconnecting WebSockets: what a script sees of a connection that breaks, over a run of calls. -/
namespace Fusillade.Bridge.Reconnect

open Protocols Stats Machine

/-- `isConnected()` -/
def isConnected (ws : JsWebSocket) : Bool := ws.inner

/-- A call, and whether an error of the peer means that the connection broke. -/
inductive Call where
  | send (peer : Peer) (broken : Bool)
  | sendBinary (decoded : Except String (List UInt8)) (peer : Peer) (broken : Bool)
  | recv (peer : Peer) (broken : Bool)
  | close

def perform (ws : JsWebSocket) : Call → Returned JsWebSocket
  | .send peer _ => ws.send peer
  | .sendBinary decoded peer _ => ws.sendBinary decoded peer
  | .recv peer _ => ws.recv peer
  | .close => ws.close

def step (ws : JsWebSocket) (call : Call) : Option JsWebSocket := some (perform ws call).client

/-- Every attempt to reconnect sends a metric. -/
def attempts (returned : Returned JsWebSocket) : Nat := (returned.metrics.filter isReconnect).length

/-- There is a socket by the time of the message, the one from before or a new one. -/
def Open (ws : JsWebSocket) (peer : Peer) : Prop :=
  ws.inner = true ∨ ws.reconnect = true ∧ ∃ i < ws.maxRetries, (peer.attempts i).1 = .ok ()

/-- The call fails because the connection broke. -/
def Breaks (ws : JsWebSocket) : Call → Prop
  | .send peer broken | .recv peer broken => Open ws peer ∧ peer.answer ≠ .ok () ∧ broken = true
  | .sendBinary decoded peer broken =>
    ws.inner = true ∧ (∃ bytes, decoded = .ok bytes) ∧ peer.answer ≠ .ok () ∧ broken = true
  | .close => False

/-- The calls that reconnect. -/
def Reconnects : Call → Prop
  | .send .. | .recv .. => True
  | .sendBinary .. | .close => False

/-- A call makes no more attempts than the socket is configured for, and after one that the
broken connection made fail the socket is closed and the next one tries to reconnect. -/
structure Lawful (ws : JsWebSocket) (call : Call) : Prop where
  bounded : attempts (perform ws call) ≤ ws.maxRetries
  noticed : Breaks ws call → isConnected (perform ws call).client = false
  retried : Breaks ws call → ∀ next, Reconnects next → 0 < ws.maxRetries →
    0 < attempts (perform (perform ws call).client next)

variable {ws : JsWebSocket} {peer : Peer}

theorem attemptReconnect_length (answers : Nat → Answer × Duration) (maxRetries remaining : Nat) :
    (attemptReconnect answers maxRetries remaining).2.length ≤ remaining := by
  induction remaining with
  | zero => exact le_rfl
  | succ remaining ih =>
    unfold attemptReconnect
    dsimp only
    split
    · simp
    · simpa using ih

/-- The attempts go on until one succeeds. -/
theorem attemptReconnect_connects {answers : Nat → Answer × Duration} {maxRetries remaining : Nat}
    (enough : remaining ≤ maxRetries) :
    (attemptReconnect answers maxRetries remaining).1 = true ↔
      ∃ i < maxRetries, maxRetries - remaining ≤ i ∧ (answers i).1 = .ok () := by
  induction remaining with
  | zero =>
    refine iff_of_false (by simp [attemptReconnect]) ?_
    rintro ⟨i,inside,later,-⟩
    omega
  | succ remaining ih =>
    unfold attemptReconnect
    dsimp only
    split
    next duration answered =>
      exact iff_of_true rfl ⟨maxRetries - (remaining + 1),by omega,le_rfl,by rw [answered]⟩
    next e duration refused =>
      refine (ih (by omega)).trans ⟨?_,?_⟩
      · rintro ⟨i,inside,later,ok⟩
        exact ⟨i,inside,by omega,ok⟩
      · rintro ⟨i,inside,later,ok⟩
        refine ⟨i,inside,?_,ok⟩
        have other : i ≠ maxRetries - (remaining + 1) := by
          rintro rfl
          rw [refused] at ok
          cases ok
        omega

theorem attempts_append (returned : Returned JsWebSocket) {before : List Metric}
    (all : ∀ metric ∈ before, isReconnect metric = true) :
    attempts { returned with metrics := before ++ returned.metrics } = before.length + attempts returned := by
  rw [attempts,List.filter_append,List.filter_eq_self.mpr all,List.length_append]
  rfl

theorem sendText_client (ws : JsWebSocket) (peer : Peer) : (ws.sendText peer).client = ws := by
  unfold JsWebSocket.sendText
  split
  · split <;> rfl
  · rfl

theorem sendText_attempts (ws : JsWebSocket) (peer : Peer) : attempts (ws.sendText peer) = 0 := by
  unfold JsWebSocket.sendText
  split
  · split <;> rfl
  · rfl

theorem readMessage_attempts (ws : JsWebSocket) (peer : Peer) : attempts (ws.readMessage peer) = 0 := by
  unfold JsWebSocket.readMessage
  split
  · split <;> rfl
  · rfl

theorem sendBinary_attempts (ws : JsWebSocket) (decoded : Except String (List UInt8)) (peer : Peer) :
    attempts (ws.sendBinary decoded peer) = 0 := by
  unfold JsWebSocket.sendBinary
  split
  · rfl
  · split
    · split <;> rfl
    · rfl

theorem send_attempts (ws : JsWebSocket) (peer : Peer) : attempts (ws.send peer) ≤ ws.maxRetries := by
  unfold JsWebSocket.send
  split
  · dsimp only
    rw [attempts_append _ (attemptReconnect_metrics peer.attempts _ _)]
    have few := attemptReconnect_length peer.attempts ws.maxRetries ws.maxRetries
    split
    · rwa [sendText_attempts]
    · exact few
  · simp [sendText_attempts]

theorem recv_attempts (ws : JsWebSocket) (peer : Peer) : attempts (ws.recv peer) ≤ ws.maxRetries := by
  unfold JsWebSocket.recv
  split
  · dsimp only
    rw [attempts_append _ (attemptReconnect_metrics peer.attempts _ _)]
    have few := attemptReconnect_length peer.attempts ws.maxRetries ws.maxRetries
    split
    · rwa [readMessage_attempts]
    · exact few
  · simp [readMessage_attempts]

theorem perform_attempts (ws : JsWebSocket) (call : Call) : attempts (perform ws call) ≤ ws.maxRetries := by
  cases call with
  | send peer => exact send_attempts ws peer
  | sendBinary decoded peer => exact (sendBinary_attempts ws decoded peer).le.trans (Nat.zero_le _)
  | recv peer => exact recv_attempts ws peer
  | close => exact Nat.zero_le _

/-- A closed socket connects again exactly when one of the attempts succeeds. -/
theorem reconnected (closed : ws.inner = false) (opened : Open ws peer) :
    ws.reconnect = true ∧ (attemptReconnect peer.attempts ws.maxRetries ws.maxRetries).1 = true := by
  obtain ⟨reconnect,i,inside,ok⟩ := opened.resolve_left (by simp [closed])
  exact ⟨reconnect,(attemptReconnect_connects le_rfl).mpr ⟨i,inside,by omega,ok⟩⟩

theorem readMessage_error (ws : JsWebSocket) (failed : peer.answer ≠ .ok ()) : (ws.readMessage peer).client = ws := by
  unfold JsWebSocket.readMessage
  split
  · split
    next ok => exact absurd ok failed
    next => rfl
  · rfl

theorem send_open (opened : Open ws peer) : (ws.send peer).client.inner = true := by
  cases inner : ws.inner with
  | true => simp [JsWebSocket.send,inner,sendText_client]
  | false =>
    obtain ⟨reconnect,connected⟩ := reconnected inner opened
    simp [JsWebSocket.send,inner,reconnect,connected,sendText_client]

theorem recv_open (opened : Open ws peer) (failed : peer.answer ≠ .ok ()) : (ws.recv peer).client.inner = true := by
  cases inner : ws.inner with
  | true => simp [JsWebSocket.recv,inner,readMessage_error ws failed]
  | false =>
    obtain ⟨reconnect,connected⟩ := reconnected inner opened
    simp [JsWebSocket.recv,inner,reconnect,connected,readMessage_error _ failed]

theorem sendBinary_client (ws : JsWebSocket) (decoded : Except String (List UInt8)) (peer : Peer) :
    (ws.sendBinary decoded peer).client = ws := by
  unfold JsWebSocket.sendBinary
  split
  · rfl
  · split
    · split <;> rfl
    · rfl

/-- The error path keeps the socket. -/
theorem breaks_connected {call : Call} (breaks : Breaks ws call) : isConnected (perform ws call).client = true := by
  cases call with
  | send peer broken => exact send_open breaks.1
  | sendBinary decoded peer broken => exact (congrArg _ (sendBinary_client ws decoded peer)).trans breaks.1
  | recv peer broken => exact recv_open breaks.1 breaks.2.1
  | close => exact breaks.elim

theorem lawful_iff (ws : JsWebSocket) (call : Call) : Lawful ws call ↔ ¬Breaks ws call := by
  constructor
  · intro lawful breaks
    exact Bool.noConfusion ((lawful.noticed breaks).symm.trans (breaks_connected breaks))
  · intro sound
    exact ⟨perform_attempts ws call,fun breaks => absurd breaks sound,fun breaks => absurd breaks sound⟩

/-- **A run keeps to the law exactly when none of its calls fails because the connection broke.** -/
theorem run_lawful_iff (ws : JsWebSocket) (calls : List Call) :
    Guarded step Lawful ws calls ↔ Guarded step (fun ws call => ¬Breaks ws call) ws calls :=
  guarded_congr (fun _ => True) (fun _ _ _ _ _ => trivial) (fun ws call _ => lawful_iff ws call) trivial calls

/-- What `connect` makes of `reconnect: true`. -/
def reconnecting (maxRetries : Nat) : JsWebSocket := ⟨true,true,maxRetries⟩

theorem broken_pipe_connected :
    ¬∀ maxRetries (calls : List Call), Guarded step Lawful (reconnecting maxRetries) calls := by
  intro lawful
  have breaks : Breaks (reconnecting 3) (.send { answer := .error "Broken pipe" } true) :=
    ⟨.inl rfl,nofun,rfl⟩
  exact (lawful_iff _ _).mp (lawful 3 [.send { answer := .error "Broken pipe" } true]).1 breaks

/-- No close frame is read, and the script does not close the socket itself. -/
def Keeps : Call → Prop
  | .recv peer _ => peer.answer = .ok () → peer.closes = false
  | .close => False
  | .send .. | .sendBinary .. => True

theorem perform_keeps {call : Call} (connected : ws.inner = true) (keeps : Keeps call) :
    (perform ws call).client = ws ∧ attempts (perform ws call) = 0 := by
  cases call with
  | send peer =>
    have direct : ws.send peer = ws.sendText peer := by simp [JsWebSocket.send,connected]
    rw [perform,direct]
    exact ⟨sendText_client ws peer,sendText_attempts ws peer⟩
  | sendBinary decoded peer => exact ⟨sendBinary_client ws decoded peer,sendBinary_attempts ws decoded peer⟩
  | recv peer =>
    have direct : ws.recv peer = ws.readMessage peer := by simp [JsWebSocket.recv,connected]
    rw [perform,direct]
    refine ⟨?_,readMessage_attempts ws peer⟩
    cases answer : peer.answer with
    | error e => exact readMessage_error ws (by rw [answer]; exact nofun)
    | ok =>
      cases ws
      simp_all [JsWebSocket.readMessage,Keeps,Returned.succeeds]
  | close => exact keeps.elim

/-- From then on nothing reconnects, however many calls fail. -/
theorem never_reconnects (connected : ws.inner = true) (calls : List Call) (keeps : ∀ call ∈ calls, Keeps call) :
    Guarded step (fun ws call => isConnected ws = true ∧ attempts (perform ws call) = 0) ws calls := by
  induction calls with
  | nil => trivial
  | cons call calls ih =>
    obtain ⟨here,later⟩ := List.forall_mem_cons.mp keeps
    obtain ⟨same,nothing⟩ := perform_keeps connected here
    refine ⟨⟨connected,nothing⟩,fun next stepped => ?_⟩
    rw [step,same] at stepped
    exact Option.some.inj stepped ▸ ih later

end Fusillade.Bridge.Reconnect
