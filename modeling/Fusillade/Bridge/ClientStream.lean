import Fusillade.Lib.Machine
import Mathlib.Data.List.Infix

/-! The client stream of gRPC: a script sends messages over a channel that the call reads, and
asks for the one response at the end. The script, the call and the server take their steps in
any order; a script's own calls wait where the code blocks. -/
namespace Fusillade.Bridge.ClientStream

/-- What a call of the script came to. The exceptions carry their message and their type. -/
inductive Outcome (Message Response : Type) where
  | sent (message : Message)
  | received (response : Response)
  | thrown (message type : String)
  deriving DecidableEq, Repr

inductive Slot (Response : Type) where
  | empty
  | full (result : Except String Response)
  | dropped

/-- Where the script is: free to call, in `send` with a message, or in `closeAndRecv`. -/
inductive Script (Message : Type) where
  | free
  | sending (message : Message)
  | awaiting
  deriving DecidableEq, Repr

structure GrpcClientStream (Message Response : Type) where
  messageTx : Bool := true
  responseRx : Bool := true
  script : Script Message := .free
  /-- The channel between the script and the request stream. -/
  queue : List Message := []
  /-- The call holds the request stream. -/
  reading : Bool := true
  /-- The request stream has come to its end. -/
  ended : Bool := false
  slot : Slot Response := .empty
  /-- What the request stream has given to the server. -/
  transmitted : List Message := []
  outcomes : List (Outcome Message Response) := []

inductive Action (Message Response : Type) where
  /-- `send`, with the value converted to a message or refused. -/
  | send (converted : Except (String × String) Message)
  | pass
  | closeAndRecv
  | receive
  /-- The request stream yields. -/
  | yield
  /-- The request stream finds the channel closed. -/
  | finish
  /-- The call drops the request stream. -/
  | abandon
  | respond (result : Except String Response)
  /-- The thread of the call goes without a response. -/
  | vanish

variable {Message Response : Type}

def capacity : Nat := 100

namespace GrpcClientStream

def returns (s : GrpcClientStream Message Response) (outcome : Outcome Message Response) :
    GrpcClientStream Message Response :=
  { s with script := .free, outcomes := s.outcomes ++ [outcome] }

def send (s : GrpcClientStream Message Response) (converted : Except (String × String) Message) :
    GrpcClientStream Message Response :=
  if s.messageTx then
    match converted with
    | .ok message => { s with script := .sending message }
    | .error (message,type) => s.returns (.thrown message type)
  else s.returns (.thrown "Stream already closed" "StateError")

/-- The sender is dropped first, also by a second call. -/
def closeAndRecv (s : GrpcClientStream Message Response) : GrpcClientStream Message Response :=
  if s.responseRx then { s with messageTx := false, responseRx := false, script := .awaiting }
  else { s with messageTx := false }.returns (.thrown "Already received response" "StateError")

end GrpcClientStream

def step (s : GrpcClientStream Message Response) :
    Action Message Response → Option (GrpcClientStream Message Response)
  | .send converted => match s.script with | .free => some (s.send converted) | _ => none
  | .pass =>
    match s.script with
    | .sending message =>
      if s.reading then
        if s.queue.length < capacity then
          some ({ s with queue := s.queue ++ [message] }.returns (.sent message))
        else none
      else some (s.returns (.thrown "Stream send failed" "NetworkError"))
    | _ => none
  | .closeAndRecv => match s.script with | .free => some s.closeAndRecv | _ => none
  | .receive =>
    match s.script, s.slot with
    | .awaiting, .full (.ok response) => some (s.returns (.received response))
    | .awaiting, .full (.error _) => some (s.returns (.thrown "GrpcError" "NetworkError"))
    | .awaiting, .dropped => some (s.returns (.thrown "Response channel closed" "NetworkError"))
    | _, _ => none
  | .yield =>
    match s.reading, s.queue with
    | true, message :: rest =>
      some { s with queue := rest, transmitted := s.transmitted ++ [message] }
    | _, _ => none
  | .finish =>
    match s.reading, s.queue with
    | true, [] => if s.messageTx then none else some { s with ended := true }
    | _, _ => none
  | .abandon => if s.reading then some { s with reading := false, queue := [] } else none
  | .respond result => match s.slot with | .empty => some { s with slot := .full result } | _ => none
  | .vanish => match s.slot with | .empty => some { s with slot := .dropped } | _ => none

def Outcome.accepted : Outcome Message Response → Option Message
  | .sent message => some message
  | _ => none

def Outcome.response : Outcome Message Response → Option Response
  | .received response => some response
  | _ => none

abbrev GrpcClientStream.accepted (s : GrpcClientStream Message Response) : List Message :=
  s.outcomes.filterMap Outcome.accepted

abbrev GrpcClientStream.responses (s : GrpcClientStream Message Response) : List Response :=
  s.outcomes.filterMap Outcome.response

def Slot.response : Slot Response → List Response
  | .full (.ok response) => [response]
  | _ => []

structure Invariant (s : GrpcClientStream Message Response) : Prop where
  kept : s.reading = true → s.accepted = s.transmitted ++ s.queue
  ordered : s.transmitted <+: s.accepted
  bounded : s.queue.length ≤ capacity
  /-- A blocked `send` has a sender, and `closeAndRecv` waits without one. -/
  sending : ∀ message, s.script = .sending message → s.messageTx = true
  awaiting : s.script = .awaiting → s.messageTx = false
  both : s.messageTx = s.responseRx
  ended : s.ended = true → s.messageTx = false ∧ s.transmitted = s.accepted
  unasked : s.responseRx = true ∨ s.script = .awaiting → s.responses = []
  answered : s.responses = [] ∨ s.responses = s.slot.response

variable {s t : GrpcClientStream Message Response}

theorem start_invariant : Invariant ({} : GrpcClientStream Message Response) := by
  constructor <;> simp

theorem returns_accepted (outcome : Outcome Message Response) :
    (s.returns outcome).accepted = s.accepted ++ outcome.accepted.toList := by
  cases outcome <;> simp [GrpcClientStream.accepted,GrpcClientStream.returns,Outcome.accepted]

theorem returns_responses (outcome : Outcome Message Response) :
    (s.returns outcome).responses = s.responses ++ outcome.response.toList := by
  cases outcome <;> simp [GrpcClientStream.responses,GrpcClientStream.returns,Outcome.response]

theorem Invariant.thrown (valid : Invariant s) (message type : String) :
    Invariant (s.returns (.thrown message type)) := by
  have accepted := returns_accepted (s := s) (.thrown message type)
  have responses := returns_responses (s := s) (.thrown message type)
  simp only [Outcome.accepted,Outcome.response,Option.toList_none,List.append_nil] at accepted responses
  constructor
  · intro reading
    rw [accepted]
    exact valid.kept reading
  · rw [accepted]
    exact valid.ordered
  · exact valid.bounded
  · nofun
  · nofun
  · exact valid.both
  · rw [accepted]
    exact valid.ended
  · rintro (unclosed | ⟨⟨⟩⟩)
    rw [responses]
    exact valid.unasked (.inl unclosed)
  · rw [responses]
    exact valid.answered

theorem Invariant.send (valid : Invariant s) (converted : Except (String × String) Message) :
    Invariant (s.send converted) := by
  unfold GrpcClientStream.send
  split
  · next unclosed =>
    split
    · next message =>
      exact ⟨valid.kept,valid.ordered,valid.bounded,fun _ _ => unclosed,nofun,valid.both,valid.ended,
        fun _ => valid.unasked (.inl (valid.both ▸ unclosed)),valid.answered⟩
    · exact valid.thrown _ _
  · exact valid.thrown _ _

/-- The sender is there while a `send` is blocked, so the request stream has not ended. -/
theorem Invariant.pass (valid : Invariant s) {message : Message} (script : s.script = .sending message)
    (reading : s.reading = true) (room : s.queue.length < capacity) :
    Invariant ({ s with queue := s.queue ++ [message] }.returns (.sent message)) := by
  have unclosed := valid.sending message script
  have unended : s.ended ≠ true := fun ended => by simp [(valid.ended ended).1] at unclosed
  have accepted := returns_accepted (s := { s with queue := s.queue ++ [message] }) (.sent message)
  have responses := returns_responses (s := { s with queue := s.queue ++ [message] }) (.sent message)
  simp only [Outcome.accepted,Outcome.response,Option.toList_some,Option.toList_none,
    List.append_nil] at accepted responses
  have order : s.accepted = s.transmitted ++ s.queue := valid.kept reading
  constructor
  · intro _
    rw [accepted]
    change s.accepted ++ [message] = s.transmitted ++ (s.queue ++ [message])
    rw [order,List.append_assoc]
  · rw [accepted]
    exact valid.ordered.trans (List.prefix_append _ _)
  · simp only [GrpcClientStream.returns,List.length_append,List.length_singleton]
    omega
  · nofun
  · nofun
  · exact valid.both
  · intro ended
    exact absurd ended unended
  · intro _
    rw [responses]
    exact valid.unasked (.inl (valid.both ▸ unclosed))
  · rw [responses]
    exact valid.answered

theorem Invariant.closeAndRecv (valid : Invariant s) : Invariant s.closeAndRecv := by
  unfold GrpcClientStream.closeAndRecv
  split
  · next unclosed =>
    exact ⟨valid.kept,valid.ordered,valid.bounded,nofun,fun _ => rfl,rfl,
      fun ended => ⟨rfl,(valid.ended ended).2⟩,fun _ => valid.unasked (.inl unclosed),valid.answered⟩
  · next closed =>
    have gone : s.messageTx = false := by simpa [valid.both] using closed
    rw [show ({ s with messageTx := false } : GrpcClientStream Message Response) = s by
      rw [← gone]]
    exact valid.thrown _ _

/-- The response is handed over at the one time that the script waits for it. -/
theorem Invariant.received (valid : Invariant s) {response : Response}
    (script : s.script = .awaiting) (slot : s.slot = .full (.ok response)) :
    Invariant (s.returns (.received response)) := by
  have accepted := returns_accepted (s := s) (.received response)
  have responses := returns_responses (s := s) (.received response)
  simp only [Outcome.accepted,Outcome.response,Option.toList_some,Option.toList_none,
    List.append_nil,valid.unasked (.inr script),List.nil_append] at accepted responses
  have closed : s.responseRx = false := valid.both ▸ valid.awaiting script
  constructor
  · intro reading
    rw [accepted]
    exact valid.kept reading
  · rw [accepted]
    exact valid.ordered
  · exact valid.bounded
  · nofun
  · nofun
  · exact valid.both
  · rw [accepted]
    exact valid.ended
  · rintro (unclosed | ⟨⟨⟩⟩)
    exact absurd (closed.symm.trans unclosed) (by decide)
  · refine .inr ?_
    rw [responses]
    simp [GrpcClientStream.returns,slot,Slot.response]

theorem Invariant.settle (valid : Invariant s) {slot : Slot Response} (empty : s.slot = .empty) :
    Invariant { s with slot } := by
  have none : s.responses = [] := by simpa [empty,Slot.response] using valid.answered
  exact ⟨valid.kept,valid.ordered,valid.bounded,valid.sending,valid.awaiting,valid.both,valid.ended,
    valid.unasked,.inl none⟩

theorem step_invariant {action : Action Message Response} (valid : Invariant s)
    (taken : step s action = some t) : Invariant t := by
  cases action with
  | send converted =>
    simp only [step] at taken
    split at taken <;> cases taken
    exact valid.send converted
  | pass =>
    simp only [step] at taken
    split at taken
    · next message script =>
      split at taken
      · next reading =>
        simp only [Option.ite_none_right_eq_some,Option.some.injEq] at taken
        obtain ⟨room,rfl⟩ := taken
        exact valid.pass script reading room
      · cases taken
        exact valid.thrown _ _
    · cases taken
  | closeAndRecv =>
    simp only [step] at taken
    split at taken <;> cases taken
    exact valid.closeAndRecv
  | receive =>
    simp only [step] at taken
    split at taken <;> cases taken
    · next response script slot => exact valid.received script slot
    · exact valid.thrown _ _
    · exact valid.thrown _ _
  | yield =>
    simp only [step] at taken
    split at taken <;> cases taken
    next message rest reading queue =>
    have order := valid.kept reading
    rw [queue] at order
    have unended : s.ended ≠ true := by
      intro ended
      have := (valid.ended ended).2
      rw [order] at this
      simp at this
    have bounded := valid.bounded
    rw [queue,List.length_cons] at bounded
    refine ⟨fun _ => ?_,?_,Nat.le_of_succ_le bounded,valid.sending,valid.awaiting,valid.both,
      fun ended => absurd ended unended,valid.unasked,valid.answered⟩
    · change s.accepted = s.transmitted ++ [message] ++ rest
      rw [order,List.append_assoc,List.singleton_append]
    · change s.transmitted ++ [message] <+: s.accepted
      rw [order]
      exact ⟨rest,by simp⟩
  | finish =>
    simp only [step] at taken
    split at taken
    · next reading queue =>
      simp only [Option.ite_none_left_eq_some,Option.some.injEq] at taken
      obtain ⟨gone,rfl⟩ := taken
      have order := valid.kept reading
      rw [queue,List.append_nil] at order
      exact ⟨valid.kept,valid.ordered,valid.bounded,valid.sending,valid.awaiting,valid.both,
        fun _ => ⟨by simpa using gone,order.symm⟩,valid.unasked,valid.answered⟩
    · cases taken
  | abandon =>
    simp only [step,Option.ite_none_right_eq_some,Option.some.injEq] at taken
    obtain ⟨-,rfl⟩ := taken
    exact ⟨nofun,valid.ordered,Nat.zero_le _,valid.sending,valid.awaiting,valid.both,valid.ended,
      valid.unasked,valid.answered⟩
  | respond result =>
    simp only [step] at taken
    split at taken <;> cases taken
    next empty => exact valid.settle empty
  | vanish =>
    simp only [step] at taken
    split at taken <;> cases taken
    next empty => exact valid.settle empty

theorem exec_valid {actions : List (Action Message Response)}
    (run : Machine.exec step {} actions = some s) : Invariant s :=
  Machine.exec_invariant Invariant (fun _ _ _ valid taken => step_invariant valid taken) run
    start_invariant

/-- In every order of steps the server gets the messages of the calls of `send` that returned,
in their order and each once; it sees the end of the stream only after the last of them; and
the script gets at most one response, the one that the call came to. -/
theorem sent_in_order {actions : List (Action Message Response)}
    (run : Machine.exec step {} actions = some s) :
    s.transmitted <+: s.accepted ∧
      (s.reading = true → s.accepted = s.transmitted ++ s.queue ∧ s.queue.length ≤ capacity) ∧
      (s.ended = true → s.messageTx = false ∧ s.transmitted = s.accepted) ∧
      (s.responses = [] ∨ ∃ response, s.slot = .full (.ok response) ∧ s.responses = [response]) := by
  have valid := exec_valid run
  refine ⟨valid.ordered,fun reading => ⟨valid.kept reading,valid.bounded⟩,valid.ended,?_⟩
  rcases valid.answered with none | same
  · exact .inl none
  · cases slot : s.slot with
    | full result =>
      cases result with
      | ok response => exact .inr ⟨response,rfl,by simpa [slot,Slot.response] using same⟩
      | error status => exact .inl (by simpa [slot,Slot.response] using same)
    | empty | dropped => exact .inl (by simpa [slot,Slot.response] using same)

def upload : List (Action String Nat) :=
  [.send (.ok "a"),.pass,.send (.ok "b"),.pass,.yield,.closeAndRecv,.yield,.finish,.respond (.ok 2),
    .receive]

theorem upload_in_order :
    ∃ s : GrpcClientStream String Nat, Machine.exec step {} upload = some s ∧
      s.transmitted = ["a","b"] ∧ s.responses = [2] ∧ s.transmitted <+: s.accepted :=
  ⟨_,rfl,rfl,rfl,(@sent_in_order _ _ _ upload rfl).1⟩

/-- `closeAndRecv` was called and has returned. -/
structure Over (s : GrpcClientStream Message Response) : Prop where
  messageTx : s.messageTx = false
  responseRx : s.responseRx = false
  script : s.script = .free

def Outcome.stateError : Outcome Message Response → Bool
  | .thrown _ type => type == "StateError"
  | _ => false

theorem Over.step {action : Action Message Response} (ended : Over s)
    (taken : step s action = some t) :
    Over t ∧ ∃ outcomes, t.outcomes = s.outcomes ++ outcomes ∧
      ∀ outcome ∈ outcomes, outcome.stateError = true := by
  obtain ⟨messageTx,responseRx,script⟩ := ended
  have refused (message : String) :
      Over (s.returns (.thrown message "StateError")) ∧ ∃ outcomes,
        (s.returns (.thrown message "StateError")).outcomes = s.outcomes ++ outcomes ∧
          ∀ outcome ∈ outcomes, outcome.stateError = true :=
    ⟨⟨messageTx,responseRx,rfl⟩,[.thrown message "StateError"],rfl,by simp [Outcome.stateError]⟩
  cases action with
  | send converted =>
    simp only [ClientStream.step,script,GrpcClientStream.send,messageTx] at taken
    cases taken
    exact refused _
  | closeAndRecv =>
    simp only [ClientStream.step,script,GrpcClientStream.closeAndRecv,responseRx,Bool.false_eq_true,
      if_false] at taken
    cases taken
    obtain ⟨-,more⟩ := refused "Already received response"
    exact ⟨⟨rfl,rfl,rfl⟩,more⟩
  | pass | receive => simp [ClientStream.step,script] at taken
  | yield | respond _ | vanish =>
    simp only [ClientStream.step] at taken
    split at taken <;> cases taken
    exact ⟨⟨messageTx,responseRx,script⟩,[],by simp,by simp⟩
  | finish =>
    simp only [ClientStream.step,messageTx] at taken
    split at taken <;> cases taken
    exact ⟨⟨rfl,responseRx,script⟩,[],by simp,by simp⟩
  | abandon =>
    simp only [ClientStream.step,Option.ite_none_right_eq_some,Option.some.injEq] at taken
    obtain ⟨-,rfl⟩ := taken
    exact ⟨⟨messageTx,responseRx,script⟩,[],by simp,by simp⟩

theorem Over.exec {actions : List (Action Message Response)} (ended : Over s)
    (run : Machine.exec ClientStream.step s actions = some t) :
    Over t ∧ ∃ outcomes, t.outcomes = s.outcomes ++ outcomes ∧
      ∀ outcome ∈ outcomes, outcome.stateError = true := by
  induction actions generalizing s with
  | nil =>
    obtain rfl := Option.some.inj run
    exact ⟨ended,[],by simp,by simp⟩
  | cons action rest ih =>
    obtain ⟨u,first,later⟩ := Machine.exec_cons_iff.mp run
    obtain ⟨next,one,here,refused⟩ := ended.step first
    obtain ⟨last,more,there,others⟩ := ih next later
    refine ⟨last,one ++ more,by rw [there,here,List.append_assoc],?_⟩
    intro outcome member
    rcases List.mem_append.mp member with first | second
    · exact refused outcome first
    · exact others outcome second

/-- Whatever is called after `closeAndRecv` throws a state error and sends nothing. -/
theorem closed_stream_refuses {actions : List (Action Message Response)} (ended : Over s)
    (run : Machine.exec step s actions = some t) :
    Over t ∧ (∃ outcomes, t.outcomes = s.outcomes ++ outcomes ∧
        ∀ outcome ∈ outcomes, outcome.stateError = true) ∧
      t.accepted = s.accepted ∧ t.responses = s.responses := by
  obtain ⟨last,outcomes,same,refused⟩ := ended.exec run
  have neither : outcomes.filterMap Outcome.accepted = [] ∧ outcomes.filterMap Outcome.response = [] := by
    constructor <;>
    · rw [List.filterMap_eq_nil_iff]
      intro outcome member
      have thrown := refused outcome member
      cases outcome <;> first | rfl | cases thrown
  refine ⟨last,⟨outcomes,same,refused⟩,?_,?_⟩
  · rw [GrpcClientStream.accepted,same,List.filterMap_append,neither.1,List.append_nil]
  · rw [GrpcClientStream.responses,same,List.filterMap_append,neither.2,List.append_nil]

theorem upload_closed :
    ∃ s t : GrpcClientStream String Nat, Machine.exec step {} upload = some s ∧
      Machine.exec step s [.send (.ok "c"),.closeAndRecv] = some t ∧ t.accepted = s.accepted :=
  ⟨_,_,rfl,rfl,(@closed_stream_refuses _ _ _ _ [.send (.ok "c"),.closeAndRecv]
    ⟨rfl,rfl,rfl⟩ rfl).2.2.1⟩

end Fusillade.Bridge.ClientStream
