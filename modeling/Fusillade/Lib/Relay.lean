import Fusillade.Lib.Machine
import Mathlib.Data.List.Infix

/-! A thread that takes the events of a source in their order and hands the values among them
to another thread over a bounded channel. A flag that the thread does not own tells it to
stop. A full channel blocks the sender; a channel without its receiver refuses the value. -/
namespace Relay

/-- Where the thread is: waiting for the answer that opens the source, at the check of the
flag, waiting for an event, handing a value over, or gone, with the sender dropped. -/
inductive Phase (Value : Type) where
  | starting
  | checking
  | reading
  | sending (value : Value)
  | finished
  deriving DecidableEq, Repr

/-- What one kind of thread does: the value of an event, the size of its channel, and whether
the loop goes on after a value was refused. -/
structure Policy (Event Value : Type) where
  pick : Event → Option Value
  capacity : Nat
  survives : Bool

structure State (Event Value : Type) where
  phase : Phase Value
  incoming : List Event := []
  ended : Bool := false
  queue : List Value := []
  receiver : Bool := true
  /-- Every event that the source has had. -/
  supplied : List Event := []
  /-- Every value that the receiver has got. -/
  taken : List Value := []
  deriving DecidableEq, Repr

inductive Move (Event : Type) where
  /-- The source opens, or refuses to. -/
  | start (accepted : Bool)
  | supply (event : Event)
  | finish
  | check
  | read
  | idle
  | send
  deriving DecidableEq, Repr

variable {Event Value : Type} (policy : Policy Event Value) (running : Bool)

def step (s : State Event Value) : Move Event → Option (State Event Value)
  | .start accepted =>
    match s.phase with
    | .starting => some (if accepted then { s with phase := .checking }
        else { s with phase := .finished, ended := true })
    | _ => none
  | .supply event =>
    match s.phase with
    | .starting => none
    | _ => if s.ended then none
        else some { s with incoming := s.incoming ++ [event], supplied := s.supplied ++ [event] }
  | .finish =>
    match s.phase with
    | .starting => none
    | _ => if s.ended then none else some { s with ended := true }
  | .check =>
    match s.phase with
    | .checking => some { s with phase := if running then .reading else .finished }
    | _ => none
  | .read =>
    match s.phase, s.incoming with
    | .reading, event :: rest =>
      match policy.pick event with
      | some value => some { s with phase := .sending value, incoming := rest }
      | none => some { s with phase := .checking, incoming := rest }
    | .reading, [] => if s.ended then some { s with phase := .finished } else none
    | _, _ => none
  | .idle =>
    match s.phase, s.incoming with
    | .reading, [] => if s.ended then none else some { s with phase := .checking }
    | _, _ => none
  | .send =>
    match s.phase with
    | .sending value =>
      if s.receiver then
        if s.queue.length < policy.capacity then
          some { s with phase := .checking, queue := s.queue ++ [value] }
        else none
      else some { s with phase := if policy.survives then .checking else .finished }
    | _ => none

/-- What the receiver meets: a value, no value while the sender lives, or neither. -/
inductive Receipt (Value : Type) where
  | value (value : Value)
  | empty
  | disconnected
  deriving DecidableEq, Repr

def State.receive (s : State Event Value) : Receipt Value × State Event Value :=
  match s.queue with
  | value :: rest => (.value value,{ s with queue := rest, taken := s.taken ++ [value] })
  | [] => (match s.phase with | .finished => .disconnected | _ => .empty,s)

/-- The receiver is dropped, and what the channel holds with it. -/
def State.release (s : State Event Value) : State Event Value :=
  { s with queue := [], receiver := false }

/-- The value that the thread has in its hand. -/
def Phase.held : Phase Value → List Value
  | .sending value => [value]
  | _ => []

def State.pending (s : State Event Value) : List Value :=
  s.queue ++ s.phase.held ++ s.incoming.filterMap policy.pick

/-- No value is lost, repeated or moved before another, as long as there is a receiver. -/
structure Sound (s : State Event Value) : Prop where
  kept : s.receiver = true → s.supplied.filterMap policy.pick = s.taken ++ s.pending policy
  ordered : s.taken <+: s.supplied.filterMap policy.pick
  bounded : s.queue.length ≤ policy.capacity

variable {policy running} {s t : State Event Value}

theorem step_taken {move : Move Event} (taken : step policy running s move = some t) :
    t.taken = s.taken ∧ t.receiver = s.receiver := by
  cases move <;> simp only [step] at taken <;> grind

/-- Only a supply adds to what the source has had. -/
theorem step_supplied {move : Move Event} (taken : step policy running s move = some t) :
    s.supplied <+: t.supplied := by
  cases move <;> simp only [step] at taken <;> grind [List.prefix_append]

theorem step_kept {move : Move Event} (taken : step policy running s move = some t)
    (receiver : s.receiver = true)
    (kept : s.supplied.filterMap policy.pick = s.taken ++ s.pending policy) :
    t.supplied.filterMap policy.pick = t.taken ++ t.pending policy := by
  cases move <;> simp only [step] at taken <;> grind [State.pending,Phase.held]

theorem step_bounded {move : Move Event} (taken : step policy running s move = some t)
    (bounded : s.queue.length ≤ policy.capacity) : t.queue.length ≤ policy.capacity := by
  cases move <;> simp only [step] at taken <;> grind

/-- Whatever the thread and the source do, in whatever order. -/
theorem Sound.step {move : Move Event} (sound : Sound policy s)
    (taken : step policy running s move = some t) : Sound policy t := by
  obtain ⟨same,receiver⟩ := step_taken taken
  refine ⟨?_,?_,step_bounded taken sound.bounded⟩
  · intro present
    have before : s.receiver = true := receiver ▸ present
    exact step_kept taken before (sound.kept before)
  · rw [same]
    exact sound.ordered.trans ((step_supplied taken).filterMap policy.pick)

theorem receive_value {value : Value} (got : s.receive = (.value value,t)) :
    ∃ rest, s.queue = value :: rest ∧ t = { s with queue := rest, taken := s.taken ++ [value] } := by
  unfold State.receive at got
  split at got
  · next head rest queue =>
    simp only [Prod.mk.injEq,Receipt.value.injEq] at got
    exact ⟨rest,by rw [queue,got.1],by rw [← got.2,got.1]⟩
  · split at got <;> simp at got

theorem receive_nothing (nothing : ∀ value, s.receive.1 ≠ .value value) :
    s.queue = [] ∧ s.receive.2 = s := by
  unfold State.receive at nothing ⊢
  split at nothing
  · next head rest queue => exact absurd rfl (nothing head)
  · next queue => exact ⟨queue,rfl⟩

theorem receive_disconnected :
    s.receive.1 = .disconnected ↔ s.queue = [] ∧ s.phase = .finished := by
  unfold State.receive
  split
  · next queue => simp [queue]
  · next queue => split <;> simp_all

theorem Sound.receive (sound : Sound policy s) (receiver : s.receiver = true) :
    Sound policy s.receive.2 := by
  cases got : s.receive with
  | mk receipt t =>
    cases receipt with
    | value value =>
      obtain ⟨rest,queue,rfl⟩ := receive_value got
      have kept := sound.kept receiver
      rw [State.pending,queue] at kept
      refine ⟨fun _ => by simpa [State.pending] using kept,?_,?_⟩
      · rw [kept]
        simp
      · have := sound.bounded
        rw [queue,List.length_cons] at this
        exact Nat.le_of_succ_le this
    | empty | disconnected =>
      have same := (receive_nothing (s := s) (by simp [got])).2
      rw [got] at same
      exact same ▸ sound

theorem Sound.release (sound : Sound policy s) : Sound policy s.release :=
  ⟨nofun,sound.ordered,Nat.zero_le _⟩

/-- A thread that was never told to stop and never lost its receiver goes on to the end of its
source. -/
structure Exhausting (s : State Event Value) : Prop where
  finished : s.phase = .finished → s.ended = true ∧ s.incoming = []
  starting : s.phase = .starting → s.incoming = [] ∧ s.ended = false

theorem Exhausting.step {move : Move Event} (exhausting : Exhausting s) (receiver : s.receiver = true)
    (taken : step policy true s move = some t) : Exhausting t := by
  obtain ⟨finished,starting⟩ := exhausting
  cases move <;> simp only [Relay.step] at taken <;> constructor <;> grind

theorem Exhausting.started (exhausting : Exhausting s) (ended : s.ended = true) :
    s.phase ≠ .starting := by
  intro starting
  have unended := (exhausting.starting starting).2
  exact absurd (ended.symm.trans unended) (by decide)

theorem Exhausting.receive (exhausting : Exhausting s) : Exhausting s.receive.2 := by
  unfold State.receive
  split
  · exact ⟨exhausting.finished,exhausting.starting⟩
  · exact exhausting

/-- A receiver that finds no sender has had every value of the source. -/
theorem Sound.drained (sound : Sound policy s) (exhausting : Exhausting s)
    (receiver : s.receiver = true) (disconnected : s.receive.1 = .disconnected) :
    s.ended = true ∧ s.taken = s.supplied.filterMap policy.pick := by
  obtain ⟨queue,phase⟩ := receive_disconnected.mp disconnected
  obtain ⟨ended,incoming⟩ := exhausting.finished phase
  refine ⟨ended,?_⟩
  rw [sound.kept receiver,State.pending,queue,phase,incoming]
  simp [Phase.held]

/-- The steps that the thread still takes once it has been told to stop. -/
def Phase.rank : Phase Value → Nat
  | .starting => 1
  | .checking => 1
  | .reading => 3
  | .sending _ => 2
  | .finished => 0

/-- The moves of the thread itself; the others are those of its source, which may never answer
the thread that waits for it to open. -/
def Move.own : Move Event → Bool
  | .start _ | .supply _ | .finish => false
  | _ => true

/-- Without a receiver every move of the thread takes it closer to its end. -/
theorem step_rank {move : Move Event} (released : s.receiver = false)
    (taken : step policy false s move = some t) :
    t.phase.rank + (if move.own then 1 else 0) ≤ s.phase.rank := by
  cases move <;> simp only [step] at taken <;> grind [Phase.rank,Move.own]

/-- What is left to do for the thread and the receiver once the source has ended. -/
def State.work (s : State Event Value) : Nat :=
  4 * s.incoming.length + s.queue.length +
    match s.phase with
    | .starting => 3
    | .checking => 2
    | .reading => 1
    | .sending _ => 4
    | .finished => 0

theorem step_work {move : Move Event} (ended : s.ended = true) (receiver : s.receiver = true)
    (own : move.own = true) (taken : step policy running s move = some t) :
    t.ended = true ∧ t.work < s.work := by
  cases move <;> simp only [step] at taken <;> grind [State.work,Move.own]

theorem receive_work {value : Value} (got : s.receive = (.value value,t)) :
    t.ended = s.ended ∧ t.work < s.work := by
  obtain ⟨rest,queue,rfl⟩ := receive_value got
  simp [State.work,queue]

theorem step_starting {move : Move Event} (taken : step policy running s move = some t)
    (starting : t.phase = .starting) : s.phase = .starting := by
  cases move <;> simp only [step] at taken <;> grind

/-- Only a source that has not opened and a full channel hold the thread up. -/
theorem exists_own (alive : s.phase ≠ .finished) (started : s.phase ≠ .starting)
    (room : s.receiver = false ∨ s.queue.length < policy.capacity) :
    ∃ move : Move Event, move.own = true ∧ (step policy running s move).isSome := by
  cases phase : s.phase with
  | starting => exact absurd phase started
  | checking => exact ⟨.check,rfl,by simp [step,phase]⟩
  | reading =>
    cases incoming : s.incoming with
    | cons event rest =>
      refine ⟨.read,rfl,?_⟩
      simp only [step,phase,incoming]
      split <;> rfl
    | nil =>
      cases ended : s.ended with
      | true => exact ⟨.read,rfl,by simp [step,phase,incoming,ended]⟩
      | false => exact ⟨.idle,rfl,by simp [step,phase,incoming,ended]⟩
  | sending value =>
    refine ⟨.send,rfl,?_⟩
    rcases room with released | less
    · simp [step,phase,released]
    · cases receiver : s.receiver <;> simp [step,phase,receiver,less]
  | finished => exact absurd phase alive

end Relay
