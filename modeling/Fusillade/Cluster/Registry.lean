import Fusillade.Lib.FiniteMap
import Fusillade.Lib.Machine
import Mathlib.Data.String.Basic

/-! The registry of connected workers. Every `register` stream has a task of its own, which
inserts the worker of the first message and removes it by id when the stream ends. A stream
is open until its task has cleaned up after it: the end and the removal are one step. -/
namespace Fusillade.Cluster

structure RegisterRequest where
  id : String
  address : String
  availableCpus : Nat
  deriving DecidableEq

inductive WorkerMessage where
  | register (request : RegisterRequest)
  | heartbeat (workerId : String)
  | testFinished (workerId : String)
  | empty
  deriving DecidableEq

/-- The task of a stream: before its first message, in its message loop, or over. -/
inductive Stream where
  | awaiting
  | registered (workerId : String)
  | closed
  deriving DecidableEq

/-- `sender` is the stream whose commands channel is stored. -/
structure WorkerInfo where
  id : String
  address : String
  availableCpus : Nat
  sender : Nat
  deriving DecidableEq

abbrev WorkerRegistry := FiniteMap String WorkerInfo

structure State where
  streams : List Stream
  workers : WorkerRegistry
  deriving DecidableEq

inductive Action where
  | connect (authorization : Option String)
  | message (stream : Nat) (message : WorkerMessage)
  | disconnect (stream : Nat)
  deriving DecidableEq

def initial : State := ⟨[],∅⟩

def stripBearer (header : String) : Option (List Char) :=
  if "Bearer ".toList.isPrefixOf header.toList then some (header.toList.drop 7) else none

/-- Without a token on the controller every stream is let in. -/
def checkAuth (clusterToken authorization : Option String) : Bool :=
  match clusterToken with
  | none => true
  | some expected => (authorization.bind stripBearer).getD [] == expected.toList

def step (clusterToken : Option String) (s : State) : Action → Option State
  | .connect authorization =>
    if checkAuth clusterToken authorization then some { s with streams := s.streams ++ [.awaiting] }
    else none
  | .message i message =>
    match s.streams[i]?, message with
    | some .awaiting, .register request => some {
        streams := s.streams.set i (.registered request.id)
        workers := s.workers.insert request.id ⟨request.id,request.address,request.availableCpus,i⟩ }
    -- The first message must be a registration.
    | some .awaiting, _ => some { s with streams := s.streams.set i .closed }
    -- Later messages are logged, a second registration is not even that.
    | some (.registered _), _ => some s
    | _, _ => none
  | .disconnect i =>
    match s.streams[i]? with
    | some .awaiting => some { s with streams := s.streams.set i .closed }
    | some (.registered workerId) => some {
        streams := s.streams.set i .closed
        workers := s.workers.erase workerId }
    | _ => none

def Stream.worker : Stream → Option String
  | .registered workerId => some workerId
  | _ => none

/-- The worker that an open stream has registered. -/
def announced (s : State) (i : Nat) : Option String := s.streams[i]?.bind Stream.worker

/-- A worker is listed when an open stream registered it, with a sender of such a stream. -/
structure Agrees (s : State) : Prop where
  listed : ∀ id, (s.workers.lookup id).isSome ↔ ∃ i, announced s i = some id
  sender : ∀ id info, s.workers.lookup id = some info → announced s info.sender = some id

/-- A stream ends while no other open stream has registered its worker. -/
def Alone (s : State) : Action → Prop
  | .disconnect i => ∀ id ∈ announced s i, ∀ j < s.streams.length, j ≠ i → announced s j ≠ some id
  | _ => True

instance (s : State) : ∀ a, Decidable (Alone s a)
  | .disconnect _ => inferInstanceAs (Decidable (∀ _ ∈ _, ∀ _, _ → _ → _))
  | .connect _ | .message .. => inferInstanceAs (Decidable True)

variable {clusterToken : Option String} {s t : State}

theorem announced_set (i j : Nat) (stream : Stream) (inside : i < s.streams.length)
    (workers : WorkerRegistry) :
    announced ⟨s.streams.set i stream,workers⟩ j =
      if j = i then stream.worker else announced s j := by
  by_cases here : j = i
  · subst j; simp [announced,inside]
  · simp [announced,here,Ne.symm here]

theorem announced_append (i : Nat) :
    announced { s with streams := s.streams ++ [.awaiting] } i = announced s i := by
  unfold announced
  by_cases inside : i < s.streams.length
  · simp [List.getElem?_append_left inside]
  · have outside : s.streams[i]? = none := List.getElem?_eq_none_iff.mpr (Nat.le_of_not_lt inside)
    rw [List.getElem?_append_right (Nat.le_of_not_lt inside),outside]
    cases i - s.streams.length <;> simp [Stream.worker]

theorem announced_inside {i : Nat} {id : String} (found : announced s i = some id) :
    i < s.streams.length := by
  by_contra outside
  simp [announced,List.getElem?_eq_none_iff.mpr (Nat.le_of_not_lt outside)] at found

/-- What a step does to the streams and the registry. -/
inductive Stepped (s : State) (a : Action) : State → Prop where
  | idle (t : State) (same : ∀ i, announced t i = announced s i) (workers : t.workers = s.workers) :
      Stepped s a t
  | registers (i : Nat) (info : WorkerInfo) (silent : announced s i = none)
      (inside : i < s.streams.length) (sender : info.sender = i) :
      Stepped s a ⟨s.streams.set i (.registered info.id),s.workers.insert info.id info⟩
  | leaves (i : Nat) (id : String) (disconnect : a = .disconnect i) (known : announced s i = some id) :
      Stepped s a ⟨s.streams.set i .closed,s.workers.erase id⟩

theorem closed_idle {i : Nat} {a : Action} (located : s.streams[i]? = some .awaiting) :
    Stepped s a { s with streams := s.streams.set i .closed } := by
  have inside := (List.getElem?_eq_some_iff.mp located).1
  refine .idle _ ?_ rfl
  intro j
  rw [announced_set i j .closed inside]
  split
  next here => subst j; simp [announced,located,Stream.worker]
  next => rfl

theorem step_cases {a : Action} (taken : step clusterToken s a = some t) : Stepped s a t := by
  unfold step at taken
  split at taken
  next authorization =>
    split at taken
    · obtain rfl := Option.some.inj taken
      exact .idle _ announced_append rfl
    · contradiction
  next i message =>
    split at taken
    next request located =>
      obtain rfl := Option.some.inj taken
      exact .registers i ⟨request.id,request.address,request.availableCpus,i⟩
        (by simp [announced,located,Stream.worker]) (List.getElem?_eq_some_iff.mp located).1 rfl
    next located _ =>
      obtain rfl := Option.some.inj taken
      exact closed_idle located
    next =>
      obtain rfl := Option.some.inj taken
      exact .idle _ (fun _ => rfl) rfl
    next => contradiction
  next i =>
    split at taken
    next located =>
      obtain rfl := Option.some.inj taken
      exact closed_idle located
    next id located =>
      obtain rfl := Option.some.inj taken
      exact .leaves i id rfl (by simp [announced,located,Stream.worker])
    next => contradiction

theorem initial_agrees : Agrees initial := by
  constructor
  · intro id
    simp [initial,announced]
  · intro id info found
    simp [initial] at found

/-- What is stored as the sender of a worker is a stream that has registered it. -/
def Sound (s : State) : Prop := ∀ id info, s.workers.lookup id = some info → announced s info.sender = some id

theorem registers_sound (valid : Sound s) {i : Nat} {info : WorkerInfo} (silent : announced s i = none)
    (inside : i < s.streams.length) (owner : info.sender = i) :
    Sound ⟨s.streams.set i (.registered info.id),s.workers.insert info.id info⟩ := by
  have moved (j : Nat) := announced_set i j (.registered info.id) inside
    (s.workers.insert info.id info)
  intro id other found
  rw [FiniteMap.lookup_insert] at found
  by_cases new : id = info.id
  · subst id
    obtain rfl : info = other := by simpa using found
    rw [moved,if_pos owner]
    rfl
  · rw [if_neg new] at found
    have still := valid id other found
    rw [moved,if_neg fun here => by simp [here,silent] at still]
    exact still

theorem leaves_sound (valid : Sound s) {i : Nat} {id : String} (known : announced s i = some id) :
    Sound ⟨s.streams.set i .closed,s.workers.erase id⟩ := by
  have moved (j : Nat) := announced_set i j .closed (announced_inside known) (s.workers.erase id)
  intro other info found
  rw [FiniteMap.lookup_erase] at found
  by_cases gone : other = id
  · simp [gone] at found
  · rw [if_neg gone] at found
    have still := valid other info found
    have apart : info.sender ≠ i := by
      rintro rfl
      exact gone (Option.some.inj (still.symm.trans known))
    rwa [moved,if_neg apart]

/-- Unlike the listing of workers, this holds however streams end. -/
theorem step_sound (s : State) (a : Action) (t : State) (valid : Sound s)
    (taken : step clusterToken s a = some t) : Sound t := by
  cases step_cases taken with
  | idle _ same workers =>
    intro id info found
    rw [workers] at found
    rw [same]
    exact valid id info found
  | registers i info silent inside owner => exact registers_sound valid silent inside owner
  | leaves i id disconnect known => exact leaves_sound valid known

theorem registers_agrees (valid : Agrees s) {i : Nat} {info : WorkerInfo}
    (silent : announced s i = none) (inside : i < s.streams.length) (owner : info.sender = i) :
    Agrees ⟨s.streams.set i (.registered info.id),s.workers.insert info.id info⟩ := by
  have moved (j : Nat) := announced_set i j (.registered info.id) inside
    (s.workers.insert info.id info)
  constructor
  · intro id
    rw [FiniteMap.lookup_insert]
    by_cases new : id = info.id
    · subst id
      simp only [if_true,Option.isSome_some,true_iff]
      exact ⟨i,by rw [moved,if_pos rfl]; rfl⟩
    · rw [if_neg new,valid.listed id]
      apply exists_congr
      intro j
      rw [moved j]
      by_cases here : j = i
      · subst j; simp [silent,Stream.worker,Ne.symm new]
      · rw [if_neg here]
  · exact registers_sound valid.sender silent inside owner

theorem leaves_agrees (valid : Agrees s) {i : Nat} {id : String} (known : announced s i = some id)
    (alone : ∀ j, j ≠ i → announced s j ≠ some id) :
    Agrees ⟨s.streams.set i .closed,s.workers.erase id⟩ := by
  have moved (j : Nat) := announced_set i j .closed (announced_inside known) (s.workers.erase id)
  constructor
  · intro other
    rw [FiniteMap.lookup_erase]
    by_cases gone : other = id
    · subst other
      simp only [if_true,Option.isSome_none,Bool.false_eq_true,false_iff,not_exists]
      intro j
      rw [moved j]
      by_cases here : j = i
      · rw [if_pos here]; simp [Stream.worker]
      · rw [if_neg here]; exact alone j here
    · rw [if_neg gone,valid.listed other]
      apply exists_congr
      intro j
      rw [moved j]
      by_cases here : j = i
      · subst j; simp [known,Stream.worker,Ne.symm gone]
      · rw [if_neg here]
  · exact leaves_sound valid.sender known

theorem step_agrees (s : State) (a : Action) (t : State) (valid : Agrees s) (alone : Alone s a)
    (taken : step clusterToken s a = some t) : Agrees t := by
  cases step_cases taken with
  | idle _ same workers =>
    constructor
    · intro id
      simpa only [same,workers] using valid.listed id
    · intro id info found
      rw [workers] at found
      simpa only [same] using valid.sender id info found
  | registers i info silent inside owner => exact registers_agrees valid silent inside owner
  | leaves i id disconnect known =>
    subst disconnect
    apply leaves_agrees valid known
    intro j other found
    exact alone id known j (announced_inside found) other found

/-- The cleanup of one of two streams of a worker unlists the worker. -/
theorem crowded_disagrees (s : State) (a : Action) (t : State) (crowded : ¬Alone s a)
    (taken : step clusterToken s a = some t) : ¬Agrees t := by
  cases a with
  | connect | message => exact absurd trivial crowded
  | disconnect i =>
    simp only [Alone,not_forall,not_not] at crowded
    obtain ⟨id,known,j,_,other,found⟩ := crowded
    have located : s.streams[i]? = some (.registered id) := by
      obtain ⟨stream,located,worker⟩ := Option.bind_eq_some_iff.mp known
      cases stream <;> simp [Stream.worker] at worker
      exact worker ▸ located
    obtain rfl : ⟨s.streams.set i .closed,s.workers.erase id⟩ = t := by
      simpa [step,located] using taken
    intro agrees
    have unlisted := agrees.listed id
    rw [FiniteMap.lookup_erase,if_pos rfl] at unlisted
    have unclosed : announced ⟨s.streams.set i .closed,s.workers.erase id⟩ j = some id := by
      rw [announced_set i j .closed (announced_inside known),if_neg other]
      exact found
    exact absurd (unlisted.mpr ⟨j,unclosed⟩) (by simp)

/-- The registry agrees with the open streams throughout a run exactly when every stream of
a worker that ends was the worker's only open one. -/
theorem registry_agrees_iff {actions : List Action}
    (run : Machine.exec (step clusterToken) initial actions = some s) :
    Machine.Along (step clusterToken) Agrees initial actions ↔
      Machine.Guarded (step clusterToken) Alone initial actions :=
  Machine.along_iff_guarded step_agrees (fun _ => id) (fun s a t _ => crowded_disagrees s a t)
    initial_agrees run

def workerA : RegisterRequest := ⟨"worker-a","127.0.0.1:7777",4⟩

/-- A worker reconnects before the end of its first stream has been seen. -/
theorem reconnected_worker_unlisted :
    ∃ s, Machine.exec (step none) initial
        [.connect none,.message 0 (.register workerA),.connect none,.message 1 (.register workerA),
          .disconnect 0] = some s ∧ ¬Agrees s := by
  have stale : ∃ s, Machine.exec (step none) initial
      [.connect none,.message 0 (.register workerA),.connect none,.message 1 (.register workerA),
        .disconnect 0] = some s ∧
      s.workers.lookup "worker-a" = none ∧ announced s 1 = some "worker-a" := by decide +kernel
  obtain ⟨s,run,unlisted,still⟩ := stale
  refine ⟨s,run,?_⟩
  intro agrees
  simpa [unlisted] using (agrees.listed "worker-a").mpr ⟨1,still⟩

theorem registry_agrees_after_clean_reconnect :
    let actions : List Action :=
      [.connect none,.message 0 (.register workerA),.disconnect 0,.connect none,
        .message 1 (.register workerA),.message 1 (.heartbeat "worker-a")]
    Machine.Along (step none) Agrees initial actions := by
  intro actions
  have ended : ∃ s, Machine.exec (step none) initial actions = some s ∧ True := by decide +kernel
  obtain ⟨s,run,_⟩ := ended
  exact (registry_agrees_iff run).mpr (by decide +kernel)

end Fusillade.Cluster
