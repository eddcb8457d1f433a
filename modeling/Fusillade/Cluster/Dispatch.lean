import Fusillade.Cluster.Authentication
import Mathlib.Data.Set.Card

/-! A dispatch channel by channel. Every stream has a bounded channel of commands; the loop tries
each listed worker once and goes on after a failure. -/
namespace Fusillade.Cluster.Dispatch

open Controller (anyTest)

/-- The commands channel of a stream, with its receiver gone when it is closed. -/
structure Channel where
  queue : List StartTest
  capacity : Nat
  closed : Bool
  deriving DecidableEq

def Channel.hasRoom (channel : Channel) : Bool := !channel.closed && channel.queue.length < channel.capacity

def Channel.push (channel : Channel) (cmd : StartTest) : Channel :=
  { channel with queue := channel.queue ++ [cmd] }

/-- `try_send`, none where the channel is full or closed. -/
def Channel.trySend (channel : Channel) (cmd : StartTest) : Option Channel :=
  if channel.hasRoom then some (channel.push cmd) else none

abbrev Channels := Nat → Channel

/-- The loop over the registry, with the number of sends so far. -/
def sendAll (cmd : StartTest) : List (String × WorkerInfo) → Channels → Nat → Channels × Nat
  | [], channels, sentCount => (channels,sentCount)
  | (_,worker) :: rest, channels, sentCount =>
    match (channels worker.sender).trySend cmd with
    | some channel => sendAll cmd rest (Function.update channels worker.sender channel) (sentCount + 1)
    | none => sendAll cmd rest channels sentCount

/-- `workersGuard` is what reading the registry comes to: its entries in the order of the map,
or the text of a poisoned lock. -/
def dispatchTestToWorkers (workersGuard : Except String (List (String × WorkerInfo))) (cmd : StartTest)
    (channels : Channels) : Channels × Except String Nat :=
  match workersGuard with
  | .error e => (channels,.error e)
  | .ok workers =>
    if workers.length = 0 then (channels,.error "No workers connected")
    else
      let (channels,sentCount) := sendAll cmd workers channels 0
      (channels,.ok sentCount)

def handleApiDispatch (metricsUrl : String) (workersGuard : Except String (List (String × WorkerInfo)))
    (payload : DispatchTestRequest) (channels : Channels) : Channels × DispatchTestResponse :=
  match payload.configJson with
  | .error e => (channels,⟨false,0,"Failed to serialize config: " ++ e⟩)
  | .ok configJson =>
    match dispatchTestToWorkers workersGuard
        ⟨payload.scriptContent,configJson,payload.assets,metricsUrl⟩ channels with
    | (channels,.ok count) =>
      (channels,⟨true,count,"Test dispatched to " ++ toString count ++ " workers"⟩)
    | (channels,.error e) => (channels,⟨false,0,e⟩)

def Open (workers : List (String × WorkerInfo)) (channels : Channels) (i : Nat) : Prop :=
  (∃ entry ∈ workers, entry.2.sender = i) ∧ (channels i).hasRoom = true

structure Truthful (metricsUrl : String) (workersGuard : Except String (List (String × WorkerInfo)))
    (payload : DispatchTestRequest) (channels : Channels) : Prop where
  appended : ∀ workers cmd i, workersGuard = .ok workers → Open workers channels i →
    (dispatchTestToWorkers workersGuard cmd channels).1 i = (channels i).push cmd
  untouched : ∀ cmd i, (∀ workers, workersGuard = .ok workers → ¬Open workers channels i) →
    (dispatchTestToWorkers workersGuard cmd channels).1 i = channels i
  counted : ∀ cmd count, (dispatchTestToWorkers workersGuard cmd channels).2 = .ok count →
    count = Set.ncard { i | (dispatchTestToWorkers workersGuard cmd channels).1 i ≠ channels i }
  answered : (handleApiDispatch metricsUrl workersGuard payload channels).2.success = true →
    ∃ i, (handleApiDispatch metricsUrl workersGuard payload channels).1 i ≠ channels i

/-- The dispatch stops before its loop, or the loop finds a channel that has room. -/
def Fruitful (workersGuard : Except String (List (String × WorkerInfo))) (payload : DispatchTestRequest)
    (channels : Channels) : Prop :=
  ∀ workers configJson, workersGuard = .ok workers → workers ≠ [] → payload.configJson = .ok configJson →
    ∃ i, Open workers channels i

variable {cmd : StartTest} {workers : List (String × WorkerInfo)} {channels : Channels} {sentCount : Nat}

theorem push_ne (channel : Channel) (cmd : StartTest) : channel.push cmd ≠ channel := by
  intro same
  have lengths := congrArg (fun channel => channel.queue.length) same
  simp [Channel.push] at lengths

instance (workers : List (String × WorkerInfo)) (channels : Channels) (i : Nat) :
    Decidable (Open workers channels i) := inferInstanceAs (Decidable (_ ∧ _))

def senders (workers : List (String × WorkerInfo)) : List Nat := workers.map fun entry => entry.2.sender

theorem open_iff {i : Nat} : Open workers channels i ↔ i ∈ senders workers ∧ (channels i).hasRoom = true := by
  simp [Open,senders]

theorem open_cons {id : String} {worker : WorkerInfo} {rest : List (String × WorkerInfo)} {i : Nat} :
    Open ((id,worker) :: rest) channels i ↔
      i = worker.sender ∧ (channels i).hasRoom = true ∨ Open rest channels i := by
  simp only [open_iff,senders,List.map_cons,List.mem_cons,or_and_right]

theorem open_update {sender i : Nat} (other : i ≠ sender) (channel : Channel) :
    Open workers (Function.update channels sender channel) i ↔ Open workers channels i := by
  rw [open_iff,open_iff,Function.update_of_ne other]

theorem sendAll_eq (distinct : (senders workers).Nodup) :
    sendAll cmd workers channels sentCount =
      (fun i => if Open workers channels i then (channels i).push cmd else channels i,
        sentCount + ((senders workers).filter fun i => (channels i).hasRoom).length) := by
  induction workers generalizing channels sentCount with
  | nil => simp [sendAll,Open,senders]
  | cons entry rest ih =>
    obtain ⟨id,worker⟩ := entry
    obtain ⟨fresh,later⟩ := List.nodup_cons.mp distinct
    cases room : (channels worker.sender).hasRoom with
    | false =>
      have full : (channels worker.sender).trySend cmd = none := by simp [Channel.trySend,room]
      simp only [sendAll,full]
      rw [ih later]
      refine Prod.ext (funext fun i => ?_) (by simp [senders,room])
      have same : Open ((id,worker) :: rest) channels i ↔ Open rest channels i := by
        rw [open_cons]
        refine or_iff_right ?_
        rintro ⟨rfl,free⟩
        rw [room] at free
        cases free
      simp [same]
    | true =>
      have sent : (channels worker.sender).trySend cmd = some ((channels worker.sender).push cmd) := by
        simp [Channel.trySend,room]
      simp only [sendAll,sent]
      rw [ih later]
      refine Prod.ext (funext fun i => ?_) ?_
      · by_cases here : i = worker.sender
        · subst here
          -- no later worker has this channel
          have done : ¬Open rest (Function.update channels worker.sender ((channels worker.sender).push cmd))
              worker.sender := fun opened => fresh (open_iff.mp opened).1
          have now : Open ((id,worker) :: rest) channels worker.sender := open_cons.mpr (.inl ⟨rfl,room⟩)
          simp [done,now]
        · have same : Open ((id,worker) :: rest) channels i ↔ Open rest channels i := by
            rw [open_cons]
            exact or_iff_right fun found => here found.1
          simp [same,open_update here,here]
      · have others : ((senders rest).filter fun i =>
            (Function.update channels worker.sender ((channels worker.sender).push cmd) i).hasRoom) =
            (senders rest).filter fun i => (channels i).hasRoom := by
          refine List.filter_congr fun i member => ?_
          rw [Function.update_of_ne]
          rintro rfl
          exact fresh member
        simp only [others]
        simp [senders,room]
        omega

theorem ncard_open (distinct : (senders workers).Nodup) :
    Set.ncard { i | Open workers channels i } = ((senders workers).filter fun i => (channels i).hasRoom).length := by
  have set : { i | Open workers channels i } =
      (((senders workers).filter fun i => (channels i).hasRoom).toFinset : Set Nat) := by
    ext i
    simp [open_iff]
  rw [set,Set.ncard_coe_finset,List.toFinset_card_of_nodup (distinct.filter _)]

variable {clusterToken : Option String} {actions : List Action} {s : State} {metricsUrl : String}
  {payload : DispatchTestRequest} {workersGuard : Except String (List (String × WorkerInfo))}

theorem senders_nodup (run : Machine.exec (step clusterToken) initial actions = some s)
    (order : FiniteMap.Lists s.workers workers) : (senders workers).Nodup := by
  have sound : Sound s := Machine.exec_invariant Sound step_sound run fun id info found => by
    simp [initial] at found
  refine List.Nodup.map_on ?_ (List.Nodup.of_map _ order.nodup)
  rintro ⟨id,info⟩ member ⟨other,later⟩ also same
  have here := sound id info ((order.lookup id info).mpr member)
  have there := sound other later ((order.lookup other later).mpr also)
  obtain rfl : id = other := Option.some.inj (here.symm.trans ((congrArg (announced s) same).trans there))
  have lookups := ((order.lookup id info).mpr member).symm.trans ((order.lookup id later).mpr also)
  rw [Option.some.inj lookups]

theorem dispatch_eq (distinct : (senders workers).Nodup) (listed : workers ≠ []) (cmd : StartTest) :
    dispatchTestToWorkers (.ok workers) cmd channels =
      (fun i => if Open workers channels i then (channels i).push cmd else channels i,
        .ok (Set.ncard { i | Open workers channels i })) := by
  rw [dispatchTestToWorkers,if_neg (by simpa using listed),sendAll_eq distinct,ncard_open distinct]
  simp

/-- The outcome of the loop in terms of the registry alone, whatever its order. -/
theorem dispatch_outcome (registry : WorkerRegistry) (order : FiniteMap.Lists registry workers)
    (distinct : (senders workers).Nodup) (cmd : StartTest) :
    (dispatchTestToWorkers (.ok workers) cmd channels).2 =
      Controller.dispatchTestToWorkers registry fun i => (channels i).hasRoom := by
  have keys : registry.keys = (workers.map Prod.fst).toFinset := by
    ext id
    rw [Finmap.mem_keys,Finmap.mem_iff]
    simp only [order.lookup,List.mem_toFinset,List.mem_map,Prod.exists]
    exact ⟨fun ⟨info,member⟩ => ⟨id,info,member,rfl⟩,fun ⟨_,info,member,same⟩ => ⟨info,same ▸ member⟩⟩
  have takes : ∀ entry ∈ workers, Controller.takes registry (fun i => (channels i).hasRoom) entry.1 =
      (channels entry.2.sender).hasRoom := by
    intro entry member
    rw [Controller.takes,(order.lookup entry.1 entry.2).mpr member]
    rfl
  have counted : (registry.keys.filter fun id => Controller.takes registry (fun i => (channels i).hasRoom) id).card =
      ((senders workers).filter fun i => (channels i).hasRoom).length := by
    rw [keys,← List.toFinset_filter,List.toFinset_card_of_nodup (order.nodup.filter _),List.filter_map,
      List.length_map,senders,List.filter_map,List.length_map]
    exact congrArg List.length (List.filter_congr takes)
  have size : registry.keys.card = workers.length := by
    rw [keys,List.toFinset_card_of_nodup order.nodup,List.length_map]
  rw [Controller.dispatchTestToWorkers,size,counted,dispatchTestToWorkers]
  split
  · rfl
  · rw [sendAll_eq distinct]
    simp

/-- A dispatch without workers to go through changes nothing and is no success. -/
theorem truthful_of_refused {e : String}
    (refused : ∀ cmd, dispatchTestToWorkers workersGuard cmd channels = (channels,.error e))
    (nothing : ∀ workers i, workersGuard = .ok workers → ¬Open workers channels i) :
    Truthful metricsUrl workersGuard payload channels := by
  refine ⟨?_,?_,?_,?_⟩
  · intro workers cmd i guard opened
    exact absurd opened (nothing workers i guard)
  · intro cmd i _
    rw [refused]
  · intro cmd count counted
    rw [refused] at counted
    cases counted
  · intro success
    cases config : payload.configJson with
    | error text => simp [handleApiDispatch,config] at success
    | ok json => simp [handleApiDispatch,config,refused] at success

theorem dispatch_changes (distinct : (senders workers).Nodup) (listed : workers ≠ []) (cmd : StartTest) (i : Nat) :
    (dispatchTestToWorkers (.ok workers) cmd channels).1 i ≠ channels i ↔ Open workers channels i := by
  rw [dispatch_eq distinct listed]
  by_cases opened : Open workers channels i
  · simp [opened,push_ne]
  · simp [opened]

/-- Whatever the loop has come to, the answer to a request that gets there is a success. -/
theorem answer_listed (distinct : (senders workers).Nodup) (listed : workers ≠ []) {configJson : String}
    (config : payload.configJson = .ok configJson) :
    (handleApiDispatch metricsUrl (.ok workers) payload channels).2.success = true ∧
      (handleApiDispatch metricsUrl (.ok workers) payload channels).1 =
        (dispatchTestToWorkers (.ok workers)
          ⟨payload.scriptContent,configJson,payload.assets,metricsUrl⟩ channels).1 := by
  simp [handleApiDispatch,config,dispatch_eq distinct listed]

theorem truthful_listed (distinct : (senders workers).Nodup) (listed : workers ≠ []) :
    Truthful metricsUrl (.ok workers) payload channels ↔ Fruitful (.ok workers) payload channels := by
  constructor
  · intro truthful others configJson guard _ config
    obtain rfl := Except.ok.inj guard
    obtain ⟨success,sent⟩ := @answer_listed _ channels metricsUrl payload distinct listed _ config
    obtain ⟨i,differs⟩ := truthful.answered success
    rw [sent] at differs
    exact ⟨i,(dispatch_changes distinct listed _ i).mp differs⟩
  · intro fruitful
    refine ⟨?_,?_,?_,?_⟩
    · intro others cmd i guard opened
      obtain rfl := Except.ok.inj guard
      rw [dispatch_eq distinct listed]
      exact if_pos opened
    · intro cmd i closed
      rw [dispatch_eq distinct listed]
      exact if_neg (closed workers rfl)
    · intro cmd count counted
      simp only [dispatch_changes distinct listed]
      rw [dispatch_eq distinct listed] at counted
      exact (Except.ok.inj counted).symm
    · intro success
      cases config : payload.configJson with
      | error text => simp [handleApiDispatch,config] at success
      | ok configJson =>
        obtain ⟨i,opened⟩ := fruitful workers configJson rfl listed config
        rw [(answer_listed distinct listed config).2]
        exact ⟨i,(dispatch_changes distinct listed _ i).mpr opened⟩

/-- **A dispatch puts one command into every channel that has room and counts them; the answer
is truthful exactly when the dispatch has failed before the loop, or some channel had room.** -/
theorem truthful_iff (run : Machine.exec (step clusterToken) initial actions = some s)
    (order : ∀ workers, workersGuard = .ok workers → FiniteMap.Lists s.workers workers)
    (metricsUrl : String) (payload : DispatchTestRequest) (channels : Channels) :
    Truthful metricsUrl workersGuard payload channels ↔ Fruitful workersGuard payload channels := by
  cases workersGuard with
  | error e =>
    refine iff_of_true (truthful_of_refused (fun _ => rfl) ?_) ?_
    · intro workers i guard
      cases guard
    · intro workers configJson guard
      cases guard
  | ok workers =>
    by_cases listed : workers = []
    · subst listed
      refine iff_of_true (truthful_of_refused (fun _ => rfl) ?_) ?_
      · intro workers i guard
        obtain rfl := Except.ok.inj guard
        simp [Open]
      · intro workers configJson guard nonempty
        exact absurd (Except.ok.inj guard).symm nonempty
    · exact truthful_listed (senders_nodup run (order workers rfl)) listed

def infoA : WorkerInfo := ⟨"worker-a","127.0.0.1:7777",4,0⟩

/-- The channel that `register` makes for a stream. -/
def freshChannel : Channel := ⟨[],100,false⟩

theorem one_worker_lists {s : State}
    (run : Machine.exec (step none) initial [.connect none,.message 0 (.register workerA)] = some s) :
    FiniteMap.Lists s.workers [("worker-a",infoA)] := by
  obtain rfl := Option.some.inj run
  decide

theorem dispatched_to_one_worker :
    Truthful "http://c/metrics" (.ok [("worker-a",infoA)]) anyTest fun _ => freshChannel := by
  obtain ⟨s,run⟩ : ∃ s, Machine.exec (step none) initial
    [.connect none,.message 0 (.register workerA)] = some s := ⟨_,rfl⟩
  refine (truthful_iff run (fun workers guard => ?_) _ _ _).mpr ?_
  · obtain rfl := Except.ok.inj guard
    exact one_worker_lists run
  · intro workers configJson guard _ _
    obtain rfl := Except.ok.inj guard
    exact ⟨0,by decide⟩

/-- The worker has gone, and the end of its stream has not been seen yet. -/
theorem dispatched_to_nobody :
    ∃ s, Machine.exec (step none) initial [.connect none,.message 0 (.register workerA)] = some s ∧
      FiniteMap.Lists s.workers [("worker-a",infoA)] ∧
      ¬Truthful "http://c/metrics" (.ok [("worker-a",infoA)]) anyTest fun _ => { freshChannel with closed := true } := by
  obtain ⟨s,run⟩ : ∃ s, Machine.exec (step none) initial
    [.connect none,.message 0 (.register workerA)] = some s := ⟨_,rfl⟩
  refine ⟨s,run,one_worker_lists run,?_⟩
  intro truthful
  obtain ⟨i,changed⟩ := truthful.answered rfl
  exact changed rfl

end Fusillade.Cluster.Dispatch
