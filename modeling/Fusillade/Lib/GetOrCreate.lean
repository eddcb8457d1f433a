import Fusillade.Lib.FiniteMap
import Fusillade.Lib.Family
import Fusillade.Lib.Machine

/-! Entries that threads share under a readers-writer lock and create when they first ask for
them. A thread looks with the lock shared; if it finds nothing it takes the lock for itself,
looks again, and only then creates the entry. The lock may be granted in any order. -/
namespace GetOrCreate

/-- Where a thread is in its call. -/
inductive Phase (Key : Type) where
  | idle
  | entering (key : Key)
  | reading (key : Key)
  | missed (key : Key)
  | writing (key : Key)
  | making (key : Key)
  deriving DecidableEq, Repr

/-- A call that has returned: what its creation came to, if there was one, and its result. -/
structure Call (Key Value Error : Type) where
  key : Key
  made : Option (Except Error Value)
  result : Except Error Value

structure State (ι Key Value Error : Type) where
  entries : FiniteMap Key Value := ∅
  readers : List ι := []
  writer : Option ι := none
  phase : ι → Phase Key := fun _ => .idle
  /-- The calls in the order in which they returned. -/
  calls : List (Call Key Value Error) := []

inductive Action (ι Key Value Error : Type) where
  | ask (i : ι) (key : Key)
  | lockRead (i : ι)
  | look (i : ι)
  | lockWrite (i : ι)
  | lookAgain (i : ι)
  /-- The creation comes to its end, with a value or without. -/
  | make (i : ι) (result : Except Error Value)

variable {ι Key Value Error : Type} [DecidableEq ι] [DecidableEq Key]

namespace State

def enter (s : State ι Key Value Error) (i : ι) (phase : Phase Key) : State ι Key Value Error :=
  { s with phase := Function.update s.phase i phase }

def returns (s : State ι Key Value Error) (i : ι) (call : Call Key Value Error) :
    State ι Key Value Error :=
  { s.enter i .idle with calls := s.calls ++ [call] }

/-- A value is entered, a failure leaves no trace. -/
def made (s : State ι Key Value Error) (key : Key) : Except Error Value → State ι Key Value Error
  | .ok value => { s with entries := s.entries.insert key value }
  | .error _ => s

end State

def step (s : State ι Key Value Error) :
    Action ι Key Value Error → Option (State ι Key Value Error)
  | .ask i key => match s.phase i with | .idle => some (s.enter i (.entering key)) | _ => none
  | .lockRead i =>
    match s.phase i, s.writer with
    | .entering key, none => some { s.enter i (.reading key) with readers := i :: s.readers }
    | _, _ => none
  | .look i =>
    match s.phase i with
    | .reading key =>
      let unlocked := { s with readers := s.readers.erase i }
      match s.entries.lookup key with
      | some value => some (unlocked.returns i ⟨key,none,.ok value⟩)
      | none => some (unlocked.enter i (.missed key))
    | _ => none
  | .lockWrite i =>
    match s.phase i, s.writer, s.readers with
    | .missed key, none, [] => some { s.enter i (.writing key) with writer := some i }
    | _, _, _ => none
  | .lookAgain i =>
    match s.phase i with
    | .writing key =>
      match s.entries.lookup key with
      | some value => some ({ s with writer := none }.returns i ⟨key,none,.ok value⟩)
      | none => some (s.enter i (.making key))
    | _ => none
  | .make i result =>
    match s.phase i with
    | .making key => some (({ s with writer := none }.made key result).returns i ⟨key,some result,result⟩)
    | _ => none

/-- A call that looks and creates in one step, with what the creation would come to. -/
def getOrCreate (entries : FiniteMap Key Value) (key : Key) (offer : Except Error Value) :
    Except Error Value × FiniteMap Key Value :=
  match entries.lookup key with
  | some value => (.ok value,entries)
  | none =>
    match offer with
    | .ok value => (.ok value,entries.insert key value)
    | .error e => (.error e,entries)

/-- The calls one after another, each in one step; the creation of a call runs exactly if
there was no entry, and comes to something that a creation can come to. -/
inductive Serial (offered : Except Error Value → Prop) :
    List (Call Key Value Error) → FiniteMap Key Value → Prop where
  | start : Serial offered [] ∅
  | call {calls : List (Call Key Value Error)} {entries : FiniteMap Key Value} (key : Key)
      (offer : Except Error Value) (before : Serial offered calls entries)
      (made : entries.lookup key = none → offered offer) :
      Serial offered (calls ++ [⟨key,if (entries.lookup key).isSome then none else some offer,
        (getOrCreate entries key offer).1⟩]) (getOrCreate entries key offer).2

variable {offered : Except Error Value → Prop} {calls : List (Call Key Value Error)}
  {entries : FiniteMap Key Value}

theorem getOrCreate_keeps {key other : Key} {offer : Except Error Value} {value : Value}
    (here : entries.lookup other = some value) :
    (getOrCreate entries key offer).2.lookup other = some value := by
  unfold getOrCreate
  split
  · exact here
  · next absent =>
    split
    · rw [FiniteMap.lookup_insert]
      split
      · next same => rw [same,absent] at here; cases here
      · exact here
    · exact here

theorem getOrCreate_ok {key : Key} {offer : Except Error Value} {value : Value}
    (result : (getOrCreate entries key offer).1 = .ok value) :
    (getOrCreate entries key offer).2.lookup key = some value := by
  unfold getOrCreate at result ⊢
  split
  · next found here => rw [here] at result; cases result; exact here
  · next absent =>
    rw [absent] at result
    cases offer with
    | ok made => cases result; simp
    | error e => cases result

theorem Serial.entered (serial : Serial offered calls entries) {call : Call Key Value Error}
    (member : call ∈ calls) {value : Value} (result : call.result = .ok value) :
    entries.lookup call.key = some value := by
  induction serial with
  | start => cases member
  | call key offer before made ih =>
    rcases List.mem_append.mp member with earlier | last
    · exact getOrCreate_keeps (ih earlier)
    · obtain rfl := List.mem_singleton.mp last
      exact getOrCreate_ok result

theorem Serial.agree (serial : Serial offered calls entries) {first second : Call Key Value Error}
    (one : first ∈ calls) (two : second ∈ calls) (key : first.key = second.key) {a b : Value}
    (ra : first.result = .ok a) (rb : second.result = .ok b) : a = b := by
  have here := serial.entered one ra
  rw [key,serial.entered two rb] at here
  exact (Option.some.inj here).symm

def Call.creates (key : Key) (call : Call Key Value Error) : Bool :=
  decide (call.key = key) && match call.made with | some (.ok _) => true | _ => false

theorem Serial.once (serial : Serial offered calls entries) (key : Key) :
    calls.countP (Call.creates key) = if (entries.lookup key).isSome then 1 else 0 := by
  induction serial with
  | start => simp
  | @call calls entries asked offer before made ih =>
    rw [List.countP_append,ih,List.countP_singleton]
    by_cases same : asked = key
    · subst same
      cases here : entries.lookup asked <;> cases offer <;>
        simp [Call.creates,getOrCreate,here]
    · cases here : entries.lookup asked <;> cases offer <;>
        simp [Call.creates,getOrCreate,here,same,Ne.symm same]

def Phase.reads : Phase Key → Bool
  | .reading _ => true
  | _ => false

def Phase.writes : Phase Key → Bool
  | .writing _ | .making _ => true
  | _ => false

/-- The lock excludes what it should, and an entry that is being created is not there yet. -/
structure Invariant (offered : Except Error Value → Prop) (s : State ι Key Value Error) : Prop where
  reads : ∀ i, (s.phase i).reads = true ↔ i ∈ s.readers
  nodup : s.readers.Nodup
  writes : ∀ i, (s.phase i).writes = true ↔ s.writer = some i
  apart : s.writer ≠ none → s.readers = []
  absent : ∀ i key, s.phase i = .making key → s.entries.lookup key = none
  serial : Serial offered s.calls s.entries

variable {s t : State ι Key Value Error}

omit [DecidableEq ι] in
theorem start_invariant : Invariant offered ({} : State ι Key Value Error) := by
  refine ⟨fun i => by simp [Phase.reads],List.nodup_nil,fun i => by simp [Phase.writes],fun _ => rfl,
    nofun,Serial.start⟩

theorem Invariant.enter (valid : Invariant offered s) {i : ι} {phase : Phase Key}
    (reads : phase.reads = (s.phase i).reads) (writes : phase.writes = (s.phase i).writes)
    (absent : ∀ key, phase = .making key → s.entries.lookup key = none) :
    Invariant offered (s.enter i phase) := by
  have reached (j : ι) : (s.enter i phase).phase j = if j = i then phase else s.phase j := by
    simp [State.enter,Function.update_apply]
  refine ⟨fun j => ?_,valid.nodup,fun j => ?_,valid.apart,fun j key making => ?_,valid.serial⟩
  · rw [reached]
    split
    · next same => rw [reads,same]; exact valid.reads i
    · exact valid.reads j
  · rw [reached]
    split
    · next same => rw [writes,same]; exact valid.writes i
    · exact valid.writes j
  · rw [reached] at making
    split at making
    · exact absent key making
    · exact valid.absent j key making

theorem Invariant.lockRead (valid : Invariant offered s) {i : ι} {key : Key}
    (phase : s.phase i = .entering key) (free : s.writer = none) :
    Invariant offered { s.enter i (.reading key) with readers := i :: s.readers } := by
  have reached (j : ι) : (s.enter i (.reading key)).phase j = if j = i then .reading key else s.phase j := by
    simp [State.enter,Function.update_apply]
  have out : i ∉ s.readers := fun inside => by
    have := (valid.reads i).mpr inside
    simp [phase,Phase.reads] at this
  refine ⟨fun j => ?_,List.nodup_cons.mpr ⟨out,valid.nodup⟩,fun j => ?_,fun held => absurd free held,
    fun j other making => ?_,valid.serial⟩
  · simp only [reached]
    split
    · next same => simp [same,Phase.reads]
    · next other => rw [valid.reads j]; simp [other]
  · simp only [reached]
    split
    · next same => simp [Phase.writes,State.enter,free]
    · exact valid.writes j
  · simp only [reached] at making
    split at making
    · cases making
    · exact valid.absent j other making

theorem Invariant.unlockRead (valid : Invariant offered s) {i : ι} {key : Key} {phase : Phase Key}
    (here : s.phase i = .reading key) (reads : phase.reads = false) (writes : phase.writes = false) :
    Invariant offered ({ s with readers := s.readers.erase i }.enter i phase) := by
  have reached (j : ι) : ({ s with readers := s.readers.erase i }.enter i phase).phase j =
      if j = i then phase else s.phase j := by
    simp [State.enter,Function.update_apply]
  refine ⟨fun j => ?_,valid.nodup.erase i,fun j => ?_,fun held => ?_,fun j other making => ?_,valid.serial⟩
  · rw [reached]
    simp only [State.enter,valid.nodup.mem_erase_iff]
    split
    · next same => simp [same,reads]
    · next other => rw [valid.reads j]; simp [other]
  · rw [reached]
    simp only [State.enter]
    split
    · next same =>
      have := valid.writes i
      rw [here] at this
      have free : s.writer ≠ some i := by simpa [Phase.writes] using this
      simp [writes,same,free]
    · exact valid.writes j
  · simp [State.enter,valid.apart held]
  · simp only [reached] at making
    split at making
    · next same => rw [making] at writes; cases writes
    · exact valid.absent j other making

theorem Invariant.lockWrite (valid : Invariant offered s) {i : ι} {key : Key}
    (phase : s.phase i = .missed key) (free : s.writer = none) (alone : s.readers = []) :
    Invariant offered { s.enter i (.writing key) with writer := some i } := by
  have reached (j : ι) : (s.enter i (.writing key)).phase j = if j = i then .writing key else s.phase j := by
    simp [State.enter,Function.update_apply]
  have still (j : ι) : (s.phase j).writes = false := by
    have := valid.writes j
    rw [free] at this
    simpa using this
  refine ⟨fun j => ?_,valid.nodup,fun j => ?_,fun _ => alone,fun j other making => ?_,valid.serial⟩
  · simp only [reached]
    split
    · next same =>
      have := valid.reads i
      rw [phase] at this
      subst same
      simpa [Phase.reads,State.enter] using this
    · exact valid.reads j
  · simp only [reached]
    split
    · next same => simp [same,Phase.writes]
    · next other => simp [still j,Ne.symm other]
  · simp only [reached] at making
    split at making
    · cases making
    · exact valid.absent j other making

theorem Invariant.unlockWrite (valid : Invariant offered s) {i : ι} (held : s.writer = some i)
    {calls : List (Call Key Value Error)} {entries : FiniteMap Key Value}
    (serial : Serial offered calls entries) :
    Invariant offered { s.enter i .idle with writer := none, calls, entries } := by
  have reached (j : ι) : (s.enter i .idle).phase j = if j = i then .idle else s.phase j := by
    simp [State.enter,Function.update_apply]
  have others (j : ι) (other : j ≠ i) : (s.phase j).writes = false := by
    have := valid.writes j
    rw [held] at this
    simpa [Ne.symm other] using this
  refine ⟨fun j => ?_,valid.nodup,fun j => ?_,fun none => absurd rfl none,fun j key making => ?_,serial⟩
  · simp only [reached]
    split
    · next same =>
      have none := valid.apart (by simp [held])
      simp [Phase.reads,State.enter,none]
    · exact valid.reads j
  · simp only [reached]
    split
    · simp [Phase.writes]
    · next other => simp [others j other]
  · simp only [reached] at making
    split at making
    · cases making
    · next other =>
      have := others j other
      rw [making] at this
      cases this

theorem Serial.found (serial : Serial offered calls entries) {key : Key} {value : Value}
    (here : entries.lookup key = some value) :
    Serial offered (calls ++ [⟨key,none,.ok value⟩]) entries := by
  simpa [getOrCreate,here] using serial.call key (.ok value) (by simp [here])

omit [DecidableEq ι] in
theorem Serial.made (serial : Serial offered s.calls s.entries) {key : Key}
    {result : Except Error Value} (absent : s.entries.lookup key = none) (offer : offered result) :
    Serial offered (s.calls ++ [⟨key,some result,result⟩]) (s.made key result).entries := by
  have next := serial.call key result fun _ => offer
  cases result <;> simpa [getOrCreate,absent,State.made] using next

def Action.Offers (offered : Except Error Value → Prop) : Action ι Key Value Error → Prop
  | .make _ result => offered result
  | _ => True

theorem step_invariant {action : Action ι Key Value Error} (valid : Invariant offered s)
    (offers : action.Offers offered) (taken : step s action = some t) : Invariant offered t := by
  cases action with
  | ask i key =>
    simp only [step] at taken
    split at taken <;> cases taken
    next idle =>
    exact valid.enter (by simp [idle,Phase.reads]) (by simp [idle,Phase.writes]) nofun
  | lockRead i =>
    simp only [step] at taken
    split at taken <;> cases taken
    next key phase free => exact valid.lockRead phase free
  | look i =>
    simp only [step] at taken
    split at taken
    · next key phase =>
      split at taken <;> cases taken
      · next value here =>
        have left := @Invariant.unlockRead _ _ _ _ _ _ _ _ valid _ _ .idle phase rfl rfl
        exact ⟨left.reads,left.nodup,left.writes,left.apart,left.absent,valid.serial.found here⟩
      · exact valid.unlockRead phase rfl rfl
    · cases taken
  | lockWrite i =>
    simp only [step] at taken
    split at taken <;> cases taken
    next key phase free alone => exact valid.lockWrite phase free alone
  | lookAgain i =>
    simp only [step] at taken
    split at taken
    · next key phase =>
      have held : s.writer = some i := (valid.writes i).mp (by simp [phase,Phase.writes])
      split at taken <;> cases taken
      · next value here => exact valid.unlockWrite held (valid.serial.found here)
      · next absent =>
        refine valid.enter (by simp [phase,Phase.reads]) (by simp [phase,Phase.writes]) ?_
        rintro other ⟨⟩
        exact absent
    · cases taken
  | make i result =>
    simp only [step] at taken
    split at taken <;> cases taken
    next key phase =>
    have held : s.writer = some i := (valid.writes i).mp (by simp [phase,Phase.writes])
    have left := valid.unlockWrite held (valid.serial.made (valid.absent i key phase) offers)
    cases result <;> exact left

theorem exec_valid {actions : List (Action ι Key Value Error)}
    (run : Machine.exec step {} actions = some s) (offers : ∀ action ∈ actions, action.Offers offered) :
    Invariant offered s :=
  Machine.exec_allowed (Invariant offered) (·.Offers offered)
    (fun _ _ _ valid offers taken => step_invariant valid offers taken) run offers start_invariant

omit [DecidableEq ι] in
theorem Invariant.alone (valid : Invariant offered s) {i j : ι} (one : (s.phase i).writes = true)
    (two : (s.phase j).writes = true) : i = j :=
  Option.some.inj (((valid.writes i).mp one).symm.trans ((valid.writes j).mp two))

/-- The steps that a call has left, but for the end of its creation. -/
def Phase.rank : Phase Key → Nat
  | .idle | .making _ => 0
  | .writing _ => 1
  | .missed _ => 2
  | .reading _ => 3
  | .entering _ => 4

/-- The steps of calls that are under way; a creation comes to its end when it will. -/
def Action.own : Action ι Key Value Error → Bool
  | .ask .. | .make .. => false
  | _ => true

def Action.asks : Action ι Key Value Error → Bool
  | .ask .. => true
  | _ => false

/-- No call waits for another but for one creation: while one is under way, some call can take
its next step, or an entry is being created. -/
theorem Invariant.enabled (valid : Invariant offered s) {i : ι} (under : s.phase i ≠ .idle) :
    (∃ action : Action ι Key Value Error, action.own = true ∧ (step s action).isSome) ∨
      ∃ j key, s.phase j = .making key := by
  cases writer : s.writer with
  | some j =>
    have writes := (valid.writes j).mpr writer
    cases phase : s.phase j with
    | writing key =>
      refine .inl ⟨.lookAgain j,rfl,?_⟩
      simp only [step,phase]
      split <;> rfl
    | making key => exact .inr ⟨j,key,phase⟩
    | idle | entering _ | reading _ | missed _ => simp [phase,Phase.writes] at writes
  | none =>
    refine .inl ?_
    have look (j : ι) (key : Key) (phase : s.phase j = .reading key) :
        (step s (.look j)).isSome := by
      simp only [step,phase]
      split <;> rfl
    have still : (s.phase i).writes = false := by
      have := valid.writes i
      rw [writer] at this
      simpa using this
    cases phase : s.phase i with
    | idle => exact absurd phase under
    | entering key => exact ⟨.lockRead i,rfl,by simp [step,phase,writer]⟩
    | reading key => exact ⟨.look i,rfl,look i key phase⟩
    | missed key =>
      cases readers : s.readers with
      | nil => exact ⟨.lockWrite i,rfl,by simp [step,phase,writer,readers]⟩
      | cons j rest =>
        have reads := (valid.reads j).mpr (by simp [readers])
        cases other : s.phase j with
        | reading key => exact ⟨.look j,rfl,look j key other⟩
        | idle | entering _ | missed _ | writing _ | making _ => simp [other,Phase.reads] at reads
    | writing _ | making _ => simp [phase,Phase.writes] at still

variable [Fintype ι]

def State.rank (s : State ι Key Value Error) : Nat := Family.total Phase.rank s.phase

omit [DecidableEq Key] in
theorem rank_enter (s : State ι Key Value Error) (i : ι) (phase : Phase Key) :
    (s.enter i phase).rank + (s.phase i).rank = s.rank + phase.rank :=
  Family.total_update Phase.rank s.phase i phase

omit [DecidableEq Key] in
theorem rank_enter_lt (s : State ι Key Value Error) (i : ι) (phase : Phase Key)
    (less : phase.rank < (s.phase i).rank) : (s.enter i phase).rank + 1 ≤ s.rank := by
  have := rank_enter s i phase
  omega

theorem step_rank {action : Action ι Key Value Error} (taken : step s action = some t) :
    t.rank + (if action.own then 1 else 0) ≤ s.rank + if action.asks then 4 else 0 := by
  cases action with
  | ask i key =>
    simp only [step] at taken
    split at taken <;> cases taken
    next idle =>
    have entered := rank_enter s i (.entering key)
    simpa [Action.own,Action.asks,idle,Phase.rank] using entered.le
  | lockRead i =>
    simp only [step] at taken
    split at taken <;> cases taken
    next key phase free =>
    exact rank_enter_lt s i (.reading key) (by simp [phase,Phase.rank])
  | look i =>
    simp only [step] at taken
    split at taken
    · next key phase =>
      split at taken <;> cases taken
      · exact rank_enter_lt s i .idle (by simp [phase,Phase.rank])
      · exact rank_enter_lt s i (.missed key) (by simp [phase,Phase.rank])
    · cases taken
  | lockWrite i =>
    simp only [step] at taken
    split at taken <;> cases taken
    next key phase free alone =>
    exact rank_enter_lt s i (.writing key) (by simp [phase,Phase.rank])
  | lookAgain i =>
    simp only [step] at taken
    split at taken
    · next key phase =>
      split at taken <;> cases taken
      · exact rank_enter_lt s i .idle (by simp [phase,Phase.rank])
      · exact rank_enter_lt s i (.making key) (by simp [phase,Phase.rank])
    · cases taken
  | make i result =>
    simp only [step] at taken
    split at taken <;> cases taken
    next key phase =>
    have entered := rank_enter s i .idle
    simp only [phase,Phase.rank] at entered
    have same : ((({ s with writer := none }.made key result).returns i
        ⟨key,some result,result⟩)).rank = (s.enter i .idle).rank := by
      cases result <;> rfl
    rw [same]
    exact entered.le

/-- A call takes four steps at most beside its creation, however the threads get in each
other's way. -/
theorem exec_rank {actions : List (Action ι Key Value Error)}
    (run : Machine.exec step s actions = some t) :
    t.rank + actions.countP Action.own ≤ s.rank + 4 * actions.countP Action.asks := by
  induction actions generalizing s with
  | nil =>
    obtain rfl := Option.some.inj run
    simp
  | cons action rest ih =>
    obtain ⟨u,first,later⟩ := Machine.exec_cons_iff.mp run
    have next := ih later
    have here := step_rank first
    have four : (if action.asks then 4 else 0) = 4 * if action.asks then 1 else 0 := by
      split <;> rfl
    rw [List.countP_cons,List.countP_cons]
    omega

end GetOrCreate
