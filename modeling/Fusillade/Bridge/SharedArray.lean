import Fusillade.Lib.GetOrCreate
import Fusillade.Bridge.SharedCsv
import Fusillade.Lib.Json

/-! `SharedArray` as all workers of a run construct it, in any order and at any time. The engine
of the scripts is a parameter: what a factory returns, and what `JSON.stringify` and
`serde_json::from_str` make of an item. A factory runs with the lock held and is taken to
construct no `SharedArray` itself, which would wait for that lock. -/
namespace Fusillade.Bridge.SharedArray

open GetOrCreate Data

inductive Returned (Item : Type) where
  | array (items : List Item)
  | other

/-- The second argument of the constructor. -/
inductive FactoryVal (Item : Type) where
  | function (result : Except FromJs (Returned Item))
  | other

/-- The engine's `JSON.stringify` of an item as a string, and the parser of its text. -/
structure Engine (Item Value : Type) where
  stringify : Item → Except FromJs String
  fromStr : String → Option Value

variable {Item Value Worker : Type} (engine : Engine Item Value)

def serdeValue (item : Item) : Except FromJs Value := do
  let text ← engine.stringify item
  match engine.fromStr text with
  | some value => .ok value
  | none => .error ⟨"String","JsonValue"⟩

def create : FactoryVal Item → Except FromJs (List Value)
  | .other => .error ⟨"Factory must be a function","TypeError"⟩
  | .function (.error thrown) => .error thrown
  | .function (.ok .other) => .error ⟨"Factory must return an array","TypeError"⟩
  | .function (.ok (.array items)) => items.mapM (serdeValue engine)

abbrev SharedData (Worker Value : Type) := GetOrCreate.State Worker String (List Value) FromJs

inductive Action (Worker Item : Type) where
  | new (worker : Worker) (name : String)
  | lockRead (worker : Worker)
  | look (worker : Worker)
  | lockWrite (worker : Worker)
  | lookAgain (worker : Worker)
  /-- The factory returns. -/
  | create (worker : Worker) (factory : FactoryVal Item)

/-- The steps of a constructor, with what its factory makes the entry of. -/
def Action.call : Action Worker Item → GetOrCreate.Action Worker String (List Value) FromJs
  | .new worker name => .ask worker name
  | .lockRead worker => .lockRead worker
  | .look worker => .look worker
  | .lockWrite worker => .lockWrite worker
  | .lookAgain worker => .lookAgain worker
  | .create worker factory => .make worker (SharedArray.create engine factory)

variable [DecidableEq Worker]

def arrayStep (s : SharedData Worker Value) (action : Action Worker Item) :
    Option (SharedData Worker Value) :=
  GetOrCreate.step s (action.call engine)

def created (result : Except FromJs (List Value)) : Prop := ∃ factory, result = create engine factory

variable {engine} {s : SharedData Worker Value}

theorem exec_arrays {actions : List (Action Worker Item)}
    (run : Machine.exec (arrayStep engine) {} actions = some s) :
    GetOrCreate.Invariant (created engine) s := by
  have same := @Machine.exec_map _ _ GetOrCreate.step _ (Action.call engine) {} actions
  refine GetOrCreate.exec_valid (same.symm.trans run) ?_
  intro action member
  obtain ⟨call,-,rfl⟩ := List.mem_map.mp member
  cases call with
  | create worker factory => exact ⟨factory,rfl⟩
  | new _ _ | lockRead _ | look _ | lockWrite _ | lookAgain _ => trivial

/-- Whatever the workers do at the same time, the constructors are as if each ran alone: one
factory is run to the end for a name, and everyone who gets the array gets what it returned. -/
theorem arrays_atomic {actions : List (Action Worker Item)}
    (run : Machine.exec (arrayStep engine) {} actions = some s) :
    Serial (created engine) s.calls s.entries ∧
      (∀ name, s.calls.countP (Call.creates name) = if (s.entries.lookup name).isSome then 1 else 0) ∧
      (∀ first ∈ s.calls, ∀ second ∈ s.calls, first.key = second.key →
        ∀ a b, first.result = .ok a → second.result = .ok b → a = b) ∧
      ∀ i j, (s.phase i).writes = true → (s.phase j).writes = true → i = j := by
  have valid := exec_arrays run
  refine ⟨valid.serial,valid.serial.once,?_,fun i j => valid.alone⟩
  intro first one second two key a b
  exact valid.serial.agree one two key

def texts : Engine String String := ⟨.ok,some⟩

/-- Two workers that both find nothing; the second has to wait and finds the first one's array. -/
def race : List (Action Bool String) :=
  [.new false "users",.new true "users",.lockRead false,.lockRead true,.look true,.look false,
    .lockWrite false,.lookAgain false,.create false (.function (.ok (.array ["ada","bob"]))),
    .lockWrite true,.lookAgain true]

theorem race_atomic :
    ∃ s : SharedData Bool String, Machine.exec (arrayStep texts) {} race = some s ∧
      s.calls.map Call.result = [.ok ["ada","bob"],.ok ["ada","bob"]] ∧
      s.calls.countP (Call.creates "users") = if (s.entries.lookup "users").isSome then 1 else 0 :=
  ⟨_,rfl,rfl,(@arrays_atomic _ _ _ texts _ _ race rfl).2.1 "users"⟩

/-- The steps of a constructor that is under way, but for what its factory does. -/
def Action.own : Action Worker Item → Bool
  | .new .. | .create .. => false
  | _ => true

def Action.news : Action Worker Item → Bool
  | .new .. => true
  | _ => false

/-- The constructors of all workers come to their end if their factories do: as long as one is
under way some worker can go on, or one is in its factory and goes on with whatever that
returns; and no constructor takes more than four steps beside its factory. -/
theorem constructors_return [Fintype Worker] {actions : List (Action Worker Item)}
    (run : Machine.exec (arrayStep engine) {} actions = some s) :
    actions.countP Action.own ≤ 4 * actions.countP Action.news ∧
      ∀ i, s.phase i ≠ .idle →
        (∃ action : Action Worker Item, action.own = true ∧ (arrayStep engine s action).isSome) ∨
          ∃ j name, s.phase j = .making name ∧
            ∀ factory : FactoryVal Item, (arrayStep engine s (.create j factory)).isSome := by
  have same := @Machine.exec_map _ _ GetOrCreate.step _ (Action.call engine) {} actions
  have counted := GetOrCreate.exec_rank (same.symm.trans run)
  have owns : GetOrCreate.Action.own ∘ Action.call engine =
      (Action.own : Action Worker Item → Bool) := by
    funext action
    cases action <;> rfl
  have news : GetOrCreate.Action.asks ∘ Action.call engine =
      (Action.news : Action Worker Item → Bool) := by
    funext action
    cases action <;> rfl
  refine ⟨?_,?_⟩
  · rw [List.countP_map,List.countP_map,owns,news] at counted
    have start : ({} : SharedData Worker Value).rank = 0 := by
      simp [State.rank,Family.total,Phase.rank]
    omega
  · intro i under
    rcases (exec_arrays run).enabled under with ⟨action,own,enabled⟩ | ⟨j,name,making⟩
    · refine .inl ?_
      cases action with
      | ask j key => cases own
      | lockRead j => exact ⟨.lockRead j,rfl,enabled⟩
      | look j => exact ⟨.look j,rfl,enabled⟩
      | lockWrite j => exact ⟨.lockWrite j,rfl,enabled⟩
      | lookAgain j => exact ⟨.lookAgain j,rfl,enabled⟩
      | make j result => cases own
    · exact .inr ⟨j,name,making,fun factory => by simp [arrayStep,Action.call,step,making]⟩

theorem race_returns :
    ∃ s : SharedData Bool String, Machine.exec (arrayStep texts) {} race = some s ∧
      race.countP Action.own ≤ 4 * race.countP Action.news :=
  ⟨_,rfl,(@constructors_return _ _ _ texts _ _ _ race rfl).1⟩

end Fusillade.Bridge.SharedArray
