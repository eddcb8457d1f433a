import Fusillade.Lib.Machine
import Mathlib.Data.List.Induction

/-! The command loop of a connected worker. Every `StartTest` runs in the background with a
control channel of its own, and all of them share one slot for the sender of that channel. -/
namespace Fusillade.Engine.WorkerControl

inductive ControlCommand where
  | stop
  deriving DecidableEq

/-- A test runs, has returned and dropped its receiver, or has also cleared the slot. -/
inductive Phase where
  | running
  | returned
  | completed
  deriving DecidableEq

structure Test where
  phase : Phase
  /-- What has been sent on its control channel. -/
  sent : List ControlCommand
  deriving DecidableEq

/-- Tests are numbered in the order of their starts; the slot holds the number of the test
whose sender it has. -/
structure State where
  tests : List Test
  controlTx : Option Nat
  deriving DecidableEq

inductive Action where
  | startTest
  | stopTest
  | returns (test : Nat)
  | clear (test : Nat)
  deriving DecidableEq

def initial : State := ⟨[],none⟩

/-- A send on a channel without a receiver fails, and the failure is ignored. -/
def Test.send (command : ControlCommand) (test : Test) : Test :=
  if test.phase = .running then { test with sent := test.sent ++ [command] } else test

def step (s : State) : Action → Option State
  | .startTest => some ⟨s.tests ++ [⟨.running,[]⟩],some s.tests.length⟩
  | .stopTest =>
    match s.controlTx with
    | some test => some { s with tests := s.tests.modify test (Test.send .stop) }
    | none => some s
  | .returns test =>
    match s.tests[test]? with
    | some ⟨.running,sent⟩ => some { s with tests := s.tests.set test ⟨.returned,sent⟩ }
    | _ => none
  | .clear test =>
    match s.tests[test]? with
    | some ⟨.returned,sent⟩ => some ⟨s.tests.set test ⟨.completed,sent⟩,none⟩
    | _ => none

def Running (s : State) (test : Nat) : Prop := ∃ sent, s.tests[test]? = some ⟨.running,sent⟩

/-- A processed `StopTest` puts a stop on the channel of every test that is running. -/
def StopDelivered (s t : State) : Prop :=
  ∀ (test : Nat) (sent : List ControlCommand), s.tests[test]? = some ⟨.running,sent⟩ →
    ∃ after, t.tests[test]? = some after ∧ after.sent = sent ++ [.stop]

def Action.Quiet (a : Action) : Prop := a ≠ .startTest ∧ ∀ test, a ≠ .clear test

/-- Since the start of this test no other was started and none cleared the slot. -/
def Undisturbed (actions : List Action) (test : Nat) : Prop :=
  ∃ before after, actions = before ++ .startTest :: after ∧ before.count .startTest = test ∧
    ∀ a ∈ after, a.Quiet

variable {s t : State} {actions : List Action}

theorem snoc_split {before rest : List Action} {a last : Action}
    (split : actions ++ [a] = before ++ .startTest :: rest.concat last) :
    actions = before ++ .startTest :: rest ∧ a = last := by
  rw [List.concat_eq_append,← List.cons_append,← List.append_assoc] at split
  simpa using List.append_inj' split rfl

theorem undisturbed_start (test : Nat) :
    Undisturbed (actions ++ [.startTest]) test ↔ actions.count .startTest = test := by
  constructor
  · rintro ⟨before,after,split,count,quiet⟩
    rcases List.eq_nil_or_concat after with rfl | ⟨rest,last,rfl⟩
    · obtain ⟨rfl,_⟩ := List.append_inj' split rfl
      exact count
    · exact absurd (snoc_split split).2.symm (quiet last (by simp)).1
  · exact fun count => ⟨actions,[],rfl,count,by simp⟩

theorem undisturbed_quiet {a : Action} (quiet : a.Quiet) (test : Nat) :
    Undisturbed (actions ++ [a]) test ↔ Undisturbed actions test := by
  constructor
  · rintro ⟨before,after,split,count,quietAfter⟩
    rcases List.eq_nil_or_concat after with rfl | ⟨rest,last,rfl⟩
    · exact absurd (List.cons.inj (List.append_inj' split rfl).2).1 quiet.1
    · exact ⟨before,rest,(snoc_split split).1,count,fun b member => quietAfter b (by simp [member])⟩
  · rintro ⟨before,after,rfl,count,quietAfter⟩
    refine ⟨before,after ++ [a],by simp,count,?_⟩
    intro b member
    rcases List.mem_append.mp member with old | new
    · exact quietAfter b old
    · rwa [List.mem_singleton.mp new]

theorem undisturbed_clear (test other : Nat) : ¬Undisturbed (actions ++ [.clear other]) test := by
  rintro ⟨before,after,split,_,quiet⟩
  rcases List.eq_nil_or_concat after with rfl | ⟨rest,last,rfl⟩
  · simpa using (List.append_inj' split rfl).2
  · exact (quiet last (by simp)).2 other (snoc_split split).2.symm

/-- The slot remembers the last start that nothing has overwritten or cleared. -/
structure SlotHolds (s : State) (actions : List Action) : Prop where
  started : s.tests.length = actions.count .startTest
  slot : ∀ test, s.controlTx = some test ↔ Undisturbed actions test

theorem slot_holds (run : Machine.exec step initial actions = some s) : SlotHolds s actions := by
  induction actions using List.reverseRecOn generalizing s with
  | nil =>
    obtain rfl := Option.some.inj run
    exact ⟨rfl,fun test => by simp [initial,Undisturbed]⟩
  | append_singleton before a ih =>
    obtain ⟨u,earlier,taken⟩ := Machine.exec_snoc_iff.mp run
    obtain ⟨started,slot⟩ := ih earlier
    cases a with
    | startTest =>
      obtain rfl := Option.some.inj taken
      refine ⟨by simp [started],?_⟩
      intro test
      rw [undisturbed_start,← started]
      exact Option.some_inj
    | stopTest =>
      have quiet : Action.stopTest.Quiet := ⟨by simp,by simp⟩
      simp only [step] at taken
      split at taken <;> obtain rfl := Option.some.inj taken <;>
        exact ⟨by simp [started],fun test => (slot test).trans (undisturbed_quiet quiet test).symm⟩
    | returns test =>
      have quiet : (Action.returns test).Quiet := ⟨by simp,by simp⟩
      simp only [step] at taken
      split at taken
      next =>
        obtain rfl := Option.some.inj taken
        exact ⟨by simp [started],fun test => (slot test).trans (undisturbed_quiet quiet test).symm⟩
      next => contradiction
    | clear test =>
      simp only [step] at taken
      split at taken
      next =>
        obtain rfl := Option.some.inj taken
        exact ⟨by simp [started],fun other => by simp [undisturbed_clear]⟩
      next => contradiction

theorem stop_delivered_iff_slot (taken : step s .stopTest = some t) :
    StopDelivered s t ↔ ∀ test, Running s test → s.controlTx = some test := by
  constructor
  · rintro delivered test ⟨sent,running⟩
    obtain ⟨after,found,more⟩ := delivered test sent running
    by_contra elsewhere
    have same : t.tests[test]? = s.tests[test]? := by
      simp only [step] at taken
      split at taken
      next other held =>
        obtain rfl := Option.some.inj taken
        have apart : other ≠ test := fun same => elsewhere (same ▸ held)
        simp [apart]
      next => obtain rfl := Option.some.inj taken; rfl
    rw [same,running] at found
    obtain rfl := Option.some.inj found
    simp at more
  · intro held test sent running
    have slot := held test ⟨sent,running⟩
    simp only [step,slot,Option.some.injEq] at taken
    subst taken
    refine ⟨⟨.running,sent ++ [.stop]⟩,?_,rfl⟩
    simp [running,Test.send]

/-- A stop reaches every running test exactly when, since the start of each of them, no
other test has been started and none has ended. -/
theorem stop_delivered_iff (run : Machine.exec step initial actions = some s)
    (stopping : step s .stopTest = some t) :
    StopDelivered s t ↔ ∀ test, Running s test → Undisturbed actions test := by
  rw [stop_delivered_iff_slot stopping]
  exact forall₂_congr fun test _ => (slot_holds run).slot test

theorem overwritten_test_not_stopped :
    ∃ s t, Machine.exec step initial [.startTest,.startTest] = some s ∧
      step s .stopTest = some t ∧ ¬StopDelivered s t := by
  refine ⟨_,_,rfl,rfl,?_⟩
  intro delivered
  obtain ⟨after,found,more⟩ := delivered 0 [] rfl
  obtain rfl := Option.some.inj found
  exact absurd more (by decide)

theorem only_test_stopped :
    ∃ s t, Machine.exec step initial [.startTest] = some s ∧
      step s .stopTest = some t ∧ StopDelivered s t := by
  have run : Machine.exec step initial [.startTest] = some ⟨[⟨.running,[]⟩],some 0⟩ := rfl
  refine ⟨_,_,run,rfl,(stop_delivered_iff run rfl).mpr ?_⟩
  intro test running
  obtain ⟨sent,found⟩ := running
  cases test with
  | zero => exact ⟨[],[],rfl,rfl,by simp⟩
  | succ test => simp at found

end Fusillade.Engine.WorkerControl
