import Fusillade.Lib.Machine
import Fusillade.Stats.Metric
import Mathlib.Logic.Function.Basic

/-! The console functions of a script, which look at three cells of the thread they run on:
the log level and the filter, set from the command line on the main thread, and the current
scenario, set where a worker of a scenario starts. -/
namespace Fusillade.Bridge.Console

open Stats Machine

inductive LogLevel where
  | debug
  | info
  | warn
  | error
  deriving DecidableEq, Repr

/-- The numbers of the levels give the derived order. -/
def LogLevel.number : LogLevel → Nat
  | debug => 0
  | info => 1
  | warn => 2
  | error => 3

instance : LE LogLevel := ⟨fun a b => a.number ≤ b.number⟩

instance (a b : LogLevel) : Decidable (a ≤ b) := Nat.decLe a.number b.number

structure Cells where
  logLevel : LogLevel := .info
  logFilter : Option String := none
  currentScenario : Option String := none
  deriving DecidableEq, Repr

def parseLogLevel (text : String) : LogLevel :=
  if text.toLower = "debug" then .debug
  else if text.toLower = "warn" ∨ text.toLower = "warning" then .warn
  else if text.toLower = "error" then .error
  else .info

def filteredScenario (filter : String) : Option String :=
  if "scenario=".toList.isPrefixOf filter.toList
  then some (String.ofList (filter.toList.drop "scenario=".length)) else none

/-- A filter of another form filters nothing. -/
def passesFilter (filter : Option String) (scenario : Option String) : Bool :=
  match filter.bind filteredScenario with
  | some scenarioName => scenario == some scenarioName
  | none => true

def LogLevel.label : LogLevel → String
  | debug => "[DEBUG]"
  | info => ""
  | warn => "[WARN]"
  | error => "[ERROR]"

/-- `log_with_level`, over the arguments as `format_value` prints them. -/
def logWithLevel (cells : Cells) (level : LogLevel) (args : List String) : Option String :=
  if cells.logLevel ≤ level then
    if passesFilter cells.logFilter cells.currentScenario then
      let msg := " ".intercalate args
      some (if level.label = "" then msg else level.label ++ " " ++ msg)
    else none
  else none

inductive Call where
  | log (args : List String)
  | info (args : List String)
  | warn (args : List String)
  | error (args : List String)
  | debug (args : List String)
  /-- With the text that `format_table` makes of the arguments. -/
  | table (output : String)
  deriving DecidableEq, Repr

def Call.level : Call → LogLevel
  | log _ | info _ | table _ => .info
  | warn _ => .warn
  | error _ => .error
  | debug _ => .debug

/-- A table looks at the level and not at the filter. -/
def Call.output (cells : Cells) : Call → Option String
  | log args => logWithLevel cells .info args
  | info args => logWithLevel cells .info args
  | warn args => logWithLevel cells .warn args
  | error args => logWithLevel cells .error args
  | debug args => logWithLevel cells .debug args
  | table output => if cells.logLevel ≤ .info then some output else none

structure Settings where
  logLevel : String
  logFilter : Option String
  tuiActive : Bool
  /-- The scenario of each worker, none in legacy mode. -/
  scenario : Nat → Option String

inductive OsThread where
  | main
  | carrier (n : Nat)
  deriving DecidableEq, Repr

structure Worker where
  started : Bool := false
  /-- The carrier it holds, until it yields. -/
  runsOn : Option Nat := none
  deriving DecidableEq, Repr

structure State where
  cells : OsThread → Cells
  /-- The worker on each carrier. -/
  holder : Nat → Option Nat
  workers : Nat → Worker
  stdout : List String
  metrics : List Metric

/-- `main` has read its flags; the other threads start with fresh cells. -/
def initial (cfg : Settings) : State where
  cells := Function.update (fun _ => {}) .main
    { logLevel := parseLogLevel cfg.logLevel, logFilter := cfg.logFilter }
  holder _ := none
  workers _ := {}
  stdout := []
  metrics := []

inductive Action where
  | start (worker carrier : Nat)
  | console (worker carrier : Nat) (call : Call)
  | yields (worker carrier : Nat)
  deriving DecidableEq, Repr

/-- A worker goes on where it runs or takes a carrier that is free. -/
def mayRun (s : State) (worker carrier : Nat) : Bool :=
  (s.workers worker).started &&
    match (s.workers worker).runsOn with
    | some current => current == carrier
    | none => (s.holder carrier).isNone

def State.hold (s : State) (worker carrier : Nat) : State :=
  { s with
    holder := Function.update s.holder carrier (some worker)
    workers := Function.update s.workers worker ⟨true,some carrier⟩ }

/-- With the terminal interface on, the message is in the metrics only. -/
def State.emit (cfg : Settings) (s : State) : Option String → State
  | some message => { s with
      stdout := if cfg.tuiActive then s.stdout else s.stdout ++ [message]
      metrics := s.metrics ++ [.log message] }
  | none => s

def step (cfg : Settings) (s : State) : Action → Option State
  | .start worker carrier =>
    if (s.workers worker).started = false ∧ s.holder carrier = none then
      let cells := s.cells (.carrier carrier)
      let cells := match cfg.scenario worker with
        | some name => { cells with currentScenario := some name }
        | none => cells
      some { s.hold worker carrier with
        cells := Function.update s.cells (.carrier carrier) cells }
    else none
  | .console worker carrier call =>
    if mayRun s worker carrier then
      some ((s.hold worker carrier).emit cfg (call.output (s.cells (.carrier carrier))))
    else none
  | .yields worker carrier =>
    if (s.workers worker).runsOn = some carrier then
      some { s with
        holder := Function.update s.holder carrier none
        workers := Function.update s.workers worker ⟨true,none⟩ }
    else none

/-- What a call of the worker is to do: its level is configured and the filter takes its
own scenario. -/
def Wanted (cfg : Settings) (worker : Nat) (call : Call) : Prop :=
  parseLogLevel cfg.logLevel ≤ call.level ∧ passesFilter cfg.logFilter (cfg.scenario worker) = true

/-- A console call of the step prints iff it is to. -/
def Prints (cfg : Settings) (s : State) : Action → Prop
  | .console worker carrier call =>
    (call.output (s.cells (.carrier carrier))).isSome ↔ Wanted cfg worker call
  | _ => True

/-- Messages from the level of information up are wanted, and debug messages are not. -/
def Expected (cfg : Settings) : Action → Prop
  | .console worker _ call => .info ≤ call.level ↔ Wanted cfg worker call
  | _ => True

def Fresh (s : State) : Prop :=
  ∀ carrier, (s.cells (.carrier carrier)).logLevel = .info ∧ (s.cells (.carrier carrier)).logFilter = none

variable {cfg : Settings} {s t : State} {a : Action}

theorem initial_fresh (cfg : Settings) : Fresh (initial cfg) := fun _ => ⟨rfl,rfl⟩

theorem fresh_update {cells : Cells} {carrier : Nat} (fresh : Fresh s)
    (same : cells.logLevel = .info ∧ cells.logFilter = none) :
    Fresh { s with cells := Function.update s.cells (.carrier carrier) cells } := by
  intro other
  by_cases here : other = carrier
  · subst here
    simpa using same
  · simpa [here] using fresh other

@[simp] theorem emit_cells (cfg : Settings) (s : State) (message : Option String) :
    (s.emit cfg message).cells = s.cells := by
  cases message <;> rfl

theorem step_fresh (fresh : Fresh s) (taken : step cfg s a = some t) : Fresh t := by
  cases a with
  | start worker carrier =>
    simp only [step,Option.ite_none_right_eq_some,Option.some.injEq] at taken
    obtain ⟨-,rfl⟩ := taken
    apply fresh_update (s := s.hold worker carrier) fresh
    cases cfg.scenario worker <;> exact fresh carrier
  | console worker carrier call =>
    simp only [step,Option.ite_none_right_eq_some,Option.some.injEq] at taken
    obtain ⟨-,rfl⟩ := taken
    intro other
    rw [emit_cells]
    exact fresh other
  | yields worker carrier =>
    simp only [step,Option.ite_none_right_eq_some,Option.some.injEq] at taken
    obtain ⟨-,rfl⟩ := taken
    exact fresh

theorem output_isSome {cells : Cells} (level : cells.logLevel = .info) (filter : cells.logFilter = none)
    (call : Call) : (call.output cells).isSome ↔ .info ≤ call.level := by
  have logged (level' : LogLevel) (args : List String) :
      (logWithLevel cells level' args).isSome ↔ .info ≤ level' := by
    simp only [logWithLevel,level,filter,passesFilter]
    split <;> simp_all
  cases call with
  | table output => simp [Call.output,Call.level,level]
  | _ => exact logged _ _

theorem prints_iff (fresh : Fresh s) (a : Action) : Prints cfg s a ↔ Expected cfg a := by
  cases a with
  | console worker carrier call =>
    exact iff_congr (output_isSome (fresh carrier).1 (fresh carrier).2 call) Iff.rfl
  | _ => exact Iff.rfl

/-- Every console call of a run prints as it is to exactly when the flags ask for what a
carrier does without them. -/
theorem console_iff (cfg : Settings) (actions : List Action) :
    Guarded (step cfg) (Prints cfg) (initial cfg) actions ↔
      Guarded (step cfg) (fun _ => Expected cfg) (initial cfg) actions :=
  guarded_congr Fresh (fun _ _ _ => step_fresh) (fun _ a fresh => prints_iff fresh a)
    (initial_fresh cfg) actions

/-- A login scenario is filtered for errors only, and the log of another one is printed. -/
theorem flags_ignored :
    let cfg : Settings := ⟨"error",some "scenario=login",false,fun _ => some "browse"⟩
    ((exec (step cfg) (initial cfg) [.start 0 0,.console 0 0 (.log ["hello"])]).map State.stdout =
      some ["hello"]) ∧ ¬Wanted cfg 0 (.log ["hello"]) := by
  refine ⟨by decide +kernel,?_⟩
  rintro ⟨level,-⟩
  exact absurd level (by decide +kernel)

end Fusillade.Bridge.Console
