import Fusillade.Engine.CommandLine

/-! The keys of the terminal interface: the three modes of its input and the commands they
send. A key finds the cells that the interface shares with the run as they are at the time. -/
namespace Fusillade.Tui.Input

open Engine CommandLine

inductive KeyCode where
  | char (c : Char)
  | enter
  | esc
  | backspace
  | up
  | down
  | other
  deriving DecidableEq

/-- `control` is whether the modifiers have CONTROL. -/
structure KeyEvent where
  code : KeyCode
  control : Bool := false
  deriving DecidableEq

inductive InputMode where
  | normal
  | rampInput (text : Text)
  | tagInput (text : Text)
  deriving DecidableEq

structure ControlState where
  paused : Bool
  targetWorkers : Nat

structure App where
  inputMode : InputMode := .normal
  endpointScroll : Nat := 0
  /-- What went into the channel. -/
  sent : List ControlCommand := []
  deriving DecidableEq

def App.send (app : App) (command : ControlCommand) : App := { app with sent := app.sent ++ [command] }

/-- Whether the key quits, and the state after it. The sum is one of `usize`, which wraps. -/
def handleNormalKey (app : App) (state : ControlState) (key : KeyEvent) : Bool × App :=
  match key.code with
  | .esc => (true,app.send .stop)
  | .char c =>
    if c = 'q' then (true,app.send .stop)
    else if c = 'c' ∧ key.control = true then (true,app.send .stop)
    else if c = 'p' then (false,app.send (if state.paused then .resume else .pause))
    else if c = 's' then (false,app.send .stop)
    else if c = '+' ∨ c = '=' then (false,app.send (.ramp ((state.targetWorkers + 10) % 2^64)))
    else if c = '-' then (false,app.send (.ramp (max (state.targetWorkers - 10) 1)))
    else if c = 'r' then (false,{ app with inputMode := .rampInput [] })
    else if c = 'a' then (false,app.send (.ramp 0))
    else if c = 't' then (false,{ app with inputMode := .tagInput [] })
    else (false,app)
  | .up => (false,{ app with endpointScroll := app.endpointScroll - 1 })
  | .down => (false,{ app with endpointScroll := app.endpointScroll + 1 })
  | .enter | .backspace | .other => (false,app)

def handleRampKey (app : App) (text : Text) (key : KeyEvent) : App :=
  match key.code with
  | .esc => { app with inputMode := .normal }
  | .enter =>
    let app := match parseU64 text with
      | some n => app.send (.ramp n)
      | none => app
    { app with inputMode := .normal }
  | .char c => if c.isDigit then { app with inputMode := .rampInput (text ++ [c]) } else app
  | .backspace => { app with inputMode := .rampInput text.dropLast }
  | .up | .down | .other => app

def handleTagKey (app : App) (text : Text) (key : KeyEvent) : App :=
  match key.code with
  | .esc => { app with inputMode := .normal }
  | .enter =>
    let app := match splitEquals text with
      | some (k,v) => app.send (.tag k v)
      | none => app
    { app with inputMode := .normal }
  | .char c => { app with inputMode := .tagInput (text ++ [c]) }
  | .backspace => { app with inputMode := .tagInput text.dropLast }
  | .up | .down | .other => app

def handleKey (app : App) (state : ControlState) (key : KeyEvent) : Bool × App :=
  match app.inputMode with
  | .normal => handleNormalKey app state key
  | .rampInput text => (false,handleRampKey app text key)
  | .tagInput text => (false,handleTagKey app text key)

/-- A press of a key, with the cells at the time. -/
abbrev Press := ControlState × KeyEvent

def run : App → List Press → Bool × App
  | app, [] => (false,app)
  | app, (state,key) :: rest =>
    match handleKey app state key with
    | (true,app) => (true,app)
    | (false,app) => run app rest

inductive KeyEventKind where
  | press
  | release
  | repeat
  deriving DecidableEq

/-- A round of the loop of `run_tui`: what `poll` and `read` came to, none for an event that is
no key and where none came in time, and whether the run has stopped at its end. -/
structure Round where
  event : Option (KeyEventKind × KeyEvent)
  state : ControlState
  stopped : Bool := false

/-- Where the loop is: at its next round, or left for a key or for the end of the run. -/
inductive Exit where
  | none
  | key
  | stopped
  deriving DecidableEq

/-- Releases and repeats are passed over. -/
def Round.press (round : Round) : Option Press :=
  match round.event with
  | some (.press,key) => some (round.state,key)
  | _ => none

/-- Whether the round breaks out of the loop for a key, and the state after it. -/
def Round.handle (round : Round) (app : App) : Bool × App :=
  match round.press with
  | some (state,key) => handleKey app state key
  | none => (false,app)

/-- The loop of `run_tui`. Drawing, the snapshots that it draws and errors of the terminal are left
out. -/
def runTui : App → List Round → Exit × App
  | app, [] => (.none,app)
  | app, round :: rest =>
    match round.handle app with
    | (true,app) => (.key,app)
    | (false,app) => if round.stopped then (.stopped,app) else runTui app rest

/-- The presses up to the round that finds the run stopped. -/
def heard : List Round → List Press
  | [] => []
  | round :: rest => round.press.toList ++ if round.stopped then [] else heard rest

inductive Prompt where
  | ramp
  | tag
  deriving DecidableEq

def Prompt.takes : Prompt → Char → Bool
  | ramp, c => c.isDigit
  | tag, _ => true

def Prompt.command : Prompt → Text → Option ControlCommand
  | ramp, text => (parseU64 text).map .ramp
  | tag, text => (splitEquals text).map fun (k,v) => .tag k v

def Prompt.mode : Prompt → Text → InputMode
  | ramp => .rampInput
  | tag => .tagInput

def Prompt.edit (prompt : Prompt) (text : Text) : KeyCode → Text
  | .char c => if prompt.takes c then text ++ [c] else text
  | .backspace => text.dropLast
  | _ => text

def Prompt.typed (prompt : Prompt) (presses : List Press) : Text :=
  presses.foldl (fun text press => prompt.edit text press.2.code) []

def Press.closes (press : Press) : Bool := press.2.code = .enter ∨ press.2.code = .esc

def KeyEvent.opens (key : KeyEvent) : Option Prompt :=
  if key.code = .char 'r' then some .ramp
  else if key.code = .char 't' then some .tag
  else none

def KeyEvent.quits (key : KeyEvent) : Bool :=
  key.code = .esc ∨ key.code = .char 'q' ∨ key.code = .char 'c' ∧ key.control

def KeyEvent.sends (key : KeyEvent) (state : ControlState) : Option ControlCommand :=
  match key.code with
  | .char c =>
    if c = 'p' then some (if state.paused then .resume else .pause)
    else if c = 's' then some .stop
    else if c = '+' ∨ c = '=' then some (.ramp ((state.targetWorkers + 10) % 2^64))
    else if c = '-' then some (.ramp (max (state.targetWorkers - 10) 1))
    else if c = 'a' then some (.ramp 0)
    else none
  | _ => none

/-- The commands of a session: keys that act at once, and prompts with their answers, of which
one that is abandoned or never closed sends nothing. -/
def session : List Press → List ControlCommand
  | [] => []
  | (state,key) :: rest =>
    if key.quits then [.stop]
    else match key.opens with
      | some prompt =>
        let typed := prompt.typed (rest.takeWhile (!·.closes))
        let left := rest.dropWhile (!·.closes)
        (match left.head? with
          | some (_,⟨.enter,_⟩) => (prompt.command typed).toList
          | _ => []) ++ session left.tail
      | none => (key.sends state).toList ++ session rest
termination_by presses => presses.length
decreasing_by
  · have short := (List.dropWhile_suffix (fun press : Press => !press.closes) (l := rest)).length_le
    simp only [List.length_tail,List.length_cons]
    omega
  · simp

variable {app : App} {state : ControlState} {key : KeyEvent} {prompt : Prompt} {text : Text}
  {presses body rest : List Press}

theorem handleNormalKey_quits (quits : key.quits = true) :
    handleNormalKey app state key = (true,app.send .stop) := by
  obtain ⟨code,control⟩ := key
  cases code with
  | char c =>
    simp only [KeyEvent.quits,reduceCtorEq,KeyCode.char.injEq,false_or,decide_eq_true_eq] at quits
    rcases quits with rfl | ⟨rfl,control⟩
    · simp [handleNormalKey]
    · simp [handleNormalKey,control]
  | esc => rfl
  | enter | backspace | up | down | other => simp [KeyEvent.quits] at quits

theorem handleNormalKey_opens (opens : key.opens = some prompt) :
    handleNormalKey app state key = (false,{ app with inputMode := prompt.mode [] }) := by
  obtain ⟨code,control⟩ := key
  simp only [KeyEvent.opens] at opens
  split at opens
  next here =>
    obtain rfl : code = .char 'r' := here
    cases opens
    simp [handleNormalKey,Prompt.mode]
  next =>
    split at opens
    next here =>
      obtain rfl : code = .char 't' := here
      cases opens
      simp [handleNormalKey,Prompt.mode]
    next => cases opens

theorem handleNormalKey_sends (stays : key.quits = false) (opens : key.opens = none) :
    ∃ after, handleNormalKey app state key = (false,after) ∧ after.inputMode = app.inputMode ∧
      after.sent = app.sent ++ (key.sends state).toList := by
  obtain ⟨code,control⟩ := key
  cases code with
  | char c =>
    simp only [KeyEvent.quits,reduceCtorEq,KeyCode.char.injEq,false_or,decide_eq_false_iff_not,
      not_or] at stays
    have ramp : c ≠ 'r' := by
      rintro rfl
      simp [KeyEvent.opens] at opens
    have tag : c ≠ 't' := by
      rintro rfl
      simp [KeyEvent.opens] at opens
    simp only [handleNormalKey,KeyEvent.sends,if_neg stays.1,if_neg stays.2,if_neg ramp,if_neg tag]
    split_ifs <;> exact ⟨_,rfl,rfl,by simp [App.send]⟩
  | esc => simp [KeyEvent.quits] at stays
  | enter | backspace | up | down | other => exact ⟨_,rfl,rfl,by simp [KeyEvent.sends]⟩

theorem handleKey_prompt (unclosed : Press.closes (state,key) = false) :
    handleKey { app with inputMode := prompt.mode text } state key =
      (false,{ app with inputMode := prompt.mode (prompt.edit text key.code) }) := by
  obtain ⟨code,control⟩ := key
  cases code with
  | enter | esc => simp [Press.closes] at unclosed
  | char c =>
    cases prompt with
    | ramp =>
      change (false,if c.isDigit then _ else _) =
        (false,{ app with inputMode := .rampInput (if c.isDigit then text ++ [c] else text) })
      split <;> rfl
    | tag => rfl
  | backspace | up | down | other => cases prompt <;> rfl

theorem handleKey_enter (control : Bool) :
    handleKey { app with inputMode := prompt.mode text } state ⟨.enter,control⟩ =
      (false,{ app with inputMode := .normal, sent := app.sent ++ (prompt.command text).toList }) := by
  cases prompt with
  | ramp =>
    simp only [handleKey,Prompt.mode,handleRampKey,Prompt.command]
    cases parseU64 text <;> simp [App.send]
  | tag =>
    simp only [handleKey,Prompt.mode,handleTagKey,Prompt.command]
    cases splitEquals text <;> simp [App.send]

theorem handleKey_esc (control : Bool) :
    handleKey { app with inputMode := prompt.mode text } state ⟨.esc,control⟩ =
      (false,{ app with inputMode := .normal }) := by
  cases prompt <;> rfl

theorem run_body (unclosed : ∀ press ∈ body, Press.closes press = false) (rest : List Press) :
    run { app with inputMode := prompt.mode text } (body ++ rest) =
      run { app with
        inputMode := prompt.mode (body.foldl (fun text press => prompt.edit text press.2.code) text) }
        rest := by
  induction body generalizing text with
  | nil => rfl
  | cons press body ih =>
    obtain ⟨here,later⟩ := List.forall_mem_cons.mp unclosed
    obtain ⟨state,key⟩ := press
    simp only [List.cons_append,run,handleKey_prompt here,List.foldl_cons]
    exact ih later

theorem run_prompt (app : App) (prompt : Prompt) (presses : List Press) :
    run { app with inputMode := prompt.mode [] } presses =
      match presses.dropWhile (!·.closes) with
      | [] => (false,{ app with inputMode := prompt.mode (prompt.typed presses) })
      | (_,key) :: later =>
        run { app with
          inputMode := .normal
          sent := app.sent ++
            if key.code = .enter then (prompt.command (prompt.typed (presses.takeWhile (!·.closes)))).toList
            else [] } later := by
  have unclosed : ∀ press ∈ presses.takeWhile (!·.closes), Press.closes press = false := by
    intro press member
    simpa using List.mem_takeWhile_imp member
  have split := List.takeWhile_append_dropWhile (p := fun press : Press => !press.closes) (l := presses)
  cases left : presses.dropWhile (!·.closes) with
  | nil =>
    rw [left,List.append_nil] at split
    rw [split] at unclosed
    have whole := @run_body app prompt [] _ unclosed []
    rw [List.append_nil] at whole
    rw [whole]
    rfl
  | cons last later =>
    obtain ⟨state,code,control⟩ := last
    have closes : Press.closes (state,⟨code,control⟩) = true := by
      have head := List.head?_dropWhile_not (fun press : Press => !press.closes) presses
      simpa [left] using head
    rw [left] at split
    conv_lhs => rw [← split]
    rw [run_body unclosed]
    simp only [Press.closes,decide_eq_true_eq] at closes
    rcases closes with rfl | rfl
    · simp only [run,handleKey_enter,if_true]
      rfl
    · simp only [run,handleKey_esc,reduceCtorEq,if_false,List.append_nil]

theorem run_normal (n : Nat) : ∀ presses : List Press, presses.length ≤ n → ∀ app : App,
    app.inputMode = .normal → (run app presses).2.sent = app.sent ++ session presses ∧
      ((run app presses).1 = true → (session presses).getLast? = some .stop) := by
  induction n with
  | zero =>
    intro presses short app _
    obtain rfl := List.length_eq_zero_iff.mp (Nat.le_zero.mp short)
    simp [run,session]
  | succ n ih =>
    intro presses short app normal
    cases presses with
    | nil => simp [run,session]
    | cons press rest =>
      obtain ⟨state,key⟩ := press
      have fits : rest.length ≤ n := Nat.le_of_succ_le_succ short
      have direct : handleKey app state key = handleNormalKey app state key := by
        simp [handleKey,normal]
      cases quits : key.quits with
      | true =>
        rw [run,direct,handleNormalKey_quits quits,session,if_pos quits]
        simp [App.send]
      | false =>
        cases opens : key.opens with
        | none =>
          obtain ⟨after,taken,mode,sent⟩ := @handleNormalKey_sends app state key quits opens
          obtain ⟨same,last⟩ := ih rest fits after (mode.trans normal)
          rw [run,direct,taken,session,if_neg (by simp [quits]),opens]
          refine ⟨by rw [same,sent,List.append_assoc],fun done => ?_⟩
          rw [List.getLast?_append,last done,Option.some_or]
        | some prompt =>
          rw [run,direct,handleNormalKey_opens opens,session,if_neg (by simp [quits]),opens]
          simp only [run_prompt]
          cases left : rest.dropWhile (!·.closes) with
          | nil => simp [session]
          | cons closing later =>
            obtain ⟨state',code,control⟩ := closing
            have shorter : later.length ≤ n := by
              have suffix := (List.dropWhile_suffix (fun press : Press => !press.closes) (l := rest)).length_le
              simp only [left,List.length_cons] at suffix
              omega
            obtain ⟨same,last⟩ := ih later shorter { app with
              inputMode := .normal
              sent := app.sent ++ if code = .enter then
                (prompt.command (prompt.typed (rest.takeWhile (!·.closes)))).toList else [] } rfl
            dsimp only at same
            simp only [List.head?_cons,List.tail_cons]
            refine ⟨?_,fun done => ?_⟩
            · rw [same,List.append_assoc]
              cases code <;> simp
            · rw [List.getLast?_append,last done,Option.some_or]

/-- The loop is a run over the presses among its rounds. -/
theorem runTui_heard (app : App) (rounds : List Round) :
    (runTui app rounds).2 = (run app (heard rounds)).2 ∧
      ((runTui app rounds).1 = .key ↔ (run app (heard rounds)).1 = true) ∧
      ((runTui app rounds).1 = .stopped → ∃ round ∈ rounds, round.stopped = true) := by
  induction rounds generalizing app with
  | nil => simp [runTui,run,heard]
  | cons round rest ih =>
    have continues (app : App) : let after := if round.stopped then (Exit.stopped,app) else runTui app rest
        let later := run app (if round.stopped then [] else heard rest)
        after.2 = later.2 ∧ (after.1 = .key ↔ later.1 = true) ∧
          (after.1 = .stopped → ∃ other ∈ round :: rest, other.stopped = true) := by
      cases stopped : round.stopped with
      | true => simp [run,stopped]
      | false =>
        obtain ⟨same,quits,ended⟩ := ih app
        exact ⟨same,quits,fun left => (ended left).imp fun other => .imp_left (List.mem_cons_of_mem _)⟩
    rw [runTui,heard,Round.handle]
    cases press : round.press with
    | none => exact continues app
    | some pressed =>
      obtain ⟨state,key⟩ := pressed
      rw [Option.toList_some,List.singleton_append,run]
      dsimp only
      cases taken : handleKey app state key with
      | mk quits after =>
        cases quits with
        | true => simp
        | false => exact continues after

/-- What the loop sends, key by key, is what the session of its presses says, prompt by prompt;
releases and repeats are no presses, a key that it quits with sends a `Stop`, and otherwise it
ends when the run has stopped. -/
theorem runTui_session (rounds : List Round) :
    (runTui {} rounds).2.sent = session (heard rounds) ∧
      ((runTui {} rounds).1 = .key → (session (heard rounds)).getLast? = some .stop) ∧
      ((runTui {} rounds).1 = .stopped → ∃ round ∈ rounds, round.stopped = true) := by
  obtain ⟨same,quits,stopped⟩ := runTui_heard {} rounds
  obtain ⟨sent,last⟩ := run_normal _ (heard rounds) (Nat.le_refl _) {} rfl
  refine ⟨?_,fun key => last (quits.mp key),stopped⟩
  rw [same,sent]
  rfl

/-- In a prompt CONTROL and `c` type a letter. -/
example : (run {} ([⟨.char 't',false⟩,⟨.char 'c',true⟩,⟨.char '=',false⟩,⟨.enter,false⟩].map (⟨false,1⟩,·))).2.sent =
    [.tag ['c'] []] := by decide

def Typeable : ControlCommand → Prop
  | .ramp workers => workers < 2^64
  | .tag key _ => '=' ∉ key
  | .pause | .resume | .stop => True
  | .status => False

def characters (text : Text) : List KeyEvent := text.map fun c => ⟨.char c,false⟩

def keysFor : ControlCommand → List KeyEvent
  | .ramp workers => ⟨.char 'r',false⟩ :: characters (Decimal.nat workers) ++ [⟨.enter,false⟩]
  | .tag key value => ⟨.char 't',false⟩ :: characters (key ++ '=' :: value) ++ [⟨.enter,false⟩]
  | .pause | .resume => [⟨.char 'p',false⟩]
  | .stop => [⟨.char 's',false⟩]
  | .status => []

def pressed (state : ControlState) (keys : List KeyEvent) : List Press := keys.map (state,·)

theorem run_answer (state : ControlState) (opens : key.opens = some prompt)
    (taken : ∀ c ∈ text, prompt.takes c = true) :
    run {} (pressed state (key :: characters text ++ [⟨.enter,false⟩])) =
      (false,{ sent := (prompt.command text).toList }) := by
  have unclosed : ∀ press ∈ pressed state (characters text), Press.closes press = false := by
    intro press member
    obtain ⟨_,inside,rfl⟩ := List.mem_map.mp member
    obtain ⟨c,-,rfl⟩ := List.mem_map.mp inside
    simp [Press.closes]
  have typed (before : Text) : (pressed state (characters text)).foldl
      (fun text press => prompt.edit text press.2.code) before = before ++ text := by
    induction text generalizing before with
    | nil => simp [pressed,characters]
    | cons c text ih =>
      obtain ⟨here,later⟩ := List.forall_mem_cons.mp taken
      have rest := ih later (fun press member => unclosed press (List.mem_cons_of_mem _ member)) (before ++ [c])
      have grown : prompt.edit before (.char c) = before ++ [c] := if_pos here
      change (pressed state (characters text)).foldl _ (prompt.edit before (.char c)) = _
      rw [grown,rest,List.append_assoc,List.singleton_append]
  have split : pressed state (key :: characters text ++ [⟨.enter,false⟩]) =
      (state,key) :: (pressed state (characters text) ++ [(state,⟨.enter,false⟩)]) := by
    simp [pressed]
  have direct : handleKey {} state key = handleNormalKey {} state key := rfl
  have body := @run_body {} prompt [] _ unclosed [(state,⟨.enter,false⟩)]
  have closed := @handleKey_enter {} state prompt text false
  rw [typed,List.nil_append,run,closed] at body
  rw [split,run,direct,handleNormalKey_opens opens]
  exact body

theorem run_keysFor {command : ControlCommand} (typeable : Typeable command) (state : ControlState)
    (pause : command = .pause → state.paused = false) (resume : command = .resume → state.paused = true) :
    (run {} (pressed state (keysFor command))).2.sent = [command] := by
  cases command with
  | ramp workers =>
    have digits : ∀ c ∈ Decimal.nat workers, Prompt.takes .ramp c = true := fun c member =>
      Nat.isDigit_of_mem_toDigits (by decide) (by decide) member
    rw [keysFor,run_answer state (by decide) digits]
    simp [Prompt.command,parseU64_nat typeable]
  | tag key value =>
    rw [keysFor,run_answer state (show KeyEvent.opens _ = some .tag by decide) fun _ _ => rfl]
    simp [Prompt.command,splitEquals_eq_some.mpr ⟨rfl,typeable⟩]
  | pause => simp [keysFor,pressed,run,handleKey,handleNormalKey,App.send,pause]
  | resume => simp [keysFor,pressed,run,handleKey,handleNormalKey,App.send,resume]
  | stop => rfl
  | status => cases typeable

theorem sends_typeable (fits : state.targetWorkers < 2^64) :
    ∀ command ∈ key.sends state, Typeable command := by
  intro command sent
  unfold KeyEvent.sends at sent
  split at sent
  · split_ifs at sent <;> cases sent
    · trivial
    · trivial
    · trivial
    · exact Nat.mod_lt _ (by decide)
    · show max (state.targetWorkers - 10) 1 < 2^64
      omega
    · exact Nat.two_pow_pos 64
  · cases sent

theorem command_typeable : ∀ command ∈ prompt.command text, Typeable command := by
  intro command read
  cases prompt with
  | ramp =>
    obtain ⟨n,number,rfl⟩ := Option.map_eq_some_iff.mp read
    obtain ⟨-,-,-,-,-,fits⟩ := Utils.parseU64_digits number
    exact fits
  | tag =>
    obtain ⟨⟨k,v⟩,cut,rfl⟩ := Option.map_eq_some_iff.mp read
    exact (splitEquals_eq_some.mp cut).2

theorem handleKey_typeable (fits : state.targetWorkers < 2^64) {command : ControlCommand}
    (member : command ∈ (handleKey app state key).2.sent) : command ∈ app.sent ∨ Typeable command := by
  have prompted (prompt : Prompt) (text : Text) (mode : app.inputMode = prompt.mode text) :
      command ∈ app.sent ∨ Typeable command := by
    have same : app = { app with inputMode := prompt.mode text } := by rw [← mode]
    obtain ⟨code,control⟩ := key
    rw [same] at member
    by_cases enter : code = .enter
    · rw [enter,handleKey_enter] at member
      rcases List.mem_append.mp member with before | now
      · exact .inl before
      · exact .inr (command_typeable command (Option.mem_toList.mp now))
    · by_cases esc : code = .esc
      · rw [esc,handleKey_esc] at member
        exact .inl member
      · rw [handleKey_prompt (by simp [Press.closes,enter,esc])] at member
        exact .inl member
  cases mode : app.inputMode with
  | rampInput text => exact prompted .ramp text mode
  | tagInput text => exact prompted .tag text mode
  | normal =>
    have direct : handleKey app state key = handleNormalKey app state key := by simp [handleKey,mode]
    rw [direct] at member
    cases quits : key.quits with
    | true =>
      rw [handleNormalKey_quits quits] at member
      rcases List.mem_append.mp member with before | now
      · exact .inl before
      · obtain rfl := List.mem_singleton.mp now
        exact .inr trivial
    | false =>
      cases opens : key.opens with
      | some prompt =>
        rw [handleNormalKey_opens opens] at member
        exact .inl member
      | none =>
        obtain ⟨after,taken,-,sent⟩ := @handleNormalKey_sends app state key quits opens
        rw [taken,sent] at member
        exact (List.mem_append.mp member).imp_right fun now =>
          sends_typeable fits command (Option.mem_toList.mp now)

theorem run_typeable {command : ControlCommand} (fits : ∀ press ∈ presses, press.1.targetWorkers < 2^64)
    (member : command ∈ (run app presses).2.sent) : command ∈ app.sent ∨ Typeable command := by
  induction presses generalizing app with
  | nil => exact .inl member
  | cons press rest ih =>
    obtain ⟨state,key⟩ := press
    obtain ⟨here,later⟩ := List.forall_mem_cons.mp fits
    have step := @handleKey_typeable app state key here command
    rw [run] at member
    split at member
    next after taken => exact step (taken ▸ member)
    next after taken =>
      rcases ih later member with before | typeable
      · exact step (taken ▸ before)
      · exact .inr typeable

/-- The keys send the commands whose numbers are a `usize` and whose tags have no equals sign in
the key, and no others but for `status`: all that the console sends, and tags with white space. -/
theorem tui_commands (command : ControlCommand) :
    ((∃ presses : List Press, (∀ press ∈ presses, press.1.targetWorkers < 2^64) ∧
        command ∈ (run {} presses).2.sent) ↔ Typeable command) ∧
      ∀ input, parseControlCommand input = some command → command = .status ∨
        ∃ state, (run {} (pressed state (keysFor command))).2.sent = [command] := by
  have typed (typeable : Typeable command) :
      (run {} (pressed ⟨command = .resume,1⟩ (keysFor command))).2.sent = [command] :=
    run_keysFor typeable _ (by rintro rfl; rfl) (by rintro rfl; rfl)
  refine ⟨⟨?_,fun typeable => ⟨_,?_,by rw [typed typeable]; exact List.mem_singleton_self _⟩⟩,?_⟩
  · rintro ⟨presses,fits,member⟩
    exact (run_typeable fits member).resolve_left nofun
  · intro press member
    obtain ⟨_,-,rfl⟩ := List.mem_map.mp member
    exact Nat.one_lt_two_pow (by decide)
  · intro input parsed
    have sendable := sendable_of_parse parsed
    cases command with
    | status => exact .inl rfl
    | ramp | pause | resume | stop => exact .inr ⟨_,typed sendable⟩
    | tag key value => exact .inr ⟨_,typed sendable.1⟩

end Fusillade.Tui.Input
