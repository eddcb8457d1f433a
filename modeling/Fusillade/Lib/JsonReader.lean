import Fusillade.Lib.Binary64
import Fusillade.Lib.CodeUnits
import Fusillade.Lib.Machine

/-! `JSON.parse` on code units, as a machine with a stack of the arrays and objects that are open, and
the strings of `JSON.stringify`, which it reads back. Numbers are kept as they are written. -/
namespace JsonReader

open CodeUnits Machine

inductive Value where
  | null
  | bool (value : Bool)
  | number (literal : Text)
  | string (text : Text)
  | array (elements : List Value)
  | object (members : List (Text × Value))

/-- The property of an object: of two members with one key the later one counts. -/
def Value.property (key : Text) : Value → Option Value
  | .object members => (members.reverse.find? fun member => member.1 == key).map Prod.snd
  | _ => none

def isDigit (c : Nat) : Bool := code '0' ≤ c && c ≤ code '9'

def digits (text : Text) : Nat := text.foldl (fun n c => n * 10 + (c - code '0')) 0

/-- What a number says, but for its sign. -/
def magnitude (literal : Text) : ℚ :=
  let unsigned := literal.dropWhile (· == code '-')
  let mantissa := unsigned.takeWhile fun c => c != code 'e' && c != code 'E'
  let power := unsigned.drop (mantissa.length + 1)
  let whole := mantissa.takeWhile (· != code '.')
  let fraction := mantissa.drop (whole.length + 1)
  let exponent : ℤ :=
    if power.head? = some (code '-') then -digits power.tail
    else if power.head? = some (code '+') then digits power.tail
    else digits power
  digits (whole ++ fraction) * 10 ^ (exponent - fraction.length)

/-- Whether a condition takes the value for true. Numbers are doubles. -/
def Value.truthy : Value → Bool
  | .null => false
  | .bool value => value
  | .number literal => Binary64.round (magnitude literal) != some 0
  | .string text => !text.isEmpty
  | .array _ | .object _ => true

def hexDigit (c : Nat) : Option Nat :=
  if isDigit c then some (c - code '0')
  else if code 'a' ≤ c ∧ c ≤ code 'f' then some (c - code 'a' + 10)
  else if code 'A' ≤ c ∧ c ≤ code 'F' then some (c - code 'A' + 10)
  else none

/-- How far a number has been read. -/
inductive Numeral where
  | minus
  | zero
  | whole
  | point
  | fraction
  | exponent
  | sign
  | power
  deriving DecidableEq

namespace Numeral

def fractional (c : Nat) : Option Numeral :=
  if c = code '.' then some .point else if c = code 'e' ∨ c = code 'E' then some .exponent else none

def next (n : Numeral) (c : Nat) : Option Numeral :=
  match n with
  | .minus => if c = code '0' then some .zero else if isDigit c then some .whole else none
  | .zero => fractional c
  | .whole => if isDigit c then some .whole else fractional c
  | .point => if isDigit c then some .fraction else none
  | .fraction =>
    if isDigit c then some .fraction else if c = code 'e' ∨ c = code 'E' then some .exponent else none
  | .exponent =>
    if c = code '+' ∨ c = code '-' then some .sign else if isDigit c then some .power else none
  | .sign | .power => if isDigit c then some .power else none

def complete (n : Numeral) : Bool := n == .zero || n == .whole || n == .fraction || n == .power

end Numeral

inductive Escape where
  | none
  | started
  /-- How many digits follow after the next one, and the number so far. -/
  | hex (later number : Nat)

inductive Mode where
  /-- Before a value, or the end of an empty array. -/
  | value (empty : Bool)
  /-- Before a key, or the end of an empty object. -/
  | key (empty : Bool)
  | colon
  | after
  | string (isKey : Bool) (read : Text) (escape : Escape)
  | number (read : Text) (state : Numeral)
  /-- The letters that are left of a word. -/
  | word (value : Value) (letters : Text)

inductive Frame where
  | array (elements : List Value)
  /-- The members so far, and the key of the next one. -/
  | object (members : List (Text × Value)) (key : Text)

structure State where
  stack : List Frame
  mode : Mode
  result : Option Value

namespace State

def start : State := ⟨[],.value false,none⟩

def blank (c : Nat) : Bool := c == code ' ' || c == code '\t' || c == code '\n' || c == code '\r'

/-- A value is complete. -/
def give (s : State) (v : Value) : State :=
  match s.stack with
  | [] => ⟨[],.after,some v⟩
  | .array elements :: rest => ⟨.array (elements ++ [v]) :: rest,.after,s.result⟩
  | .object members key :: rest => ⟨.object (members ++ [(key,v)]) key :: rest,.after,s.result⟩

def afterValue (s : State) (c : Nat) : Option State :=
  if blank c then some { s with mode := .after }
  else match s.stack with
    | [] => none
    | .array elements :: rest =>
      if c = code ',' then some { s with mode := .value false }
      else if c = code ']' then some (give { s with stack := rest } (.array elements))
      else none
    | .object members _ :: rest =>
      if c = code ',' then some { s with mode := .key false }
      else if c = code '\x7d' then some (give { s with stack := rest } (.object members))
      else none

def beforeValue (s : State) (empty : Bool) (c : Nat) : Option State :=
  if blank c then some s
  else if c = code '"' then some { s with mode := .string false [] .none }
  else if c = code '\x7b' then some { s with stack := .object [] [] :: s.stack, mode := .key true }
  else if c = code '[' then some { s with stack := .array [] :: s.stack, mode := .value true }
  else if c = code ']' then if empty then afterValue s c else none
  else if c = code '-' then some { s with mode := .number [c] .minus }
  else if c = code '0' then some { s with mode := .number [c] .zero }
  else if isDigit c then some { s with mode := .number [c] .whole }
  else if c = code 't' then some { s with mode := .word (.bool true) (ascii "rue") }
  else if c = code 'f' then some { s with mode := .word (.bool false) (ascii "alse") }
  else if c = code 'n' then some { s with mode := .word .null (ascii "ull") }
  else none

/-- The end of a string: the key of a member, or a value. -/
def close (s : State) (isKey : Bool) (text : Text) : Option State :=
  if isKey then
    match s.stack with
    | .object members _ :: rest => some { s with stack := .object members text :: rest, mode := .colon }
    | _ => none
  else some (s.give (.string text))

/-- The escapes of one character. -/
def single (c : Nat) : Option Nat :=
  if c = code '"' ∨ c = code '\\' ∨ c = code '/' then some c
  else if c = code 'b' then some 8
  else if c = code 'f' then some 12
  else if c = code 'n' then some 10
  else if c = code 'r' then some 13
  else if c = code 't' then some 9
  else none

def inString (s : State) (isKey : Bool) (read : Text) (escape : Escape) (c : Nat) : Option State :=
  match escape with
  | .none =>
    if c = code '"' then s.close isKey read
    else if c = code '\\' then some { s with mode := .string isKey read .started }
    else if c < 0x20 then none
    else some { s with mode := .string isKey (read ++ [c]) .none }
  | .started =>
    if c = code 'u' then some { s with mode := .string isKey read (.hex 3 0) }
    else (single c).map fun unit => { s with mode := .string isKey (read ++ [unit]) .none }
  | .hex later number => (hexDigit c).map fun d =>
    match later with
    | 0 => { s with mode := .string isKey (read ++ [number * 16 + d]) .none }
    | later + 1 => { s with mode := .string isKey read (.hex later (number * 16 + d)) }

def step (s : State) (c : Nat) : Option State :=
  match s.mode with
  | .value empty => s.beforeValue empty c
  | .key empty =>
    if blank c then some s
    else if c = code '"' then some { s with mode := .string true [] .none }
    else if c = code '\x7d' ∧ empty = true then s.afterValue c
    else none
  | .colon => if blank c then some s else if c = code ':' then some { s with mode := .value false } else none
  | .after => s.afterValue c
  | .string isKey read escape => s.inString isKey read escape c
  | .number read state =>
    match state.next c with
    | some state => some { s with mode := .number (read ++ [c]) state }
    | none => if state.complete then (s.give (.number read)).afterValue c else none
  | .word value letters =>
    match letters with
    | [] => none
    | [l] => if c = l then some (s.give value) else none
    | l :: more => if c = l then some { s with mode := .word value more } else none

def finish (s : State) : Option Value :=
  match s.mode with
  | .after => if s.stack.isEmpty then s.result else none
  | .number read state => if s.stack.isEmpty && state.complete then some (.number read) else none
  | _ => none

end State

/-- `JSON.parse`, which none stands for a syntax error of. -/
def parse (text : Text) : Option Value := (exec State.step .start text).bind State.finish

section

def hexUnit (d : Nat) : Nat := if d < 10 then code '0' + d else code 'a' + (d - 10)

def isHigh (c : Nat) : Bool := 0xD800 ≤ c && c < 0xDC00

def isLow (c : Nat) : Bool := 0xDC00 ≤ c && c < 0xE000

/-- A code unit that belongs to no pair of surrogates. -/
def escapeUnit (c : Nat) : Text :=
  if c = code '"' ∨ c = code '\\' then [code '\\',c]
  else if c = 8 then [code '\\',code 'b']
  else if c = 12 then [code '\\',code 'f']
  else if c = 10 then [code '\\',code 'n']
  else if c = 13 then [code '\\',code 'r']
  else if c = 9 then [code '\\',code 't']
  else if c < 0x20 ∨ isHigh c ∨ isLow c then
    [code '\\',code 'u',hexUnit (c / 4096),hexUnit (c / 256 % 16),hexUnit (c / 16 % 16),hexUnit (c % 16)]
  else [c]

/-- A string of `JSON.stringify` between its quotes. -/
def escape : Text → Text
  | [] => []
  | [c] => escapeUnit c
  | c :: d :: rest => if isHigh c ∧ isLow d then c :: d :: escape rest else escapeUnit c ++ escape (d :: rest)

def quote (text : Text) : Text := code '"' :: (escape text ++ [code '"'])

end

section

variable {stack : List Frame} {result : Option Value} {isKey : Bool} {read : Text}

theorem hexDigit_hexUnit {d : Nat} (digit : d < 16) : hexDigit (hexUnit d) = some d := by
  have all : ∀ d : Fin 16, hexDigit (hexUnit d) = some d.val := by decide
  exact all ⟨d,digit⟩

theorem exec_raw {c : Nat} (quote : c ≠ code '"') (backslash : c ≠ code '\\') (control : ¬c < 0x20) :
    exec State.step ⟨stack,.string isKey read .none,result⟩ [c] =
      some ⟨stack,.string isKey (read ++ [c]) .none,result⟩ := by
  simp only [exec,State.step,State.inString,if_neg quote,if_neg backslash,if_neg control]
  rfl

theorem exec_hex {a b c d : Nat} (first : a < 16) (second : b < 16) (third : c < 16) (fourth : d < 16) :
    exec State.step ⟨stack,.string isKey read .none,result⟩
        [code '\\',code 'u',hexUnit a,hexUnit b,hexUnit c,hexUnit d] =
      some ⟨stack,.string isKey (read ++ [((a * 16 + b) * 16 + c) * 16 + d]) .none,result⟩ := by
  have opened (rest : Text) :
      exec State.step ⟨stack,.string isKey read .none,result⟩ (code '\\' :: code 'u' :: rest) =
        exec State.step ⟨stack,.string isKey read (.hex 3 0),result⟩ rest := rfl
  rw [opened]
  simp [exec_cons,State.step,State.inString,hexDigit_hexUnit,first,second,third,fourth]

theorem exec_escapeUnit (c : Nat) : exec State.step ⟨stack,.string isKey read .none,result⟩ (escapeUnit c) =
    some ⟨stack,.string isKey (read ++ [c]) .none,result⟩ := by
  unfold escapeUnit
  split_ifs with special back feed line carriage tab coded
  · rcases special with rfl | rfl <;> rfl
  · subst back; rfl
  · subst feed; rfl
  · subst line; rfl
  · subst carriage; rfl
  · subst tab; rfl
  · have bound : c < 65536 := by
      simp only [isHigh,isLow,Bool.and_eq_true,decide_eq_true_eq] at coded
      omega
    rw [exec_hex (by omega) (by omega) (by omega) (by omega)]
    congr 5
    omega
  · push Not at special coded
    exact exec_raw special.1 special.2 (by omega)

/-- Every text comes back from its escapes. -/
theorem exec_escape (text : Text) : exec State.step ⟨stack,.string isKey read .none,result⟩ (escape text) =
    some ⟨stack,.string isKey (read ++ text) .none,result⟩ := by
  induction text using escape.induct generalizing read with
  | case1 => simp [escape]
  | case2 c => exact exec_escapeUnit c
  | case3 c d rest pair ih =>
    have raw (e : Nat) (high : 0xD800 ≤ e) (read : Text) :
        exec State.step ⟨stack,.string isKey read .none,result⟩ [e] =
          some ⟨stack,.string isKey (read ++ [e]) .none,result⟩ :=
      exec_raw (fun same => absurd (same ▸ high) (by decide)) (fun same => absurd (same ▸ high) (by decide)) (by omega)
    obtain ⟨first,second⟩ := pair
    simp only [isHigh,isLow,Bool.and_eq_true,decide_eq_true_eq] at first second
    have split : c :: d :: escape rest = [c] ++ ([d] ++ escape rest) := rfl
    rw [escape,if_pos ⟨by simpa [isHigh] using first,by simpa [isLow] using second⟩,split,exec_append,
      raw c first.1,Option.bind_some,exec_append,raw d (by omega),Option.bind_some,ih]
    simp
  | case4 c d rest lone ih =>
    rw [escape,if_neg lone,exec_append,exec_escapeUnit,Option.bind_some,ih]
    simp

/-- A string where a value is expected. -/
theorem exec_quote (empty : Bool) (text rest : Text) :
    exec State.step ⟨stack,.value empty,result⟩ (quote text ++ rest) =
      exec State.step (State.give ⟨stack,.after,result⟩ (.string text)) rest := by
  have opened (more : Text) : exec State.step ⟨stack,.value empty,result⟩ (code '"' :: more) =
      exec State.step ⟨stack,.string false [] .none,result⟩ more := rfl
  rw [quote,List.cons_append,opened,List.append_assoc,exec_append,exec_escape,Option.bind_some]
  cases stack with
  | nil => rfl
  | cons frame stack => cases frame <;> rfl

end

end JsonReader
