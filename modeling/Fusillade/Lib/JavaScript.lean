import Fusillade.Lib.StringLiteral

/-! The tokens of ECMAScript modules without regular expressions, templates and names beyond
ASCII, and texts put together from pieces of which each is read on its own. Characters may be
marked as data, which must stay inside a string literal or a comment. -/
namespace JavaScript

inductive Token where
  | word (text : List Char)
  | number (text : List Char)
  | string (value : List Nat)
  | punct (c : Char)
  /-- A line break outside a literal. -/
  | line
  deriving DecidableEq

inductive Mode where
  /-- Between two tokens. -/
  | code
  | word (text : List Char)
  | number (text : List Char)
  /-- After a slash. -/
  | slash
  | comment
  /-- In a comment of any length, after a star or not, with a line break in it or not. -/
  | block (star broken : Bool)
  | string (l : Literal)
  deriving DecidableEq

/-- A mode in which data does no harm. -/
def Mode.inside : Mode → Bool
  | .comment | .block .. | .string _ => true
  | .code | .word _ | .number _ | .slash => false

structure Lexer where
  tokens : List Token := []
  mode : Mode := .code
  deriving DecidableEq

def isLineTerminator (c : Char) : Bool := c ∈ ['\n','\r','\u2028','\u2029']

def isWhiteSpace (c : Char) : Bool :=
  c ∈ ['\t','\x0b','\x0c',' ','\u00a0','\ufeff','\u1680','\u202f','\u205f','\u3000'] ||
    (0x2000 ≤ c.toNat && c.toNat ≤ 0x200a)

def isNameStart (c : Char) : Bool := c.isAlpha || c = '_' || c = '$'

def isPunctuator (c : Char) : Bool := c ∈ "\x7b\x7d()[];,:.+-*=<>!&|^~?%".toList

namespace Lexer

def emit (s : Lexer) (token : Token) : Lexer := ⟨s.tokens ++ [token],.code⟩

def start (s : Lexer) (c : Char) : Option Lexer :=
  if isLineTerminator c then some (s.emit .line)
  else if isWhiteSpace c then some { s with mode := .code }
  else if isNameStart c then some { s with mode := .word [c] }
  else if c.isDigit then some { s with mode := .number [c] }
  else if c = '\'' ∨ c = '"' then some { s with mode := .string { quote := c } }
  else if c = '/' then some { s with mode := .slash }
  else if isPunctuator c then some (s.emit (.punct c))
  else none

/-- A number goes on with digits, a point, an exponent and its sign. -/
def continuesNumber (text : List Char) (c : Char) : Bool :=
  c.isDigit || c = '.' || c = 'e' || c = 'E' ||
    ((c = '+' || c = '-') && (text.getLast? = some 'e' || text.getLast? = some 'E'))

def step (s : Lexer) (c : Char) : Option Lexer :=
  match s.mode with
  | .code => s.start c
  | .word text =>
    if isNameStart c || c.isDigit then some { s with mode := .word (text ++ [c]) }
    else (s.emit (.word text)).start c
  | .number text =>
    if continuesNumber text c then some { s with mode := .number (text ++ [c]) }
    else if isNameStart c then none
    else (s.emit (.number text)).start c
  | .slash =>
    if c = '/' then some { s with mode := .comment }
    else if c = '*' then some { s with mode := .block false false }
    else none
  | .comment => some (if isLineTerminator c then s.emit .line else s)
  | .block star broken =>
    if star && c = '/' then some (if broken then s.emit .line else { s with mode := .code })
    else some { s with mode := .block (c = '*') (broken || isLineTerminator c) }
  | .string l =>
    match l.next c with
    | none => none
    | some none => some (s.emit (.string l.value))
    | some (some l) => some { s with mode := .string l }

def mark (s : Lexer) (c : Char × Bool) : Option Lexer := (s.step c.1).filter fun t => !c.2 || t.mode.inside

def run (s : Lexer) (text : List (Char × Bool)) : Option Lexer := text.foldlM mark s

def finish (s : Lexer) : Option (List Token) :=
  match s.mode with
  | .code | .comment => some s.tokens
  | .word text => some (s.tokens ++ [.word text])
  | .number text => some (s.tokens ++ [.number text])
  | .slash | .block .. | .string _ => none

end Lexer

def code (text : List Char) : List (Char × Bool) := text.map (·,false)

def data (text : List Char) : List (Char × Bool) := text.map (·,true)

def erase (text : List (Char × Bool)) : List Char := text.map Prod.fst

def lexFrom (s : Lexer) (text : List (Char × Bool)) : Option (List Token) := (s.run text).bind Lexer.finish

def lexMarked (text : List (Char × Bool)) : Option (List Token) := lexFrom {} text

def lex (text : List Char) : Option (List Token) := lexMarked (code text)

namespace Lexer

variable {s t : Lexer} {text rest : List (Char × Bool)}

def after (tokens : List Token) (s : Lexer) : Lexer := { s with tokens := tokens ++ s.tokens }

theorem emit_after (tokens : List Token) (s : Lexer) (token : Token) :
    (s.after tokens).emit token = (s.emit token).after tokens := by
  simp [emit,after]

theorem start_after (tokens : List Token) (s : Lexer) (c : Char) :
    (s.after tokens).start c = (s.start c).map (after tokens) := by
  unfold start
  rw [emit_after,emit_after]
  split_ifs <;> rfl

theorem step_after (tokens : List Token) (s : Lexer) (c : Char) :
    (s.after tokens).step c = (s.step c).map (after tokens) := by
  have mode : (s.after tokens).mode = s.mode := rfl
  unfold step
  rw [mode]
  split
  · exact start_after tokens s c
  · rw [emit_after,start_after]
    split_ifs <;> rfl
  · rw [emit_after,start_after]
    split_ifs <;> rfl
  · split_ifs <;> rfl
  · rw [emit_after]
    split_ifs <;> rfl
  · rw [emit_after]
    split_ifs <;> rfl
  · rw [emit_after]
    split <;> rfl

theorem run_after (tokens : List Token) (s : Lexer) (text : List (Char × Bool)) :
    (s.after tokens).run text = (s.run text).map (after tokens) := by
  induction text generalizing s with
  | nil => rfl
  | cons c text ih =>
    have stepped : (s.after tokens).mark c = (s.mark c).map (after tokens) := by
      rw [mark,mark,step_after]
      cases s.step c.1 with
      | none => rfl
      | some t =>
        rw [Option.map_some,Option.filter_some,Option.filter_some]
        split <;> simp_all [after]
    rw [run,run,List.foldlM_cons,List.foldlM_cons,stepped]
    cases s.mark c with
    | none => rfl
    | some t => exact ih t

theorem run_append (s : Lexer) (text rest : List (Char × Bool)) :
    s.run (text ++ rest) = (s.run text).bind fun t => t.run rest := List.foldlM_append

theorem run_cons (s : Lexer) (c : Char × Bool) (rest : List (Char × Bool)) :
    s.run (c :: rest) = (s.mark c).bind fun t => t.run rest := rfl

theorem finish_after (tokens : List Token) (s : Lexer) : (s.after tokens).finish = s.finish.map (tokens ++ ·) := by
  have mode : (s.after tokens).mode = s.mode := rfl
  unfold finish
  rw [mode]
  split <;> simp [after]

/-- Text without marks is read whenever the marked text is. -/
theorem run_erase (read : s.run text = some t) : s.run (code (erase text)) = some t := by
  induction text generalizing s with
  | nil => exact read
  | cons c text ih =>
    rw [run_cons] at read
    obtain ⟨u,stepped,later⟩ := Option.bind_eq_some_iff.mp read
    have unmarked : s.mark (c.1,false) = some u := by
      rw [mark,(Option.filter_eq_some_iff.mp stepped).1]
      rfl
    have shape : code (erase (c :: text)) = (c.1,false) :: code (erase text) := rfl
    rw [shape,run_cons,unmarked,Option.bind_some]
    exact ih later

theorem step_string {tokens : List Token} {l u : Literal} {c : Char} (continued : l.next c = some (some u)) :
    step ⟨tokens,.string l⟩ c = some ⟨tokens,.string u⟩ := by
  simp only [step,continued]

theorem step_string_end {tokens : List Token} {l : Literal} {c : Char} (ends : l.next c = some none) :
    step ⟨tokens,.string l⟩ c = some ⟨tokens ++ [.string l.value],.code⟩ := by
  simp only [step,ends]
  rfl

theorem run_literal (tokens : List Token) {l u : Literal} {text : List Char} (continued : l.run text = some u)
    (marked : Bool) :
    run ⟨tokens,.string l⟩ (text.map (·,marked)) = some ⟨tokens,.string u⟩ := by
  induction text generalizing l with
  | nil =>
    obtain rfl := Option.some.inj continued
    rfl
  | cons c text ih =>
    rw [Literal.run_cons] at continued
    obtain ⟨v,here,later⟩ := Option.bind_eq_some_iff.mp continued
    have stepped : mark ⟨tokens,.string l⟩ (c,marked) = some ⟨tokens,.string v⟩ := by
      rw [mark,step_string (Literal.join_eq_some.mp here)]
      simp [Option.filter_some,Mode.inside]
    rw [List.map_cons,run_cons,stepped,Option.bind_some]
    exact ih later

theorem run_error {tokens : List Token} {l u : Literal} {text : List Char} {c : Char} (continued : l.run text = some u)
    (error : u.next c = none) (marked : Bool) (rest : List (Char × Bool)) :
    run ⟨tokens,.string l⟩ (text.map (·,marked) ++ (c,marked) :: rest) = none := by
  have stuck : mark ⟨tokens,.string u⟩ (c,marked) = none := by
    have nothing : step ⟨tokens,.string u⟩ c = none := by simp only [step,error]
    rw [mark,nothing]
    rfl
  rw [run_append,run_literal tokens continued,Option.bind_some,run_cons,stuck]
  rfl

theorem run_quote (tokens : List Token) {l : Literal} (outside : l.escape = .none) (rest : List (Char × Bool)) :
    run ⟨tokens,.string l⟩ ((l.quote,false) :: rest) = run ⟨tokens ++ [.string l.value],.code⟩ rest := by
  have ends : l.next l.quote = some none := by simp [Literal.next,outside,Literal.plain]
  have stepped : mark ⟨tokens,.string l⟩ (l.quote,false) = some ⟨tokens ++ [.string l.value],.code⟩ := by
    rw [mark,step_string_end ends]
    rfl
  rw [run_cons,stepped,Option.bind_some]

end Lexer

theorem lexFrom_after (tokens : List Token) (s : Lexer) (text : List (Char × Bool)) :
    lexFrom (s.after tokens) text = (lexFrom s text).map (tokens ++ ·) := by
  rw [lexFrom,lexFrom,Lexer.run_after]
  cases s.run text with
  | none => rfl
  | some t => exact Lexer.finish_after tokens t

/-- Two texts that are read from the start of a token to the end of one, one after the other. -/
theorem run_pieces {a b : List (Char × Bool)} {first second : List Token}
    (here : ({} : Lexer).run a = some ⟨first,.code⟩) (later : ({} : Lexer).run b = some ⟨second,.code⟩) :
    ({} : Lexer).run (a ++ b) = some ⟨first ++ second,.code⟩ := by
  have shifted : (⟨first,.code⟩ : Lexer) = Lexer.after first {} := by simp [Lexer.after]
  rw [Lexer.run_append,here,Option.bind_some,shifted,Lexer.run_after,later]
  rfl

theorem lexFrom_append {text : List (Char × Bool)} {tokens : List Token}
    (read : ({} : Lexer).run text = some ⟨tokens,.code⟩) (rest : List (Char × Bool)) :
    lexFrom {} (text ++ rest) = (lexFrom {} rest).map (tokens ++ ·) := by
  have shifted : (⟨tokens,.code⟩ : Lexer) = Lexer.after tokens {} := by simp [Lexer.after]
  rw [← lexFrom_after,← shifted,lexFrom,Lexer.run_append,read]
  rfl

theorem lexFrom_erase {s : Lexer} {text : List (Char × Bool)} {tokens : List Token}
    (read : lexFrom s text = some tokens) : lexFrom s (code (erase text)) = some tokens := by
  obtain ⟨t,ran,finished⟩ := Option.bind_eq_some_iff.mp read
  rw [lexFrom,Lexer.run_erase ran]
  exact finished

/-- A literal that is read to its end has taken the text up to a quote. -/
theorem string_closes {l : Literal} {text : List Char} {tokens : List Token}
    (read : lexFrom ⟨[],.string l⟩ (code text) = some tokens) :
    ∃ before rest u, text = before ++ l.quote :: rest ∧ l.run before = some u ∧ [.string u.value] <+: tokens := by
  induction text generalizing l with
  | nil => cases read
  | cons c text ih =>
    obtain ⟨t,ran,finished⟩ := Option.bind_eq_some_iff.mp read
    have shape : code (c :: text) = (c,false) :: code text := rfl
    rw [shape,Lexer.run_cons] at ran
    obtain ⟨s,stepped,later⟩ := Option.bind_eq_some_iff.mp ran
    have stepped := (Option.filter_eq_some_iff.mp stepped).1
    rcases next : l.next c with _ | _ | v
    · simp [Lexer.step,next] at stepped
    · rw [Lexer.step_string_end next] at stepped
      obtain rfl := Option.some.inj stepped
      refine ⟨[],text,l,by rw [Literal.next_end next]; rfl,rfl,?_⟩
      have rest : lexFrom (Lexer.after [.string l.value] {}) (code text) = some tokens := by
        rw [lexFrom]
        exact later ▸ finished
      rw [lexFrom_after] at rest
      obtain ⟨_,-,rfl⟩ := Option.map_eq_some_iff.mp rest
      exact List.prefix_append _ _
    · rw [Lexer.step_string next] at stepped
      obtain rfl := Option.some.inj stepped
      have rest : lexFrom ⟨[],.string v⟩ (code text) = some tokens := by
        rw [lexFrom,later]
        exact finished
      obtain ⟨before,after,u,rfl,inside,first⟩ := ih rest
      have kept := (Literal.next_value next).1
      refine ⟨c :: before,after,u,by rw [kept]; rfl,?_,first⟩
      rw [Literal.run_cons,next]
      exact inside

/-- Text between single quotes as it is: it is read as itself only when nothing in it is special. -/
theorem plain_of_read {text rest : List Char} {tokens : List Token}
    (read : lexFrom ⟨[],.string { quote := '\'' }⟩ (code (text ++ '\'' :: rest)) = some tokens)
    (same : [.string (textUnits text)] <+: tokens) : Plain '\'' text := by
  obtain ⟨before,after,u,cut,inside,first⟩ := string_closes read
  have value : u.value = textUnits text := by
    have heads := List.prefix_of_prefix_length_le first same (Nat.le_refl _)
    simpa using heads.eq_of_length rfl
  rcases List.append_eq_append_iff.mp cut with ⟨more,rfl,tail⟩ | ⟨more,rfl,tail⟩
  · cases more with
    | nil =>
      rw [List.append_nil] at inside
      by_contra special
      have shorter := Literal.value_length_lt rfl inside special
      simp [value] at shorter
    | cons c more =>
      obtain rfl : '\'' = c := (List.cons.inj tail).1
      have counted := Literal.count_quote rfl inside
      have one : (units '\'').count 39 = 1 := by decide
      rw [value,textUnits_append,List.count_append,textUnits_cons,List.count_append,one] at counted
      omega
  · cases more with
    | nil =>
      by_contra special
      have shorter := Literal.value_length_lt rfl inside (by simpa using special)
      simp [value] at shorter
    | cons c more =>
      have bound := Literal.value_length_le rfl inside
      have positive := units_length_pos c
      rw [value,textUnits_append,textUnits_cons,List.length_append,List.length_append,List.length_nil] at bound
      omega

def word (text : String) : Token := .word text.toList

def string (text : String) : Token := .string (textUnits text.toList)

/-- `path.to.function(argument)` -/
def call (path : List String) (argument : List Token) : List Token :=
  List.intercalate [.punct '.'] (path.map fun name => [word name]) ++ .punct '(' :: argument ++ [.punct ')']

def object (properties : List (List Token)) : List Token :=
  .punct '{' :: .line :: (properties.flatMap (· ++ [.punct ',',.line]) ++ [.punct '}'])

def property (name : Token) (value : List Token) : List Token := name :: .punct ':' :: value

/-- Where an object literal may name its prototype only once. -/
def OnePrototype (names : List String) : Prop := names.count "__proto__" ≤ 1

instance (names : List String) : Decidable (OnePrototype names) := inferInstanceAs (Decidable (_ ≤ 1))

/-- A part of a text from between two tokens to between two others: the tokens it is meant to be,
and what it takes for them to be read. -/
structure Piece where
  text : List (Char × Bool)
  tokens : List Token
  sound : Prop
  read : sound → ({} : Lexer).run text = some ⟨tokens,.code⟩
  sound_of_read : ∀ rest result, lexFrom {} (text ++ rest) = some result → tokens <+: result → sound

/-- A text in pieces is read as the tokens it is meant to be exactly when every piece is sound. -/
theorem lexMarked_pieces (pieces : List Piece) :
    lexMarked (pieces.flatMap Piece.text) = some (pieces.flatMap Piece.tokens) ↔ ∀ p ∈ pieces, p.sound := by
  induction pieces with
  | nil => exact iff_of_true rfl (by simp)
  | cons p pieces ih =>
    rw [List.flatMap_cons,List.flatMap_cons,List.forall_mem_cons,← ih]
    constructor
    · intro read
      have sound := p.sound_of_read _ _ read (List.prefix_append _ _)
      rw [lexMarked,lexFrom_append (p.read sound)] at read
      obtain ⟨rest,later,same⟩ := Option.map_eq_some_iff.mp read
      exact ⟨sound,later.trans (congrArg some (List.append_cancel_left same))⟩
    · rintro ⟨sound,later⟩
      rw [lexMarked] at later
      rw [lexMarked,lexFrom_append (p.read sound),later]
      rfl

theorem code_append (a b : List Char) : code (a ++ b) = code a ++ code b := List.map_append

theorem erase_append (a b : List (Char × Bool)) : erase (a ++ b) = erase a ++ erase b := List.map_append

theorem erase_map (text : List Char) (marked : Bool) : erase (text.map (·,marked)) = text := by
  rw [erase,List.map_map]
  exact List.map_id text

namespace Piece

def fixed (text : List Char) (tokens : List Token) (read : ({} : Lexer).run (code text) = some ⟨tokens,.code⟩) :
    Piece where
  text := code text
  tokens := tokens
  sound := True
  read := fun _ => read
  sound_of_read := fun _ _ _ _ => trivial

def functionEnd : Piece := fixed ['\x7d','\n'] [.punct '\x7d',.line] (by decide)

theorem run_open {quote : Char} (quotes : quote = '\'' ∨ quote = '"') (rest : List (Char × Bool)) :
    ({} : Lexer).run ((quote,false) :: rest) = (⟨[],.string { quote }⟩ : Lexer).run rest := by
  rcases quotes with rfl | rfl <;> rfl

theorem run_closed {quote : Char} (quotes : quote = '\'' ∨ quote = '"') {text value : List Char}
    (read : ({ quote } : Literal).run text = some (({ quote } : Literal).push (textUnits value))) (marked : Bool) :
    ({} : Lexer).run ((quote,false) :: (text.map (·,marked) ++ [(quote,false)])) =
      some ⟨[.string (textUnits value)],.code⟩ := by
  rw [run_open quotes,Lexer.run_append,Lexer.run_literal [] read,Option.bind_some]
  exact Lexer.run_quote [] rfl []

def raw (marked : Bool) (text : List Char) : Piece where
  text := ('\'',false) :: (text.map (·,marked) ++ [('\'',false)])
  tokens := [.string (textUnits text)]
  sound := Plain '\'' text
  read := fun plain => run_closed (.inl rfl) (Literal.run_plain rfl plain) marked
  sound_of_read := by
    intro rest result read same
    rw [lexFrom,List.cons_append,run_open (.inl rfl)] at read
    have unmarked := lexFrom_erase read
    rw [List.append_assoc,erase_append,erase_map] at unmarked
    exact plain_of_read unmarked same

/-- A line break in the text makes the literal an error, whatever comes after it. -/
theorem unbroken_of_read {marked : Bool} {text : List Char} {rest : List (Char × Bool)} {result : List Token}
    (read : lexFrom {} (('\'',false) :: ((Literal.backslashed text).map (·,marked) ++ [('\'',false)]) ++ rest) =
      some result) : Literal.NoBreak text := by
  by_contra broken
  obtain ⟨before,c,after,rfl,unbroken,lineBreak⟩ := Literal.exists_break broken
  have inside := Literal.run_backslashed (l := { quote := '\'' }) rfl rfl unbroken
  have shape : Literal.backslashed (before ++ c :: after) =
      Literal.backslashed before ++ c :: Literal.backslashed after := by
    have ordinary : ¬(c = '\\' ∨ c = '\'') := by rcases lineBreak with rfl | rfl <;> decide
    simp [Literal.backslashed,ordinary]
  have stuck := @Lexer.run_error [] _ _ _ _ inside (Literal.next_break rfl rfl lineBreak) marked
  rw [lexFrom,List.cons_append,run_open (.inl rfl),shape,List.map_append,List.map_cons,List.append_assoc,
    List.append_assoc,List.cons_append,stuck] at read
  cases read

/-- Text in single quotes with a backslash before each of them and each backslash. -/
def backslashed (marked : Bool) (text : List Char) : Piece where
  text := ('\'',false) :: ((Literal.backslashed text).map (·,marked) ++ [('\'',false)])
  tokens := [.string (textUnits text)]
  sound := Literal.NoBreak text
  read := fun unbroken => run_closed (.inl rfl) (Literal.run_backslashed rfl rfl unbroken) marked
  sound_of_read := fun _ _ read _ => unbroken_of_read read

theorem mark_comment (c : Char) :
    Lexer.mark ⟨[],.comment⟩ (c,true) = if isLineTerminator c then none else some ⟨[],.comment⟩ := by
  have stepped : Lexer.step ⟨[],.comment⟩ c = some (if isLineTerminator c then ⟨[.line],.code⟩ else ⟨[],.comment⟩) := rfl
  rw [Lexer.mark,stepped,Option.filter_some]
  split <;> rfl

/-- Data in a comment, which a line break would end. -/
def comment (text : List Char) : Piece where
  text := code "// ".toList ++ (data text ++ code ['\n'])
  tokens := [.line]
  sound := ∀ c ∈ text, isLineTerminator c = false
  read := by
    intro unbroken
    have opened : ({} : Lexer).run (code "// ".toList) = some ⟨[],.comment⟩ := by decide
    have inside : (⟨[],.comment⟩ : Lexer).run (data text) = some ⟨[],.comment⟩ := by
      induction text with
      | nil => rfl
      | cons c text ih =>
        obtain ⟨here,later⟩ := List.forall_mem_cons.mp unbroken
        rw [data,List.map_cons,Lexer.run_cons,mark_comment,here]
        exact ih later
    rw [Lexer.run_append,opened,Option.bind_some,Lexer.run_append,inside]
    rfl
  sound_of_read := by
    intro rest result read _
    have opened : ({} : Lexer).run (code "// ".toList) = some ⟨[],.comment⟩ := by decide
    rw [lexFrom,List.append_assoc,List.append_assoc,Lexer.run_append,opened,Option.bind_some] at read
    obtain ⟨t,ran,-⟩ := Option.bind_eq_some_iff.mp read
    clear read opened
    induction text with
    | nil => simp
    | cons c text ih =>
      have shape : data (c :: text) ++ (code ['\n'] ++ rest) = (c,true) :: (data text ++ (code ['\n'] ++ rest)) := rfl
      rw [shape,Lexer.run_cons] at ran
      obtain ⟨u,stepped,later⟩ := Option.bind_eq_some_iff.mp ran
      rw [mark_comment] at stepped
      split at stepped
      next => cases stepped
      next here =>
        obtain rfl := Option.some.inj stepped
        exact List.forall_mem_cons.mpr ⟨Bool.eq_false_iff.mpr here,ih later⟩

end Piece

end JavaScript
