import Fusillade.Lib.JavaScript
import Fusillade.Lib.Json
import Fusillade.Lib.Decimal
import Mathlib.Tactic.FinCases

/-! JSON as text without white space, the way most serializers print it, which is also an
expression of ECMAScript. The text of a string is marked as data. -/
namespace Json

open JavaScript

def hexChar (d : Nat) : Char := if d < 10 then .ofNat (48 + d) else .ofNat (87 + d)

def escapeChar (c : Char) : List Char :=
  if c = '"' ∨ c = '\\' then ['\\',c]
  else if c = '\x08' then ['\\','b']
  else if c = '\x0c' then ['\\','f']
  else if c = '\n' then ['\\','n']
  else if c = '\r' then ['\\','r']
  else if c = '\t' then ['\\','t']
  else if c.toNat < 0x20 then ['\\','u','0','0',hexChar (c.toNat / 16),hexChar (c.toNat % 16)]
  else [c]

def escape (text : List Char) : List Char := text.flatMap escapeChar

theorem hexDigit_hexChar {d : Nat} (digit : d < 16) : hexDigit (hexChar d) = some d := by
  have all : ∀ d : Fin 16, hexDigit (hexChar d) = some d.val := by decide
  exact all ⟨d,digit⟩

section

variable {u : Literal} (quoted : u.quote = '"') (outside : u.escape = .none)

include quoted outside

theorem run_started (rest : List Char) : u.run ('\\' :: rest) = ({ u with escape := .started } : Literal).run rest := by
  have started : u.next '\\' = some (some { u with escape := .started }) := by
    simp [Literal.next,outside,Literal.plain,quoted]
  rw [Literal.run_cons,started]
  rfl

/-- Every character comes back from its escape. -/
theorem run_escapeChar (c : Char) : u.run (escapeChar c) = some (u.push (units c)) := by
  unfold escapeChar
  split_ifs with special back feed line carriage tab control
  · rw [run_started quoted outside]
    rcases special with rfl | rfl <;> rfl
  · rw [run_started quoted outside,back]
    rfl
  · rw [run_started quoted outside,feed]
    rfl
  · rw [run_started quoted outside,line]
    rfl
  · rw [run_started quoted outside,carriage]
    rfl
  · rw [run_started quoted outside,tab]
    rfl
  · have value : units c = [c.toNat / 16 * 16 + c.toNat % 16] := by
      rw [units,codeUnits,if_pos (by omega)]
      congr 1
      omega
    have high := hexDigit_hexChar (d := c.toNat / 16) (by omega)
    have low := hexDigit_hexChar (d := c.toNat % 16) (by omega)
    have opened (rest : List Char) : ({ u with escape := .started } : Literal).run ('u' :: '0' :: '0' :: rest) =
        ({ u with escape := .hex 1 0 } : Literal).run rest := rfl
    rw [run_started quoted outside,opened,Literal.run_cons,Literal.next,high]
    simp [Literal.run_cons,Literal.next,low,value]
    rfl
  · refine Literal.run_plain outside ?_ |>.trans ?_
    · intro d member
      obtain rfl := List.mem_singleton.mp member
      simp_all
    · simp [textUnits]

end

/-- A string in double quotes. -/
def quote (marked : Bool) (text : List Char) : List (Char × Bool) :=
  ('"',false) :: ((escape text).map (·,marked) ++ [('"',false)])

theorem run_escape (text : List Char) :
    ({ quote := '"' } : Literal).run (escape text) = some (({ quote := '"' } : Literal).push (textUnits text)) :=
  Literal.run_encoded (fun c _ _ quoted outside => run_escapeChar quoted outside c) rfl

theorem run_quote (marked : Bool) (text : List Char) :
    ({} : Lexer).run (quote marked text) = some ⟨[.string (textUnits text)],.code⟩ :=
  Piece.run_closed (.inr rfl) (run_escape text) marked

section Values

-- How a number that is no integer is written.
variable (number : ℚ → List Char)

def integer (n : Int) : List Char := if n < 0 then '-' :: Decimal.nat n.natAbs else Decimal.nat n.natAbs

mutual

/-- A value without white space. -/
def print : Json → List (Char × Bool)
  | .null => code "null".toList
  | .bool value => code (if value then "true".toList else "false".toList)
  | .int value => code (integer value)
  | .float value => code (number value)
  | .str text => quote true text.toList
  | .arr values => ('[',false) :: printValues values
  | .obj members => ('\x7b',false) :: printMembers members

/-- The rest of an array. -/
def printValues : List Json → List (Char × Bool)
  | [] => [(']',false)]
  | [value] => print value ++ [(']',false)]
  | value :: next :: rest => print value ++ (',',false) :: printValues (next :: rest)

def printMembers : List (String × Json) → List (Char × Bool)
  | [] => [('\x7d',false)]
  | [(name,value)] => quote true name.toList ++ (':',false) :: (print value ++ [('\x7d',false)])
  | (name,value) :: next :: rest =>
    quote true name.toList ++ (':',false) :: (print value ++ (',',false) :: printMembers (next :: rest))

end

/-- The tokens of a number: ECMAScript takes the sign for an operator. -/
def numberTokens (text : List Char) : List Token :=
  match text with
  | '-' :: rest => [.punct '-',.number rest]
  | _ => [.number text]

mutual

/-- A value as an expression. -/
def tokens : Json → List Token
  | .null => [word "null"]
  | .bool value => [word (if value then "true" else "false")]
  | .int value => numberTokens (integer value)
  | .float value => numberTokens (number value)
  | .str text => [string text]
  | .arr values => .punct '[' :: valueTokens values
  | .obj members => .punct '\x7b' :: memberTokens members

def valueTokens : List Json → List Token
  | [] => [.punct ']']
  | [value] => tokens value ++ [.punct ']']
  | value :: next :: rest => tokens value ++ .punct ',' :: valueTokens (next :: rest)

def memberTokens : List (String × Json) → List Token
  | [] => [.punct '\x7d']
  | [(name,value)] => string name :: .punct ':' :: (tokens value ++ [.punct '\x7d'])
  | (name,value) :: next :: rest =>
    string name :: .punct ':' :: (tokens value ++ .punct ',' :: memberTokens (next :: rest))

end

end Values

section Numbers

def Digits (text : List Char) : Prop := text ≠ [] ∧ ∀ c ∈ text, c.isDigit = true

def Fraction (text : List Char) : Prop := text = [] ∨ ∃ digits, text = '.' :: digits ∧ Digits digits

def Exponent (text : List Char) : Prop :=
  text = [] ∨ ∃ e sign digits, text = e :: (sign ++ digits) ∧ (e = 'e' ∨ e = 'E') ∧
    (sign = [] ∨ sign = ['+'] ∨ sign = ['-']) ∧ Digits digits

/-- The numbers of JSON. -/
def IsNumber (text : List Char) : Prop :=
  ∃ sign whole fraction exponent, text = sign ++ (whole ++ (fraction ++ exponent)) ∧ (sign = [] ∨ sign = ['-']) ∧
    Digits whole ∧ (whole.head? = some '0' → whole = ['0']) ∧ Fraction fraction ∧ Exponent exponent

/-- What may stand right after a value. -/
def Delimiter (c : Char) : Prop := c = ',' ∨ c = ']' ∨ c = '\x7d' ∨ c = ')'

variable {toks : List Token} {before : List Char}

theorem run_continued {c : Char} (continued : Lexer.continuesNumber before c = true) (rest : List (Char × Bool)) :
    (⟨toks,.number before⟩ : Lexer).run ((c,false) :: rest) = (⟨toks,.number (before ++ [c])⟩ : Lexer).run rest := by
  have stepped : Lexer.mark ⟨toks,.number before⟩ (c,false) = some ⟨toks,.number (before ++ [c])⟩ := by
    simp [Lexer.mark,Lexer.step,continued]
  rw [Lexer.run_cons,stepped,Option.bind_some]

theorem run_digits {digits : List Char} (each : ∀ c ∈ digits, c.isDigit = true) (rest : List (Char × Bool)) :
    (⟨toks,.number before⟩ : Lexer).run (code digits ++ rest) =
      (⟨toks,.number (before ++ digits)⟩ : Lexer).run rest := by
  induction digits generalizing before with
  | nil => simp [code]
  | cons c digits ih =>
    obtain ⟨here,later⟩ := List.forall_mem_cons.mp each
    have shape : code (c :: digits) ++ rest = (c,false) :: (code digits ++ rest) := rfl
    rw [shape,run_continued (by simp [Lexer.continuesNumber,here]),ih later,List.append_assoc,List.singleton_append]

theorem run_fraction {fraction : List Char} (read : Fraction fraction) (rest : List (Char × Bool)) :
    (⟨toks,.number before⟩ : Lexer).run (code fraction ++ rest) =
      (⟨toks,.number (before ++ fraction)⟩ : Lexer).run rest := by
  rcases read with rfl | ⟨digits,rfl,each⟩
  · simp [code]
  · have shape : code ('.' :: digits) ++ rest = ('.',false) :: (code digits ++ rest) := rfl
    rw [shape,run_continued (by simp [Lexer.continuesNumber]),run_digits each.2,List.append_assoc,
      List.singleton_append]

theorem run_exponent {exponent : List Char} (read : Exponent exponent) (rest : List (Char × Bool)) :
    (⟨toks,.number before⟩ : Lexer).run (code exponent ++ rest) =
      (⟨toks,.number (before ++ exponent)⟩ : Lexer).run rest := by
  rcases read with rfl | ⟨e,sign,digits,rfl,letter,signs,each⟩
  · simp [code]
  · have shape : code (e :: (sign ++ digits)) ++ rest = (e,false) :: (code sign ++ (code digits ++ rest)) := by
      simp [code]
    have begun : Lexer.continuesNumber before e = true := by
      rcases letter with rfl | rfl <;> simp [Lexer.continuesNumber]
    have signed : (⟨toks,.number (before ++ [e])⟩ : Lexer).run (code sign ++ (code digits ++ rest)) =
        (⟨toks,.number (before ++ [e] ++ sign)⟩ : Lexer).run (code digits ++ rest) := by
      rcases signs with rfl | rfl | rfl
      · simp [code]
      · exact run_continued (by rcases letter with rfl | rfl <;> simp [Lexer.continuesNumber]) _
      · exact run_continued (by rcases letter with rfl | rfl <;> simp [Lexer.continuesNumber]) _
    rw [shape,run_continued begun,signed,run_digits each.2]
    simp

theorem start_delimiter {c : Char} (ends : Delimiter c) (s : Lexer) : s.start c = some (s.emit (.punct c)) := by
  rcases ends with rfl | rfl | rfl | rfl <;> rfl

theorem run_number_end {c : Char} (ends : Delimiter c) :
    (⟨toks,.number before⟩ : Lexer).run [(c,false)] = some ⟨toks ++ [.number before] ++ [.punct c],.code⟩ := by
  have stops : Lexer.continuesNumber before c = false := by
    rcases ends with rfl | rfl | rfl | rfl <;> simp [Lexer.continuesNumber]
  have other : isNameStart c = false := by rcases ends with rfl | rfl | rfl | rfl <;> decide
  have stepped : Lexer.step ⟨toks,.number before⟩ c = some ⟨toks ++ [.number before] ++ [.punct c],.code⟩ := by
    simp only [Lexer.step,stops,other,start_delimiter ends]
    rfl
  rw [Lexer.run_cons,Lexer.mark,stepped]
  rfl

theorem run_delimiter {c : Char} (ends : Delimiter c) : ({} : Lexer).run [(c,false)] = some ⟨[.punct c],.code⟩ := by
  have stepped : Lexer.step {} c = some ⟨[.punct c],.code⟩ := start_delimiter ends {}
  rw [Lexer.run_cons,Lexer.mark,stepped]
  rfl

theorem run_punct {c : Char} (read : ({} : Lexer).run [(c,false)] = some ⟨[.punct c],.code⟩)
    {rest : List (Char × Bool)} (later : ({} : Lexer).run rest = some ⟨toks,.code⟩) :
    ({} : Lexer).run ((c,false) :: rest) = some ⟨.punct c :: toks,.code⟩ := run_pieces read later

theorem digit_cases {c : Char} (digit : c.isDigit = true) : ∃ d : Fin 10, c = Char.ofNat (48 + d.val) := by
  have bounds : 48 ≤ c.toNat ∧ c.toNat ≤ 57 := by
    simpa [Char.isDigit,UInt32.le_iff_toNat_le] using digit
  refine ⟨⟨c.toNat - 48,by omega⟩,?_⟩
  have shifted : 48 + (c.toNat - 48) = c.toNat := by omega
  simp only [shifted]
  exact (Char.ofNat_toNat c).symm

theorem start_digit {c : Char} (digit : c.isDigit = true) (s : Lexer) :
    s.start c = some { s with mode := .number [c] } := by
  obtain ⟨d,rfl⟩ := digit_cases digit
  fin_cases d <;> rfl

/-- The text of a number, up to what ends it. -/
theorem run_number {sign whole fraction exponent : List Char} {c : Char} (signs : sign = [] ∨ sign = ['-'])
    (digits : Digits whole) (point : Fraction fraction) (power : Exponent exponent) (ends : Delimiter c) :
    ({} : Lexer).run (code (sign ++ (whole ++ (fraction ++ exponent))) ++ [(c,false)]) =
      some ⟨numberTokens (sign ++ (whole ++ (fraction ++ exponent))) ++ [.punct c],.code⟩ := by
  obtain ⟨nonempty,each⟩ := digits
  obtain ⟨d,whole,rfl⟩ := List.exists_cons_of_ne_nil nonempty
  obtain ⟨first,later⟩ := List.forall_mem_cons.mp each
  have unsigned : ({} : Lexer).run (code (d :: whole ++ (fraction ++ exponent)) ++ [(c,false)]) =
      some ⟨[.number (d :: whole ++ (fraction ++ exponent)),.punct c],.code⟩ := by
    have begun : Lexer.mark {} (d,false) = some ⟨[],.number [d]⟩ := by
      have stepped : Lexer.step {} d = some ⟨[],.number [d]⟩ := start_digit first {}
      rw [Lexer.mark,stepped]
      rfl
    have shape : code (d :: whole ++ (fraction ++ exponent)) ++ [(c,false)] =
        (d,false) :: (code whole ++ (code fraction ++ (code exponent ++ [(c,false)]))) := by simp [code]
    rw [shape,Lexer.run_cons,begun,Option.bind_some,run_digits later,run_fraction point,run_exponent power,
      run_number_end ends]
    simp
  rcases signs with rfl | rfl
  · have different : d ≠ '-' := by
      rintro rfl
      exact absurd first (by decide)
    have total : numberTokens (d :: (whole ++ (fraction ++ exponent))) =
        [.number (d :: (whole ++ (fraction ++ exponent)))] := by
      unfold numberTokens
      split
      next same => exact absurd (List.cons.inj same).1 different
      next => rfl
    have bare : numberTokens ([] ++ (d :: whole ++ (fraction ++ exponent))) = _ := total
    rw [bare]
    exact unsigned
  · exact run_punct rfl unsigned

end Numbers

section Values

variable {number : ℚ → List Char} {c : Char}

theorem run_integer (ends : Delimiter c) (n : Int) :
    ({} : Lexer).run (code (integer n) ++ [(c,false)]) = some ⟨numberTokens (integer n) ++ [.punct c],.code⟩ := by
  have digits : Digits (Decimal.nat n.natAbs) :=
    ⟨Decimal.nat_ne_nil _,fun _ member => Nat.isDigit_of_mem_toDigits (by decide) (by decide) member⟩
  by_cases negative : n < 0
  · have read := run_number (.inr rfl) digits (.inl rfl) (.inl rfl) ends
    rw [integer,if_pos negative]
    simpa using read
  · have read := run_number (.inl rfl) digits (.inl rfl) (.inl rfl) ends
    rw [integer,if_neg negative]
    simpa using read

theorem run_member {name : String} {value : List (Char × Bool)} {toks : List Token}
    (read : ({} : Lexer).run value = some ⟨toks,.code⟩) :
    ({} : Lexer).run (quote true name.toList ++ (':',false) :: value) =
      some ⟨string name :: .punct ':' :: toks,.code⟩ := run_pieces (run_quote true name.toList) (run_punct rfl read)


mutual

/-- A value is read up to what ends it. -/
theorem run_print (numbers : ∀ q, IsNumber (number q)) (json : Json) {c : Char} (ends : Delimiter c) :
    ({} : Lexer).run (print number json ++ [(c,false)]) = some ⟨tokens number json ++ [.punct c],.code⟩ := by
  cases json with
  | null => rcases ends with rfl | rfl | rfl | rfl <;> rfl
  | bool value => cases value <;> rcases ends with rfl | rfl | rfl | rfl <;> rfl
  | int value => exact run_integer ends value
  | float value =>
    obtain ⟨sign,whole,fraction,exponent,shape,signs,digits,-,point,power⟩ := numbers value
    rw [print,tokens,shape]
    exact run_number signs digits point power ends
  | str text => exact run_pieces (run_quote true text.toList) (run_delimiter ends)
  | arr values => exact run_punct rfl (run_pieces (run_printValues numbers values) (run_delimiter ends))
  | obj members => exact run_punct rfl (run_pieces (run_printMembers numbers members) (run_delimiter ends))

theorem run_printValues (numbers : ∀ q, IsNumber (number q)) (values : List Json) :
    ({} : Lexer).run (printValues number values) = some ⟨valueTokens number values,.code⟩ := by
  match values with
  | [] => exact run_delimiter (.inr (.inl rfl))
  | [value] => exact run_print numbers value (.inr (.inl rfl))
  | value :: next :: rest =>
    have later := run_printValues numbers (next :: rest)
    have both := run_pieces (run_print numbers value (.inl rfl)) later
    rw [printValues,valueTokens]
    simpa using both

theorem run_printMembers (numbers : ∀ q, IsNumber (number q)) (members : List (String × Json)) :
    ({} : Lexer).run (printMembers number members) = some ⟨memberTokens number members,.code⟩ := by
  match members with
  | [] => exact run_delimiter (.inr (.inr (.inl rfl)))
  | [(name,value)] => exact run_member (run_print numbers value (.inr (.inr (.inl rfl))))
  | (name,value) :: next :: rest =>
    have later := run_printMembers numbers (next :: rest)
    have both := run_pieces (run_print numbers value (.inl rfl)) later
    rw [printMembers,memberTokens]
    refine run_member ?_
    simpa using both

end

end Values

end Json
