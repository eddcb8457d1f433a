import Fusillade.Lib.Machine
import Mathlib.Data.List.Basic
import Mathlib.Data.List.Infix

/-! The words of a simple command as a POSIX shell takes them from its text: quotes, backslashes,
blanks and comments. There are none where the text has an operator or a second line, and where
parameters, commands, names of files or home directories may be expanded. -/
namespace Shell

open Machine

abbrev Text := List Char

inductive Mode where
  | unquoted
  /-- After a backslash outside quotes. -/
  | escape
  | single
  | double
  /-- After a backslash in double quotes. -/
  | doubleEscape
  | comment
  deriving DecidableEq

structure Reader where
  words : List Text := []
  current : Option Text := none
  mode : Mode := .unquoted
  deriving DecidableEq

def special : List Char := ['\n','|','&',';','<','>','(',')','$','\x60','*','?','[']

/-- What a backslash makes ordinary in double quotes. -/
def escapable : List Char := ['$','\x60','"','\\']

namespace Reader

def add (s : Reader) (text : Text) (mode : Mode) : Reader := { s with current := some (s.current.getD [] ++ text), mode }

def openQuote (s : Reader) (mode : Mode) : Reader := { s with current := some (s.current.getD []), mode }

def endWord (s : Reader) : Reader := { s with words := s.words ++ s.current.toList, current := none }

def unquoted (s : Reader) (c : Char) : Option Reader :=
  if c = '\\' then some { s with mode := .escape }
  else if c = '\'' then some (s.openQuote .single)
  else if c = '"' then some (s.openQuote .double)
  else if c = ' ' ∨ c = '\t' then some s.endWord
  else if c ∈ special then none
  else if s.current = none ∧ c = '#' then some { s with mode := .comment }
  else if s.current = none ∧ c = '~' then none
  else some (s.add [c] .unquoted)

def step (s : Reader) (c : Char) : Option Reader :=
  match s.mode with
  | .unquoted => s.unquoted c
  | .escape => some (if c = '\n' then { s with mode := .unquoted } else s.add [c] .unquoted)
  | .single => some (if c = '\'' then { s with mode := .unquoted } else s.add [c] .single)
  | .double =>
    if c = '"' then some { s with mode := .unquoted }
    else if c = '\\' then some { s with mode := .doubleEscape }
    else if c ∈ escapable then none
    else some (s.add [c] .double)
  | .doubleEscape =>
    some (if c = '\n' then { s with mode := .double }
      else if c ∈ escapable then s.add [c] .double
      else s.add ['\\',c] .double)
  | .comment => if c = '\n' then none else some s

/-- The end of the text ends a word, but not a quote. -/
def finish (s : Reader) : Option (List Text) :=
  match s.mode with
  | .unquoted | .comment => some (s.words ++ s.current.toList)
  | .escape | .single | .double | .doubleEscape => none

def read (s : Reader) (text : Text) : Option (List Text) := (exec step s text).bind finish

end Reader

def words (text : Text) : Option (List Text) := if '\x00' ∈ text then none else Reader.read {} text

example : words "curl -X \"a b\"'$c'\\ d \\\n  e".toList =
    some ["curl".toList,"-X".toList,"a b$c d".toList,"e".toList] := by decide +kernel

namespace Reader

variable {s t : Reader} {c : Char} {text rest : Text} {final : List Text}

theorem read_cons (s : Reader) (c : Char) (text : Text) : s.read (c :: text) = (s.step c).bind fun t => t.read text := by
  rw [read,exec_cons,Option.bind_assoc]
  rfl

theorem read_cons_iff : s.read (c :: text) = some final ↔ ∃ t, s.step c = some t ∧ t.read text = some final := by
  rw [read_cons,Option.bind_eq_some_iff]

def held : Mode → Nat
  | .doubleEscape => 1
  | .unquoted | .escape | .single | .double | .comment => 0

def inQuotes : Mode → Nat
  | .single | .double | .doubleEscape => 1
  | .unquoted | .escape | .comment => 0

/-- What one character may add to a word, as the quotes before and after it say. -/
def Within (before : Mode) (more : Text) (after : Mode) : Prop :=
  more.length + held after + inQuotes before ≤ held before + 1 + inQuotes after

/-- What a step does: it adds to the word, or only changes the mode, or ends the word. -/
theorem step_cases (stepped : s.step c = some t) : (∃ more mode, t = s.add more mode ∧ Within s.mode more mode) ∨
    (∃ mode, t = { s with mode } ∧ Within s.mode [] mode) ∨ (s.mode = .unquoted ∧ t = s.endWord) := by
  obtain ⟨ended,current,mode⟩ := s
  cases mode with
  | unquoted =>
    simp only [step,unquoted] at stepped
    split_ifs at stepped <;> cases stepped
    · exact .inr (.inl ⟨.escape,rfl,by simp [Within,held,inQuotes]⟩)
    · exact .inl ⟨[],.single,by simp [openQuote,add],by simp [Within,held,inQuotes]⟩
    · exact .inl ⟨[],.double,by simp [openQuote,add],by simp [Within,held,inQuotes]⟩
    · exact .inr (.inr ⟨rfl,rfl⟩)
    · exact .inr (.inl ⟨.comment,rfl,by simp [Within,held,inQuotes]⟩)
    · exact .inl ⟨[c],.unquoted,rfl,by simp [Within,held,inQuotes]⟩
  | escape =>
    simp only [step] at stepped
    split_ifs at stepped <;> cases stepped
    · exact .inr (.inl ⟨.unquoted,rfl,by simp [Within,held,inQuotes]⟩)
    · exact .inl ⟨[c],.unquoted,rfl,by simp [Within,held,inQuotes]⟩
  | single =>
    simp only [step] at stepped
    split_ifs at stepped <;> cases stepped
    · exact .inr (.inl ⟨.unquoted,rfl,by simp [Within,held,inQuotes]⟩)
    · exact .inl ⟨[c],.single,rfl,by simp [Within,held,inQuotes]⟩
  | double =>
    simp only [step] at stepped
    split_ifs at stepped <;> cases stepped
    · exact .inr (.inl ⟨.unquoted,rfl,by simp [Within,held,inQuotes]⟩)
    · exact .inr (.inl ⟨.doubleEscape,rfl,by simp [Within,held,inQuotes]⟩)
    · exact .inl ⟨[c],.double,rfl,by simp [Within,held,inQuotes]⟩
  | doubleEscape =>
    simp only [step] at stepped
    split_ifs at stepped <;> cases stepped
    · exact .inr (.inl ⟨.double,rfl,by simp [Within,held,inQuotes]⟩)
    · exact .inl ⟨[c],.double,rfl,by simp [Within,held,inQuotes]⟩
    · exact .inl ⟨['\\',c],.double,rfl,by simp [Within,held,inQuotes]⟩
  | comment =>
    simp only [step] at stepped
    split_ifs at stepped
    cases stepped
    exact .inr (.inl ⟨.comment,rfl,by simp [Within,held,inQuotes]⟩)

theorem read_words (readAll : s.read text = some final) : s.words <+: final := by
  induction text generalizing s with
  | nil =>
    obtain ⟨t,ran,finished⟩ := Option.bind_eq_some_iff.mp readAll
    obtain rfl := Option.some.inj ran
    unfold finish at finished
    split at finished
    · exact Option.some.inj finished ▸ List.prefix_append _ _
    · exact Option.some.inj finished ▸ List.prefix_append _ _
    all_goals cases finished
  | cons c text ih =>
    obtain ⟨t,stepped,later⟩ := read_cons_iff.mp readAll
    have grown := ih later
    rcases step_cases stepped with ⟨more,mode,rfl,-⟩ | ⟨mode,rfl,-⟩ | ⟨-,rfl⟩
    · exact grown
    · exact grown
    · exact (List.prefix_append _ _).trans grown

theorem read_current {word : Text} (begun : s.current = some word) (readAll : s.read text = some final) :
    ∃ more, s.words ++ [word ++ more] <+: final := by
  induction text generalizing s word with
  | nil =>
    obtain ⟨t,ran,finished⟩ := Option.bind_eq_some_iff.mp readAll
    obtain rfl := Option.some.inj ran
    refine ⟨[],?_⟩
    unfold finish at finished
    rw [begun] at finished
    split at finished
    · obtain rfl := Option.some.inj finished
      simp
    · obtain rfl := Option.some.inj finished
      simp
    all_goals cases finished
  | cons c text ih =>
    obtain ⟨t,stepped,later⟩ := read_cons_iff.mp readAll
    rcases step_cases stepped with ⟨more,mode,rfl,-⟩ | ⟨mode,rfl,-⟩ | ⟨-,rfl⟩
    · obtain ⟨rest,grown⟩ := @ih (s.add more mode) (word ++ more) (by simp [add,begun]) later
      exact ⟨more ++ rest,by simpa [add] using grown⟩
    · exact @ih { s with mode } word begun later
    · refine ⟨[],?_⟩
      have grown := read_words later
      simpa [endWord,begun] using grown

/-- How long the words are so far, with a character between them. -/
def extent (s : Reader) : Nat := s.words.flatten.length + s.words.length + (s.current.getD []).length + held s.mode

/-- A character makes the words longer by one at most, and a quote by none. -/
theorem step_extent (stepped : s.step c = some t) : t.extent + inQuotes s.mode ≤ s.extent + 1 + inQuotes t.mode := by
  rcases step_cases stepped with ⟨more,mode,rfl,within⟩ | ⟨mode,rfl,within⟩ | ⟨outside,rfl⟩
  · simp only [Within] at within
    simp only [extent,add,Option.getD_some,List.length_append]
    omega
  · simp only [Within,List.length_nil] at within
    simp only [extent]
    omega
  · cases begun : s.current <;> simp [extent,endWord,outside,begun]
    omega

/-- The words of a text are no longer than it, its separators counted. -/
theorem read_extent (readAll : s.read text = some final) :
    final.flatten.length + final.length + inQuotes s.mode ≤ s.extent + 1 + text.length := by
  induction text generalizing s with
  | nil =>
    have finished : s.finish = some final := readAll
    unfold finish at finished
    split at finished <;> cases finished
    all_goals
      rename_i mode
      cases begun : s.current <;> simp [extent,mode,held,inQuotes,begun]
      omega
  | cons c text ih =>
    obtain ⟨t,stepped,later⟩ := read_cons_iff.mp readAll
    have here := step_extent stepped
    have rest := ih later
    rw [List.length_cons]
    omega

variable {ended : List Text} {word : Text}

theorem read_single (clear : '\'' ∉ text) (rest : Text) :
    read ⟨ended,some word,.single⟩ (text ++ rest) = read ⟨ended,some (word ++ text),.single⟩ rest := by
  induction text generalizing word with
  | nil => simp
  | cons c text ih =>
    have other : c ≠ '\'' := (List.ne_of_not_mem_cons clear).symm
    have stepped : step ⟨ended,some word,.single⟩ c = some ⟨ended,some (word ++ [c]),.single⟩ := by
      simp [step,other,add]
    rw [List.cons_append,read_cons,stepped,Option.bind_some,ih (List.not_mem_of_not_mem_cons clear),List.append_assoc]
    rfl

end Reader

def Plain (c : Char) : Prop := c ∉ '\\' :: '\'' :: '"' :: ' ' :: '\t' :: special

instance (c : Char) : Decidable (Plain c) := inferInstanceAs (Decidable (_ ∉ _))

structure Bare (text : Text) : Prop where
  nonempty : text ≠ []
  plain : ∀ c ∈ text, Plain c
  comment : text.head? ≠ some '#'
  home : text.head? ≠ some '~'

namespace Reader

variable {ended : List Text} {word : Text}

theorem step_bare {c : Char} (plain : Plain c) : step ⟨ended,some word,.unquoted⟩ c = some ⟨ended,some (word ++ [c]),.unquoted⟩ := by
  simp only [Plain,List.mem_cons,not_or] at plain
  simp [step,unquoted,plain,add]

theorem step_first {c : Char} (plain : Plain c) (comment : c ≠ '#') (home : c ≠ '~') :
    step ⟨ended,none,.unquoted⟩ c = some ⟨ended,some [c],.unquoted⟩ := by
  simp only [Plain,List.mem_cons,not_or] at plain
  simp [step,unquoted,plain,comment,home,add]

theorem read_plain {text : Text} (plain : ∀ c ∈ text, Plain c) (rest : Text) :
    read ⟨ended,some word,.unquoted⟩ (text ++ rest) = read ⟨ended,some (word ++ text),.unquoted⟩ rest := by
  induction text generalizing word with
  | nil => simp
  | cons c text ih =>
    obtain ⟨here,later⟩ := List.forall_mem_cons.mp plain
    rw [List.cons_append,read_cons,step_bare here,Option.bind_some,ih later,List.append_assoc]
    rfl

theorem read_bare {text : Text} (bare : Bare text) (rest : Text) :
    read ⟨ended,none,.unquoted⟩ (text ++ rest) = read ⟨ended,some text,.unquoted⟩ rest := by
  obtain ⟨c,more,rfl⟩ := List.exists_cons_of_ne_nil bare.nonempty
  obtain ⟨here,later⟩ := List.forall_mem_cons.mp bare.plain
  have first := @step_first ended c here (fun same => bare.comment (by rw [same]; rfl)) (fun same => bare.home (by rw [same]; rfl))
  rw [List.cons_append,read_cons,first,Option.bind_some,read_plain later]
  rfl

end Reader

/-- How a character of an argument is written in double quotes. -/
inductive Written where
  | raw (c : Char)
  /-- A quote after a backslash. -/
  | quote
  /-- A line break as a backslash and a letter. -/
  | newline
  deriving DecidableEq

namespace Written

def meant : Written → Char
  | raw c => c
  | quote => '"'
  | newline => '\n'

def text : Written → Text
  | raw c => [c]
  | quote => ['\\','"']
  | newline => ['\\','n']

end Written

def meant (items : List Written) : Text := items.map Written.meant

def written (items : List Written) : Text := items.flatMap Written.text

theorem meant_raw (text : Text) : meant (text.map .raw) = text := by
  induction text with
  | nil => rfl
  | cons c text ih => exact congrArg (c :: ·) ih

theorem written_raw (text : Text) : written (text.map .raw) = text := by
  induction text with
  | nil => rfl
  | cons c text ih => exact congrArg (c :: ·) ih

theorem written_append (items more : List Written) : written (items ++ more) = written items ++ written more :=
  List.flatMap_append

/-- Every backslash stands before a character that it leaves as it is. -/
def LoneBackslashes : Text → Prop
  | [] => True
  | c :: rest => (c = '\\' → ∃ d ∈ rest.head?, d ∉ '\n' :: escapable) ∧ LoneBackslashes rest

def LoneBackslashes.decide : (text : Text) → Decidable (LoneBackslashes text)
  | [] => isTrue trivial
  | _ :: rest => @instDecidableAnd _ _ inferInstance (LoneBackslashes.decide rest)

instance (text : Text) : Decidable (LoneBackslashes text) := LoneBackslashes.decide text

/-- What double quotes leave as it is, but for its own quotes. -/
structure DoubleQuotable (text : Text) : Prop where
  dollar : '$' ∉ text
  backquote : '\x60' ∉ text
  backslashes : LoneBackslashes text

/-- The way of writing leaves every character as it is. -/
structure Clean (items : List Written) : Prop where
  quote : .raw '"' ∉ items
  newline : .newline ∉ items
  quotable : DoubleQuotable (meant items)

namespace Clean

variable {item : Written} {items : List Written}

theorem tail (clean : Clean (item :: items)) : Clean items where
  quote := List.not_mem_of_not_mem_cons clean.quote
  newline := List.not_mem_of_not_mem_cons clean.newline
  quotable := ⟨List.not_mem_of_not_mem_cons clean.quotable.dollar,
    List.not_mem_of_not_mem_cons clean.quotable.backquote,clean.quotable.backslashes.2⟩

theorem cons (clean : Clean items) (quote : item ≠ .raw '"') (newline : item ≠ .newline) (dollar : item ≠ .raw '$')
    (backquote : item ≠ .raw '\x60')
    (backslash : item = .raw '\\' → ∃ d ∈ (meant items).head?, d ∉ '\n' :: escapable) : Clean (item :: items) where
  quote := by simpa [eq_comm,quote] using clean.quote
  newline := by simpa [eq_comm,newline] using clean.newline
  quotable := by
    have same {c : Char} (other : c ≠ '"') (line : c ≠ '\n') : item.meant = c → item = .raw c := by
      cases item with
      | raw d => exact congrArg Written.raw
      | quote => exact fun equal => absurd equal.symm other
      | newline => exact fun equal => absurd equal.symm line
    refine ⟨?_,?_,fun here => backslash (same (by decide) (by decide) here),clean.quotable.backslashes⟩
    · have other : '$' ≠ item.meant := fun equal => dollar (same (by decide) (by decide) equal.symm)
      simpa [meant,other] using clean.quotable.dollar
    · have other : '\x60' ≠ item.meant := fun equal => backquote (same (by decide) (by decide) equal.symm)
      simpa [meant,other] using clean.quotable.backquote

end Clean

namespace Reader

variable {ended : List Text} {word rest : Text} {final : List Text}

theorem step_plain {c : Char} (plain : c ∉ '"' :: escapable) :
    step ⟨ended,some word,.double⟩ c = some ⟨ended,some (word ++ [c]),.double⟩ := by
  simp only [escapable,List.mem_cons,List.not_mem_nil,or_false,not_or] at plain
  obtain ⟨quote,dollar,backquote,-,backslash⟩ := plain
  simp [step,escapable,quote,dollar,backquote,backslash,add]

theorem step_lone {c : Char} (ordinary : c ∉ '\n' :: escapable) :
    step ⟨ended,some word,.doubleEscape⟩ c = some ⟨ended,some (word ++ ['\\',c]),.double⟩ := by
  have line := List.ne_of_not_mem_cons ordinary
  have other := List.not_mem_of_not_mem_cons ordinary
  simp [step,line,other,add]

theorem read_lone {c : Char} (ordinary : c ∉ '\n' :: escapable) (rest : Text) :
    read ⟨ended,some word,.doubleEscape⟩ (c :: rest) = read ⟨ended,some (word ++ ['\\']),.double⟩ (c :: rest) := by
  have other := List.not_mem_of_not_mem_cons ordinary
  have plain : c ∉ '"' :: escapable := by
    refine List.not_mem_cons_of_ne_of_not_mem (fun quote => other ?_) other
    rw [quote]
    decide
  rw [read_cons,read_cons,step_lone ordinary,step_plain plain]
  simp

theorem read_quote (rest : Text) :
    read ⟨ended,some word,.double⟩ (Written.quote.text ++ rest) = read ⟨ended,some (word ++ ['"']),.double⟩ rest := rfl

theorem read_clean {items : List Written} (clean : Clean items) (rest : Text) :
    read ⟨ended,some word,.double⟩ (written items ++ rest) = read ⟨ended,some (word ++ meant items),.double⟩ rest := by
  induction items generalizing word with
  | nil => simp [written,meant]
  | cons item items ih =>
    have later := @ih (word ++ [item.meant]) clean.tail
    have shape : written (item :: items) ++ rest = item.text ++ (written items ++ rest) := by simp [written]
    have value : word ++ meant (item :: items) = word ++ [item.meant] ++ meant items := by simp [meant]
    rw [shape,value,← later]
    cases item with
    | quote => exact read_quote _
    | newline => exact absurd List.mem_cons_self clean.newline
    | raw c =>
      have plain : c ≠ '"' ∧ c ≠ '$' ∧ c ≠ '\x60' := by
        refine ⟨?_,?_,?_⟩ <;> rintro rfl
        · exact clean.quote List.mem_cons_self
        · exact clean.quotable.dollar List.mem_cons_self
        · exact clean.quotable.backquote List.mem_cons_self
      by_cases backslash : c = '\\'
      · subst backslash
        obtain ⟨d,next,ordinary⟩ := clean.quotable.backslashes.1 rfl
        cases items with
        | nil => cases next
        | cons item items =>
          obtain rfl := Option.some.inj next
          cases item with
          | quote => exact absurd ordinary (by decide)
          | newline => exact absurd ordinary (by decide)
          | raw d =>
            have shape : written (.raw d :: items) ++ rest = d :: (written items ++ rest) := by
              simp [written,Written.text]
            rw [shape]
            exact read_lone ordinary _
      · have step := @step_plain ended word c
          (by simp [escapable,plain.1,plain.2.1,plain.2.2,backslash])
        rw [Written.text,List.singleton_append,read_cons,step]
        rfl

end Reader

end Shell
