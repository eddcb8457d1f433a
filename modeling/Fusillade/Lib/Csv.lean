import Mathlib.Data.List.Basic
import Mathlib.Tactic.Common

/-! A strict reader of RFC 4180 text, character by character: a quote may only open a field or
stand in a quoted one, doubled, and a quoted field ends where its quote closes. A record ends
in a newline, with or without a carriage return. -/
namespace Csv

inductive Mode where
  /-- At the start of a field. -/
  | start
  | bare
  | quoted
  /-- After a quote in a quoted field: its end, or the first of two. -/
  | quote
  /-- After a carriage return that ends a record. -/
  | ending
  deriving DecidableEq

structure Reader where
  records : List (List (List Char)) := []
  fields : List (List Char) := []
  current : List Char := []
  mode : Mode := .start
  deriving DecidableEq

namespace Reader

def endField (s : Reader) : Reader := { s with fields := s.fields ++ [s.current], current := [], mode := .start }

def endRecord (s : Reader) : Reader := { records := s.records ++ [s.fields ++ [s.current]] }

/-- What may follow a field. -/
def delimit (s : Reader) (c : Char) : Option Reader :=
  if c = ',' then some s.endField
  else if c = '\n' then some s.endRecord
  else if c = '\r' then some { s with mode := .ending }
  else none

def add (s : Reader) (c : Char) (mode : Mode) : Reader := { s with current := s.current ++ [c], mode := mode }

def step (s : Reader) (c : Char) : Option Reader :=
  match s.mode with
  | .quoted => some (if c = '"' then { s with mode := .quote } else s.add c .quoted)
  | .quote => if c = '"' then some (s.add c .quoted) else s.delimit c
  | .ending => if c = '\n' then some s.endRecord else none
  | .start =>
    if c = '"' then some { s with mode := .quoted }
    else s.delimit c <|> some (s.add c .bare)
  | .bare => if c = '"' then none else s.delimit c <|> some (s.add c .bare)

def run (s : Reader) (text : List Char) : Option Reader := text.foldlM step s

/-- The text may end after a record or in the last one. -/
def finish (s : Reader) : Option (List (List (List Char))) :=
  match s.mode with
  | .quoted | .ending => none
  | .start => some (if s.fields = [] then s.records else s.endRecord.records)
  | .bare | .quote => some s.endRecord.records

end Reader

def read (text : List Char) : Option (List (List (List Char))) := (Reader.run {} text).bind Reader.finish

/-- Neither a separator nor a quote. -/
def Plain (text : List Char) : Prop := ∀ c ∈ text, c ∉ [',','"','\n','\r']

instance (text : List Char) : Decidable (Plain text) := List.decidableBAll _ text

/-- The text of a quoted field, with its quotes doubled. -/
def doubled (value : List Char) : List Char := value.flatMap fun c => if c = '"' then ['"','"'] else [c]

namespace Reader

variable {s : Reader} {value rest : List Char}

theorem run_append (s : Reader) (text rest : List Char) :
    s.run (text ++ rest) = (s.run text).bind fun t => t.run rest := List.foldlM_append

theorem run_cons (s : Reader) (c : Char) (rest : List Char) :
    s.run (c :: rest) = (s.step c).bind fun t => t.run rest := rfl

theorem delimit_plain {c : Char} (plain : Plain [c]) : s.delimit c = none := by
  have apart := plain c (List.mem_singleton_self c)
  simp only [List.mem_cons,not_or] at apart
  simp [delimit,apart]

theorem step_plain {c : Char} (plain : Plain [c]) (unquoted : s.mode = .start ∨ s.mode = .bare) :
    s.step c = some (s.add c .bare) := by
  have apart := plain c (List.mem_singleton_self c)
  simp only [List.mem_cons,not_or] at apart
  rcases unquoted with mode | mode <;> simp [step,mode,apart,delimit_plain plain]

/-- Plain text goes to the field as it is. -/
theorem run_plain (plain : Plain value) (unquoted : s.mode = .start ∨ s.mode = .bare) (nonempty : value ≠ []) :
    s.run value = some { s with current := s.current ++ value, mode := .bare } := by
  induction value generalizing s with
  | nil => exact absurd rfl nonempty
  | cons c value ih =>
    obtain ⟨here,later⟩ := List.forall_mem_cons.mp plain
    rw [run_cons,step_plain (by simpa [Plain] using here) unquoted,Option.bind_some]
    by_cases last : value = []
    · subst last
      rfl
    · rw [ih later (.inr rfl) last]
      simp [add]

/-- The inside of a quoted field is read back. -/
theorem run_doubled (mode : s.mode = .quoted) (value : List Char) :
    s.run (doubled value) = some { s with current := s.current ++ value } := by
  induction value generalizing s with
  | nil =>
    rw [List.append_nil]
    rfl
  | cons c value ih =>
    have cons : doubled (c :: value) = (if c = '"' then ['"','"'] else [c]) ++ doubled value := List.flatMap_cons
    rw [cons,run_append]
    have taken : s.run (if c = '"' then ['"','"'] else [c]) = some (s.add c .quoted) := by
      by_cases quote : c = '"'
      · simp [quote,run,List.foldlM,step,mode,add]
      · simp [quote,run,List.foldlM,step,mode]
    rw [taken,Option.bind_some,ih rfl]
    simp [add,mode]

theorem run_quoted (mode : s.mode = .start) (value : List Char) :
    s.run ('"' :: (doubled value ++ ['"'])) = some { s with current := s.current ++ value, mode := .quote } := by
  have opened : s.step '"' = some { s with mode := .quoted } := by simp [step,mode]
  rw [run_cons,opened,Option.bind_some,run_append,run_doubled rfl,Option.bind_some]
  rfl

/-- A field is over when a separator follows it. -/
def Closed (s : Reader) : Prop := s.mode = .start ∨ s.mode = .bare ∨ s.mode = .quote

theorem step_closed {c : Char} (closed : s.Closed) (separates : c ∈ [',','\n','\r']) : s.step c = s.delimit c := by
  have apart : c ≠ '"' := by rintro rfl; simp at separates
  have nonempty : ∃ t, s.delimit c = some t := by
    unfold delimit
    rcases List.mem_cons.mp separates with rfl | separates
    · exact ⟨_,rfl⟩
    · rcases List.mem_pair.mp separates with rfl | rfl
      · exact ⟨_,rfl⟩
      · exact ⟨_,rfl⟩
  obtain ⟨t,ends⟩ := nonempty
  rcases closed with mode | mode | mode <;> simp [step,mode,apart,ends]

theorem run_comma (closed : s.Closed) (rest : List Char) : s.run (',' :: rest) = s.endField.run rest := by
  rw [run_cons,step_closed closed (by decide)]
  rfl

theorem run_newline (closed : s.Closed) (rest : List Char) : s.run ('\n' :: rest) = s.endRecord.run rest := by
  rw [run_cons,step_closed closed (by decide)]
  rfl

/-- The text is read as a field of this value by a reader that starts a field. -/
def Field (value text : List Char) : Prop :=
  ∀ s : Reader, s.mode = .start → s.current = [] →
    ∃ mode, s.run text = some { s with current := value, mode := mode } ∧
      ({ s with current := value, mode := mode } : Reader).Closed

theorem field_plain (plain : Plain value) : Field value value := by
  intro s mode empty
  by_cases nothing : value = []
  · subst nothing
    refine ⟨.start,?_,.inl rfl⟩
    cases s
    simp_all [run]
  · refine ⟨.bare,?_,.inr (.inl rfl)⟩
    rw [run_plain plain (.inl mode) nothing,empty,List.nil_append]

theorem field_quoted (value : List Char) : Field value ('"' :: (doubled value ++ ['"'])) := by
  intro s mode empty
  refine ⟨.quote,?_,.inr (.inr rfl)⟩
  rw [run_quoted mode,empty,List.nil_append]

theorem Field.comma {text : List Char} (field : Field value text) (mode : s.mode = .start) (empty : s.current = [])
    (rest : List Char) :
    s.run (text ++ ',' :: rest) =
      ({ s with fields := s.fields ++ [value], current := [], mode := .start } : Reader).run rest := by
  obtain ⟨after,read,closed⟩ := field s mode empty
  rw [run_append,read,Option.bind_some,run_comma closed]
  rfl

theorem Field.newline {text : List Char} (field : Field value text) (mode : s.mode = .start)
    (empty : s.current = []) (rest : List Char) :
    s.run (text ++ '\n' :: rest) =
      ({ records := s.records ++ [s.fields ++ [value]] } : Reader).run rest := by
  obtain ⟨after,read,closed⟩ := field s mode empty
  rw [run_append,read,Option.bind_some,run_newline closed]
  rfl

/-- A quote in a bare field ends the reading, and so does text after a quoted one. -/
theorem run_bare_quote (mode : s.mode = .bare) (rest : List Char) : s.run ('"' :: rest) = none := by
  simp [run_cons,step,mode]

theorem run_quote_plain {c : Char} (mode : s.mode = .quote) (plain : Plain [c]) (rest : List Char) :
    s.run (c :: rest) = none := by
  have apart := plain c (List.mem_singleton_self c)
  simp only [List.mem_cons,not_or] at apart
  simp [run_cons,step,mode,apart,delimit_plain plain]

end Reader

end Csv
