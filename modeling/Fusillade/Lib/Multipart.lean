import Fusillade.Lib.CodeUnits
import Fusillade.Lib.Machine
import Fusillade.Lib.Replacement

/-! Messages in parts, `multipart/form-data` (RFC 7578): the text between two delimiters is a part, a part has
header lines and a content, and the parameters of its disposition say what it is. -/
namespace Multipart

open CodeUnits Machine Replacement

def crlf : Text := [code '\r',code '\n']

def blank (c : Nat) : Bool := c == code ' ' || c == code '\t'

inductive Mode where
  | between
  | key (read : Text)
  | value (key : Text)
  | token (key read : Text)
  | quoted (key read : Text)
  /-- After a backslash, which takes away the meaning of the next character. -/
  | escaped (key read : Text)

structure Reader where
  found : List (Text × Text)
  mode : Mode

namespace Reader

def step (r : Reader) (c : Nat) : Option Reader :=
  match r.mode with
  | .between =>
    if blank c then some r
    else if c = code ';' then some { r with mode := .key [] }
    else none
  | .key read =>
    if blank c ∧ read = [] then some r
    else if c = code '=' then some { r with mode := .value read }
    else some { r with mode := .key (read ++ [c]) }
  | .value a =>
    if c = code '"' then some { r with mode := .quoted a [] }
    else if blank c ∨ c = code ';' then none
    else some { r with mode := .token a [c] }
  | .token a read =>
    if blank c then some ⟨r.found ++ [(a,read)],.between⟩
    else if c = code ';' then some ⟨r.found ++ [(a,read)],.key []⟩
    else some { r with mode := .token a (read ++ [c]) }
  | .quoted a read =>
    if c = code '"' then some ⟨r.found ++ [(a,read)],.between⟩
    else if c = code '\\' then some { r with mode := .escaped a read }
    else if c = code '\r' then none
    else some { r with mode := .quoted a (read ++ [c]) }
  | .escaped a read => some { r with mode := .quoted a (read ++ [c]) }

def finish (r : Reader) : Option (List (Text × Text)) :=
  match r.mode with
  | .between => some r.found
  | .token a read => some (r.found ++ [(a,read)])
  | _ => none

end Reader

def parameters (text : Text) : Option (List (Text × Text)) :=
  (exec Reader.step ⟨[],.between⟩ text).bind Reader.finish

def parameter (word : String) (found : List (Text × Text)) : Option Text :=
  (found.find? fun p => spells p.1 word).map Prod.snd

/-- The parameters of a disposition of type `form-data`. -/
def disposition (text : Text) : Option (List (Text × Text)) :=
  let kind := text.takeWhile fun c => !blank c && c != code ';'
  if spells kind "form-data" then parameters (text.drop kind.length) else none

def header (line : Text) : Option (Text × Text) :=
  match line.dropWhile (· != code ':') with
  | [] => none
  | _ :: value => some (line.takeWhile (· != code ':'),value.dropWhile blank)

@[ext] structure Part where
  name : Text
  /-- A part without a file name is a text field. -/
  filename : Option Text
  content : Text
  deriving DecidableEq

/-- The header lines up to an empty line, and the content after it. Each header is one line: one
that is folded over several is not read. -/
def readLines (lines : List Text) : Option Part :=
  match lines.dropWhile (· != []) with
  | [] => none
  | _ :: content => do
    let headers ← (lines.takeWhile (· != [])).mapM header
    let named ← headers.find? fun h => spells h.1 "content-disposition"
    let found ← disposition named.2
    let name ← parameter "name" found
    some ⟨name,parameter "filename" found,List.intercalate crlf content⟩

def readPart (text : Text) : Option Part := readLines (cut crlf text)

/-- The text after a delimiter, up to the next one. The rest of the delimiter's line is padding. -/
def readPiece (piece : Text) : Option Part :=
  let rest := piece.dropWhile blank
  if crlf <+: rest then readPart (rest.drop 2) else none

def readPieces : List Text → Option (List Part)
  | [] => none
  | piece :: rest =>
    if ascii "--" <+: piece then some []
    else do
      let part ← readPiece piece
      let parts ← readPieces rest
      some (part :: parts)

def delimiter (boundary : Text) : Text := crlf ++ ascii "--" ++ boundary

def parse (boundary text : Text) : Option (List Part) :=
  readPieces (cut (delimiter boundary) (crlf ++ text)).tail

def Plain (text : Text) : Prop := ∀ c ∈ text, c ≠ code '"' ∧ c ≠ code '\\' ∧ c ≠ code '\r'

instance (text : Text) : Decidable (Plain text) := inferInstanceAs (Decidable (∀ c ∈ text, _))

theorem plain_cons {c : Nat} {text : Text} : Plain (c :: text) ↔ Plain [c] ∧ Plain text := by simp [Plain]

namespace Reader

variable {r s : Reader} {found : List (Text × Text)} {key read text : Text}

theorem step_found {c : Nat} (taken : step r c = some s) : r.found <+: s.found := by
  unfold step at taken
  split at taken <;> (try split_ifs at taken) <;> obtain rfl := Option.some.inj taken <;>
    first | exact List.prefix_rfl | exact List.prefix_append ..

theorem exec_found (taken : exec step r text = some s) : r.found <+: s.found := by
  induction text generalizing r with
  | nil => exact (Option.some.inj taken) ▸ List.prefix_rfl
  | cons c text ih =>
    obtain ⟨next,first,later⟩ := exec_cons_iff.mp taken
    exact (step_found first).trans (ih later)

theorem finish_found {all : List (Text × Text)} (ended : r.finish = some all) : r.found <+: all := by
  unfold finish at ended
  split at ended
  · exact (Option.some.inj ended) ▸ List.prefix_rfl
  · exact (Option.some.inj ended) ▸ List.prefix_append ..
  · contradiction

theorem step_plain {c : Nat} (plain : Plain [c]) :
    step ⟨found,.quoted key read⟩ c = some ⟨found,.quoted key (read ++ [c])⟩ := by
  obtain ⟨quote,backslash,carriage⟩ := plain c List.mem_cons_self
  simp only [step,if_neg quote,if_neg backslash,if_neg carriage]

theorem exec_plain (plain : Plain text) :
    exec step ⟨found,.quoted key read⟩ text = some ⟨found,.quoted key (read ++ text)⟩ := by
  induction text generalizing read with
  | nil => rw [List.append_nil]; rfl
  | cons c text ih =>
    obtain ⟨here,later⟩ := plain_cons.mp plain
    rw [exec_cons,step_plain here,Option.bind_some,ih later,List.append_assoc,
      List.singleton_append]

/-- What a run inside quotes may do: read the text as it is, read less than it, or end after a backslash. -/
inductive Outcome (found : List (Text × Text)) (key read text : Text) : Reader → Prop where
  | plain (plain : Plain text) : Outcome found key read text ⟨found,.quoted key (read ++ text)⟩
  | shorter (value : Text) (less : value.length < read.length + text.length) :
      Outcome found key read text ⟨found,.quoted key value⟩
  | closed (value : Text) (less : value.length < read.length + text.length) (s : Reader)
      (there : found ++ [(key,value)] <+: s.found) : Outcome found key read text s
  | escaped (value : Text) (last : text.getLast? = some (code '\\')) :
      Outcome found key read text ⟨found,.escaped key value⟩

theorem Outcome.cons {c : Nat} (plain : Plain [c]) (outcome : Outcome found key (read ++ [c]) text s) :
    Outcome found key read (c :: text) s := by
  cases outcome with
  | plain rest =>
    rw [List.append_assoc]
    exact .plain (plain_cons.mpr ⟨plain,rest⟩)
  | shorter value less => exact .shorter value (by simpa [Nat.add_assoc,Nat.add_comm 1] using less)
  | closed value less s there => exact .closed value (by simpa [Nat.add_assoc,Nat.add_comm 1] using less) s there
  | escaped value last =>
    cases text with
    | nil => cases last
    | cons d text => exact .escaped value last

/-- A character after a backslash: the text is longer than what is read of it. -/
theorem Outcome.unescaped {d : Nat} (outcome : Outcome found key (read ++ [d]) text s) :
    Outcome found key read (code '\\' :: d :: text) s := by
  have longer {n : Nat} (less : n ≤ (read ++ [d]).length + text.length) :
      n < read.length + (code '\\' :: d :: text).length := by
    simp only [List.length_append,List.length_cons,List.length_nil] at less ⊢
    omega
  cases outcome with
  | plain rest => exact .shorter _ (longer (List.length_append ..).le)
  | shorter value less => exact .shorter value (longer less.le)
  | closed value less s there => exact .closed value (longer less.le) s there
  | escaped value last =>
    cases text with
    | nil => cases last
    | cons e text => exact .escaped value last

theorem exec_outcome (taken : exec step ⟨found,.quoted key read⟩ text = some s) :
    Outcome found key read text s := by
  induction length : text.length using Nat.strong_induction_on generalizing text read with
  | h n ih =>
    cases text with
    | nil =>
      obtain rfl := Option.some.inj taken
      simpa using @Outcome.plain found key read [] (by simp [Plain])
    | cons c text =>
      obtain ⟨next,first,later⟩ := exec_cons_iff.mp taken
      subst length
      by_cases quote : c = code '"'
      · subst quote
        obtain rfl := Option.some.inj first
        exact .closed read (by simp) s (exec_found later)
      by_cases backslash : c = code '\\'
      · subst backslash
        obtain rfl := Option.some.inj first
        cases text with
        | nil =>
          obtain rfl := Option.some.inj later
          exact .escaped read rfl
        | cons d text =>
          obtain ⟨next,second,later⟩ := exec_cons_iff.mp later
          obtain rfl := Option.some.inj second
          exact (ih _ (Nat.lt_succ_of_lt (Nat.lt_succ_self _)) later rfl).unescaped
      by_cases carriage : c = code '\r'
      · subst carriage
        cases first
      have plain : Plain [c] := List.forall_mem_singleton.mpr ⟨quote,backslash,carriage⟩
      rw [step_plain plain] at first
      obtain rfl := Option.some.inj first
      exact (ih _ (Nat.lt_succ_self _) later rfl).cons plain

theorem exec_closed (plain : Plain text) (rest : Text) :
    exec step ⟨found,.quoted key []⟩ (text ++ code '"' :: rest) =
      exec step ⟨found ++ [(key,text)],.between⟩ rest := by
  rw [exec_append,exec_plain plain]
  rfl

/-- A text that is not closed is not read to its end. -/
theorem read_unclosed {all : List (Text × Text)}
    (read : (exec step ⟨found,.quoted key []⟩ text).bind finish = some all) :
    ∃ value, found ++ [(key,value)] <+: all ∧ value.length < text.length := by
  obtain ⟨s,taken,ended⟩ := Option.bind_eq_some_iff.mp read
  cases exec_outcome taken with
  | plain => cases ended
  | shorter => cases ended
  | closed value less s there => exact ⟨value,there.trans (finish_found ended),by simpa using less⟩
  | escaped => cases ended

/-- A text in quotes, at the end of its line or with a file name after it: what is read is the text
only if it is plain. -/
theorem read_closed {all : List (Text × Text)} {rest : Text}
    (after : rest = [] ∨ ∃ more, rest = ascii "; filename=\"" ++ more)
    (read : (exec step ⟨found,.quoted key []⟩ (text ++ code '"' :: rest)).bind finish = some all) :
    ∃ value, found ++ [(key,value)] <+: all ∧ (value = text → Plain text) := by
  obtain ⟨s,taken,ended⟩ := Option.bind_eq_some_iff.mp read
  obtain ⟨u,inside,outside⟩ := exec_append_iff.mp taken
  have shorter {value : Text} (less : value.length < ([] : Text).length + text.length) :
      value = text → Plain text := by
    rintro rfl
    simp at less
  cases exec_outcome inside with
  | plain plain => exact ⟨text,(exec_found (r := ⟨found ++ [(key,text)],.between⟩) outside).trans (finish_found ended),
      fun _ => plain⟩
  | shorter value less =>
    exact ⟨value,(exec_found (r := ⟨found ++ [(key,value)],.between⟩) outside).trans (finish_found ended),shorter less⟩
  | closed value less s there =>
    exact ⟨value,there.trans ((exec_found outside).trans (finish_found ended)),shorter less⟩
  | escaped value last =>
    -- The closing quote is escaped: the text goes on to the next one, if there is one.
    rcases after with rfl | ⟨more,rfl⟩
    · obtain rfl := Option.some.inj outside
      cases ended
    · have quoted : exec step ⟨found,.quoted key (value ++ [code '"'])⟩ (ascii "; filename=\"" ++ more) = some s := outside
      have plain : Plain (ascii "; filename=") := by decide
      have split : ascii "; filename=\"" ++ more = ascii "; filename=" ++ code '"' :: more := rfl
      rw [split,exec_append,exec_plain plain,Option.bind_some] at quoted
      refine ⟨value ++ [code '"'] ++ ascii "; filename=",(exec_found (r := ⟨found ++ [(key,_)],.between⟩) quoted).trans
        (finish_found ended),?_⟩
      intro same
      have ends : (ascii "; filename=").getLast? = some (code '=') := rfl
      rw [← same,List.getLast?_append,ends,Option.some_or] at last
      exact absurd last (by decide)

end Reader

def opening : Text := ascii "Content-Disposition: form-data; name=\""

section

variable {all found : List (Text × Text)} {key value text : Text} {word : String}

theorem parameter_eq (start : found ++ [(key,value)] <+: all) (others : ∀ p ∈ found, spells p.1 word = false)
    (spelled : spells key word = true) : parameter word all = some value := by
  obtain ⟨more,rfl⟩ := start
  have skipped : found.find? (fun p => spells p.1 word) = none :=
    List.find?_eq_none.mpr fun p member => by simp [others p member]
  rw [parameter,List.append_assoc,List.find?_append,skipped]
  simp [spelled]

def fromName (text : Text) : Option (List (Text × Text)) :=
  (exec Reader.step ⟨[],.quoted (ascii "name") []⟩ text).bind Reader.finish

theorem header_opening (text : Text) :
    header (opening ++ text) = some (ascii "Content-Disposition",ascii "form-data; name=\"" ++ text) := rfl

theorem disposition_opening (text : Text) : disposition (ascii "form-data; name=\"" ++ text) = fromName text := by
  have kind : disposition (ascii "form-data; name=\"" ++ text) = parameters (ascii "; name=\"" ++ text) := rfl
  rw [kind,parameters,exec_append]
  rfl

variable {α β : Type} {lines content : List Text} {part : Part} {name : Text}

theorem mapM_isSome {f : α → Option β} {as : List α} : (as.mapM f).isSome ↔ ∀ a ∈ as, (f a).isSome := by
  induction as with
  | nil => simp
  | cons a as ih =>
    rw [List.forall_mem_cons,← ih]
    cases here : f a <;> cases later : as.mapM f <;> simp [here,later]

theorem readLines_some (read : readLines ((opening ++ text) :: lines) = some part) :
    ∃ all, fromName text = some all ∧ parameter "name" all = some part.name ∧
      parameter "filename" all = part.filename := by
  have kept : (fun line : Text => line != []) (opening ++ text) = true := rfl
  unfold readLines at read
  split at read
  · contradiction
  · rw [List.takeWhile_cons_of_pos (p := fun line => line != []) kept,List.mapM_cons,header_opening] at read
    obtain ⟨headers,mapped,read⟩ := Option.bind_eq_some_iff.mp read
    obtain ⟨first,same,mapped⟩ := Option.bind_eq_some_iff.mp mapped
    obtain rfl := Option.some.inj same
    obtain ⟨others,-,mapped⟩ := Option.bind_eq_some_iff.mp mapped
    obtain rfl := Option.some.inj mapped
    obtain ⟨named,spelled,read⟩ := Option.bind_eq_some_iff.mp read
    obtain rfl : (ascii "Content-Disposition",ascii "form-data; name=\"" ++ text) = named := by
      rw [List.find?_cons_of_pos rfl] at spelled
      exact Option.some.inj spelled
    obtain ⟨all,disposed,read⟩ := Option.bind_eq_some_iff.mp read
    rw [disposition_opening] at disposed
    obtain ⟨name,named,read⟩ := Option.bind_eq_some_iff.mp read
    obtain rfl := Option.some.inj read
    exact ⟨all,disposed,named,rfl⟩

theorem split_lines {lines : List Text} (content : List Text) (full : ∀ line ∈ lines, line ≠ []) :
    (lines ++ [] :: content).takeWhile (· != []) = lines ∧
      (lines ++ [] :: content).dropWhile (· != []) = [] :: content := by
  induction lines with
  | nil => simp
  | cons line lines ih =>
    obtain ⟨here,later⟩ := List.forall_mem_cons.mp full
    have kept : (line != []) = true := bne_iff_ne.mpr here
    obtain ⟨taken,dropped⟩ := ih later
    simp only [List.cons_append,List.takeWhile_cons,List.dropWhile_cons,kept,if_true,taken,dropped,and_self]

theorem opening_ne_nil (text : Text) : opening ++ text ≠ [] := List.cons_ne_nil _ _

theorem readLines_eq (read : fromName text = some all) (named : parameter "name" all = some name)
    (formed : ∀ line ∈ lines, line ≠ [] ∧ (header line).isSome) (content : List Text) :
    readLines ((opening ++ text) :: (lines ++ [] :: content)) =
      some ⟨name,parameter "filename" all,List.intercalate crlf content⟩ := by
  obtain ⟨taken,dropped⟩ := split_lines content
    (List.forall_mem_cons.mpr ⟨opening_ne_nil text,fun line member => (formed line member).1⟩)
  obtain ⟨others,mapped⟩ := Option.isSome_iff_exists.mp (mapM_isSome.mpr fun line member => (formed line member).2)
  rw [List.cons_append] at taken dropped
  have first : (((ascii "Content-Disposition",ascii "form-data; name=\"" ++ text) :: others).find? fun h =>
      spells h.1 "content-disposition") = some (ascii "Content-Disposition",ascii "form-data; name=\"" ++ text) :=
    List.find?_cons_of_pos rfl
  rw [readLines,dropped,taken]
  simp [header_opening,mapped,first,disposition_opening,read,named]

/-- The lines before an empty one are header lines, or the content starts among them. -/
theorem readLines_headed (read : readLines ((opening ++ text) :: (lines ++ [] :: content)) = some part) :
    (∀ line ∈ lines, line ≠ [] ∧ (header line).isSome) ∨
      ∃ more, part.content = List.intercalate crlf (more ++ [] :: content) := by
  have full {nonempty : List Text} (absent : [] ∉ nonempty) : ∀ line ∈ (opening ++ text) :: nonempty, line ≠ [] :=
    List.forall_mem_cons.mpr ⟨opening_ne_nil text,fun line member same => absent (same ▸ member)⟩
  by_cases empty : [] ∈ lines
  · obtain ⟨front,more,rfl,absent⟩ := List.eq_append_cons_of_mem empty
    have dropped := (split_lines (more ++ [] :: content) (full absent)).2
    rw [List.cons_append] at dropped
    rw [readLines,List.append_assoc,List.cons_append,dropped] at read
    obtain ⟨headers,-,read⟩ := Option.bind_eq_some_iff.mp read
    obtain ⟨named,-,read⟩ := Option.bind_eq_some_iff.mp read
    obtain ⟨all,-,read⟩ := Option.bind_eq_some_iff.mp read
    obtain ⟨name,-,read⟩ := Option.bind_eq_some_iff.mp read
    obtain rfl := Option.some.inj read
    exact .inr ⟨more,rfl⟩
  · obtain ⟨taken,dropped⟩ := split_lines content (full empty)
    rw [List.cons_append] at taken dropped
    rw [readLines,dropped,taken] at read
    obtain ⟨headers,mapped,-⟩ := Option.bind_eq_some_iff.mp read
    have headed := mapM_isSome.mp (Option.isSome_iff_exists.mpr ⟨headers,mapped⟩)
    exact .inl fun line member => ⟨fun same => empty (same ▸ member),headed line (List.mem_cons_of_mem _ member)⟩

theorem crlf_ne_nil : crlf ≠ [] := List.cons_ne_nil _ _

theorem cut_crlf_plain {text : Text} (clear : code '\r' ∉ text) (rest : Text) :
    cut crlf (text ++ (crlf ++ rest)) = text :: cut crlf rest := by
  rw [crlf,cut_clear clear,← crlf,cut_pattern (by decide)]
  simp

theorem readPart_opening (text : Text) : ∃ line lines, cut crlf text = line :: lines ∧
    readPart (opening ++ text) = readLines ((opening ++ line) :: lines) := by
  obtain ⟨line,lines,cuts⟩ := List.exists_cons_of_ne_nil (cut_ne_nil crlf text)
  have clear : code '\r' ∉ opening := by decide
  refine ⟨line,lines,cuts,?_⟩
  rw [readPart,crlf,cut_clear clear,← crlf,cuts]
  rfl

theorem first_line {line : Text} {lines : List Text} (quoted rest : Text)
    (cuts : cut crlf (quoted ++ code '"' :: rest) = line :: lines) :
    line.length < quoted.length ∨ ∃ more others, cut crlf rest = more :: others ∧ line = quoted ++ code '"' :: more := by
  have outside : code '"' ∉ crlf := by decide
  rcases cut_before crlf_ne_nil outside quoted rest with ⟨part,first,found⟩ | split
  · rw [cuts] at first
    obtain rfl := Option.some.inj first
    have shorter := found.length_le
    rw [List.length_append] at shorter
    exact .inl (Nat.lt_of_lt_of_le (Nat.lt_add_of_pos_right (by decide)) shorter)
  · obtain ⟨more,others,after⟩ := List.exists_cons_of_ne_nil (cut_ne_nil crlf rest)
    rw [cuts,after] at split
    exact .inr ⟨more,others,after,(List.cons.inj split).1⟩

/-- What follows the name of a part: the end of its line, or a file name. -/
def Follows (rest : Text) : Prop := (∃ more, rest = crlf ++ more) ∨ ∃ more, rest = ascii "; filename=\"" ++ more

theorem follows_line {rest line : Text} {lines : List Text} (follows : Follows rest)
    (cuts : cut crlf rest = line :: lines) : line = [] ∨ ∃ more, line = ascii "; filename=\"" ++ more := by
  rcases follows with ⟨more,rfl⟩ | ⟨more,rfl⟩
  · rw [cut_pattern crlf_ne_nil] at cuts
    exact .inl (List.cons.inj cuts).1.symm
  · obtain ⟨first,others,after⟩ := List.exists_cons_of_ne_nil (cut_ne_nil crlf more)
    have clear : code '\r' ∉ ascii "; filename=\"" := by decide
    rw [crlf] at cuts after
    rw [cut_clear clear,after] at cuts
    exact .inr ⟨first,(List.cons.inj cuts).1.symm⟩

theorem parameter_name {all : List (Text × Text)} {value : Text} (start : [(ascii "name",value)] <+: all) :
    parameter "name" all = some value :=
  parameter_eq (show [] ++ [(ascii "name",value)] <+: all from start) (fun _ member => absurd member List.not_mem_nil) (by decide)

theorem parameter_filename {all : List (Text × Text)} {value : Text}
    (start : [(ascii "name",name)] ++ [(ascii "filename",value)] <+: all) : parameter "filename" all = some value := by
  refine parameter_eq start (fun p member => ?_) (by decide)
  rw [List.mem_singleton.mp member]
  exact (by decide : spells (ascii "name") "filename" = false)

theorem plain_of_name {rest : Text} (follows : Follows rest)
    (read : readPart (opening ++ (name ++ code '"' :: rest)) = some part) (same : part.name = name) : Plain name := by
  obtain ⟨line,lines,cuts,whole⟩ := readPart_opening (name ++ code '"' :: rest)
  rw [whole] at read
  obtain ⟨all,fromLine,named,-⟩ := readLines_some read
  rcases first_line name rest cuts with shorter | ⟨more,others,after,rfl⟩
  · obtain ⟨value,start,less⟩ := Reader.read_unclosed fromLine
    rw [parameter_name start,same] at named
    obtain rfl := Option.some.inj named
    omega
  · obtain ⟨value,start,plain⟩ := Reader.read_closed (follows_line follows after) fromLine
    rw [parameter_name start,same] at named
    exact plain (Option.some.inj named)

theorem clear_quote {before after : Text} (clear : code '\r' ∉ before) (clearToo : code '\r' ∉ after) :
    code '\r' ∉ before ++ code '"' :: after := by
  intro inside
  rcases List.mem_append.mp inside with front | back
  · exact clear front
  · exact (List.mem_cons.mp back).elim (fun same => absurd same (by decide)) clearToo

theorem plain_clear {text : Text} (plain : Plain text) : code '\r' ∉ text :=
  fun inside => (plain _ inside).2.2 rfl

theorem readPart_filename {rest : Text} (plain : Plain name)
    (read : readPart (opening ++ (name ++ code '"' :: (ascii "; filename=\"" ++ rest))) = some part) :
    ∃ line lines all, cut crlf rest = line :: lines ∧
      (exec Reader.step ⟨[(ascii "name",name)],.quoted (ascii "filename") []⟩ line).bind Reader.finish = some all ∧
      parameter "filename" all = part.filename := by
  obtain ⟨line,lines,cuts,whole⟩ := readPart_opening (name ++ code '"' :: (ascii "; filename=\"" ++ rest))
  rw [whole] at read
  obtain ⟨all,fromLine,-,filed⟩ := readLines_some read
  obtain ⟨more,others,after⟩ := List.exists_cons_of_ne_nil (cut_ne_nil crlf rest)
  have clear : code '\r' ∉ name ++ code '"' :: ascii "; filename=\"" := clear_quote (plain_clear plain) (by decide)
  have split : name ++ code '"' :: (ascii "; filename=\"" ++ rest) =
      (name ++ code '"' :: ascii "; filename=\"") ++ rest := by simp
  rw [split,crlf,cut_clear clear,← crlf,after] at cuts
  obtain rfl := (List.cons.inj cuts).1
  refine ⟨more,others,all,after,?_,filed⟩
  have joined : fromName (name ++ code '"' :: (ascii "; filename=\"" ++ more)) = some all := by
    rw [← List.cons_append,← List.append_assoc]
    exact fromLine
  rw [fromName,Reader.exec_closed plain] at joined
  exact joined

theorem filename_isSome {rest : Text} (plain : Plain name)
    (read : readPart (opening ++ (name ++ code '"' :: (ascii "; filename=\"" ++ rest))) = some part) :
    part.filename.isSome := by
  obtain ⟨line,lines,all,-,fromLine,filed⟩ := readPart_filename plain read
  obtain ⟨value,start,-⟩ := Reader.read_unclosed fromLine
  rw [← filed,parameter_filename start]
  rfl

theorem plain_of_filename {filename rest : Text} (plain : Plain name)
    (read : readPart (opening ++ (name ++ code '"' :: (ascii "; filename=\"" ++ (filename ++ code '"' :: (crlf ++ rest))))) =
      some part) (same : part.filename = some filename) : Plain filename := by
  obtain ⟨line,lines,all,cuts,fromLine,filed⟩ := readPart_filename plain read
  rcases first_line filename (crlf ++ rest) cuts with shorter | ⟨more,others,after,rfl⟩
  · obtain ⟨value,start,less⟩ := Reader.read_unclosed fromLine
    rw [parameter_filename start,same] at filed
    obtain rfl := Option.some.inj filed
    omega
  · obtain ⟨value,start,isPlain⟩ := Reader.read_closed (follows_line (.inl ⟨rest,rfl⟩) after) fromLine
    rw [parameter_filename start,same] at filed
    exact isPlain (Option.some.inj filed)

theorem readPart_text (plain : Plain name) (value : Text) :
    readPart (opening ++ (name ++ code '"' :: (crlf ++ (crlf ++ value)))) = some ⟨name,none,value⟩ := by
  obtain ⟨line,lines,cuts,whole⟩ := readPart_opening (name ++ code '"' :: (crlf ++ (crlf ++ value)))
  have clear : code '\r' ∉ name ++ [code '"'] := clear_quote (plain_clear plain) List.not_mem_nil
  have split : name ++ code '"' :: (crlf ++ (crlf ++ value)) = (name ++ [code '"']) ++ (crlf ++ (crlf ++ value)) := by simp
  rw [split,cut_crlf_plain clear,cut_pattern crlf_ne_nil] at cuts
  obtain ⟨rfl,rfl⟩ := List.cons.inj cuts
  have named : fromName (name ++ [code '"']) = some [(ascii "name",name)] := by
    rw [fromName,Reader.exec_closed plain]
    rfl
  have read := readLines_eq named (parameter_name List.prefix_rfl)
    (fun line (member : line ∈ ([] : List Text)) => absurd member List.not_mem_nil) (cut crlf value)
  rw [whole]
  rw [intercalate_cut crlf_ne_nil] at read
  exact read

def Headed (text : Text) : Prop := ∀ line ∈ cut crlf text, line ≠ [] ∧ (header line).isSome

instance (text : Text) : Decidable (Headed text) := inferInstanceAs (Decidable (∀ line ∈ cut crlf text, _))

theorem crlf_unbordered : Unbordered crlf := unbordered_cons (by decide)

variable {filename : Text}

theorem fromName_file (plain : Plain name) (plainToo : Plain filename) :
    fromName (name ++ code '"' :: (ascii "; filename=\"" ++ (filename ++ [code '"']))) =
      some [(ascii "name",name),(ascii "filename",filename)] := by
  have quoted (rest : Text) : exec Reader.step ⟨[(ascii "name",name)],.between⟩ (ascii "; filename=\"" ++ rest) =
      exec Reader.step ⟨[(ascii "name",name)],.quoted (ascii "filename") []⟩ rest := rfl
  rw [fromName,Reader.exec_closed plain,List.nil_append,quoted,Reader.exec_closed plainToo]
  rfl

theorem readPart_lines (plain : Plain name) (plainToo : Plain filename) (headers content : Text) :
    readPart (opening ++ (name ++ code '"' :: (ascii "; filename=\"" ++ (filename ++ code '"' ::
      (crlf ++ (headers ++ (crlf ++ (crlf ++ content)))))))) =
      readLines ((opening ++ (name ++ code '"' :: (ascii "; filename=\"" ++ (filename ++ [code '"'])))) ::
        (cut crlf headers ++ [] :: cut crlf content)) := by
  obtain ⟨line,lines,cuts,whole⟩ := readPart_opening (name ++ code '"' :: (ascii "; filename=\"" ++ (filename ++
    code '"' :: (crlf ++ (headers ++ (crlf ++ (crlf ++ content)))))))
  have clear : code '\r' ∉ name ++ code '"' :: (ascii "; filename=\"" ++ (filename ++ [code '"'])) := by
    refine clear_quote (plain_clear plain) fun inside => ?_
    rcases List.mem_append.mp inside with fixed | own
    · exact absurd fixed (by decide)
    · exact clear_quote (plain_clear plainToo) List.not_mem_nil own
  have split (rest : Text) : name ++ code '"' :: (ascii "; filename=\"" ++ (filename ++ code '"' :: rest)) =
      (name ++ code '"' :: (ascii "; filename=\"" ++ (filename ++ [code '"']))) ++ rest := by simp
  rw [split,cut_crlf_plain clear,cut_append crlf_unbordered crlf_ne_nil,cut_pattern crlf_ne_nil] at cuts
  obtain ⟨rfl,rfl⟩ := List.cons.inj cuts
  exact whole

theorem readPart_file (plain : Plain name) (plainToo : Plain filename) {headers : Text} (headed : Headed headers)
    (content : Text) :
    readPart (opening ++ (name ++ code '"' :: (ascii "; filename=\"" ++ (filename ++ code '"' ::
      (crlf ++ (headers ++ (crlf ++ (crlf ++ content)))))))) = some ⟨name,some filename,content⟩ := by
  have filed : parameter "filename" [(ascii "name",name),(ascii "filename",filename)] = some filename :=
    parameter_filename (List.prefix_rfl : [(ascii "name",name)] ++ [(ascii "filename",filename)] <+: _)
  have read := readLines_eq (fromName_file plain plainToo) (parameter_name (List.prefix_append [(ascii "name",name)] _))
    headed (cut crlf content)
  rw [intercalate_cut crlf_ne_nil,filed] at read
  rw [readPart_lines plain plainToo,read]

/-- A file whose content comes back has header lines before it. -/
theorem headed_of_content (plain : Plain name) (plainToo : Plain filename) {headers content : Text}
    (read : readPart (opening ++ (name ++ code '"' :: (ascii "; filename=\"" ++ (filename ++ code '"' ::
      (crlf ++ (headers ++ (crlf ++ (crlf ++ content)))))))) = some part) (same : part.content = content) :
    Headed headers := by
  rw [readPart_lines plain plainToo] at read
  refine (readLines_headed read).resolve_right ?_
  rintro ⟨more,longer⟩
  have long := length_intercalate crlf (List.append_ne_nil_of_right_ne_nil more (List.cons_ne_nil [] (cut crlf content)))
  have short := length_intercalate crlf (cut_ne_nil crlf content)
  have wide : crlf.length = 2 := rfl
  rw [← longer,same] at long
  rw [intercalate_cut crlf_ne_nil] at short
  simp only [List.flatten_append,List.flatten_cons,List.length_append,List.length_cons,List.length_nil,wide] at long short
  omega

end

section

variable {boundary : Text} {pieces : List Text}

theorem delimiter_cons (boundary : Text) :
    delimiter boundary = code '\r' :: (code '\n' :: (ascii "--" ++ boundary)) := rfl

theorem delimiter_ne_nil (boundary : Text) : delimiter boundary ≠ [] := List.cons_ne_nil _ _

theorem intercalate_nil_cons {pattern : Text} (pieces : List Text) :
    List.intercalate pattern ([] :: pieces) = pieces.flatMap (pattern ++ ·) := by
  induction pieces with
  | nil => rfl
  | cons piece pieces ih =>
    rw [List.intercalate_cons_cons,List.flatMap_cons,← ih]
    cases pieces with
    | nil => simp
    | cons next pieces => simp [List.intercalate_cons_cons]

theorem parse_eq {text : Text} (clear : code '\r' ∉ boundary)
    (shape : crlf ++ text = pieces.flatMap (delimiter boundary ++ ·)) :
    parse boundary text = readPieces (pieces.flatMap (cut (delimiter boundary))) := by
  have unbordered : Unbordered (delimiter boundary) := by
    rw [delimiter_cons]
    refine unbordered_cons fun inside => ?_
    rw [← List.cons_append] at inside
    rcases List.mem_append.mp inside with fixed | own
    · exact absurd fixed (by decide)
    · exact clear own
  rw [parse,shape,← intercalate_nil_cons,cut_intercalate unbordered (delimiter_ne_nil boundary) (List.cons_ne_nil _ _)]
  rfl

theorem readPieces_last (boundary : Text) (rest : List Text) :
    readPieces (cut (delimiter boundary) (ascii "--" ++ crlf) ++ rest) = some [] := by
  obtain ⟨piece,more,cuts⟩ := List.exists_cons_of_ne_nil (cut_ne_nil (delimiter boundary) crlf)
  have clear : code '\r' ∉ ascii "--" := by decide
  rw [delimiter_cons] at cuts ⊢
  rw [cut_clear clear,cuts]
  have closes : ascii "--" <+: ascii "--" ++ piece := List.prefix_append ..
  exact if_pos closes

theorem readPiece_line (text : Text) : readPiece (crlf ++ text) = readPart text := by
  have start : crlf <+: crlf ++ text := List.prefix_append ..
  have kept : (crlf ++ text).dropWhile blank = crlf ++ text := rfl
  rw [readPiece,kept]
  exact if_pos start

theorem readPieces_cons {text : Text} {rest : List Text} {part : Part} {parts : List Part} :
    readPieces ((crlf ++ text) :: rest) = some (part :: parts) ↔
      readPart text = some part ∧ readPieces rest = some parts := by
  have unfinished : ¬ascii "--" <+: crlf ++ text := by
    rintro ⟨more,same⟩
    exact absurd (List.cons.inj same).1 (by decide)
  rw [readPieces,if_neg unfinished,readPiece_line]
  cases readPart text <;> cases readPieces rest <;> simp

theorem cut_opening (boundary text : Text) : cut (delimiter boundary) (crlf ++ (opening ++ text)) =
    (cut (delimiter boundary) text).modifyHead (crlf ++ opening ++ ·) := by
  have different : ¬delimiter boundary <+: code '\r' :: (code '\n' :: (opening ++ text)) := by
    rintro ⟨more,same⟩
    exact absurd (List.cons.inj (List.cons.inj (List.cons.inj same).2).2).1 (by decide)
  have clear : code '\r' ∉ code '\n' :: opening := by decide
  have split : crlf ++ (opening ++ text) = code '\r' :: (code '\n' :: (opening ++ text)) := rfl
  rw [split,cut_cons different,← List.cons_append,delimiter_cons,cut_clear clear,List.modifyHead_modifyHead]
  rfl

variable {ι : Type} {after : ι → Text} {view : ι → Part} {Good : ι → Prop}

/-- Parts with this opening are read as they are meant exactly when each is good, where a good one
holds no delimiter and is read as it is meant, and a bad one is not, as far as it goes. -/
theorem readPieces_iff (boundary : Text) {items : List ι}
    (good : ∀ i, i ∈ items → Good i → cut (delimiter boundary) (after i) = [after i] ∧
      readPart (opening ++ after i) = some (view i))
    (bad : ∀ i, i ∈ items → ¬Good i → ∀ first rest, cut (delimiter boundary) (after i) = first :: rest →
      readPart (opening ++ first) ≠ some (view i)) :
    readPieces ((items.map (fun i => crlf ++ (opening ++ after i)) ++ [ascii "--" ++ crlf]).flatMap
      (cut (delimiter boundary))) = some (items.map view) ↔ ∀ i ∈ items, Good i := by
  induction items with
  | nil => simpa using readPieces_last boundary []
  | cons i items ih =>
    have later := ih (fun j member => good j (List.mem_cons_of_mem _ member))
      fun j member => bad j (List.mem_cons_of_mem _ member)
    rw [List.map_cons,List.cons_append,List.flatMap_cons,cut_opening,List.map_cons,List.forall_mem_cons,← later]
    by_cases here : Good i
    · obtain ⟨one,read⟩ := good i List.mem_cons_self here
      rw [one]
      have split : (crlf ++ opening) ++ after i = crlf ++ (opening ++ after i) := List.append_assoc ..
      simp only [List.modifyHead_cons,List.singleton_append,split,readPieces_cons,read,here,true_and]
    · obtain ⟨first,rest,cuts⟩ := List.exists_cons_of_ne_nil (cut_ne_nil (delimiter boundary) (after i))
      have different := bad i List.mem_cons_self here first rest cuts
      rw [cuts,List.modifyHead_cons,List.cons_append,List.append_assoc,readPieces_cons]
      exact ⟨fun both => absurd both.1 different,fun both => absurd both.1 here⟩

end

end Multipart
