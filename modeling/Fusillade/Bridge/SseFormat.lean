import Fusillade.Bridge.Sse
import Fusillade.Lib.Separators

/-! The format of an event stream: lines that change none of its events, and the rendering of
events that the reader takes back. -/
namespace Fusillade.Bridge.Sse

open Stats Utils

def carriageReturn : UInt8 := Utf8.byte '\r'

/-- Nothing before the line end. -/
def blankLine (line : List UInt8) : Bool := line.all (· = carriageReturn)

def commentLine (line : List UInt8) : Bool := line.head? = some (Utf8.byte ':')

/-- Whether a line leaves the stream between two events. -/
def leavesBetween (between : Bool) (line : List UInt8) : Bool :=
  blankLine line || commentLine line && between

/-- `longer` is the stream with comment lines put between its lines, and blank lines between its
events; `between` says whether an event has started already. -/
inductive Inserted : (between : Bool) → (stream longer : List UInt8) → Prop
  | rest (between : Bool) (stream : List UInt8) : Inserted between stream stream
  | line {between : Bool} {line stream longer : List UInt8} (inside : newline ∉ line)
      (later : Inserted (leavesBetween between line) stream longer) :
      Inserted between (line ++ newline :: stream) (line ++ newline :: longer)
  | comment {between : Bool} {text : Text} {stream longer : List UInt8} (inside : '\n' ∉ text)
      (later : Inserted between stream longer) :
      Inserted between stream (Utf8.encode (':' :: text) ++ newline :: longer)
  | blank {line stream longer : List UInt8} (empty : blankLine line = true)
      (later : Inserted true stream longer) : Inserted true stream (line ++ newline :: longer)

variable {resumes : ReadError → Bool} {p : Pending} {line bytes : List UInt8} {text : Text}

theorem newline_mem_encode : newline ∈ Utf8.encode text ↔ '\n' ∈ text := Utf8.byte_mem_encode (by decide)

theorem newline_not_mem_blank (empty : blankLine line = true) : newline ∉ line := by
  intro member
  have := List.all_eq_true.mp empty newline member
  exact absurd this (by decide)

/-- A blank line is one for the reader too. -/
theorem trimLineEnd_blank (empty : blankLine line = true) (valid : Utf8.decode line = some text) :
    trimLineEnd text = [] := by
  refine List.rdropWhile_eq_nil_iff.mpr ?_
  intro c member
  obtain ⟨b,of⟩ := List.exists_mem_of_ne_nil _ (@String.utf8EncodeChar_ne_nil c)
  have inLine : b ∈ line := by
    rw [← Utf8.decode_eq_some.mp valid,Utf8.encode]
    exact List.mem_flatMap.mpr ⟨c,member,of⟩
  have isReturn : b = carriageReturn := by simpa using List.all_eq_true.mp empty b inLine
  rw [isReturn] at of
  obtain rfl := (Utf8.byte_mem_encodeChar (by decide)).mp of
  rfl

theorem head_trimLineEnd {c : Char} (ink : c ∉ ['\r','\n']) (first : text.head? = some c) :
    (trimLineEnd text).head? = some c := by
  have kept : trimLineEnd text ≠ [] := by
    intro blank
    have := List.rdropWhile_eq_nil_iff.mp blank c (List.mem_of_head? first)
    exact ink (by simpa using this)
  obtain ⟨ends,whole⟩ : trimLineEnd text <+: text := List.rdropWhile_prefix _ _
  rw [← whole,List.head?_append_of_ne_nil _ kept] at first
  exact first

theorem following_blankLine (empty : blankLine line = true)
    (idle : p.hasContent = false) :
    following resumes [] p (line ++ newline :: bytes) = following resumes [] p bytes := by
  have valid : ∃ text, Utf8.decode line = some text := by
    refine ⟨line.map fun _ => '\r',Utf8.decode_eq_some.mpr ?_⟩
    induction line with
    | nil => rfl
    | cons b line ih =>
      simp only [blankLine,List.all_cons,Bool.and_eq_true,decide_eq_true_eq] at empty
      obtain ⟨rfl,later⟩ := empty
      rw [List.map_cons,Utf8.encode_cons,ih later]
      rfl
  obtain ⟨text,valid⟩ := valid
  rw [following_append (newline_not_mem_blank empty),List.nil_append,
    following_blank valid (trimLineEnd_blank empty valid),if_neg (by simp [idle])]

theorem following_commentLine (inside : '\n' ∉ text) :
    following resumes [] p (Utf8.encode (':' :: text) ++ newline :: bytes) = following resumes [] p bytes := by
  have plain : newline ∉ Utf8.encode (':' :: text) := by
    rw [newline_mem_encode]
    simpa using inside
  rw [following_append plain,List.nil_append,
    following_comment (Utf8.decode_encode _) (head_trimLineEnd (by decide) rfl)]

/-- Where no event has started, or only comment lines are put, the events stay the same. -/
theorem following_inserted {between : Bool} {stream longer : List UInt8} (dropped : resumes invalidUtf8 = false)
    (inserted : Inserted between stream longer) (idle : between = true → p.hasContent = false) :
    following resumes [] p longer = following resumes [] p stream := by
  induction inserted generalizing p with
  | rest => rfl
  | @line between line stream longer inside later ih =>
    rw [following_append inside,following_append inside,List.nil_append]
    cases valid : Utf8.decode line with
    | none => rw [following_invalid valid dropped,following_invalid valid dropped]
    | some text =>
      by_cases blank : trimLineEnd text = []
      · rw [following_blank valid blank,following_blank valid blank,ih fun _ => rfl]
        split
        · rfl
        next empty => exact ih fun _ => Bool.eq_false_of_not_eq_true empty
      by_cases comment : (trimLineEnd text).head? = some ':'
      · rw [following_comment valid comment,following_comment valid comment]
        refine ih fun after => ?_
        rcases Bool.or_eq_true_iff.mp after with empty | still
        · exact absurd (trimLineEnd_blank empty valid) blank
        · exact idle (Bool.and_eq_true_iff.mp still).2
      · rw [following_field valid blank comment,following_field valid blank comment]
        refine ih fun after => ?_
        rcases Bool.or_eq_true_iff.mp after with empty | still
        · exact absurd (trimLineEnd_blank empty valid) blank
        · have colon := of_decide_eq_true (Bool.and_eq_true_iff.mp still).1
          rw [← Utf8.decode_eq_some.mp valid] at colon
          exact absurd (head_trimLineEnd (by decide) ((Utf8.head_of_encode (by decide)).mp colon)) comment
  | comment inside later ih => rw [following_commentLine inside,ih idle]
  | blank empty later ih => rw [following_blankLine empty (idle rfl),ih idle]

/-- **Comment lines between any lines, and blank lines between events, change no event** that the
calls of `read_sse_event` return, nor the error that ends them. -/
theorem parseStream_inserted {stream longer : List UInt8} (inserted : Inserted true stream longer) :
    parseStream longer = parseStream stream := by
  rw [parseStream_following,parseStream_following]
  exact following_inserted rfl inserted fun _ => rfl

/-- A comment inside of an event of two lines, and a blank line after it. -/
theorem parseStream_inserted_both :
    parseStream (Utf8.encode "data: a".toList ++ newline :: (Utf8.encode (':' :: ['x']) ++ newline ::
        (Utf8.encode "data: b".toList ++ newline :: ([] ++ newline :: ([carriageReturn] ++ [newline]))))) =
      parseStream (Utf8.encode "data: a".toList ++ newline ::
        (Utf8.encode "data: b".toList ++ newline :: ([] ++ [newline]))) :=
  parseStream_inserted
    (.line (by decide) (.comment (by decide) (.line (by decide) (.line (by decide) (.blank rfl (.rest true []))))))

def OnLine (text : Text) : Prop := '\n' ∉ text ∧ '\r' ∉ text

instance (text : Text) : Decidable (OnLine text) := inferInstanceAs (Decidable (_ ∧ _))

/-- An event as it is sent, with its lines of data. -/
structure Message where
  event : Option Text
  id : Option Text
  data : List Text
  lines : ∀ value ∈ event.toList ++ id.toList ++ data, OnLine value
  written : event.toList ++ id.toList ++ data ≠ []

def fieldLine (field : String) (value : Text) : List UInt8 :=
  Utf8.encode (field.toList ++ ": ".toList ++ value) ++ [newline]

namespace Message

variable (m : Message)

def values : List Text := m.event.toList ++ m.id.toList ++ m.data

def sent : SseEvent := ⟨m.event,join m.data,m.id⟩

def render : List UInt8 :=
  m.event.toList.flatMap (fieldLine "event") ++ m.id.toList.flatMap (fieldLine "id") ++
    m.data.flatMap (fieldLine "data") ++ [newline]

/-- No value has blanks at its ends. -/
def Trimmed : Prop := ∀ value ∈ m.values, trim value = value

/-- What the reader makes of it. -/
def taken : SseEvent := ⟨m.event.map trim,join (m.data.map trim),m.id.map trim⟩

end Message

/-- A line that the format gives a meaning. -/
theorem following_text (visible : OnLine text) (content : text ≠ []) (field : text.head? ≠ some ':') :
    following resumes [] p (Utf8.encode text ++ newline :: bytes) = following resumes [] (p.field text) bytes := by
  have kept : trimLineEnd text = text := by
    refine List.rdropWhile_eq_self_iff.mpr ?_
    intro nonempty ends
    rcases List.mem_pair.mp (of_decide_eq_true ends) with last | last
    · exact visible.2 (last ▸ List.getLast_mem nonempty)
    · exact visible.1 (last ▸ List.getLast_mem nonempty)
  rw [following_append (mt newline_mem_encode.mp visible.1),List.nil_append,
    following_field (Utf8.decode_encode text) (by rwa [kept]) (by rwa [kept]),kept]

theorem following_fieldLine {field : String} {value : Text} (name : OnLine field.toList)
    (first : ∃ c rest, field.toList = c :: rest ∧ c ≠ ':') (visible : OnLine value) :
    following resumes [] p (fieldLine field value ++ bytes) =
      following resumes [] (p.field (field.toList ++ ": ".toList ++ value)) bytes := by
  obtain ⟨c,rest,spelled,other⟩ := first
  have whole : OnLine (field.toList ++ ": ".toList ++ value) := by
    simp only [OnLine,List.mem_append] at name visible ⊢
    simp [name,visible]
  rw [fieldLine,List.append_assoc,List.singleton_append,
    following_text whole (by simp [spelled]) (by simpa [spelled] using other)]

theorem trim_blank {c : Char} (blank : isWhitespace c = true) (value : Text) : trim (c :: value) = trim value := by
  rw [trim,List.dropWhile_cons_of_pos blank,trim]

theorem field_event (p : Pending) (value : Text) :
    p.field ("event".toList ++ ": ".toList ++ value) =
      { p with hasContent := true, eventType := some (trim value) } := by
  have spaced : p.field ("event".toList ++ ": ".toList ++ value) =
    { p with hasContent := true, eventType := some (trim (' ' :: value)) } := rfl
  rw [spaced,trim_blank (by decide)]

theorem field_data (p : Pending) (value : Text) :
    p.field ("data".toList ++ ": ".toList ++ value) =
      { p with hasContent := true, dataLines := p.dataLines ++ [trim value] } := by
  have spaced : p.field ("data".toList ++ ": ".toList ++ value) =
    { p with hasContent := true, dataLines := p.dataLines ++ [trim (' ' :: value)] } := rfl
  rw [spaced,trim_blank (by decide)]

theorem field_id (p : Pending) (value : Text) :
    p.field ("id".toList ++ ": ".toList ++ value) =
      { p with hasContent := true, id := some (trim value) } := by
  have spaced : p.field ("id".toList ++ ": ".toList ++ value) =
    { p with hasContent := true, id := some (trim (' ' :: value)) } := rfl
  rw [spaced,trim_blank (by decide)]

/-- The line of a field that may be missing. -/
theorem following_event {event : Option Text} (visible : ∀ value ∈ event, OnLine value) :
    following resumes [] {} (event.toList.flatMap (fieldLine "event") ++ bytes) =
      following resumes [] { eventType := event.map trim, hasContent := event.isSome } bytes := by
  cases event with
  | none => rfl
  | some value =>
    rw [Option.toList_some,List.flatMap_singleton,
      following_fieldLine (by decide) ⟨_,_,rfl,by decide⟩ (visible value rfl),field_event]
    rfl

theorem following_id {id : Option Text} (missing : p.id = none) (visible : ∀ value ∈ id, OnLine value) :
    following resumes [] p (id.toList.flatMap (fieldLine "id") ++ bytes) =
      following resumes [] { p with id := id.map trim, hasContent := p.hasContent || id.isSome } bytes := by
  cases id with
  | none =>
    have same : { p with id := none, hasContent := p.hasContent || false } = p := by
      rw [Bool.or_false,← missing]
    exact congrArg (following resumes [] · bytes) same.symm
  | some value =>
    rw [Option.toList_some,List.flatMap_singleton,
      following_fieldLine (by decide) ⟨_,_,rfl,by decide⟩ (visible value rfl),field_id]
    simp

theorem following_data {lines : List Text} (visible : ∀ value ∈ lines, OnLine value) :
    following resumes [] p (lines.flatMap (fieldLine "data") ++ bytes) =
      following resumes []
        { p with dataLines := p.dataLines ++ lines.map trim, hasContent := p.hasContent || !lines.isEmpty }
        bytes := by
  induction lines generalizing p with
  | nil => simp
  | cons value lines ih =>
    obtain ⟨here,later⟩ := List.forall_mem_cons.mp visible
    rw [List.flatMap_cons,List.append_assoc,following_fieldLine (by decide) ⟨_,_,rfl,by decide⟩ here,field_data,
      ih later]
    simp

namespace Message

variable {m : Message} {messages : List Message}

/-- The lines of a message give its event, with every value trimmed. -/
theorem following_render (m : Message) :
    following resumes [] {} (m.render ++ bytes) =
      (m.taken :: (following resumes [] {} bytes).1,(following resumes [] {} bytes).2) := by
  have visible := m.lines
  simp only [List.forall_mem_append,Option.mem_toList] at visible
  obtain ⟨⟨event,id⟩,data⟩ := visible
  have content : m.event.isSome || m.id.isSome || !m.data.isEmpty := by
    have := m.written
    cases named : m.event with
    | some _ => rfl
    | none =>
      cases identified : m.id with
      | some _ => rfl
      | none => simpa [named,identified] using this
  rw [render,List.append_assoc,List.append_assoc,List.append_assoc,following_event event,
    following_id rfl id,following_data data,List.singleton_append,following_blank decode_nil rfl,if_pos content]
  rfl

theorem parseStream_render (messages : List Message) :
    parseStream (messages.flatMap render) = (messages.map taken,none) := by
  rw [parseStream_following]
  induction messages with
  | nil => rfl
  | cons m messages ih => rw [List.flatMap_cons,following_render,ih,List.map_cons]

/-- Lines can be told from the text that they make, where their number is known. -/
theorem join_inj {lines others : List Text} (inside : ∀ line ∈ lines, '\n' ∉ line)
    (within : ∀ line ∈ others, '\n' ∉ line) (count : lines.length = others.length) :
    join lines = join others ↔ lines = others := by
  by_cases empty : lines = []
  · have other : others = [] := List.eq_nil_of_length_eq_zero (by rw [← count,empty]; rfl)
    simp [empty,other]
  · have other : others ≠ [] := List.ne_nil_of_length_pos (count ▸ List.length_pos_of_ne_nil empty)
    exact Separators.intercalate_inj inside within empty other

theorem taken_eq_sent : m.taken = m.sent ↔ m.Trimmed := by
  have visible := m.lines
  simp only [List.forall_mem_append,Option.mem_toList] at visible
  obtain ⟨_,data⟩ := visible
  have lines : join (m.data.map trim) = join m.data ↔ ∀ line ∈ m.data, trim line = line := by
    rw [join_inj (by simpa using fun line member => mt mem_of_mem_trim (data line member).1)
      (fun line member => (data line member).1) (List.length_map _)]
    conv_lhs => rw [← List.map_id m.data,List.map_map]
    exact List.map_inj_left
  have optional (value : Option Text) : value.map trim = value ↔ ∀ text ∈ value, trim text = text := by
    cases value <;> simp
  simp only [taken,sent,SseEvent.mk.injEq,lines,optional,Trimmed,values,List.forall_mem_append,
    Option.mem_toList]
  tauto

/-- **A stream of messages reads as the messages sent exactly when no name, id or line of data
has white space at its ends**: `trim` takes off more than the one space after the colon. -/
theorem parseStream_render_iff (messages : List Message) :
    parseStream (messages.flatMap render) = (messages.map sent,none) ↔ ∀ m ∈ messages, m.Trimmed := by
  rw [parseStream_render,Prod.mk.injEq,and_iff_left rfl,List.map_inj_left]
  exact forall₂_congr fun _ _ => taken_eq_sent

/-- Data that starts with a space. -/
def indented : Message where
  event := none
  id := none
  data := [" x".toList]
  lines := by decide
  written := by decide

theorem indented_changed :
    ¬∀ messages : List Message, parseStream (messages.flatMap render) = (messages.map sent,none) := by
  intro same
  have read := same [indented]
  rw [parseStream_render] at read
  exact absurd (Prod.mk.inj read).1 (by decide)

end Message

end Fusillade.Bridge.Sse
