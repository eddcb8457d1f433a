import Fusillade.Bridge.Sse
import Fusillade.Lib.Machine

/-! Transient errors between the bytes of an event stream. The reading of a stream is followed
item by item: the part of a line and the fields of an event that a call holds are its own, and
an error ends the call. -/
namespace Fusillade.Bridge.Sse

open Machine

/-- How far the reading of a stream has come. -/
structure Progress where
  line : List UInt8 := []
  pending : Pending := {}
  events : List SseEvent := []
  /-- An error that is not transient has dropped the stream. -/
  closed : Bool := false
  deriving DecidableEq

namespace Progress

def take (s : Progress) : LineRead → Progress
  | .error e =>
    if isTransient e then { s with line := [], pending := {} } else { s with closed := true }
  | .ok line =>
    let line := trimLineEnd line
    if line = [] then
      if s.pending.hasContent then
        { s with line := [], pending := {}, events := s.events ++ [s.pending.event] }
      else { s with line := [] }
    else if line.head? = some ':' then { s with line := [] }
    else { s with line := [], pending := s.pending.field line }

def advance (s : Progress) : Item → Progress
  | .byte b =>
    if s.closed then s
    else if b = newline then s.take (decodeLine (s.line ++ [b]))
    else { s with line := s.line ++ [b] }
  | .error e => if s.closed || e.kind = .interrupted then s else s.take (.error e)

def outcome (s : Progress) (rest : List Item) : List SseEvent :=
  if s.closed then s.events
  else s.events ++ (eventsFrom isTransient s.pending (lineReads s.line rest)).1

/-- The call in progress, if any, holds nothing: neither a part of a line nor a field. -/
def Idle (s : Progress) : Prop := s.closed = true ∨ s.line = [] ∧ s.pending.hasContent = false

instance (s : Progress) : Decidable s.Idle := inferInstanceAs (Decidable (_ ∨ _ ∧ _))

/-- Without a field nothing of an event is there. -/
def Consistent (s : Progress) : Prop := s.pending.hasContent = false → s.pending = {}

end Progress

/-- A byte, or an error that says to try again later. -/
inductive Arrival where
  | byte (b : UInt8)
  | wouldBlock (message : String)
  | timedOut (message : String)
  deriving DecidableEq

def Arrival.item : Arrival → Item
  | byte b => .byte b
  | wouldBlock message => .error ⟨.wouldBlock,message⟩
  | timedOut message => .error ⟨.timedOut,message⟩

def Arrival.byte? : Arrival → Option UInt8
  | byte b => some b
  | _ => none

def bytesOf (arrivals : List Arrival) : List UInt8 := arrivals.filterMap Arrival.byte?

/-- However the stream goes on, enough calls of `recv` return the events of the stream that had
no errors so far. -/
def Transparent (arrivals : List Arrival) : Prop :=
  ∀ (rest : List UInt8) (durations : Nat → Duration), ∃ enough, ∀ calls ≥ enough,
    received durations calls (connected (arrivals.map Arrival.item ++ rest.map .byte)) =
      received durations calls (connected ((bytesOf arrivals ++ rest).map .byte))

def progress (items : List Item) : Progress := items.foldl Progress.advance {}

def Settled (arrivals : List Arrival) (a : Arrival) : Prop :=
  a.byte? = none → (progress (arrivals.map Arrival.item)).Idle

instance (arrivals : List Arrival) (a : Arrival) : Decidable (Settled arrivals a) :=
  inferInstanceAs (Decidable (_ → _))

def arrive (arrivals : List Arrival) (a : Arrival) : Option (List Arrival) := some (arrivals ++ [a])

namespace Progress

variable {s : Progress} {read : LineRead} {item : Item}

theorem outcome_take (s : Progress) (unclosed : s.closed = false) (read : LineRead) (rest : List Item) :
    (s.take read).outcome rest =
      s.events ++ (eventsFrom isTransient s.pending (read :: lineReads [] rest)).1 := by
  cases read with
  | error e =>
    cases transient : isTransient e <;> simp [take,outcome,eventsFrom,transient,unclosed]
  | ok line =>
    simp only [take,eventsFrom]
    split
    next =>
      cases content : s.pending.hasContent <;> simp [outcome,unclosed]
    next =>
      split <;> simp [outcome,unclosed]

/-- The events of a stream do not depend on where the reading is cut. -/
theorem outcome_advance (s : Progress) (item : Item) (rest : List Item) :
    s.outcome (item :: rest) = (s.advance item).outcome rest := by
  cases closed : s.closed with
  | true => cases item <;> simp [advance,outcome,closed]
  | false =>
    cases item with
    | byte b =>
      simp only [advance,closed,Bool.false_eq_true,if_false]
      split
      next ends =>
        rw [outcome_take s closed,outcome,if_neg (by simp [closed]),lineReads,if_pos ends]
      next inside => simp [outcome,closed,lineReads,inside]
    | error e =>
      simp only [advance,closed,Bool.false_or,decide_eq_true_eq]
      split
      next again => simp [outcome,closed,lineReads,again]
      next fails =>
        rw [outcome_take s closed,outcome,if_neg (by simp [closed]),lineReads,if_neg fails]

theorem outcome_foldl (s : Progress) (items rest : List Item) :
    s.outcome (items ++ rest) = (items.foldl advance s).outcome rest := by
  induction items generalizing s with
  | nil => rfl
  | cons item items ih => rw [List.cons_append,outcome_advance,ih,List.foldl_cons]

theorem advance_consistent (consistent : s.Consistent) (item : Item) : (s.advance item).Consistent := by
  have taken (read : LineRead) : (s.take read).Consistent := by
    cases read with
    | error e =>
      rw [take]
      split
      · exact fun _ => rfl
      · exact consistent
    | ok line =>
      simp only [take]
      split
      · split
        · exact fun _ => rfl
        · exact consistent
      · split
        · exact consistent
        · intro blank
          rw [field_hasContent] at blank
          cases blank
  cases item with
  | byte b =>
    simp only [advance]
    split
    · exact consistent
    · split
      · exact taken _
      · exact consistent
  | error e =>
    simp only [advance]
    split
    · exact consistent
    · exact taken _

theorem advance_idle (consistent : s.Consistent) (idle : s.Idle) {e : ReadError} (transient : isTransient e) :
    s.advance (.error e) = s := by
  rcases idle with closed | ⟨line,blank⟩
  · simp [advance,closed]
  · simp only [advance]
    split
    · rfl
    · rw [take,if_pos transient,← line,← consistent blank]

end Progress

variable {line : List UInt8} {p : Pending} {text : Text}

def coming (line : List UInt8) (p : Pending) (bytes : List UInt8) : List SseEvent :=
  (following isTransient line p bytes).1

theorem coming_ends (content : p.hasContent = true) : (coming [] p [newline]).length = 1 := by
  rw [coming,following_blank decode_nil rfl,if_pos content]
  rfl

/-- Two line ends complete an event that has a field already, or gets it from the line. -/
theorem coming_two (valid : Utf8.decode line = some text)
    (field : p.hasContent = true ∨ trimLineEnd text ≠ [] ∧ (trimLineEnd text).head? ≠ some ':') :
    (coming line p [newline,newline]).length = 1 := by
  rw [coming]
  by_cases blank : trimLineEnd text = []
  · have content := field.resolve_right (fun new => new.1 blank)
    rw [following_blank valid blank,if_pos content]
    rfl
  · by_cases comment : (trimLineEnd text).head? = some ':'
    · rw [following_comment valid comment]
      exact coming_ends (field.resolve_right (fun new => new.2 comment))
    · rw [following_field valid blank comment]
      exact coming_ends (field_hasContent _ _)

/-- A colon after carriage returns does not make a comment. -/
theorem coming_colon (valid : Utf8.decode line = some text) (blank : trimLineEnd text = []) (started : line ≠ []) :
    (coming line p [Utf8.byte ':',newline,newline]).length = 1 := by
  have longer : Utf8.decode (line ++ [Utf8.byte ':']) = some (text ++ [':']) := by
    rw [Utf8.decode_concat (by decide),valid]
    rfl
  have kept : trimLineEnd (text ++ [':']) = text ++ [':'] := trimLineEnd_concat (by decide) text
  have first : (text ++ [':']).head? ≠ some ':' := by
    cases text with
    | nil => exact absurd (Utf8.decode_eq_some.mp valid).symm started
    | cons c text =>
      have isEnd := List.rdropWhile_eq_nil_iff.mp blank c List.mem_cons_self
      rintro ⟨⟩
      cases isEnd
  rw [coming,following_inside (by decide),← coming]
  exact coming_two longer (.inr ⟨by simp [kept],by rwa [kept]⟩)

theorem head_of_trimLineEnd {c : Char} (first : (trimLineEnd text).head? = some c) : text.head? = some c := by
  obtain ⟨ends,whole⟩ : trimLineEnd text <+: text := List.rdropWhile_prefix _ _
  rw [← whole,List.head?_append,first]
  rfl

theorem coming_comment (valid : Utf8.decode line = some text) (comment : (trimLineEnd text).head? = some ':')
    (empty : ¬p.hasContent = true) : coming line p [Utf8.byte 'x',newline,newline] = [] := by
  have longer : Utf8.decode (line ++ [Utf8.byte 'x']) = some (text ++ ['x']) := by
    rw [Utf8.decode_concat (by decide),valid]
    rfl
  have still : (trimLineEnd (text ++ ['x'])).head? = some ':' := by
    rw [trimLineEnd_concat (by decide),List.head?_append,head_of_trimLineEnd comment]
    rfl
  rw [coming,following_inside (by decide),following_comment longer still,following_blank decode_nil rfl,
    if_neg empty,following_nil,if_neg empty]

/-- What a call holds shows in the number of events that some bytes lead to. -/
theorem distinguished (line : List UInt8) (p : Pending) (busy : line ≠ [] ∨ p.hasContent = true) :
    ∃ bytes, (coming line p bytes).length ≠ (coming [] {} bytes).length := by
  cases valid : Utf8.decode line with
  | none =>
    refine ⟨newline :: Utf8.encode "data:\n\n".toList,?_⟩
    rw [coming,following_invalid valid rfl]
    decide +kernel
  | some text =>
    by_cases field : p.hasContent = true ∨ trimLineEnd text ≠ [] ∧ (trimLineEnd text).head? ≠ some ':'
    · refine ⟨[newline,newline],?_⟩
      rw [coming_two valid field]
      decide +kernel
    obtain ⟨empty,other⟩ := not_or.mp field
    by_cases blank : trimLineEnd text = []
    · refine ⟨[Utf8.byte ':',newline,newline],?_⟩
      rw [coming_colon valid blank (busy.resolve_right empty)]
      decide +kernel
    · have comment : (trimLineEnd text).head? = some ':' := by
        by_contra new
        exact other ⟨blank,new⟩
      refine ⟨[Utf8.byte 'x',newline,newline],?_⟩
      rw [coming_comment valid comment empty]
      decide +kernel

variable {arrivals : List Arrival}

theorem progress_consistent (items : List Item) : (progress items).Consistent :=
  List.foldlRecOn items Progress.advance (fun _ => rfl) (fun _ valid item _ => Progress.advance_consistent valid item)

/-- What enough calls of `recv` return, when the reading is followed up to some item. -/
theorem received_progress (items rest : List Item) (durations : Nat → Duration) {calls : Nat}
    (enough : (lineReads [] (items ++ rest)).length < calls) :
    received durations calls (connected (items ++ rest)) =
      ((progress items).outcome rest).map SseEvent.toJs := by
  rw [connected,received_eq durations none enough,progress,← Progress.outcome_foldl]
  rfl

theorem bytesOf_concat (arrivals : List Arrival) (a : Arrival) :
    bytesOf (arrivals ++ [a]) = bytesOf arrivals ++ a.byte?.toList := by
  cases a <;> simp [bytesOf,Arrival.byte?]

theorem progress_concat (items : List Item) (item : Item) :
    progress (items ++ [item]) = (progress items).advance item := by
  rw [progress,List.foldl_concat,progress]

/-- The reading is where it would be had there been no errors. -/
def Caught (arrivals : List Arrival) : Prop :=
  progress (arrivals.map Arrival.item) = progress ((bytesOf arrivals).map .byte)

theorem transient_of_error {a : Arrival} (error : a.byte? = none) :
    ∃ e, a.item = .error e ∧ isTransient e ∧ e.kind ≠ .interrupted := by
  cases a with
  | byte b => cases error
  | wouldBlock message => exact ⟨_,rfl,rfl,nofun⟩
  | timedOut message => exact ⟨_,rfl,rfl,nofun⟩

theorem arrive_caught (arrivals : List Arrival) (a : Arrival) (next : List Arrival) (caught : Caught arrivals)
    (settled : Settled arrivals a) (arrived : arrive arrivals a = some next) : Caught next := by
  obtain rfl := Option.some.inj arrived
  rw [Caught,List.map_append,List.map_singleton,progress_concat,bytesOf_concat]
  cases byte : a.byte? with
  | none =>
    obtain ⟨e,item,transient,_⟩ := transient_of_error byte
    rw [item,Progress.advance_idle (progress_consistent _) (settled byte) transient,caught]
    simp
  | some b =>
    have item : a.item = .byte b := by
      cases a <;> cases byte
      rfl
    rw [item,caught,Option.toList_some,List.map_append,List.map_singleton,progress_concat]

theorem caught_transparent (arrivals : List Arrival) (caught : Caught arrivals) : Transparent arrivals := by
  intro rest durations
  refine ⟨max (lineReads [] (arrivals.map Arrival.item ++ rest.map .byte)).length
    (lineReads [] ((bytesOf arrivals).map .byte ++ rest.map .byte)).length + 1,?_⟩
  intro calls enough
  rw [List.map_append,received_progress _ _ _ (by omega),received_progress _ _ _ (by omega),caught]

/-- Some bytes after an error that took something show what it took. -/
theorem unsettled_breaks (arrivals : List Arrival) (a : Arrival) (next : List Arrival) (caught : Caught arrivals)
    (unsettled : ¬Settled arrivals a) (arrived : arrive arrivals a = some next) : ¬Transparent next := by
  obtain rfl := Option.some.inj arrived
  obtain ⟨error,busy⟩ := Classical.not_imp.mp unsettled
  obtain ⟨e,item,transient,kind⟩ := transient_of_error error
  obtain ⟨unclosed,held⟩ := not_or.mp busy
  have unclosed := Bool.eq_false_of_not_eq_true unclosed
  intro transparent
  obtain ⟨rest,differ⟩ := distinguished _ _
    ((not_and_or.mp held).imp_right Bool.eq_true_of_not_eq_false)
  have without : bytesOf (arrivals ++ [a]) = bytesOf arrivals := by
    rw [bytesOf_concat,error,Option.toList_none,List.append_nil]
  obtain ⟨enough,same⟩ := transparent rest (fun _ => 0)
  have same := same (max enough (max
    (lineReads [] ((arrivals ++ [a]).map Arrival.item ++ rest.map .byte)).length
    (lineReads [] ((bytesOf (arrivals ++ [a])).map .byte ++ rest.map .byte)).length + 1)) (Nat.le_max_left _ _)
  rw [@List.map_append _ _ _ (bytesOf _),received_progress _ _ _ (by omega),received_progress _ _ _ (by omega),
    without,← caught,List.map_append,List.map_singleton,progress_concat,item] at same
  have lengths := congrArg List.length same
  have here : (progress (arrivals.map Arrival.item)).advance (.error e) =
      { progress (arrivals.map Arrival.item) with line := [], pending := {} } := by
    simp [Progress.advance,Progress.take,unclosed,kind,transient]
  simp only [here,List.length_map,Progress.outcome,unclosed,Bool.false_eq_true,if_false,
    List.length_append] at lengths
  exact differ (Nat.add_left_cancel lengths).symm

/-- **However a stream goes on, errors that say to try again later have changed none of its
events exactly when each came while no call of `recv` held a part of a line or of an event**,
or when the stream had been dropped. -/
theorem transparent_iff_settled (arrivals : List Arrival) :
    Along arrive Transparent [] arrivals ↔ Guarded arrive Settled [] arrivals := by
  have run (arrivals : List Arrival) : ∀ s, exec arrive s arrivals = some (s ++ arrivals) := by
    induction arrivals with
    | nil => exact fun s => congrArg some (List.append_nil s).symm
    | cons a rest ih =>
      intro s
      rw [exec_cons,arrive,Option.bind_some,ih,List.append_assoc]
      rfl
  exact along_iff_guarded arrive_caught caught_transparent unsettled_breaks rfl (run arrivals [])

/-- `data: x`, the read has to wait, and a blank line ends the event. -/
def cutField : List Arrival :=
  (Utf8.encode "data: x".toList).map .byte ++
    [.wouldBlock "Resource temporarily unavailable (os error 11)",.byte newline,.byte newline]

theorem cutField_loses_event :
    ¬∀ durations, ∃ enough, ∀ calls ≥ enough,
      received durations calls (connected (cutField.map Arrival.item)) =
        received durations calls (connected ((bytesOf cutField).map .byte)) := by
  intro transparent
  obtain ⟨enough,same⟩ := transparent fun _ => 0
  have same := same (max enough 10) (Nat.le_max_left _ _)
  have whole : (lineReads [] ((bytesOf cutField).map .byte)).length < 10 := by decide
  have cut : (lineReads [] (cutField.map Arrival.item)).length < 10 := by decide
  rw [connected,received_eq _ none (by omega),connected,received_eq _ none (by omega)] at same
  exact absurd (congrArg List.length same) (by decide +kernel)

end Fusillade.Bridge.Sse
