import Fusillade.Lib.JsonReader
import Fusillade.Lib.Multipart

/-! The form data of scripts: text fields and files become one message in parts. A file travels as a
JSON text that marks it, so what is a file is read off the text. Texts are lists of UTF-16 code units. -/
namespace Fusillade.Bridge.FormData

open CodeUnits Replacement JsonReader
open Multipart (Plain Part Headed delimiter crlf opening)

def boundary (random : List (Fin 16)) : Text := ascii "----FusilladeBoundary" ++ random.map fun d : Fin 16 => hexUnit d.val

/-- What `http.file` is called with, and what it reads at the path. -/
structure Upload where
  path : Text
  content : Text
  filename : Option Text
  contentType : Option Text

/-- `given || other`, where the empty text counts as none. -/
def orElse (given : Option Text) (other : Text) : Text := (given.filter fun text => !text.isEmpty).getD other

def basename (path : Text) : Text := (cut [code '/'] path).getLastD []

namespace Upload

def name (u : Upload) : Text := orElse u.filename (basename u.path)

def mediaType (u : Upload) : Text := orElse u.contentType (ascii "application/octet-stream")

end Upload

/-- `http.file`, the JSON text that stands for a file. -/
def file (u : Upload) : Text :=
  ascii "\x7b\"__fusillade_file\":true,\"content\":" ++ (quote u.content ++ (ascii ",\"filename\":" ++
    (quote u.name ++ (ascii ",\"contentType\":" ++ (quote u.mediaType ++ ascii "\x7d")))))

def markerKey : Text := ascii "__fusillade_file"

def parseFileMarker (value : Text) : Option Value :=
  if markerKey <:+: value then
    (JsonReader.parse value).filter fun parsed => parsed.truthy && (parsed.property markerKey).any Value.truthy
  else none

def shown (display : Option Value → Option Text) (parsed : Value) (key : String) : Option Text :=
  match parsed.property (ascii key) with
  | some (.string text) => some text
  | other => display other

def part (display : Option Value → Option Text) (name value : Text) : Option Text :=
  match parseFileMarker value with
  | some parsed => do
    let filename ← shown display parsed "filename"
    let contentType ← shown display parsed "contentType"
    let content ← shown display parsed "content"
    some (ascii "Content-Disposition: form-data; name=\"" ++ (name ++ (ascii "\"; filename=\"" ++ (filename ++
      (ascii "\"\r\n" ++ (ascii "Content-Type: " ++ (contentType ++ (ascii "\r\n\r\n" ++ content))))))))
  | none => some (ascii "Content-Disposition: form-data; name=\"" ++ (name ++ (ascii "\"\r\n\r\n" ++ value)))

def body (display : Option Value → Option Text) (boundary : Text) (fields : List (Text × Text)) : Option Text := do
  let parts ← fields.mapM fun field => part display field.1 field.2
  some ((parts.flatMap fun p => ascii "--" ++ (boundary ++ (ascii "\r\n" ++ (p ++ ascii "\r\n")))) ++
    (ascii "--" ++ (boundary ++ ascii "--\r\n")))

inductive Field where
  | text (name value : Text)
  | file (name : Text) (upload : Upload)

namespace Field

def appended : Field → Text × Text
  | text name value => (name,value)
  | file name upload => (name,FormData.file upload)

def meant : Field → Part
  | text name value => ⟨name,none,value⟩
  | file name upload => ⟨name,some upload.name,upload.content⟩

def texts : Field → List Text
  | text name value => [name,value]
  | file name upload => [name,upload.name,upload.mediaType,upload.content]

/-- No text of the field contains the boundary. -/
def Free (boundary : Text) (f : Field) : Prop := ∀ text ∈ f.texts, ¬boundary <:+: text

instance (boundary : Text) (f : Field) : Decidable (f.Free boundary) :=
  inferInstanceAs (Decidable (∀ text ∈ f.texts, ¬boundary <:+: text))

/-- Names are plain, no text is taken for a file, and a media type adds header lines only. -/
def Safe : Field → Prop
  | text name value => Plain name ∧ parseFileMarker value = none
  | file name upload => Plain name ∧ Plain upload.name ∧ Headed (ascii "Content-Type: " ++ upload.mediaType)

end Field

variable {random : List (Fin 16)} {display : Option Value → Option Text}

section Boundary

theorem length_boundary : 21 ≤ (boundary random).length := by
  rw [boundary,List.length_append]
  exact Nat.le_add_right 21 _

theorem notMem_boundary {mark : Nat} (fixed : mark ∉ ascii "----FusilladeBoundary")
    (digit : ∀ d : Fin 16, hexUnit d ≠ mark) : mark ∉ boundary random := by
  intro inside
  rcases List.mem_append.mp inside with start | drawn
  · exact fixed start
  · obtain ⟨d,-,same⟩ := List.mem_map.mp drawn
    exact digit d same

theorem not_infix_short {fixed : Text} (short : fixed.length < 21) : ¬boundary random <:+: fixed :=
  fun inside => absurd (length_boundary.trans inside.length_le) (by omega)

theorem free_append {mark : Nat} {before after : Text} (outside : mark ∉ boundary random)
    (free : ¬boundary random <:+: before) (freeToo : ¬boundary random <:+: after) :
    ¬boundary random <:+: before ++ mark :: after :=
  fun inside => (infix_of_mark outside inside).elim free freeToo

theorem quote_notMem : code '"' ∉ boundary random := notMem_boundary (by decide) (by decide)

theorem carriage_notMem : code '\r' ∉ boundary random := notMem_boundary (by decide) (by decide)

theorem line_notMem : code '\n' ∉ boundary random := notMem_boundary (by decide) (by decide)

theorem blank_notMem : code ' ' ∉ boundary random := notMem_boundary (by decide) (by decide)

theorem free_cons {mark : Nat} {after : Text} (outside : mark ∉ boundary random) (free : ¬boundary random <:+: after) :
    ¬boundary random <:+: mark :: after := by
  rw [← List.nil_append (mark :: after)]
  exact free_append outside (not_infix_short (by decide)) free

theorem free_crlf {after : Text} (free : ¬boundary random <:+: after) : ¬boundary random <:+: crlf ++ after :=
  free_cons carriage_notMem (free_cons line_notMem free)

theorem quote_notMem_delimiter : code '"' ∉ delimiter (boundary random) := by
  intro inside
  rcases List.mem_append.mp inside with fixed | own
  · exact absurd fixed (by decide)
  · exact quote_notMem own

theorem cut_free {text : Text} (free : ¬boundary random <:+: text) : cut (delimiter (boundary random)) text = [text] :=
  have inside : boundary random <:+: delimiter (boundary random) := (List.suffix_append _ _).isInfix
  cut_absent (Multipart.delimiter_ne_nil _) fun found => free (inside.trans found)

end Boundary

section Files

variable (u : Upload)

def parsedFile : Value :=
  .object [(markerKey,.bool true),(ascii "content",.string u.content),(ascii "filename",.string u.name),
    (ascii "contentType",.string u.mediaType)]

theorem parse_file : JsonReader.parse (file u) = some (parsedFile u) := by
  have opened (rest : Text) : Machine.exec State.step .start
      (ascii "\x7b\"__fusillade_file\":true,\"content\":" ++ rest) =
      Machine.exec State.step ⟨[.object [(markerKey,.bool true)] (ascii "content")],.value false,none⟩ rest := rfl
  have named (members : List (Text × Value)) (rest : Text) : Machine.exec State.step
      ⟨[.object members (ascii "content")],.after,none⟩ (ascii ",\"filename\":" ++ rest) =
      Machine.exec State.step ⟨[.object members (ascii "filename")],.value false,none⟩ rest := rfl
  have typed (members : List (Text × Value)) (rest : Text) : Machine.exec State.step
      ⟨[.object members (ascii "filename")],.after,none⟩ (ascii ",\"contentType\":" ++ rest) =
      Machine.exec State.step ⟨[.object members (ascii "contentType")],.value false,none⟩ rest := rfl
  rw [JsonReader.parse,file,opened,exec_quote,State.give,named,exec_quote,State.give,typed,exec_quote]
  rfl

theorem parseFileMarker_file : parseFileMarker (file u) = some (parsedFile u) := by
  have marked : markerKey <:+: file u := ⟨ascii "\x7b\"",_,rfl⟩
  rw [parseFileMarker,if_pos marked,parse_file]
  rfl

theorem part_file (name : Text) : part display name (file u) = some (opening ++ (name ++ code '"' ::
    (ascii "; filename=\"" ++ (u.name ++ code '"' :: (crlf ++ (ascii "Content-Type: " ++ u.mediaType ++
      (crlf ++ (crlf ++ u.content)))))))) := by
  rw [part,parseFileMarker_file,List.append_assoc (ascii "Content-Type: ")]
  rfl

theorem part_text {value : Text} (unmarked : parseFileMarker value = none) (name : Text) :
    part display name value = some (opening ++ (name ++ code '"' :: (crlf ++ (crlf ++ value)))) := by
  rw [part,unmarked]
  rfl

theorem part_marked {name value p : Text} (marked : parseFileMarker value ≠ none)
    (written : part display name value = some p) :
    ∃ rest, p = opening ++ (name ++ code '"' :: (ascii "; filename=\"" ++ rest)) := by
  obtain ⟨parsed,found⟩ := Option.ne_none_iff_exists'.mp marked
  rw [part,found] at written
  obtain ⟨filename,-,written⟩ := Option.bind_eq_some_iff.mp written
  obtain ⟨contentType,-,written⟩ := Option.bind_eq_some_iff.mp written
  obtain ⟨content,-,written⟩ := Option.bind_eq_some_iff.mp written
  exact ⟨_,(Option.some.inj written).symm⟩

end Files

section Fields

theorem free_text {name value : Text} (free : ¬boundary random <:+: name) (freeToo : ¬boundary random <:+: value) :
    ¬boundary random <:+: name ++ code '"' :: (crlf ++ (crlf ++ value)) :=
  free_append quote_notMem free (free_crlf (free_crlf freeToo))

theorem free_file {name filename mediaType content : Text} (free : ¬boundary random <:+: name)
    (freeFile : ¬boundary random <:+: filename) (freeType : ¬boundary random <:+: mediaType)
    (freeContent : ¬boundary random <:+: content) :
    ¬boundary random <:+: name ++ code '"' :: (ascii "; filename=\"" ++ (filename ++ code '"' ::
      (crlf ++ (ascii "Content-Type: " ++ mediaType ++ (crlf ++ (crlf ++ content)))))) := by
  have typed : ¬boundary random <:+: ascii "Content-Type:" ++ code ' ' :: (mediaType ++ (crlf ++ (crlf ++ content))) :=
    free_append blank_notMem (not_infix_short (by decide))
      (free_append carriage_notMem freeType (free_cons line_notMem (free_crlf freeContent)))
  have filed : ¬boundary random <:+: ascii "; filename=" ++ code '"' :: (filename ++ code '"' :: (crlf ++
      (ascii "Content-Type:" ++ code ' ' :: (mediaType ++ (crlf ++ (crlf ++ content)))))) :=
    free_append quote_notMem (not_infix_short (by decide)) (free_append quote_notMem freeFile (free_crlf typed))
  rw [List.append_assoc (ascii "Content-Type: ")]
  exact free_append quote_notMem free filed

theorem cut_marked {name : Text} (free : ¬boundary random <:+: name) (more : Text) :
    ∃ start others, cut (delimiter (boundary random)) (name ++ code '"' :: (ascii "; filename=\"" ++ more)) =
      (name ++ code '"' :: (ascii "; filename=\"" ++ start)) :: others := by
  have clear : code '\r' ∉ ascii "; filename=\"" := by decide
  obtain ⟨start,others,later⟩ := List.exists_cons_of_ne_nil (cut_ne_nil (delimiter (boundary random)) more)
  rcases cut_before (Multipart.delimiter_ne_nil _) quote_notMem_delimiter name (ascii "; filename=\"" ++ more) with
    ⟨piece,-,found⟩ | split
  · have inside : boundary random <:+: piece ++ delimiter (boundary random) :=
      ⟨piece ++ (crlf ++ ascii "--"),[],by simp [delimiter]⟩
    exact absurd (inside.trans found.isInfix) free
  · refine ⟨start,others,?_⟩
    rw [split]
    rw [Multipart.delimiter_cons] at later ⊢
    rw [cut_clear clear,later]
    rfl

variable {f : Field}

/-- A safe field is written in one piece and read as it is meant. -/
theorem safe_read (free : f.Free (boundary random)) (safe : f.Safe) :
    ∃ after, part display f.appended.1 f.appended.2 = some (opening ++ after) ∧
      cut (delimiter (boundary random)) after = [after] ∧ Multipart.readPart (opening ++ after) = some f.meant := by
  cases f with
  | text name value =>
    obtain ⟨plain,unmarked⟩ := safe
    exact ⟨_,part_text unmarked name,cut_free (free_text (free name (by simp [Field.texts]))
      (free value (by simp [Field.texts]))),Multipart.readPart_text plain value⟩
  | file name u =>
    obtain ⟨plain,plainToo,headed⟩ := safe
    have whole := free_file (free name (by simp [Field.texts])) (free u.name (by simp [Field.texts]))
      (free u.mediaType (by simp [Field.texts])) (free u.content (by simp [Field.texts]))
    exact ⟨_,part_file u name,cut_free whole,Multipart.readPart_file plain plainToo headed u.content⟩

/-- What a field is read as is what it is meant to be only if it is safe. -/
theorem safe_of_read {after first : Text} {rest : List Text} (free : f.Free (boundary random))
    (written : part display f.appended.1 f.appended.2 = some (opening ++ after))
    (cuts : cut (delimiter (boundary random)) after = first :: rest)
    (read : Multipart.readPart (opening ++ first) = some f.meant) : f.Safe := by
  cases f with
  | text name value =>
    have freeName := free name (by simp [Field.texts])
    by_cases unmarked : parseFileMarker value = none
    · rw [Field.appended,part_text unmarked] at written
      obtain rfl := List.append_cancel_left (Option.some.inj written)
      rw [cut_free (free_text freeName (free value (by simp [Field.texts])))] at cuts
      obtain ⟨rfl,-⟩ := List.cons.inj cuts
      exact ⟨Multipart.plain_of_name (.inl ⟨_,rfl⟩) read rfl,unmarked⟩
    · obtain ⟨more,same⟩ := part_marked unmarked written
      obtain rfl := List.append_cancel_left same
      obtain ⟨start,others,split⟩ := cut_marked freeName more
      obtain ⟨rfl,-⟩ := List.cons.inj (cuts.symm.trans split)
      have plain := Multipart.plain_of_name (.inr ⟨_,rfl⟩) read rfl
      exact absurd (Multipart.filename_isSome plain read) (by simp [Field.meant])
  | file name u =>
    rw [Field.appended,part_file] at written
    obtain rfl := List.append_cancel_left (Option.some.inj written)
    have whole := free_file (free name (by simp [Field.texts])) (free u.name (by simp [Field.texts]))
      (free u.mediaType (by simp [Field.texts])) (free u.content (by simp [Field.texts]))
    rw [cut_free whole] at cuts
    obtain ⟨rfl,-⟩ := List.cons.inj cuts
    have plain := Multipart.plain_of_name (.inr ⟨_,rfl⟩) read rfl
    have plainToo := Multipart.plain_of_filename plain read rfl
    exact ⟨plain,plainToo,Multipart.headed_of_content plain plainToo read rfl⟩

end Fields

section Body

theorem mapM_eq_map {α β : Type} {f : α → Option β} {g : α → β} {as : List α} (each : ∀ a ∈ as, f a = some (g a)) :
    as.mapM f = some (as.map g) := by
  induction as with
  | nil => rfl
  | cons a as ih =>
    obtain ⟨here,later⟩ := List.forall_mem_cons.mp each
    rw [List.mapM_cons,here,ih later]
    rfl

theorem body_shape (boundary : Text) (parts : List Text) :
    crlf ++ ((parts.flatMap fun p => ascii "--" ++ (boundary ++ (ascii "\r\n" ++ (p ++ ascii "\r\n")))) ++
      (ascii "--" ++ (boundary ++ ascii "--\r\n"))) =
      (parts.map (crlf ++ ·) ++ [ascii "--" ++ crlf]).flatMap (delimiter boundary ++ ·) := by
  have line : ascii "\r\n" = crlf := rfl
  have last : ascii "--\r\n" = ascii "--" ++ crlf := rfl
  rw [line,last]
  induction parts with
  | nil => simp [delimiter]
  | cons p parts ih =>
    rw [List.map_cons,List.cons_append,List.flatMap_cons,List.flatMap_cons,← ih]
    simp [delimiter]

variable {fields : List Field}

theorem parse_parts (parts : List Text) : Multipart.parse (boundary random)
    ((parts.flatMap fun p => ascii "--" ++ (boundary random ++ (ascii "\r\n" ++ (p ++ ascii "\r\n")))) ++
      (ascii "--" ++ (boundary random ++ ascii "--\r\n"))) =
    Multipart.readPieces ((parts.map (crlf ++ ·) ++ [ascii "--" ++ crlf]).flatMap (cut (delimiter (boundary random)))) :=
  Multipart.parse_eq carriage_notMem (body_shape _ parts)

def afterOpening (display : Option Value → Option Text) (f : Field) : Text :=
  ((part display f.appended.1 f.appended.2).getD []).drop opening.length

theorem part_opening {f : Field} (written : (part display f.appended.1 f.appended.2).isSome) :
    part display f.appended.1 f.appended.2 = some (opening ++ afterOpening display f) := by
  obtain ⟨p,same⟩ := Option.isSome_iff_exists.mp written
  have starts : ∃ after, p = opening ++ after := by
    cases marked : parseFileMarker f.appended.2 with
    | none => exact ⟨_,Option.some.inj (same.symm.trans (part_text marked _))⟩
    | some parsed =>
      obtain ⟨rest,begins⟩ := part_marked (by rw [marked]; exact Option.some_ne_none parsed) same
      exact ⟨_,begins⟩
  obtain ⟨after,rfl⟩ := starts
  rw [afterOpening,same,Option.getD_some,List.drop_left]

/-- **A form comes back as its fields exactly when no name has a quote, a backslash or a carriage return,
no text is taken for a file, and media types stay on their own line.** -/
theorem parse_body_iff (free : ∀ f ∈ fields, f.Free (boundary random)) :
    (body display (boundary random) (fields.map Field.appended)).bind (Multipart.parse (boundary random)) =
      some (fields.map Field.meant) ↔ ∀ f ∈ fields, f.Safe := by
  by_cases written : ∀ f ∈ fields, (part display f.appended.1 f.appended.2).isSome
  · have parts : (fields.map Field.appended).mapM (fun field => part display field.1 field.2) =
        some (fields.map fun f => opening ++ afterOpening display f) := by
      rw [List.mapM_map]
      exact mapM_eq_map fun f member => part_opening (written f member)
    have read : (body display (boundary random) (fields.map Field.appended)).bind (Multipart.parse (boundary random)) =
        Multipart.readPieces ((fields.map (fun f => crlf ++ (opening ++ afterOpening display f)) ++
          [ascii "--" ++ crlf]).flatMap (cut (delimiter (boundary random)))) := by
      rw [body,parts]
      exact (parse_parts _).trans (by rw [List.map_map]; rfl)
    rw [read]
    refine Multipart.readPieces_iff _ (fun f member safe => ?_) fun f member risky first rest cuts read => ?_
    · obtain ⟨after,own,one,back⟩ := @safe_read random display f (free f member) safe
      obtain rfl := List.append_cancel_left (Option.some.inj ((part_opening (written f member)).symm.trans own))
      exact ⟨one,back⟩
    · exact risky (safe_of_read (free f member) (part_opening (written f member)) cuts read)
  · have lost : (fields.map Field.appended).mapM (fun field => part display field.1 field.2) = none := by
      rw [← Option.not_isSome_iff_eq_none,List.mapM_map,Multipart.mapM_isSome]
      exact written
    rw [body,lost]
    refine ⟨fun same => absurd same (Option.some_ne_none _).symm,fun safe => absurd (fun f member => ?_) written⟩
    obtain ⟨after,own,-⟩ := @safe_read random display f (free f member) (safe f member)
    rw [own]
    rfl

def forged : Field := .text (ascii "a\"; filename=\"b") (ascii "v")

def lookalike : Field := .text (ascii "note") (ascii "\x7b\"__fusillade_file\":1,\"filename\":\"f\"\x7d")

def undefined : Option Value → Option Text := fun _ => some (ascii "undefined")

theorem forged_and_lookalike : (∀ f ∈ [forged,lookalike], f.Free (boundary [])) ∧
    (body undefined (boundary []) ([forged,lookalike].map Field.appended)).bind (Multipart.parse (boundary [])) =
      some [⟨ascii "a",some (ascii "b"),ascii "v"⟩,⟨ascii "note",some (ascii "f"),ascii "undefined"⟩] ∧
    [forged,lookalike].map Field.meant ≠
      [⟨ascii "a",some (ascii "b"),ascii "v"⟩,⟨ascii "note",some (ascii "f"),ascii "undefined"⟩] := by
  refine ⟨by decide,?_,by decide⟩
  decide +kernel

def profile : List Field :=
  [.text (ascii "user") (ascii "ann\r\n--x"),.file (ascii "pic") ⟨ascii "img/me.png",ascii "\x89PNG\r\n",none,some (ascii "image/png")⟩]

theorem profile_comes_back :
    (body undefined (boundary [3,10]) (profile.map Field.appended)).bind (Multipart.parse (boundary [3,10])) =
      some (profile.map Field.meant) :=
  (parse_body_iff (by decide)).mpr (List.forall_mem_cons.mpr ⟨⟨by decide,rfl⟩,
    List.forall_mem_singleton.mpr ⟨by decide,by decide,by decide⟩⟩)

end Body

end Fusillade.Bridge.FormData
