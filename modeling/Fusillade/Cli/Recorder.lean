import Fusillade.Cli.Har
import Fusillade.Lib.JsonText

/-! The scripts that the recorder saves: each request again, but for the headers that the client
sets itself. -/
namespace Fusillade.Cli.Recorder

open JavaScript
open Har (Text escape)

/-- A request, with its headers in the order in which the map is iterated. -/
structure RecordedRequest where
  method : String
  url : String
  headers : List (String × String)
  body : Option String
  distinct : (headers.map Prod.fst).Nodup

/-- `to_lowercase()` as far as it matters here: no other character becomes a letter of the names
that are compared. -/
def lowercase (name : String) : Text := name.toList.map Char.toLower

def saves (header : String × String) : Bool :=
  lowercase header.1 ≠ "content-length".toList && lowercase header.1 ≠ "host".toList

def headerLine (header : String × String) : Text :=
  if saves header then "            '".toList ++ header.1.toList ++ "': '".toList ++ escape header.2.toList ++ "',\n".toList
  else []

def headerLines (headers : List (String × String)) : Text :=
  if headers = [] then []
  else "        headers: \x7b\n".toList ++ headers.flatMap headerLine ++ "        \x7d,\n".toList

def bodyLine : Option String → Text
  | some body => "        body: ".toList ++ erase (Json.quote false body.toList) ++ ",\n".toList
  | none => []

def requestLines (req : RecordedRequest) : Text :=
  "    http.request(\x7b\n".toList ++
  "        method: '".toList ++ req.method.toList ++ "',\n".toList ++
  "        url: '".toList ++ req.url.toList ++ "',\n".toList ++
  bodyLine req.body ++
  headerLines req.headers ++
  "    \x7d);\n    sleep(1);\n\n".toList

/-- `save_flow`: the text of the file. -/
def saveFlow (requests : List RecordedRequest) : Text :=
  "export const options = \x7b\n    workers: 1,\n    duration: '10s',\n\x7d;\n\nexport default function() \x7b\n".toList ++
  requests.flatMap requestLines ++ "\x7d\n".toList

section Program

def headersTokens (headers : List (String × String)) : List Token :=
  object (headers.map fun header => property (string header.1) [string header.2])

/-- A call with all of the request but the headers that are not among `kept`, and a pause. -/
def requestTokens (kept : String × String → Bool) (req : RecordedRequest) : List Token :=
  call ["http","request"] (object (
    [property (word "method") [string req.method],property (word "url") [string req.url]] ++
    (match req.body with | some body => [property (word "body") [string body]] | none => []) ++
    (if req.headers = [] then [] else [property (word "headers") (headersTokens (req.headers.filter kept))]))) ++
  [.punct ';',.line] ++ call ["sleep"] [.number ['1']] ++ [.punct ';',.line,.line]

/-- The module that replays the requests, with these of their headers. -/
def program (kept : String × String → Bool) (requests : List RecordedRequest) : List Token :=
  [word "export",word "const",word "options",.punct '='] ++
  object [property (word "workers") [.number ['1']],property (word "duration") [string "10s"]] ++
  [.punct ';',.line,.line] ++
  [word "export",word "default",word "function",.punct '(',.punct ')',.punct '\x7b',.line] ++
  requests.flatMap (requestTokens kept) ++ [.punct '\x7d',.line]

end Program

/-- The script is well formed and says what was recorded, with these of the headers. -/
def Faithful (kept : String × String → Bool) (requests : List RecordedRequest) : Prop :=
  lex (saveFlow requests) = some (program kept requests) ∧
    ∀ req ∈ requests, OnePrototype ((req.headers.filter kept).map Prod.fst)

/-- What is written without an escape needs none. -/
structure Quotable (req : RecordedRequest) : Prop where
  method : Plain '\'' req.method.toList
  url : Plain '\'' req.url.toList
  names : ∀ header ∈ req.headers, Plain '\'' header.1.toList
  values : ∀ header ∈ req.headers, Literal.NoBreak header.2.toList

section Pieces

open Piece

/-- The lines of the headers that are kept. -/
theorem headerLine_saved (headers : List (String × String)) :
    headers.flatMap headerLine = (headers.filter saves).flatMap Har.headerLine := by
  induction headers with
  | nil => rfl
  | cons header headers ih =>
    rw [List.flatMap_cons,List.filter_cons,ih,headerLine]
    split
    · rw [List.flatMap_cons]
      rfl
    · rfl

def headersPieces (headers : List (String × String)) : List Piece :=
  if headers = [] then []
  else Har.headersStart :: ((headers.filter saves).flatMap Har.headerPieces ++ [Har.headersEnd])

theorem headersPieces_text (headers : List (String × String)) :
    (headersPieces headers).flatMap Piece.text = code (headerLines headers) := by
  unfold headersPieces headerLines
  split
  · rfl
  · have lines : ((headers.filter saves).flatMap Har.headerPieces).flatMap Piece.text =
        code (headers.flatMap headerLine) := by
      rw [headerLine_saved,List.flatMap_assoc,code,List.map_flatMap]
      exact List.flatMap_congr fun header _ => Har.headerPieces_text header
    rw [List.flatMap_cons,List.flatMap_append,lines,code_append,code_append]
    simp only [List.flatMap_cons,List.flatMap_nil,List.append_nil,List.append_assoc]
    rfl

theorem headersPieces_tokens (headers : List (String × String)) :
    (headersPieces headers).flatMap Piece.tokens =
      (if headers = [] then []
        else property (word "headers") (headersTokens (headers.filter saves)) ++ [.punct ',',.line]) := by
  unfold headersPieces
  split
  · rfl
  · have lines : ((headers.filter saves).flatMap Har.headerPieces).flatMap Piece.tokens =
        ((headers.filter saves).map fun header => property (string header.1) [string header.2]).flatMap
          (· ++ [.punct ',',.line]) := by
      rw [List.flatMap_assoc,List.flatMap_map]
      exact List.flatMap_congr fun header _ => Har.headerPieces_tokens header
    rw [List.flatMap_cons,List.flatMap_append,lines]
    simp [property,headersTokens,object,fixed,Har.headersStart,Har.headersEnd]

/-- A JSON string as a literal. -/
def jsonString (text : List Char) : Piece where
  text := Json.quote false text
  tokens := [.string (textUnits text)]
  sound := True
  read := fun _ => Json.run_quote false text
  sound_of_read := fun _ _ _ _ => trivial

def bodyPieces : Option String → List Piece
  | some body => [fixed Har.bodyStart [word "body",.punct ':'] Har.bodyStart_read,jsonString body.toList,
      fixed ",\n".toList [.punct ',',.line] Har.lineEnd_read]
  | none => []

theorem bodyPieces_text (body : Option String) : (bodyPieces body).flatMap Piece.text = code (bodyLine body) := by
  cases body with
  | none => rfl
  | some body =>
    have marks : code (erase (Json.quote false body.toList)) = Json.quote false body.toList := by
      simp [Json.quote,code,erase]
    change code Har.bodyStart ++ (Json.quote false body.toList ++ (code ",\n".toList ++ [])) =
      code (Har.bodyStart ++ erase (Json.quote false body.toList) ++ ",\n".toList)
    rw [code_append,code_append,marks,List.append_nil,List.append_assoc]

def closing : Text := "    \x7d);\n    sleep(1);\n\n".toList

def closingTokens : List Token :=
  [.punct '\x7d',.punct ')',.punct ';',.line] ++ call ["sleep"] [.number ['1']] ++ [.punct ';',.line,.line]

def requestPieces (req : RecordedRequest) : List Piece :=
  Har.addressPieces req.method.toList req.url.toList ++
  bodyPieces req.body ++ headersPieces req.headers ++ [fixed closing closingTokens (by decide +kernel)]

theorem requestPieces_text (req : RecordedRequest) :
    (requestPieces req).flatMap Piece.text = code (requestLines req) := by
  have written : requestLines req =
      Har.addressLines req.method.toList req.url.toList ++ (bodyLine req.body ++ (headerLines req.headers ++ closing)) := by
    unfold requestLines Har.addressLines closing
    simp only [List.append_assoc]
  rw [written,requestPieces,List.flatMap_append,List.flatMap_append,List.flatMap_append,Har.addressPieces_text,
    headersPieces_text,bodyPieces_text,code_append,code_append,code_append,List.append_assoc,List.append_assoc,
    List.flatMap_singleton]
  rfl

theorem requestPieces_tokens (req : RecordedRequest) :
    (requestPieces req).flatMap Piece.tokens = requestTokens saves req := by
  unfold requestPieces
  rw [List.flatMap_append,List.flatMap_append,List.flatMap_append,headersPieces_tokens]
  by_cases bare : req.headers = [] <;> cases body : req.body <;>
    simp [bare,body,requestTokens,bodyPieces,call,object,property,Har.addressPieces,Har.openingTokens,fixed,raw,
      jsonString,closingTokens,string]

theorem requestPieces_sound {req : RecordedRequest} (quotable : Quotable req) :
    ∀ p ∈ requestPieces req, p.sound := by
  have headers : ∀ p ∈ headersPieces req.headers, p.sound := by
    unfold headersPieces
    split
    · simp
    · rw [List.forall_mem_cons,List.forall_mem_append,List.forall_mem_flatMap]
      refine ⟨trivial,fun header member => ?_,by simp [Har.headersEnd,fixed]⟩
      have recorded := List.mem_of_mem_filter member
      simpa [Har.headerPieces,fixed,raw,Piece.backslashed] using
        ⟨quotable.names header recorded,quotable.values header recorded⟩
  have body : ∀ p ∈ bodyPieces req.body, p.sound := by
    cases req.body <;> simp [bodyPieces,fixed,jsonString]
  unfold requestPieces
  simp only [Har.addressPieces,List.forall_mem_append,List.forall_mem_cons]
  exact ⟨⟨⟨⟨trivial,quotable.method,trivial,quotable.url,trivial,by simp⟩,body⟩,headers⟩,trivial,by simp⟩

def scriptHead : Text :=
  "export const options = \x7b\n    workers: 1,\n    duration: '10s',\n\x7d;\n\nexport default function() \x7b\n".toList

def headTokens : List Token :=
  [word "export",word "const",word "options",.punct '='] ++
  object [property (word "workers") [.number ['1']],property (word "duration") [string "10s"]] ++
  [.punct ';',.line,.line] ++
  [word "export",word "default",word "function",.punct '(',.punct ')',.punct '\x7b',.line]

def scriptPieces (requests : List RecordedRequest) : List Piece :=
  fixed scriptHead headTokens (by decide +kernel) :: (requests.flatMap requestPieces ++ [functionEnd])

theorem scriptPieces_text (requests : List RecordedRequest) :
    (scriptPieces requests).flatMap Piece.text = code (saveFlow requests) := by
  have calls : (requests.flatMap requestPieces).flatMap Piece.text = code (requests.flatMap requestLines) := by
    rw [List.flatMap_assoc,code,List.map_flatMap]
    exact List.flatMap_congr fun req _ => requestPieces_text req
  unfold scriptPieces saveFlow
  rw [List.flatMap_cons,List.flatMap_append,calls,code_append,code_append,List.append_assoc]
  rw [List.flatMap_singleton]
  rfl

theorem scriptPieces_tokens (requests : List RecordedRequest) :
    (scriptPieces requests).flatMap Piece.tokens = program saves requests := by
  have calls : (requests.flatMap requestPieces).flatMap Piece.tokens = requests.flatMap (requestTokens saves) := by
    rw [List.flatMap_assoc]
    exact List.flatMap_congr fun req _ => requestPieces_tokens req
  unfold scriptPieces program
  rw [List.flatMap_cons,List.flatMap_append,calls]
  simp [functionEnd,fixed,headTokens]

end Pieces

/-- Names that a map has once each do not repeat the prototype. -/
theorem onePrototype_saved (req : RecordedRequest) : OnePrototype ((req.headers.filter saves).map Prod.fst) :=
  List.nodup_iff_count_le_one.mp (req.distinct.sublist (List.filter_sublist.map Prod.fst)) _

theorem lex_saveFlow {requests : List RecordedRequest} (quotable : ∀ req ∈ requests, Quotable req) :
    lex (saveFlow requests) = some (program saves requests) := by
  have sound : ∀ p ∈ scriptPieces requests, p.sound := by
    unfold scriptPieces
    rw [List.forall_mem_cons,List.forall_mem_append,List.forall_mem_flatMap,List.forall_mem_singleton]
    exact ⟨trivial,fun req member => requestPieces_sound (quotable req member),trivial⟩
  rw [← scriptPieces_tokens,lex,← scriptPieces_text]
  exact (lexMarked_pieces _).mpr sound

/-- **The script says what was recorded, but for the headers that the client sets itself, in any
order in which the maps are iterated.** -/
theorem saveFlow_faithful {requests : List RecordedRequest} (quotable : ∀ req ∈ requests, Quotable req) :
    Faithful saves requests :=
  ⟨lex_saveFlow quotable,fun req _ => onePrototype_saved req⟩

/-- A request as it reaches the recorder. -/
def proxied : RecordedRequest where
  method := "POST"
  url := "http://localhost/items"
  headers := [("host","localhost"),("content-type","text/plain")]
  body := some "it's \"quoted\"\n"
  distinct := by decide

theorem proxied_quotable : Quotable proxied := by constructor <;> decide +kernel

theorem saveFlow_faithful_proxied : Faithful saves [proxied] :=
  saveFlow_faithful (List.forall_mem_singleton.mpr proxied_quotable)

/-- Not all headers are saved. -/
theorem proxied_without_host : ¬∀ requests, Faithful (fun _ => true) requests := by
  intro faithful
  have saved := lex_saveFlow (List.forall_mem_singleton.mpr proxied_quotable)
  rw [(faithful [proxied]).1] at saved
  exact absurd saved (by decide +kernel)

end Fusillade.Cli.Recorder
