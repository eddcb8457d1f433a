import Fusillade.Lib.JavaScript
import Fusillade.Lib.Json

/-! The scripts that are made of HAR files. The format has the post data of a request under
`postData`; the structs here have it under `post_data`. -/
namespace Fusillade.Cli.Har

open JavaScript

abbrev Text := List Char

/-- A request, with the text of its post data, which has no other field. -/
structure Request where
  method : String
  url : String
  headers : List (String × String)
  postData : Option String
  deriving DecidableEq

section Decoders

open Json

def decodeString : Json → Option String
  | .str text => some text
  | _ => none

def decodeHeader : Json → Option (String × String) :=
  decodeStruct true [["name"],["value"]] fun source => do
    return (← required decodeString (source ["name"]),← required decodeString (source ["value"]))

def decodePostData : Json → Option (Option String) :=
  decodeStruct true [["text"]] fun source => field decodeString (source ["text"])

-- The name that the post data goes by.
variable (postData : String)

def readRequest (source : Source) : Option Request := do
  let method ← required decodeString (source ["method"])
  let url ← required decodeString (source ["url"])
  let headers ← required (decodeVec decodeHeader) (source ["headers"])
  let post ← field decodePostData (source [postData])
  return { method, url, headers, postData := post.join }

def decodeRequest : Json → Option Request :=
  decodeStruct true [["method"],["url"],["headers"],[postData]] (readRequest postData)

def decodeEntry : Json → Option Request :=
  decodeStruct true [["request"]] fun source => required (decodeRequest postData) (source ["request"])

def decodeLog : Json → Option (List Request) :=
  decodeStruct true [["entries"]] fun source => required (decodeVec (decodeEntry postData)) (source ["entries"])

def decodeHar : Json → Option (List Request) :=
  decodeStruct true [["log"]] fun source => required (decodeLog postData) (source ["log"])

end Decoders

/-- `text.replace(c, with)` -/
def replace (c : Char) (replacement : Text) (text : Text) : Text := text.flatMap fun d => if d = c then replacement else [d]

def escape (text : Text) : Text := replace '\'' "\\'".toList (replace '\\' "\\\\".toList text)

def headerLine (header : String × String) : Text :=
  "            '".toList ++ header.1.toList ++ "': '".toList ++ escape header.2.toList ++ "',\n".toList

def headerLines (headers : List (String × String)) : Text :=
  if headers = [] then []
  else "        headers: \x7b\n".toList ++ headers.flatMap headerLine ++ "        \x7d,\n".toList

def bodyLine : Option String → Text
  | some text => "        body: '".toList ++ escape text.toList ++ "',\n".toList
  | none => []

def entryLines (req : Request) : Text :=
  "    http.request(\x7b\n".toList ++
  "        method: '".toList ++ req.method.toList ++ "',\n".toList ++
  "        url: '".toList ++ req.url.toList ++ "',\n".toList ++
  headerLines req.headers ++
  bodyLine req.postData ++
  "    \x7d)\n    sleep(0.1);\n".toList

def script (entries : List Request) : Text :=
  "export const options = \x7b\n    workers: 1,\n    duration: '10s'\n\x7d;\n\nexport default function() \x7b\n".toList ++
  entries.flatMap entryLines ++ "\x7d\n".toList

/-- `convert_from_string`, of the tree that the text is parsed to. -/
def convertFromString (har : Json) : Option Text := (decodeHar "post_data" har).map script

section Program

def headerTokens (header : String × String) : List Token := property (string header.1) [string header.2]

def bodyTokens : Option String → List (List Token)
  | some text => [property (word "body") [string text]]
  | none => []

/-- One call with all that was recorded, ended by the line break, and a pause. -/
def requestTokens (req : Request) : List Token :=
  call ["http","request"] (object (
    [property (word "method") [string req.method],property (word "url") [string req.url]] ++
    (if req.headers = [] then [] else [property (word "headers") (object (req.headers.map headerTokens))]) ++
    bodyTokens req.postData)) ++
  .line :: call ["sleep"] [.number "0.1".toList] ++ [.punct ';',.line]

/-- The module that replays the requests. -/
def program (requests : List Request) : List Token :=
  [word "export",word "const",word "options",.punct '=',.punct '\x7b',.line] ++
  property (word "workers") [.number ['1']] ++ [.punct ',',.line] ++
  property (word "duration") [string "10s"] ++ [.line,.punct '\x7d',.punct ';',.line,.line] ++
  [word "export",word "default",word "function",.punct '(',.punct ')',.punct '\x7b',.line] ++
  requests.flatMap requestTokens ++ [.punct '\x7d',.line]

end Program

/-- The script is well formed and says what was recorded. -/
def Faithful (har : Json) (recorded : List Request) : Prop :=
  ∃ js, convertFromString har = some js ∧ lex js = some (program recorded) ∧
    ∀ req ∈ recorded, OnePrototype (req.headers.map Prod.fst)

/-- What the script can quote. -/
structure Quotable (req : Request) : Prop where
  method : Plain '\'' req.method.toList
  url : Plain '\'' req.url.toList
  names : ∀ header ∈ req.headers, Plain '\'' header.1.toList
  values : ∀ header ∈ req.headers, Literal.NoBreak header.2.toList
  body : ∀ text ∈ req.postData, Literal.NoBreak text.toList
  prototype : OnePrototype (req.headers.map Prod.fst)

theorem escape_eq (text : Text) : escape text = Literal.backslashed text := by
  rw [escape,replace,replace,List.flatMap_assoc]
  refine List.flatMap_congr fun c _ => ?_
  by_cases backslash : c = '\\'
  · subst backslash
    rfl
  · by_cases quote : c = '\''
    · subst quote
      rfl
    · simp [backslash,quote]

section Pieces

open Piece

def headerPieces (header : String × String) : List Piece :=
  [fixed "            ".toList [] (by decide +kernel),raw false header.1.toList,
    fixed ": ".toList [.punct ':'] (by decide +kernel),backslashed false header.2.toList,
    fixed ",\n".toList [.punct ',',.line] (by decide +kernel)]

theorem headerPieces_text (header : String × String) :
    (headerPieces header).flatMap Piece.text = code (headerLine header) := by
  have cut {a b c d e f : Text} (first : a = d ++ ['\'']) (middle : b = '\'' :: (e ++ ['\''])) (last : c = '\'' :: f)
      (name value : Text) : code (a ++ name ++ b ++ value ++ c) =
        code d ++ ((raw false name).text ++ (code e ++ (('\'',false) :: (code value ++ [('\'',false)]) ++ code f))) := by
    subst first middle last
    simp [code,raw]
  have first : "            '".toList = "            ".toList ++ ['\''] := by decide +kernel
  have middle : "': '".toList = '\'' :: (": ".toList ++ ['\'']) := by decide +kernel
  have last : "',\n".toList = '\'' :: ",\n".toList := by decide +kernel
  have shape := cut first middle last header.1.toList (Literal.backslashed header.2.toList)
  unfold headerLine
  rw [escape_eq,shape]
  simp only [headerPieces,List.flatMap_cons,List.flatMap_nil,List.append_nil]
  rfl

theorem headerPieces_tokens (header : String × String) :
    (headerPieces header).flatMap Piece.tokens = headerTokens header ++ [.punct ',',.line] := rfl

/-- The lines before and after those of the headers. -/
def headersStart : Piece :=
  fixed "        headers: \x7b\n".toList [word "headers",.punct ':',.punct '\x7b',.line] (by decide +kernel)

def headersEnd : Piece := fixed "        \x7d,\n".toList [.punct '\x7d',.punct ',',.line] (by decide +kernel)

def headersPieces (headers : List (String × String)) : List Piece :=
  if headers = [] then [] else headersStart :: (headers.flatMap headerPieces ++ [headersEnd])

theorem headersPieces_text (headers : List (String × String)) :
    (headersPieces headers).flatMap Piece.text = code (headerLines headers) := by
  unfold headersPieces headerLines
  split
  · rfl
  · have lines : (headers.flatMap headerPieces).flatMap Piece.text = code (headers.flatMap headerLine) := by
      rw [List.flatMap_assoc,code,List.map_flatMap]
      exact List.flatMap_congr fun header _ => headerPieces_text header
    rw [List.flatMap_cons,List.flatMap_append,lines,code_append,code_append]
    simp only [List.flatMap_cons,List.flatMap_nil,List.append_nil,List.append_assoc]
    rfl

theorem headersPieces_tokens (headers : List (String × String)) :
    (headersPieces headers).flatMap Piece.tokens =
      (if headers = [] then [] else property (word "headers") (object (headers.map headerTokens)) ++ [.punct ',',.line]) := by
  unfold headersPieces
  split
  · rfl
  · have lines : (headers.flatMap headerPieces).flatMap Piece.tokens =
        (headers.map headerTokens).flatMap (· ++ [.punct ',',.line]) := by
      rw [List.flatMap_assoc,List.flatMap_map]
      exact List.flatMap_congr fun header _ => headerPieces_tokens header
    rw [List.flatMap_cons,List.flatMap_append,lines]
    simp [property,object,fixed,headersStart,headersEnd]

def closing : Text := "    \x7d)\n    sleep(0.1);\n".toList

def closingTokens : List Token :=
  [.punct '\x7d',.punct ')',.line] ++ call ["sleep"] [.number "0.1".toList] ++ [.punct ';',.line]

theorem closing_read : ({} : Lexer).run (code closing) = some ⟨closingTokens,.code⟩ := by decide +kernel

def bodyStart : Text := "        body: ".toList

theorem bodyStart_read : ({} : Lexer).run (code bodyStart) = some ⟨[word "body",.punct ':'],.code⟩ := by decide +kernel

theorem lineEnd_read : ({} : Lexer).run (code ",\n".toList) = some ⟨[.punct ',',.line],.code⟩ := by decide +kernel

theorem bodyLine_some (text : String) :
    code (bodyLine (some text)) =
      code bodyStart ++ ((Piece.backslashed false text.toList).text ++ code ",\n".toList) := by
  have cut {a b d e : Text} (first : a = d ++ ['\'']) (last : b = '\'' :: e) (text : Text) :
      code (a ++ text ++ b) = code d ++ (('\'',false) :: (code text ++ [('\'',false)]) ++ code e) := by
    subst first last
    simp [code]
  have first : "        body: '".toList = bodyStart ++ ['\''] := by decide +kernel
  have last : "',\n".toList = '\'' :: ",\n".toList := by decide +kernel
  change code ("        body: '".toList ++ escape text.toList ++ "',\n".toList) = _
  rw [escape_eq]
  exact cut first last (Literal.backslashed text.toList)

def recordedTokens (recorded : Option String) : List Token :=
  (bodyTokens recorded).flatMap (· ++ [.punct ',',.line]) ++ closingTokens

theorem recordedTokens_some (text : String) :
    recordedTokens (some text) =
      [word "body",.punct ':'] ++ ([string text] ++ ([.punct ',',.line] ++ closingTokens)) := rfl

theorem ending_some (text : String) :
    code (bodyLine (some text) ++ closing) =
      code bodyStart ++ ((Piece.backslashed false text.toList).text ++ (code ",\n".toList ++ code closing)) := by
  rw [code_append,bodyLine_some,List.append_assoc,List.append_assoc]

/-- The rest of a call: the body that is written, where another may have been recorded. -/
def ending (written recorded : Option String) : Piece where
  text := code (bodyLine written ++ closing)
  tokens := recordedTokens recorded
  sound := written = recorded ∧ ∀ text ∈ recorded, Literal.NoBreak text.toList
  read := by
    rintro ⟨rfl,unbroken⟩
    cases written with
    | none => exact closing_read
    | some text =>
      have literal := (Piece.backslashed false text.toList).read (unbroken text rfl)
      rw [ending_some,recordedTokens_some]
      exact run_pieces bodyStart_read (run_pieces literal (run_pieces lineEnd_read closing_read))
  sound_of_read := by
    intro rest result read same
    cases written with
    | none =>
      have bare : code (bodyLine none ++ closing) = code closing := rfl
      rw [bare,lexFrom_append closing_read] at read
      obtain ⟨later,-,rfl⟩ := Option.map_eq_some_iff.mp read
      cases recorded with
      | none => exact ⟨rfl,by simp⟩
      | some text =>
        have heads := (List.cons_prefix_cons.mp same).1
        cases heads
    | some text =>
      rw [ending_some,List.append_assoc,lexFrom_append bodyStart_read] at read
      obtain ⟨later,literal,rfl⟩ := Option.map_eq_some_iff.mp read
      cases recorded with
      | none =>
        have heads := (List.cons_prefix_cons.mp same).1
        cases heads
      | some other =>
        rw [List.append_assoc] at literal
        have unbroken := unbroken_of_read literal
        rw [lexFrom_append ((Piece.backslashed false text.toList).read unbroken)] at literal
        obtain ⟨last,-,rfl⟩ := Option.map_eq_some_iff.mp literal
        rw [recordedTokens_some,List.prefix_append_right_inj] at same
        have heads := (List.cons_prefix_cons.mp same).1
        obtain rfl := String.toList_inj.mp (textUnits_injective (Token.string.inj heads))
        exact ⟨rfl,fun _ member => Option.some.inj member ▸ unbroken⟩

def opening : Text := "    http.request(\x7b\n        method: ".toList

def openingTokens : List Token :=
  [word "http",.punct '.',word "request",.punct '(',.punct '\x7b',.line,word "method",.punct ':']

def between : Text := ",\n        url: ".toList

/-- A call up to its address. -/
def addressPieces (method url : Text) : List Piece :=
  [fixed opening openingTokens (by decide +kernel),raw false method,
    fixed between [.punct ',',.line,word "url",.punct ':'] (by decide +kernel),raw false url,
    fixed ",\n".toList [.punct ',',.line] lineEnd_read]

def requestPieces (req : Request) (recorded : Option String) : List Piece :=
  addressPieces req.method.toList req.url.toList ++
  headersPieces req.headers ++ [ending req.postData recorded]

def addressLines (method url : Text) : Text :=
  "    http.request(\x7b\n".toList ++
  "        method: '".toList ++ method ++ "',\n".toList ++
  "        url: '".toList ++ url ++ "',\n".toList

theorem addressPieces_text (method url : Text) :
    (addressPieces method url).flatMap Piece.text = code (addressLines method url) := by
  have cut {a b c d e f g : Text} (first : a ++ b = e ++ ['\'']) (middle : c ++ d = '\'' :: (f ++ ['\'']))
      (last : c = '\'' :: g) :
      code (a ++ b ++ method ++ c ++ d ++ url ++ c) =
        code e ++ ((raw false method).text ++ (code f ++ ((raw false url).text ++ code g))) := by
    have grouped : a ++ b ++ method ++ c ++ d ++ url ++ c = (a ++ b) ++ method ++ (c ++ d) ++ url ++ c := by simp
    rw [grouped,first,middle,last]
    simp [code,raw]
  have first : "    http.request(\x7b\n".toList ++ "        method: '".toList = opening ++ ['\''] := by decide +kernel
  have middle : "',\n".toList ++ "        url: '".toList = '\'' :: (between ++ ['\'']) := by decide +kernel
  have last : "',\n".toList = '\'' :: ",\n".toList := by decide +kernel
  have shape := cut first middle last
  unfold addressLines
  refine Eq.trans ?_ shape.symm
  simp only [addressPieces,List.flatMap_cons,List.flatMap_nil,List.append_nil]
  rfl

theorem requestPieces_text (req : Request) (recorded : Option String) :
    (requestPieces req recorded).flatMap Piece.text = code (entryLines req) := by
  have written : entryLines req =
      addressLines req.method.toList req.url.toList ++ (headerLines req.headers ++ (bodyLine req.postData ++ closing)) := by
    unfold entryLines addressLines closing
    simp only [List.append_assoc]
  rw [written,requestPieces,List.flatMap_append,List.flatMap_append,addressPieces_text,headersPieces_text,code_append,
    code_append,List.append_assoc,List.flatMap_singleton]
  rfl

theorem requestPieces_tokens (req : Request) (recorded : Option String) :
    (requestPieces req recorded).flatMap Piece.tokens = requestTokens { req with postData := recorded } := by
  unfold requestPieces
  rw [List.flatMap_append,List.flatMap_append,headersPieces_tokens]
  by_cases bare : req.headers = []
  · simp [bare,requestTokens,call,object,property,addressPieces,openingTokens,fixed,raw,ending,recordedTokens,
      closingTokens,string]
  · simp [bare,requestTokens,call,object,property,addressPieces,openingTokens,fixed,raw,ending,recordedTokens,
      closingTokens,string]

theorem requestPieces_sound (req : Request) (recorded : Option String) :
    (∀ p ∈ requestPieces req recorded, p.sound) ↔
      Plain '\'' req.method.toList ∧ Plain '\'' req.url.toList ∧
        (∀ header ∈ req.headers, Plain '\'' header.1.toList ∧ Literal.NoBreak header.2.toList) ∧
        req.postData = recorded ∧ ∀ text ∈ recorded, Literal.NoBreak text.toList := by
  have headers : (∀ p ∈ headersPieces req.headers, p.sound) ↔
      ∀ header ∈ req.headers, Plain '\'' header.1.toList ∧ Literal.NoBreak header.2.toList := by
    unfold headersPieces
    split
    next nothing => simp [nothing]
    next =>
      rw [List.forall_mem_cons,List.forall_mem_append,List.forall_mem_flatMap]
      simp [headersStart,headersEnd,headerPieces,fixed,raw,Piece.backslashed]
  unfold requestPieces
  rw [List.forall_mem_append,List.forall_mem_append,headers]
  simp [addressPieces,fixed,raw,ending,and_assoc]

def scriptHead : Text :=
  "export const options = \x7b\n    workers: 1,\n    duration: '10s'\n\x7d;\n\nexport default function() \x7b\n".toList

def headTokens : List Token :=
  [word "export",word "const",word "options",.punct '=',.punct '\x7b',.line] ++
  property (word "workers") [.number ['1']] ++ [.punct ',',.line] ++
  property (word "duration") [string "10s"] ++ [.line,.punct '\x7d',.punct ';',.line,.line] ++
  [word "export",word "default",word "function",.punct '(',.punct ')',.punct '\x7b',.line]

def scriptStart : Piece := fixed scriptHead headTokens (by decide +kernel)

/-- The pieces of a script, with what was recorded as the body of each request. -/
def scriptPieces (entries : List (Request × Option String)) : List Piece :=
  scriptStart :: (entries.flatMap (fun entry => requestPieces entry.1 entry.2) ++ [functionEnd])

def meant (entry : Request × Option String) : Request := { entry.1 with postData := entry.2 }

theorem scriptPieces_text (entries : List (Request × Option String)) :
    (scriptPieces entries).flatMap Piece.text = code (script (entries.map Prod.fst)) := by
  have calls : (entries.flatMap fun entry => requestPieces entry.1 entry.2).flatMap Piece.text =
      code ((entries.map Prod.fst).flatMap entryLines) := by
    rw [List.flatMap_assoc,List.flatMap_map,code,List.map_flatMap]
    exact List.flatMap_congr fun entry _ => requestPieces_text entry.1 entry.2
  unfold scriptPieces script
  rw [List.flatMap_cons,List.flatMap_append,calls,code_append,code_append,List.append_assoc]
  rw [List.flatMap_singleton]
  rfl

theorem scriptPieces_tokens (entries : List (Request × Option String)) :
    (scriptPieces entries).flatMap Piece.tokens = program (entries.map meant) := by
  have calls : (entries.flatMap fun entry => requestPieces entry.1 entry.2).flatMap Piece.tokens =
      (entries.map meant).flatMap requestTokens := by
    rw [List.flatMap_assoc,List.flatMap_map]
    exact List.flatMap_congr fun entry _ => requestPieces_tokens entry.1 entry.2
  unfold scriptPieces program
  rw [List.flatMap_cons,List.flatMap_append,calls]
  simp [scriptStart,functionEnd,fixed,headTokens]

theorem scriptPieces_sound (entries : List (Request × Option String)) :
    (∀ p ∈ scriptPieces entries, p.sound) ↔ ∀ entry ∈ entries, ∀ p ∈ requestPieces entry.1 entry.2, p.sound := by
  unfold scriptPieces
  rw [List.forall_mem_cons,List.forall_mem_append,List.forall_mem_flatMap,List.forall_mem_singleton]
  exact ⟨fun sound => sound.2.1,fun sound => ⟨trivial,sound,trivial⟩⟩

/-- A script is read as the program that is meant when each body is the recorded one and can be quoted. -/
theorem lex_script_iff (entries : List (Request × Option String)) :
    lex (script (entries.map Prod.fst)) = some (program (entries.map meant)) ∧
        (∀ req ∈ entries.map meant, OnePrototype (req.headers.map Prod.fst)) ↔
      entries.map Prod.fst = entries.map meant ∧ ∀ req ∈ entries.map meant, Quotable req := by
  have sound : lex (script (entries.map Prod.fst)) = some (program (entries.map meant)) ↔
      ∀ p ∈ scriptPieces entries, p.sound := by
    rw [← lexMarked_pieces,scriptPieces_text,scriptPieces_tokens]
    rfl
  rw [sound,scriptPieces_sound,List.map_inj_left,List.forall_mem_map,List.forall_mem_map]
  constructor
  · rintro ⟨calls,prototypes⟩
    have each (entry : Request × Option String) (member : entry ∈ entries) :=
      (requestPieces_sound entry.1 entry.2).mp (calls entry member)
    refine ⟨fun entry member => ?_,fun entry member => ?_⟩
    · obtain ⟨-,-,-,same,-⟩ := each entry member
      rw [meant,← same]
    · obtain ⟨method,url,headers,-,body⟩ := each entry member
      exact ⟨method,url,fun header inside => (headers header inside).1,fun header inside => (headers header inside).2,
        body,prototypes entry member⟩
  · rintro ⟨same,quotable⟩
    refine ⟨fun entry member => ?_,fun entry member => (quotable entry member).prototype⟩
    have quote := quotable entry member
    exact (requestPieces_sound entry.1 entry.2).mpr ⟨quote.method,quote.url,
      fun header inside => ⟨quote.names header inside,quote.values header inside⟩,
      congrArg Request.postData (same entry member),quote.body⟩

end Pieces

section Agreement

open Json

variable {first second : String}

/-- The same request, but for the text of its post data. -/
def SameCall (a b : Request) : Prop := a.method = b.method ∧ a.url = b.url ∧ a.headers = b.headers

theorem readRequest_agree {source other : Source} (same : ∀ name ∈ ["method","url","headers"], source [name] = other [name])
    {a b : Request} (one : readRequest first source = some a) (two : readRequest second other = some b) :
    SameCall a b := by
  simp only [List.forall_mem_cons] at same
  obtain ⟨method,url,headers,-⟩ := same
  simp only [readRequest,Option.bind_eq_bind,Option.bind_eq_some_iff,Option.pure_def,Option.some.injEq] at one two
  obtain ⟨m,hm,u,hu,h,hh,p,hp,rfl⟩ := one
  obtain ⟨m',hm',u',hu',h',hh',p',hp',rfl⟩ := two
  rw [method,hm'] at hm
  rw [url,hu'] at hu
  rw [headers,hh'] at hh
  exact ⟨(Option.some.inj hm).symm,(Option.some.inj hu).symm,(Option.some.inj hh).symm⟩

theorem decodeRequest_agree {json : Json} {a b : Request} (one : decodeRequest first json = some a)
    (two : decodeRequest second json = some b) : SameCall a b := by
  cases json with
  | obj members => exact readRequest_agree (fun _ _ => rfl) one two
  | arr values =>
    simp only [decodeRequest,decodeStruct] at one two
    split at one
    · split at two
      · refine readRequest_agree (fun name member => ?_) one two
        simp only [List.mem_cons,List.not_mem_nil,or_false] at member
        rcases member with rfl | rfl | rfl <;> simp [ofArray]
      · cases two
    · cases one
  | null | bool _ | int _ | float _ | str _ => cases one

theorem decodeHar_agree {json : Json} {a b : List Request} (one : decodeHar first json = some a)
    (two : decodeHar second json = some b) : List.Forall₂ SameCall a b := by
  obtain ⟨source,one,two⟩ := decodeStruct_both one two
  obtain ⟨log,one,two⟩ := required_both one two
  obtain ⟨source,one,two⟩ := decodeStruct_both one two
  obtain ⟨entries,one,two⟩ := required_both one two
  refine decodeVec_forall₂ (fun entry a b one two => ?_) one two
  obtain ⟨source,one,two⟩ := decodeStruct_both one two
  obtain ⟨request,one,two⟩ := required_both one two
  exact decodeRequest_agree one two

/-- Two lists of such requests are one list with two choices of bodies. -/
theorem exists_entries {written recorded : List Request} (same : List.Forall₂ SameCall written recorded) :
    ∃ entries : List (Request × Option String), entries.map Prod.fst = written ∧ entries.map meant = recorded := by
  induction same with
  | nil => exact ⟨[],rfl,rfl⟩
  | @cons a b _ _ here _ ih =>
    obtain ⟨entries,rfl,rfl⟩ := ih
    refine ⟨(a,b.postData) :: entries,rfl,?_⟩
    obtain ⟨method,url,headers⟩ := here
    have first : meant (a,b.postData) = b := by
      rw [meant,method,url,headers]
    rw [List.map_cons,first]

end Agreement

theorem faithful_reads {har : Json} {recorded : List Request} (reads : decodeHar "postData" har = some recorded)
    (faithful : Faithful har recorded) :
    decodeHar "post_data" har = some recorded ∧ ∀ req ∈ recorded, Quotable req := by
  obtain ⟨js,converted,lexed⟩ := faithful
  obtain ⟨written,decoded,rfl⟩ := Option.map_eq_some_iff.mp converted
  obtain ⟨entries,rfl,rfl⟩ := exists_entries (decodeHar_agree decoded reads)
  obtain ⟨same,quotable⟩ := (lex_script_iff entries).mp lexed
  exact ⟨decoded.trans (congrArg some same),quotable⟩

/-- **The script of a HAR document is faithful exactly when its requests have under `post_data` what
they have under `postData`, and what was recorded can be quoted.** -/
theorem faithful_iff {har : Json} {recorded : List Request} (reads : decodeHar "postData" har = some recorded) :
    Faithful har recorded ↔ decodeHar "post_data" har = some recorded ∧ ∀ req ∈ recorded, Quotable req := by
  refine ⟨faithful_reads reads,fun ⟨decoded,quotable⟩ => ?_⟩
  obtain ⟨entries,written,meant⟩ := exists_entries (decodeHar_agree decoded reads)
  have lexed := (lex_script_iff entries).mpr ⟨written.trans meant.symm,meant ▸ quotable⟩
  rw [written,meant] at lexed
  exact ⟨script recorded,by rw [convertFromString,decoded]; rfl,lexed⟩

/-- A document of one request, with text that is posted. -/
def posting (text : String) : Json :=
  .obj [("log",.obj [("entries",.arr [.obj [("request",.obj [("method",.str "POST"),
    ("url",.str "https://httpbin.org/post"),("headers",.arr []),
    ("postData",.obj [("mimeType",.str "application/json"),("text",.str text)])])]])])]

theorem faithful_iff_posting :
    Faithful (posting "x") [⟨"POST","https://httpbin.org/post",[],some "x"⟩] ↔
      decodeHar "post_data" (posting "x") = some [⟨"POST","https://httpbin.org/post",[],some "x"⟩] ∧
        ∀ req ∈ [(⟨"POST","https://httpbin.org/post",[],some "x"⟩ : Request)], Quotable req := by
  exact faithful_iff (by decide +kernel)

theorem posting_unfaithful :
    ¬∀ har recorded, decodeHar "postData" har = some recorded → Faithful har recorded := by
  intro faithful
  have reads : decodeHar "postData" (posting "x") = some [⟨"POST","https://httpbin.org/post",[],some "x"⟩] := by
    decide +kernel
  have written := (faithful_reads reads (faithful _ _ reads)).1
  exact absurd written (by decide +kernel)

end Fusillade.Cli.Har
