import Fusillade.Cli.PathParams

/-! The scripts that are made of OpenAPI specifications. What comes from the specification as text
is marked as data. -/
namespace Fusillade.Cli.Openapi

open JavaScript
open PathParams (Parameter resolvePathParams substitute ExactAfter)

abbrev Text := List Char

abbrev Marked := List (Char × Bool)

structure Schema where
  sample : Option Json

structure MediaType where
  schema : Option Schema
  sample : Option Json

/-- The media types in the order in which the map is iterated. -/
structure RequestBody where
  content : Option (List (String × MediaType))
  distinct : ∀ types ∈ content, (types.map Prod.fst).Nodup

structure Operation where
  summary : Option String
  operationId : Option String
  requestBody : Option RequestBody
  parameters : Option (List Parameter)

structure PathItem where
  get : Option Operation
  post : Option Operation
  put : Option Operation
  delete : Option Operation
  patch : Option Operation

/-- The servers are their addresses, and the paths are in the order of the map. -/
structure OpenApiSpec where
  servers : Option (List String)
  paths : List (String × PathItem)
  sorted : (paths.map Prod.fst).Pairwise (· < ·)

inductive Method where
  | get
  | post
  | put
  | delete
  | patch
  deriving DecidableEq

def Method.name : Method → String
  | .get => "GET"
  | .post => "POST"
  | .put => "PUT"
  | .delete => "DELETE"
  | .patch => "PATCH"

def PathItem.methods (item : PathItem) : List (Method × Option Operation) :=
  [(.get,item.get),(.post,item.post),(.put,item.put),(.delete,item.delete),(.patch,item.patch)]

def trimEndMatches (c : Char) (text : Text) : Text := (text.reverse.dropWhile (· = c)).reverse

def baseUrl (spec : OpenApiSpec) : Text :=
  match spec.servers.bind List.head? with
  | some url => trimEndMatches '/' url.toList
  | none => "https://api.example.com".toList

def comment (path : String) (method : Method) (operation : Operation) : Text :=
  match operation.summary.or operation.operationId with
  | some text => text.toList
  | none => method.name.toList ++ ' ' :: path.toList

/-- The example that is taken for the body. -/
def exampleBody (operation : Operation) : Option Json := do
  let body ← operation.requestBody
  let content ← body.content
  let media ← (content.lookup "application/json").or (content.map Prod.snd).head?
  media.sample.or (media.schema.bind Schema.sample)

section Script

-- How a number that is no integer is written.
variable (number : ℚ → Text)

def extractExampleBody (operation : Operation) : Marked :=
  match exampleBody operation with
  | some value => Json.print number value
  | none => code "\x7b\x7d".toList

def callLines (resolved : Text) (method : Method) (operation : Operation) : Marked :=
  match method with
  | .get =>
    code "    http.get(BASE_URL + '".toList ++ data resolved ++
    code "', \x7b headers: \x7b'Content-Type': 'application/json'\x7d \x7d);\n".toList
  | .delete => code "    http.del(BASE_URL + '".toList ++ data resolved ++ code "');\n".toList
  | .post | .put | .patch =>
    code "    http.request(\x7b\n".toList ++
    code "        method: '".toList ++ code method.name.toList ++ code "',\n".toList ++
    code "        url: BASE_URL + '".toList ++ data resolved ++ code "',\n".toList ++
    code "        headers: \x7b'Content-Type': 'application/json'\x7d,\n".toList ++
    code "        body: JSON.stringify(".toList ++ extractExampleBody number operation ++ code ")\n".toList ++
    code "    \x7d);\n".toList

def operationLines (path : String) (method : Method) (operation : Operation) : Marked :=
  code "    // ".toList ++ data (comment path method operation) ++ code "\n".toList ++
  callLines number (resolvePathParams number path operation.parameters) method operation ++
  code "    sleep(0.1);\n".toList

def itemLines (path : String) (item : PathItem) : Marked :=
  item.methods.flatMap fun (method,operation) =>
    match operation with
    | some operation => operationLines number path method operation
    | none => []

/-- `convert_from_spec`: the text of the script. -/
def convertFromSpec (spec : OpenApiSpec) : Marked :=
  code "export const options = \x7b\n    workers: 1,\n    duration: '10s'\n\x7d;\n\n".toList ++
  code "const BASE_URL = '".toList ++ data (baseUrl spec) ++ code "';\n\n".toList ++
  code "export default function() \x7b\n".toList ++
  spec.paths.flatMap (fun (path,item) => itemLines number path item) ++
  code "\x7d\n".toList

end Script

/-- An operation with its path and its method. -/
structure Call where
  path : String
  method : Method
  operation : Operation

/-- The operations of a specification. -/
def calls (spec : OpenApiSpec) : List Call :=
  spec.paths.flatMap fun (path,item) =>
    item.methods.filterMap fun (method,operation) => operation.map (Call.mk path method)

section Program

variable (number : ℚ → Text)

/-- The path with every parameter filled in at once. -/
def Call.url (c : Call) : Text := substitute number (c.operation.parameters.getD []) c.path.toList

def urlTokens (path : Text) : List Token := [word "BASE_URL",.punct '+',.string (textUnits path)]

def contentType : List Token :=
  .punct '\x7b' :: property (string "Content-Type") [string "application/json"] ++ [.punct '\x7d']

def requestTokens (method : Method) (path : Text) (body : List Token) : List Token :=
  [.punct '\x7b',.line] ++ property (word "method") [string method.name] ++ [.punct ',',.line] ++
  property (word "url") (urlTokens path) ++ [.punct ',',.line] ++
  property (word "headers") contentType ++ [.punct ',',.line] ++
  property (word "body") (call ["JSON","stringify"] body) ++ [.line,.punct '\x7d']

/-- The one call of an operation, with this path. -/
def callTokens (path : Text) (c : Call) : List Token :=
  match c.method with
  | .get => call ["http","get"] (urlTokens path ++
      .punct ',' :: .punct '\x7b' :: property (word "headers") contentType ++ [.punct '\x7d'])
  | .delete => call ["http","del"] (urlTokens path)
  | .post | .put | .patch => call ["http","request"] (requestTokens c.method path
      (Json.tokens number ((exampleBody c.operation).getD (.obj []))))

/-- The end of the line of a comment, the call and a pause. -/
def operationTokens (path : Text) (c : Call) : List Token :=
  .line :: callTokens number path c ++ [.punct ';',.line] ++
  JavaScript.call ["sleep"] [.number "0.1".toList] ++ [.punct ';',.line]

/-- The module that calls every operation once. -/
def program (spec : OpenApiSpec) : List Token :=
  [word "export",word "const",word "options",.punct '=',.punct '\x7b',.line] ++
  property (word "workers") [.number ['1']] ++ [.punct ',',.line] ++
  property (word "duration") [string "10s"] ++ [.line,.punct '\x7d',.punct ';',.line,.line] ++
  [word "const",word "BASE_URL",.punct '=',.string (textUnits (baseUrl spec)),.punct ';',.line,.line] ++
  [word "export",word "default",word "function",.punct '(',.punct ')',.punct '\x7b',.line] ++
  (calls spec).flatMap (fun c => operationTokens number (c.url number) c) ++ [.punct '\x7d',.line]

end Program

/-- The script calls every operation once, with its address, and no text of the specification is
outside a string literal and a comment. -/
def Converted (number : ℚ → Text) (spec : OpenApiSpec) : Prop :=
  lexMarked (convertFromSpec number spec) = some (program number spec)

/-- Each parameter in turn leaves the path with those up to it filled in at once. -/
def Call.Substituted (number : ℚ → Text) (c : Call) : Prop :=
  ∀ before after, c.operation.parameters.getD [] = before ++ after →
    resolvePathParams number c.path (some before) = substitute number before c.path.toList

/-- What stands as it is in literals and comments does not end them, and a placeholder is, with
the parameters before it filled in, only where the path has it. -/
structure Convertible (number : ℚ → Text) (spec : OpenApiSpec) : Prop where
  base : Plain '\'' (baseUrl spec)
  comments : ∀ c ∈ calls spec, ∀ d ∈ comment c.path c.method c.operation, isLineTerminator d = false
  parameters : ∀ c ∈ calls spec, ∀ before param after,
    c.operation.parameters.getD [] = before ++ param :: after → ExactAfter number before c.path.toList param
  paths : ∀ c ∈ calls spec, Plain '\'' (c.url number)

section Pieces

open Piece

theorem cut_raw {a b start rest : Text} (first : a = start ++ ['\'']) (last : b = '\'' :: rest) (text : Text) :
    code a ++ data text ++ code b = code start ++ ((raw true text).text ++ code rest) := by
  subst first last
  simp [code,data,raw]

variable {number : ℚ → Text} (numbers : ∀ q, Json.IsNumber (number q))

/-- A value up to the parenthesis that ends it. -/
def valuePiece (value : Json) : Piece where
  text := Json.print number value ++ [(')',false)]
  tokens := Json.tokens number value ++ [.punct ')']
  sound := True
  read := fun _ => Json.run_print numbers value (.inr (.inr (.inr rfl)))
  sound_of_read := fun _ _ _ _ => trivial

theorem extractExampleBody_eq (operation : Operation) :
    extractExampleBody number operation = Json.print number ((exampleBody operation).getD (.obj [])) := by
  unfold extractExampleBody
  cases exampleBody operation <;> rfl

def getStart : Text := "    http.get(BASE_URL + ".toList

def getEnd : Text := ", \x7b headers: \x7b'Content-Type': 'application/json'\x7d \x7d);\n".toList

def delStart : Text := "    http.del(BASE_URL + ".toList

def delEnd : Text := ");\n".toList

def requestStart : Text := "    http.request(\x7b\n        method: ".toList

def requestUrl : Text := ",\n        url: BASE_URL + ".toList

def requestBody : Text :=
  ",\n        headers: \x7b'Content-Type': 'application/json'\x7d,\n        body: JSON.stringify(".toList

def requestEnd : Text := "\n    \x7d);\n".toList

def callPieces (resolved : Text) (method : Method) (body : Json) : List Piece :=
  match method with
  | .get =>
    [fixed getStart [word "http",.punct '.',word "get",.punct '(',word "BASE_URL",.punct '+'] (by decide +kernel),
      raw true resolved,
      fixed getEnd (.punct ',' :: .punct '\x7b' :: property (word "headers") contentType ++
        [.punct '\x7d',.punct ')',.punct ';',.line]) (by decide +kernel)]
  | .delete =>
    [fixed delStart [word "http",.punct '.',word "del",.punct '(',word "BASE_URL",.punct '+'] (by decide +kernel),
      raw true resolved,fixed delEnd [.punct ')',.punct ';',.line] (by decide +kernel)]
  | .post | .put | .patch =>
    [fixed requestStart [word "http",.punct '.',word "request",.punct '(',.punct '\x7b',.line,
        word "method",.punct ':'] (by decide +kernel),
      raw false method.name.toList,
      fixed requestUrl [.punct ',',.line,word "url",.punct ':',word "BASE_URL",.punct '+'] (by decide +kernel),
      raw true resolved,
      fixed requestBody ([.punct ',',.line] ++ property (word "headers") contentType ++ [.punct ',',.line,
        word "body",.punct ':',word "JSON",.punct '.',word "stringify",.punct '(']) (by decide +kernel),
      valuePiece numbers body,
      fixed requestEnd [.line,.punct '\x7d',.punct ')',.punct ';',.line] (by decide +kernel)]

theorem request_cut {a b c d e f g h start between headers rest : Text} (first : a ++ b = start ++ ['\''])
    (second : c ++ d = '\'' :: (between ++ ['\''])) (third : c ++ e ++ f = '\'' :: headers) (last : g ++ h = ')' :: rest)
    (name resolved : Text) (body : Marked) :
    code a ++ code b ++ code name ++ code c ++ code d ++ data resolved ++ code c ++ code e ++ code f ++ body ++
        code g ++ code h =
      code start ++ ((raw false name).text ++ (code between ++ ((raw true resolved).text ++ (code headers ++
        (body ++ [(')',false)] ++ code rest))))) := by
  calc _ = code (a ++ b) ++ (code name ++ (code (c ++ d) ++ (data resolved ++ (code (c ++ e ++ f) ++
        (body ++ code (g ++ h)))))) := by simp [code]
    _ = _ := by
      rw [first,second,third,last]
      simp [code,data,raw]

theorem request_text (method : Method) (resolved : Text) (body : Marked) :
    code "    http.request(\x7b\n".toList ++
      code "        method: '".toList ++ code method.name.toList ++ code "',\n".toList ++
      code "        url: BASE_URL + '".toList ++ data resolved ++ code "',\n".toList ++
      code "        headers: \x7b'Content-Type': 'application/json'\x7d,\n".toList ++
      code "        body: JSON.stringify(".toList ++ body ++ code ")\n".toList ++ code "    \x7d);\n".toList =
    code requestStart ++ ((raw false method.name.toList).text ++ (code requestUrl ++ ((raw true resolved).text ++
      (code requestBody ++ (body ++ [(')',false)] ++ code requestEnd))))) :=
  request_cut (by decide +kernel) (by decide +kernel) (by decide +kernel) (by decide +kernel) _ _ _

theorem callPieces_text (resolved : Text) (method : Method) (operation : Operation) :
    (callPieces numbers resolved method ((exampleBody operation).getD (.obj []))).flatMap Piece.text =
      callLines number resolved method operation := by
  have get : callLines number resolved .get operation =
      code getStart ++ ((raw true resolved).text ++ code getEnd) :=
    cut_raw (by decide +kernel) (by decide +kernel) resolved
  have delete : callLines number resolved .delete operation =
      code delStart ++ ((raw true resolved).text ++ code delEnd) :=
    cut_raw (by decide +kernel) (by decide +kernel) resolved
  have request (method : Method) := request_text method resolved (extractExampleBody number operation)
  have body : extractExampleBody number operation = _ := extractExampleBody_eq operation
  cases method with
  | get =>
    rw [get]
    simp [callPieces,fixed]
  | delete =>
    rw [delete]
    simp [callPieces,fixed]
  | post =>
    refine Eq.trans ?_ (request .post).symm
    rw [body]
    simp [callPieces,fixed,valuePiece]
  | put =>
    refine Eq.trans ?_ (request .put).symm
    rw [body]
    simp [callPieces,fixed,valuePiece]
  | patch =>
    refine Eq.trans ?_ (request .patch).symm
    rw [body]
    simp [callPieces,fixed,valuePiece]

theorem callPieces_tokens (path : Text) (c : Call) :
    (callPieces numbers path c.method ((exampleBody c.operation).getD (.obj []))).flatMap Piece.tokens =
      callTokens number path c ++ [.punct ';',.line] := by
  unfold callTokens
  cases c.method <;>
    simp [callPieces,fixed,raw,valuePiece,call,requestTokens,property,urlTokens,string]

theorem callPieces_sound (resolved : Text) (method : Method) (body : Json) :
    (∀ p ∈ callPieces numbers resolved method body, p.sound) ↔ Plain '\'' resolved := by
  have name (method : Method) : Plain '\'' method.name.toList := by cases method <;> decide
  cases method with
  | get | delete => simp [callPieces,fixed,raw]
  | post | put | patch => simp [callPieces,fixed,raw,valuePiece,name]

def operationPieces (path : Text) (c : Call) : List Piece :=
  fixed "    ".toList [] (by decide +kernel) :: Piece.comment (comment c.path c.method c.operation) ::
    (callPieces numbers path c.method ((exampleBody c.operation).getD (.obj [])) ++
      [fixed "    sleep(0.1);\n".toList (JavaScript.call ["sleep"] [.number "0.1".toList] ++ [.punct ';',.line])
        (by decide +kernel)])

theorem operationPieces_text (c : Call) :
    (operationPieces numbers (resolvePathParams number c.path c.operation.parameters) c).flatMap Piece.text =
      operationLines number c.path c.method c.operation := by
  have started : code "    // ".toList = code "    ".toList ++ code "// ".toList := by decide +kernel
  have commented (text : Text) : (Piece.comment text).text = code "// ".toList ++ (data text ++ code "\n".toList) := rfl
  unfold operationLines
  rw [started,← callPieces_text numbers]
  simp only [operationPieces,commented,List.flatMap_cons,List.flatMap_append,List.flatMap_nil,List.append_nil,
    List.append_assoc]
  rfl

theorem operationPieces_tokens (path : Text) (c : Call) :
    (operationPieces numbers path c).flatMap Piece.tokens = operationTokens number path c := by
  rw [operationPieces,List.flatMap_cons,List.flatMap_cons,List.flatMap_append,callPieces_tokens]
  simp [operationTokens,fixed,Piece.comment]

theorem operationPieces_sound (path : Text) (c : Call) :
    (∀ p ∈ operationPieces numbers path c, p.sound) ↔
      (∀ d ∈ comment c.path c.method c.operation, isLineTerminator d = false) ∧ Plain '\'' path := by
  rw [operationPieces,List.forall_mem_cons,List.forall_mem_cons,List.forall_mem_append,callPieces_sound]
  simp [fixed,Piece.comment]

def baseStart : Text :=
  "export const options = \x7b\n    workers: 1,\n    duration: '10s'\n\x7d;\n\nconst BASE_URL = ".toList

def baseEnd : Text := ";\n\nexport default function() \x7b\n".toList

def startTokens : List Token :=
  [word "export",word "const",word "options",.punct '=',.punct '\x7b',.line] ++
  property (word "workers") [.number ['1']] ++ [.punct ',',.line] ++
  property (word "duration") [string "10s"] ++ [.line,.punct '\x7d',.punct ';',.line,.line] ++
  [word "const",word "BASE_URL",.punct '=']

def endTokens : List Token :=
  [.punct ';',.line,.line] ++ [word "export",word "default",word "function",.punct '(',.punct ')',.punct '\x7b',.line]

def scriptPieces (spec : OpenApiSpec) : List Piece :=
  fixed baseStart startTokens (by decide +kernel) :: raw true (baseUrl spec) ::
    fixed baseEnd endTokens (by decide +kernel) ::
    ((calls spec).flatMap (fun c => operationPieces numbers (c.url number) c) ++ [functionEnd])

theorem Call.Substituted.resolved {c : Call} (substituted : c.Substituted number) :
    resolvePathParams number c.path c.operation.parameters = c.url number := by
  have all := substituted _ [] (List.append_nil _).symm
  rw [Call.url,← all]
  cases c.operation.parameters <;> rfl

theorem itemLines_eq (path : String) (item : PathItem) :
    itemLines number path item = (item.methods.filterMap fun (method,operation) => operation.map (Call.mk path method)).flatMap
      fun c => operationLines number c.path c.method c.operation := by
  rw [itemLines]
  induction item.methods with
  | nil => rfl
  | cons pair rest ih =>
    obtain ⟨method,_ | operation⟩ := pair
    · exact ih
    · rw [List.flatMap_cons,ih]
      rfl

theorem scriptPieces_text (spec : OpenApiSpec) (substituted : ∀ c ∈ calls spec, c.Substituted number) :
    (scriptPieces numbers spec).flatMap Piece.text = convertFromSpec number spec := by
  have each (c : Call) (member : c ∈ calls spec) : (operationPieces numbers (c.url number) c).flatMap Piece.text =
      operationLines number c.path c.method c.operation := by
    rw [← (substituted c member).resolved,operationPieces_text]
  have operations : ((calls spec).flatMap fun c => operationPieces numbers (c.url number) c).flatMap Piece.text =
      spec.paths.flatMap fun (path,item) => itemLines number path item := by
    rw [List.flatMap_assoc,List.flatMap_congr each,calls,List.flatMap_assoc]
    refine List.flatMap_congr fun entry _ => ?_
    dsimp only
    rw [itemLines_eq]
  have cut {a b c d start rest : Text} (first : a ++ b = start ++ ['\'']) (last : c ++ d = '\'' :: rest) (text : Text)
      (lines more : Marked) : code a ++ code b ++ data text ++ code c ++ code d ++ lines ++ more =
        code start ++ ((raw true text).text ++ (code rest ++ (lines ++ more))) := by
    have grouped := cut_raw first last text
    simp only [code_append,List.append_assoc] at grouped ⊢
    simp only [← List.append_assoc] at grouped ⊢
    rw [grouped]
  have first : "export const options = \x7b\n    workers: 1,\n    duration: '10s'\n\x7d;\n\n".toList ++
      "const BASE_URL = '".toList = baseStart ++ ['\''] := by decide +kernel
  have last : "';\n\n".toList ++ "export default function() \x7b\n".toList = '\'' :: baseEnd := by decide +kernel
  have shape := cut first last (baseUrl spec)
  unfold convertFromSpec
  rw [shape,scriptPieces,List.flatMap_cons,List.flatMap_cons,List.flatMap_cons,List.flatMap_append,operations]
  rfl

theorem scriptPieces_tokens (spec : OpenApiSpec) :
    (scriptPieces numbers spec).flatMap Piece.tokens = program number spec := by
  have operations : ((calls spec).flatMap fun c => operationPieces numbers (c.url number) c).flatMap Piece.tokens =
      (calls spec).flatMap fun c => operationTokens number (c.url number) c := by
    rw [List.flatMap_assoc]
    exact List.flatMap_congr fun c _ => operationPieces_tokens numbers _ c
  rw [scriptPieces,List.flatMap_cons,List.flatMap_cons,List.flatMap_cons,List.flatMap_append,operations]
  simp [program,functionEnd,fixed,raw,startTokens,endTokens]

theorem pieces_sound (spec : OpenApiSpec) :
    (∀ p ∈ scriptPieces numbers spec, p.sound) ↔ Plain '\'' (baseUrl spec) ∧
      ∀ c ∈ calls spec, (∀ d ∈ comment c.path c.method c.operation, isLineTerminator d = false) ∧
        Plain '\'' (c.url number) := by
  rw [scriptPieces,List.forall_mem_cons,List.forall_mem_cons,List.forall_mem_cons,List.forall_mem_append,
    List.forall_mem_flatMap]
  simp only [operationPieces_sound]
  simp [fixed,raw,functionEnd]

end Pieces

/-- A specification of one operation on the score of a player, with a summary and an example of
its body. -/
def posting (summary : String) (body : Json) : OpenApiSpec where
  servers := none
  paths := [("/scores/\x7bplayer\x7d",⟨none,some ⟨some summary,none,
    some ⟨some [("application/json",⟨none,some body⟩)],by simp⟩,
    some [⟨"player",some (.int 7)⟩,⟨"day",some (.str "today")⟩]⟩,none,none,none⟩)]
  sorted := by simp

def half (_ : ℚ) : Text := "0.5".toList

theorem half_number (q : ℚ) : Json.IsNumber (half q) :=
  ⟨[],['0'],['.','5'],[],rfl,.inl rfl,by simp [Json.Digits],fun _ => rfl,
    .inr ⟨['5'],rfl,by simp [Json.Digits]⟩,.inl rfl⟩

end Fusillade.Cli.Openapi
