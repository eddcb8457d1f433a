import Fusillade.Bridge.Replay
import Fusillade.Engine.DurationSyntax
import Fusillade.Lib.FiniteMap

/-! The `SharedCSV` class: the parser of a line and the file that each context reads once,
against tables as RFC 4180 has them written, with every field in quotes. -/
namespace Fusillade.Bridge.Data

open Stats Utils

abbrev Text := List Char

/-- The loop of `parse_csv_line`. A pair of quotes in a quoted field is one. -/
def parseFields : (fields : List Text) → (current : Text) → (inQuotes : Bool) → Text → List Text
  | fields, current, _, [] => fields ++ [trim current]
  | fields, current, true, '"' :: '"' :: rest => parseFields fields (current ++ ['"']) true rest
  | fields, current, true, '"' :: rest => parseFields fields current false rest
  | fields, current, true, c :: rest => parseFields fields (current ++ [c]) true rest
  | fields, current, false, ',' :: rest => parseFields (fields ++ [trim current]) [] false rest
  | fields, current, false, '"' :: rest => parseFields fields current true rest
  | fields, current, false, c :: rest => parseFields fields (current ++ [c]) false rest

def parseCsvLine (line : Text) : List Text := parseFields [] [] false line

def lines (content : Text) : List Text := (Replay.linesFrom [] content).map String.toList

/-- `rquickjs::Error::new_from_js`: what could not be made into what. -/
structure FromJs where
  source : String
  target : String
  deriving DecidableEq

structure SharedCsv where
  headers : List Text
  rows : List (List Text)
  deriving DecidableEq

/-- The file, none where it can not be read as text. -/
def parseCsv (file : Option Text) : Except FromJs SharedCsv :=
  match file with
  | none => .error ⟨"Failed to read CSV file","IOError"⟩
  | some content =>
    match lines content with
    | [] => .error ⟨"CSV file is empty","Error"⟩
    | headerLine :: rest =>
      .ok ⟨parseCsvLine headerLine,(rest.filter fun line => trim line ≠ []).map parseCsvLine⟩

/-- What the constructors of a context share, and whether a panic has poisoned its lock. -/
structure CsvData where
  poisoned : Bool
  files : FiniteMap String SharedCsv

/-- `new SharedCSV(path)`, with the shared data in the context of the worker. -/
def SharedCsv.new (readToString : String → Option Text) (context : Option CsvData) (path : String) :
    Except FromJs SharedCsv × Option CsvData :=
  match context with
  | none => (.error ⟨"CsvData not found in context","Error"⟩,none)
  | some data =>
    if data.poisoned then (.error ⟨"CsvData lock poisoned (read)","Error"⟩,some data)
    else
      match data.files.lookup path with
      | some csv => (.ok csv,some data)
      | none =>
        match parseCsv (readToString path) with
        | .ok csv => (.ok csv,some { data with files := data.files.insert path csv })
        | .error e => (.error e,some data)

def registered : CsvData := ⟨false,∅⟩

example : parseCsvLine "\"Smith, Jr.\",\"He said \"\"hello\"\"\",,  a  ".toList =
    ["Smith, Jr.".toList,"He said \"hello\"".toList,[],['a']] := by decide

/-- A header of distinct names, and rows of its width. -/
structure Table where
  header : List Text
  rows : List (List Text)
  named : header ≠ []
  distinct : header.Nodup
  width : ∀ row ∈ rows, row.length = header.length

def escape (value : Text) : Text := value.flatMap fun c => if c = '"' then ['"','"'] else [c]

def quoted (value : Text) : Text := '"' :: (escape value ++ ['"'])

def record (fields : List Text) : Text := List.intercalate [','] (fields.map quoted)

namespace Table

variable (table : Table)

def records : List (List Text) := table.header :: table.rows

/-- Every record ends in a carriage return and a newline. -/
def render : Text := table.records.flatMap fun fields => record fields ++ ['\r','\n']

def loaded : SharedCsv := ⟨table.header,table.rows⟩

end Table

/-- A field that the line reader and `trim` leave whole. -/
def Kept (value : Text) : Prop := '\n' ∉ value ∧ trim value = value

variable {value current rest line : Text} {fields : List Text}

theorem escape_cons (c : Char) (value : Text) :
    escape (c :: value) = (if c = '"' then ['"','"'] else [c]) ++ escape value := List.flatMap_cons

theorem parseFields_escape (ends : rest.head? ≠ some '"') (fields : List Text) (current value : Text) :
    parseFields fields current true (escape value ++ '"' :: rest) =
      parseFields fields (current ++ value) false rest := by
  induction value generalizing current with
  | nil =>
    rw [List.append_nil]
    cases rest with
    | nil => rfl
    | cons c rest =>
      have other : c ≠ '"' := fun same => ends (congrArg some same)
      simp [escape,parseFields,other]
  | cons c value ih =>
    rw [escape_cons]
    by_cases quote : c = '"'
    · subst quote
      simp only [if_true,List.cons_append,List.nil_append,parseFields]
      rw [ih,List.append_assoc]
      rfl
    · simp [quote,parseFields,ih]

theorem parseFields_quoted (ends : rest.head? ≠ some '"') (fields : List Text) (value : Text) :
    parseFields fields [] false (quoted value ++ rest) = parseFields fields value false rest := by
  have opened : parseFields fields [] false (quoted value ++ rest) =
      parseFields fields [] true (escape value ++ '"' :: rest) := by
    simp [quoted,parseFields]
  rw [opened,parseFields_escape ends,List.nil_append]

theorem record_cons (value next : Text) (fields : List Text) :
    record (value :: next :: fields) = quoted value ++ ',' :: record (next :: fields) := by
  simp [record,List.intercalate]

theorem parseFields_record (parsed : List Text) {fields : List Text} (named : fields ≠ []) :
    parseFields parsed [] false (record fields) = parsed ++ fields.map trim := by
  induction fields generalizing parsed with
  | nil => exact absurd rfl named
  | cons value fields ih =>
    cases fields with
    | nil =>
      have alone : record [value] = quoted value ++ [] := by simp [record,List.intercalate]
      rw [alone,parseFields_quoted (by simp),parseFields]
      rfl
    | cons next fields =>
      rw [record_cons,parseFields_quoted (by simp),parseFields,ih _ (by simp),List.append_assoc]
      rfl

theorem parseCsvLine_record (named : fields ≠ []) : parseCsvLine (record fields) = fields.map trim :=
  parseFields_record [] named

theorem not_mem_record (inside : ∀ value ∈ fields, '\n' ∉ value) : '\n' ∉ record fields := by
  have oneLine {value : Text} (plain : '\n' ∉ value) : '\n' ∉ quoted value := by
    have escaped : '\n' ∉ escape value := by
      intro member
      obtain ⟨c,of,same⟩ := List.mem_flatMap.mp member
      split at same
      · simp at same
      · exact plain (List.mem_singleton.mp same ▸ of)
    simpa [quoted] using escaped
  induction fields with
  | nil => simp [record]
  | cons value fields ih =>
    obtain ⟨here,later⟩ := List.forall_mem_cons.mp inside
    cases fields with
    | nil => simpa [record,List.intercalate] using oneLine here
    | cons next fields =>
      rw [record_cons]
      simpa using ⟨oneLine here,ih later⟩

theorem lines_record (inside : ∀ value ∈ fields, '\n' ∉ value) (content : Text) :
    lines (record fields ++ ['\r','\n'] ++ content) = record fields :: lines content := by
  rw [lines,List.append_assoc,Replay.linesFrom_line (not_mem_record inside)]
  simp [Replay.linesFrom,Replay.dropCarriageReturn,lines]

theorem lines_records {records : List (List Text)} (inside : ∀ fields ∈ records, ∀ value ∈ fields, '\n' ∉ value) :
    lines (records.flatMap fun fields => record fields ++ ['\r','\n']) = records.map record := by
  induction records with
  | nil => rfl
  | cons fields records ih =>
    obtain ⟨here,later⟩ := List.forall_mem_cons.mp inside
    rw [List.flatMap_cons,lines_record here,ih later,List.map_cons]

theorem trim_record_ne_nil (named : fields ≠ []) : trim (record fields) ≠ [] := by
  obtain ⟨value,fields,rfl⟩ := List.exists_cons_of_ne_nil named
  cases fields with
  | nil => simpa [record,List.intercalate,quoted] using trim_cons_ne_nil (by decide) _
  | cons next fields =>
    rw [record_cons]
    exact trim_cons_ne_nil (by decide) _

theorem mem_parseFields {parsed : List Text} {inQuotes : Bool}
    (member : value ∈ parseFields parsed current inQuotes line) :
    value ∈ parsed ∨ ∃ raw, value = trim raw ∧ ∀ c ∈ raw, c ∈ current ∨ c ∈ line := by
  have ended {parsed : List Text} {current : Text} (last : value ∈ parsed ++ [trim current]) (line : Text) :
      value ∈ parsed ∨ ∃ raw, value = trim raw ∧ ∀ c ∈ raw, c ∈ current ∨ c ∈ line := by
    rcases List.mem_append.mp last with old | new
    · exact .inl old
    · exact .inr ⟨current,List.mem_singleton.mp new,fun _ => .inl⟩
  have further {parsed : List Text} {current longer rest line : Text}
      (later : value ∈ parsed ∨ ∃ raw, value = trim raw ∧ ∀ c ∈ raw, c ∈ longer ∨ c ∈ rest)
      (onLine : ∀ c, c ∈ longer ∨ c ∈ rest → c ∈ current ∨ c ∈ line) :
      value ∈ parsed ∨ ∃ raw, value = trim raw ∧ ∀ c ∈ raw, c ∈ current ∨ c ∈ line :=
    later.imp_right fun ⟨raw,same,origin⟩ => ⟨raw,same,fun c of => onLine c (origin c of)⟩
  fun_induction parseFields parsed current inQuotes line with
  | case1 => exact ended member []
  | case2 parsed current rest ih => exact further (ih member) (by simp; tauto)
  | case3 parsed current rest _ ih => exact further (ih member) (by simp; tauto)
  | case4 parsed current c rest _ _ ih => exact further (ih member) (by simp; tauto)
  | case5 parsed current rest ih =>
    rcases ih member with done | ⟨raw,same,origin⟩
    · exact ended done _
    · exact .inr ⟨raw,same,fun c of => .inr (List.mem_cons_of_mem _ ((origin c of).resolve_left List.not_mem_nil))⟩
  | case6 parsed current rest ih => exact further (ih member) (by simp; tauto)
  | case7 parsed current c rest _ _ ih => exact further (ih member) (by simp; tauto)

theorem mem_parseCsvLine (oneLine : '\n' ∉ line) (member : value ∈ parseCsvLine line) : Kept value := by
  obtain ⟨raw,rfl,origin⟩ := (mem_parseFields member).resolve_left List.not_mem_nil
  refine ⟨?_,trim_trim raw⟩
  intro inside
  rcases origin '\n' (mem_of_mem_trim inside) with nothing | onLine
  · cases nothing
  · exact oneLine onLine

theorem linesFrom_oneLine {read content : List Char} (inside : '\n' ∉ read) :
    ∀ line ∈ Replay.linesFrom read content, '\n' ∉ line.toList := by
  fun_induction Replay.linesFrom read content with
  | case1 => simp
  | case2 read _ => simpa using inside
  | case3 read rest ih =>
    have cut : '\n' ∉ Replay.dropCarriageReturn read := by
      unfold Replay.dropCarriageReturn
      split
      · exact fun member => inside (List.mem_cons_of_mem _ member)
      · exact inside
    simpa [cut] using ih List.not_mem_nil
  | case4 read c rest other ih =>
    refine ih ?_
    intro member
    rcases List.mem_cons.mp member with same | old
    · exact other same.symm
    · exact inside old

theorem lines_oneLine {content : Text} (member : line ∈ lines content) : '\n' ∉ line := by
  obtain ⟨text,of,rfl⟩ := List.mem_map.mp member
  exact linesFrom_oneLine List.not_mem_nil text of

/-- Whatever the file, every field that is loaded is one that the loading keeps. -/
theorem loaded_kept {content : Text} {csv : SharedCsv} (parsed : parseCsv (some content) = .ok csv) :
    ∀ fields ∈ csv.headers :: csv.rows, ∀ value ∈ fields, Kept value := by
  have oneLine {line : Text} : line ∈ lines content → '\n' ∉ line := lines_oneLine
  rw [parseCsv] at parsed
  cases read : lines content with
  | nil =>
    rw [read] at parsed
    cases parsed
  | cons headerLine rest =>
    simp only [read] at parsed oneLine
    obtain rfl := Except.ok.inj parsed
    refine List.forall_mem_cons.mpr ⟨?_,?_⟩
    · intro value member
      exact mem_parseCsvLine (oneLine List.mem_cons_self) member
    · intro fields row value member
      obtain ⟨line,of,rfl⟩ := List.mem_map.mp row
      exact mem_parseCsvLine (oneLine (List.mem_cons_of_mem _ (List.mem_filter.mp of).1)) member

/-- A table of fields that are kept is loaded as it is. -/
theorem parseCsv_render (table : Table) (kept : ∀ fields ∈ table.records, ∀ value ∈ fields, Kept value) :
    parseCsv (some table.render) = .ok table.loaded := by
  have named : ∀ fields ∈ table.records, fields ≠ [] := by
    refine List.forall_mem_cons.mpr ⟨table.named,?_⟩
    intro row member
    refine List.ne_nil_of_length_pos ?_
    rw [table.width row member]
    exact List.length_pos_of_ne_nil table.named
  have back : ∀ fields ∈ table.records, parseCsvLine (record fields) = fields := by
    intro fields member
    rw [parseCsvLine_record (named fields member)]
    exact (List.map_congr_left fun value of => (kept fields member value of).2).trans (List.map_id _)
  have read : lines table.render = table.records.map record :=
    lines_records fun fields member value of => (kept fields member value of).1
  obtain ⟨header,rows⟩ := List.forall_mem_cons.mp back
  have noneBlank : (table.rows.map record).filter (fun line => trim line ≠ []) = table.rows.map record := by
    refine List.filter_eq_self.mpr ?_
    intro line member
    obtain ⟨row,of,rfl⟩ := List.mem_map.mp member
    exact decide_eq_true (trim_record_ne_nil (named row (List.mem_cons_of_mem _ of)))
  have rowsBack : table.rows.map (parseCsvLine ∘ record) = table.rows :=
    (List.map_congr_left rows).trans (List.map_id _)
  simp only [parseCsv,read,Table.records,List.map_cons,header,noneBlank,List.map_map,rowsBack,Table.loaded]

theorem new_registered (readToString : String → Option Text) (path : String) :
    (SharedCsv.new readToString (some registered) path).1 = parseCsv (readToString path) := by
  have absent : registered.files.lookup path = none := rfl
  simp only [SharedCsv.new,absent]
  cases parseCsv (readToString path) <;> rfl

/-- **A table that is written with every field in quotes is loaded as it was exactly when no
field has a newline or white space at its ends.** -/
theorem load_render_iff (readToString : String → Option Text) (path : String) (table : Table) :
    (SharedCsv.new (Function.update readToString path (some table.render)) (some registered) path).1 =
        .ok table.loaded ↔
      ∀ fields ∈ table.records, ∀ value ∈ fields, Kept value := by
  rw [new_registered,Function.update_self]
  exact ⟨loaded_kept,parseCsv_render table⟩

def twoLines : Table where
  header := [['a']]
  rows := [[['x','\n','y']]]
  named := by decide
  distinct := by decide
  width := by decide

theorem twoLines_changed :
    ¬∀ readToString path (table : Table),
      (SharedCsv.new (Function.update readToString path (some table.render)) (some registered) path).1 =
        .ok table.loaded := by
  intro exactly
  have loaded := exactly (fun _ => none) "users.csv" twoLines
  rw [new_registered,Function.update_self] at loaded
  have kept := loaded_kept loaded [['x','\n','y']] (by decide) ['x','\n','y'] (by decide)
  exact absurd kept.1 (by decide)

/-- A constructor that has run, with what its path read as at that time. -/
structure Construction (Context : Type) where
  context : Context
  path : String
  file : Option Text
  result : Except FromJs SharedCsv

/-- The files of the machine and the contexts of the workers, each with data of its own. -/
structure Workers (Context : Type) where
  readToString : String → Option Text
  contexts : Context → CsvData := fun _ => registered
  constructed : List (Construction Context) := []

inductive Access (Context : Type) where
  /-- The file is written, or removed. -/
  | change (path : String) (content : Option Text)
  | new (context : Context) (path : String)

variable {Context : Type} [DecidableEq Context]

def Workers.access (s : Workers Context) : Access Context → Workers Context
  | .change path content => { s with readToString := Function.update s.readToString path content }
  | .new context path =>
    let (result,data) := SharedCsv.new s.readToString (some (s.contexts context)) path
    { s with
      contexts := Function.update s.contexts context (data.getD (s.contexts context))
      constructed := s.constructed ++ [⟨context,path,s.readToString path,result⟩] }

/-- The constructors of a path in one context, in their order. -/
def Workers.loads (s : Workers Context) (context : Context) (path : String) :
    List (Construction Context) :=
  s.constructed.filter fun call => call.context = context ∧ call.path = path

/-- What the constructors of a path give that find these files: the errors of those before the
first that can be read, and its table from then on. -/
def firstTable : List (Option Text) → List (Except FromJs SharedCsv)
  | [] => []
  | file :: later =>
    match parseCsv file with
    | .ok csv => .ok csv :: later.map fun _ => .ok csv
    | .error e => .error e :: firstTable later

def keptTable (files : List (Option Text)) : Option SharedCsv :=
  files.findSome? fun file => (parseCsv file).toOption

/-- What a constructor gives after others of its path that found these files. -/
def nextTable (files : List (Option Text)) (file : Option Text) : Except FromJs SharedCsv :=
  match keptTable files with
  | some csv => .ok csv
  | none => parseCsv file

theorem firstTable_snoc (files : List (Option Text)) (file : Option Text) :
    firstTable (files ++ [file]) = firstTable files ++ [nextTable files file] := by
  induction files with
  | nil => cases parsed : parseCsv file <;> simp [firstTable,nextTable,keptTable,parsed]
  | cons head rest ih =>
    cases parsed : parseCsv head with
    | ok csv => simp [firstTable,nextTable,keptTable,parsed,Except.toOption]
    | error e =>
      have later : nextTable (head :: rest) file = nextTable rest file := by
        simp [nextTable,keptTable,parsed,Except.toOption]
      simp [firstTable,parsed,ih,later]

theorem keptTable_snoc (files : List (Option Text)) (file : Option Text) :
    keptTable (files ++ [file]) = (nextTable files file).toOption := by
  have both : keptTable (files ++ [file]) = (keptTable files).or (keptTable [file]) := by
    simp [keptTable,List.findSome?_append]
  have alone : keptTable [file] = (parseCsv file).toOption := by
    cases parsed : parseCsv file <;> simp [keptTable,parsed,Except.toOption]
  rw [both,alone,nextTable]
  cases keptTable files <;> simp [Except.toOption]

variable {readToString : String → Option Text} {data : CsvData} {path : String}
  {files : List (Option Text)}

theorem new_kept (healthy : data.poisoned = false) (kept : data.files.lookup path = keptTable files) :
    ∃ after, SharedCsv.new readToString (some data) path =
        (nextTable files (readToString path),some after) ∧
      after.poisoned = false ∧
      after.files.lookup path = keptTable (files ++ [readToString path]) ∧
      ∀ other, other ≠ path → after.files.lookup other = data.files.lookup other := by
  simp only [SharedCsv.new,healthy,kept,keptTable_snoc,nextTable]
  cases before : keptTable files with
  | some csv => exact ⟨data,rfl,healthy,kept.trans before,fun _ _ => rfl⟩
  | none =>
    cases parsed : parseCsv (readToString path) with
    | ok csv =>
      refine ⟨{ data with files := data.files.insert path csv },by simp [healthy],healthy,?_,?_⟩
      · simp [Except.toOption]
      · intro other different
        simp [different]
    | error e => exact ⟨data,by simp,healthy,kept.trans before,fun _ _ => rfl⟩

/-- A context holds of every path the first table that it could read there. -/
structure Workers.Valid (s : Workers Context) : Prop where
  healthy : ∀ context, (s.contexts context).poisoned = false
  kept : ∀ context path, (s.contexts context).files.lookup path =
    keptTable ((s.loads context path).map (·.file))
  results : ∀ context path, (s.loads context path).map (·.result) =
    firstTable ((s.loads context path).map (·.file))

/-- One more construction is a load of its own path in its own context. -/
theorem Workers.loads_append (s : Workers Context) (contexts : Context → CsvData)
    (call : Construction Context) (context : Context) (path : String) :
    Workers.loads { s with contexts := contexts, constructed := s.constructed ++ [call] } context path =
      s.loads context path ++ if call.context = context ∧ call.path = path then [call] else [] := by
  by_cases both : call.context = context ∧ call.path = path <;> simp [Workers.loads,both]

theorem Workers.Valid.access {s : Workers Context} (valid : s.Valid) (action : Access Context) :
    (s.access action).Valid := by
  cases action with
  | change path content => exact ⟨valid.healthy,valid.kept,valid.results⟩
  | new context path =>
    obtain ⟨after,made,healthy,here,elsewhere⟩ :=
      @new_kept s.readToString _ path _ (valid.healthy context) (valid.kept context path)
    let call : Construction Context := ⟨context,path,s.readToString path,
      nextTable ((s.loads context path).map (·.file)) (s.readToString path)⟩
    have same : s.access (.new context path) =
        { s with
          contexts := Function.update s.contexts context after
          constructed := s.constructed ++ [call] } := by
      simp only [Workers.access,made]
      rfl
    rw [same]
    refine ⟨fun other => ?_,fun other asked => ?_,fun other asked => ?_⟩
    · by_cases one : other = context
      · simpa [one] using healthy
      · simpa [one] using valid.healthy other
    · rw [Workers.loads_append]
      by_cases one : context = other
      · subst one
        by_cases again : path = asked
        · subst again
          simpa [call] using here
        · simpa [call,again,elsewhere asked (Ne.symm again)] using valid.kept context asked
      · simpa [call,one,Ne.symm one] using valid.kept other asked
    · rw [Workers.loads_append]
      by_cases both : context = other ∧ path = asked
      · obtain ⟨rfl,rfl⟩ := both
        simp [call,firstTable_snoc,valid.results]
      · simpa [call,both] using valid.results other asked

theorem Workers.Valid.accesses {s : Workers Context} (valid : s.Valid)
    (accesses : List (Access Context)) : (accesses.foldl Workers.access s).Valid := by
  induction accesses generalizing s with
  | nil => exact valid
  | cons action rest ih => exact ih (valid.access action)

/-- **In every interleaving of the constructors of all contexts with changes of the files, those
of a path in one context fail as its file is until the first that can read it; from then on they
all have its table, whatever becomes of the file and whatever the other contexts do.** -/
theorem context_loads_once (readToString : String → Option Text) (accesses : List (Access Context))
    (context : Context) (path : String) :
    let loads := (accesses.foldl Workers.access { readToString }).loads context path
    loads.map (·.result) = firstTable (loads.map (·.file)) := by
  have start : ({ readToString } : Workers Context).Valid :=
    ⟨fun _ => rfl,fun _ _ => rfl,fun _ _ => rfl⟩
  exact (start.accesses accesses).results context path

/-- The file is written anew between the constructors of two contexts. -/
example :
    let accesses : List (Access Bool) := [.new false "a.csv",.change "a.csv" (some ['x']),
      .new false "a.csv",.change "a.csv" (some ['y']),.new true "a.csv",.new false "a.csv"]
    let after := accesses.foldl Workers.access { readToString := fun _ => none }
    (after.loads false "a.csv").map (·.result) =
        [.error ⟨"Failed to read CSV file","IOError"⟩,.ok ⟨[['x']],[]⟩,.ok ⟨[['x']],[]⟩] ∧
      (after.loads true "a.csv").map (·.result) = [.ok ⟨[['y']],[]⟩] := by decide

end Fusillade.Bridge.Data
