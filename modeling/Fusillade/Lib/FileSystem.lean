import Fusillade.Lib.FiniteMap
import Mathlib.Data.List.Infix

/-! A tree of directories, files and symbolic links, with POSIX path resolution, the creation
of directories and the writing of whole files. A location is the list of the names from the
root, without links; whether an entry may be made or written is a parameter. -/

abbrev Location := List String

/-- `here` asks for a directory, as a trailing slash does. -/
inductive Component where
  | name (text : String)
  | up
  | here
  deriving DecidableEq

structure LinkTarget where
  absolute : Bool
  components : List Component
  deriving DecidableEq

inductive Node where
  | dir
  | file (content : String)
  | symlink (target : LinkTarget)
  deriving DecidableEq

/-- The root is a directory, and entries are in directories. -/
@[ext] structure FileSystem where
  nodes : FiniteMap Location Node
  rooted : nodes.lookup [] = some .dir
  closed : ∀ dir name, nodes.lookup (dir ++ [name]) ≠ none → nodes.lookup dir = some .dir

inductive Errno where
  | notFound
  | notADirectory
  | alreadyExists
  | loop
  | refused
  deriving DecidableEq

/-- Where a path leads: to an entry, or to a name that is free in its directory. -/
inductive Walked where
  | found (location : Location)
  | missing (dir : Location) (name : String)
  | failed (error : Errno)
  deriving DecidableEq

namespace FileSystem

def node (fs : FileSystem) (location : Location) : Option Node := fs.nodes.lookup location

def walkWith (fs : FileSystem) (follow : Location → List Component → Walked) :
    Location → List Component → Walked
  | dir,[] => .found dir
  | dir,.here :: rest => fs.walkWith follow dir rest
  | dir,.up :: rest => fs.walkWith follow dir.dropLast rest
  | dir,.name text :: rest =>
    match fs.node (dir ++ [text]) with
    | none => if rest = [] then .missing dir text else .failed .notFound
    | some .dir => fs.walkWith follow (dir ++ [text]) rest
    | some (.file _) => if rest = [] then .found (dir ++ [text]) else .failed .notADirectory
    | some (.symlink target) =>
      follow (if target.absolute then [] else dir) (target.components ++ rest)

/-- Resolution from a directory, through at most so many links. -/
def walk (fs : FileSystem) : Nat → Location → List Component → Walked
  | 0 => fs.walkWith fun _ _ => .failed .loop
  | links + 1 => fs.walkWith (fs.walk links)

def maxLinks : Nat := 40

def names (path : List String) : List Component := path.map .name

def isDir (fs : FileSystem) (start : Location) (path : List Component) : Bool :=
  match fs.walk maxLinks start path with
  | .found location => fs.node location = some .dir
  | _ => false

theorem dir_of_entry {fs : FileSystem} {dir : Location} {name : String}
    (there : fs.node (dir ++ [name]) ≠ none) : fs.node dir = some .dir := fs.closed dir name there

/-- Make an entry or replace a file. -/
def put (fs : FileSystem) (location : Location) (node : Node)
    (entry : ∃ dir name, location = dir ++ [name] ∧ fs.node dir = some .dir)
    (leaf : fs.node location ≠ some .dir) : FileSystem where
  nodes := fs.nodes.insert location node
  rooted := by
    obtain ⟨dir,name,rfl,_⟩ := entry
    rw [FiniteMap.lookup_insert,if_neg (by simp)]
    exact fs.rooted
  closed other text there := by
    have old : fs.nodes.lookup other = some .dir := by
      rw [FiniteMap.lookup_insert] at there
      split at there
      next same =>
        obtain ⟨dir,name,rfl,inDir⟩ := entry
        rwa [(List.append_inj' same rfl).1]
      next => exact fs.closed other text there
    rw [FiniteMap.lookup_insert,if_neg]
    · exact old
    · rintro rfl
      exact leaf old

theorem node_put {fs : FileSystem} {location : Location} {node : Node}
    (entry : ∃ dir name, location = dir ++ [name] ∧ fs.node dir = some .dir)
    (leaf : fs.node location ≠ some .dir) (other : Location) :
    (fs.put location node entry leaf).node other =
      if other = location then some node else fs.node other :=
  FiniteMap.lookup_insert _ _ _ _

theorem entry_of_file {fs : FileSystem} {location : Location} {content : String}
    (file : fs.node location = some (.file content)) :
    (∃ dir name, location = dir ++ [name] ∧ fs.node dir = some .dir) ∧
      fs.node location ≠ some .dir := by
  refine ⟨?_,by simp [file]⟩
  rcases List.eq_nil_or_concat' location with rfl | ⟨dir,name,rfl⟩
  · have root : fs.node [] = some .dir := fs.rooted
    simp [root] at file
  · have there : fs.node (dir ++ [name]) ≠ none := by simp [file]
    exact ⟨dir,name,rfl,dir_of_entry there⟩

def makeDir (fs : FileSystem) (dir : Location) (name : String) (inDir : fs.node dir = some .dir)
    (free : fs.node (dir ++ [name]) = none) : FileSystem :=
  fs.put (dir ++ [name]) .dir ⟨dir,name,rfl,inDir⟩ (by simp [free])

variable (allows : Location → Bool)

def mkdir (fs : FileSystem) (start : Location) (parent : List String) (name : String) :
    Except Errno (FileSystem × Location) :=
  match fs.walk maxLinks start (names parent) with
  | .found dir =>
    if inDir : fs.node dir = some .dir then
      if free : fs.node (dir ++ [name]) = none then
        if allows (dir ++ [name]) then
          .ok (fs.makeDir dir name inDir free,dir ++ [name])
        else .error .refused
      else .error .alreadyExists
    else .error .notADirectory
  | .missing _ _ => .error .notFound
  | .failed error => .error error

/-- What a call has done: whether it succeeded, and the locations that it has changed. -/
structure Done where
  ok : Bool
  fs : FileSystem
  touched : List Location

/-- Recursive creation, on the names of the path from the last one up. -/
def createTree (fs : FileSystem) (start : Location) : List String → Done
  | [] => ⟨true,fs,[]⟩
  | name :: up =>
    match fs.mkdir allows start up.reverse name with
    | .ok (made,location) => ⟨true,made,[location]⟩
    | .error .notFound =>
      let above := fs.createTree start up
      if above.ok then
        match above.fs.mkdir allows start up.reverse name with
        | .ok (made,location) => ⟨true,made,above.touched ++ [location]⟩
        | .error _ => ⟨above.fs.isDir start (names (name :: up).reverse),above.fs,above.touched⟩
      else above
    | .error _ => ⟨fs.isDir start (names (name :: up).reverse),fs,[]⟩

/-- Where recursive creation would start, and the names of what it would make there. -/
def creationPoint (fs : FileSystem) (start : Location) : List String → Option (Location × List String)
  | [] => none
  | name :: up =>
    match fs.walk maxLinks start (names up.reverse) with
    | .found dir =>
      if fs.node dir = some .dir ∧ fs.node (dir ++ [name]) = none then some (dir,[name]) else none
    | .missing _ _ | .failed .notFound =>
      (fs.creationPoint start up).map fun point => (point.1,point.2 ++ [name])
    | .failed _ => none

/-- A path with a NUL is refused as a whole. -/
def hasNul (path : List Component) : Bool := path.any fun
  | .name text => text.toList.contains (Char.ofNat 0)
  | _ => false

def createDirAll (fs : FileSystem) (start : Location) (path : List String) : Done :=
  if hasNul (names path) then ⟨false,fs,[]⟩ else fs.createTree allows start path.reverse

def canonicalize (fs : FileSystem) (start : Location) (path : List Component) : Option Location :=
  if hasNul path then none
  else match fs.walk maxLinks start path with
    | .found location => some location
    | _ => none

/-- Replace the content of a file, or create it where the path leads to a free name. -/
def write (fs : FileSystem) (start : Location) (path : List Component) (content : String) : Done :=
  if hasNul path then ⟨false,fs,[]⟩
  else match fs.walk maxLinks start path with
    | .found location =>
      match file : fs.node location with
      | some (.file _) =>
        if allows location then
          ⟨true,fs.put location (.file content) (entry_of_file file).1 (entry_of_file file).2,
            [location]⟩
        else ⟨false,fs,[]⟩
      | _ => ⟨false,fs,[]⟩
    | .missing dir name =>
      if inDir : fs.node dir = some .dir ∧ fs.node (dir ++ [name]) = none then
        if allows (dir ++ [name]) then
          ⟨true,fs.put (dir ++ [name]) (.file content) ⟨dir,name,rfl,inDir.1⟩ (by simp [inDir.2]),
            [dir ++ [name]]⟩
        else ⟨false,fs,[]⟩
      else ⟨false,fs,[]⟩
    | .failed _ => ⟨false,fs,[]⟩

/-- What `write` would change. -/
def writeTarget (fs : FileSystem) (start : Location) (path : List Component) : Option Location :=
  if hasNul path then none
  else match fs.walk maxLinks start path with
    | .found location =>
      match fs.node location with
      | some (.file _) => if allows location then some location else none
      | _ => none
    | .missing dir name => if allows (dir ++ [name]) then some (dir ++ [name]) else none
    | .failed _ => none

theorem hasNul_append (path rest : List Component) :
    hasNul (path ++ rest) = (hasNul path || hasNul rest) := List.any_append

theorem canonicalize_eq_some {fs : FileSystem} {start location : Location} {path : List Component} :
    fs.canonicalize start path = some location ↔
      hasNul path = false ∧ fs.walk maxLinks start path = .found location := by
  unfold canonicalize
  cases hasNul path with
  | true => simp
  | false =>
    cases fs.walk maxLinks start path with
    | found other => simp
    | missing dir name => simp
    | failed error => simp

/-- A write to an existing file goes where its path leads. -/
theorem writeTarget_of_found {allows : Location → Bool} {fs : FileSystem} {start location : Location}
    {path : List Component} (found : fs.walk maxLinks start path = .found location) :
    ∀ target ∈ fs.writeTarget allows start path, target = location := by
  intro target member
  unfold writeTarget at member
  rw [found] at member
  split at member
  · contradiction
  · dsimp only at member
    split at member
    · split at member
      · exact (Option.some.inj member).symm
      · contradiction
    · contradiction

section Walk

variable {fs fs' : FileSystem} {links : Nat} {start location dir : Location}
  {path rest : List Component} {text : String}

/-- How a walk goes on behind a link. -/
def follow (fs : FileSystem) : Nat → Location → List Component → Walked
  | 0 => fun _ _ => .failed .loop
  | links + 1 => fs.walk links

theorem walk_eq (fs : FileSystem) (links : Nat) : fs.walk links = fs.walkWith (fs.follow links) := by
  cases links <;> rfl

@[simp] theorem walk_nil : fs.walk links start [] = .found start := by
  rw [walk_eq]
  rfl

@[simp] theorem walk_here : fs.walk links start (.here :: path) = fs.walk links start path := by
  rw [walk_eq]
  rfl

@[simp] theorem walk_up :
    fs.walk links start (.up :: path) = fs.walk links start.dropLast path := by
  rw [walk_eq]
  rfl

theorem walk_name : fs.walk links start (.name text :: path) =
    match fs.node (start ++ [text]) with
    | none => if path = [] then .missing start text else .failed .notFound
    | some .dir => fs.walk links (start ++ [text]) path
    | some (.file _) => if path = [] then .found (start ++ [text]) else .failed .notADirectory
    | some (.symlink target) =>
      fs.follow links (if target.absolute then [] else start) (target.components ++ path) := by
  rw [walk_eq]
  rfl

theorem dir_dropLast (inDir : fs.node start = some .dir) : fs.node start.dropLast = some .dir := by
  rcases List.eq_nil_or_concat' start with rfl | ⟨dir,name,rfl⟩
  · exact inDir
  · have there : fs.node (dir ++ [name]) ≠ none := by simp [inDir]
    rw [List.dropLast_concat]
    exact dir_of_entry there

/-- The induction over a walk: over the links that are left, and over the path between two. -/
theorem walk_induction (fs : FileSystem) {motive : Nat → Location → List Component → Prop}
    (nil : ∀ links start, motive links start [])
    (here : ∀ links start path, motive links start path → motive links start (.here :: path))
    (up : ∀ links start path, motive links start.dropLast path → motive links start (.up :: path))
    (absent : ∀ links start text path, fs.node (start ++ [text]) = none →
      motive links start (.name text :: path))
    (dir : ∀ links start text path, fs.node (start ++ [text]) = some .dir →
      motive links (start ++ [text]) path → motive links start (.name text :: path))
    (file : ∀ links start text path content, fs.node (start ++ [text]) = some (.file content) →
      motive links start (.name text :: path))
    (spent : ∀ start text path target, fs.node (start ++ [text]) = some (.symlink target) →
      motive 0 start (.name text :: path))
    (symlink : ∀ links start text path target, fs.node (start ++ [text]) = some (.symlink target) →
      motive links (if target.absolute then [] else start) (target.components ++ path) →
      motive (links + 1) start (.name text :: path)) :
    ∀ links start path, motive links start path := by
  intro links
  induction links with
  | zero =>
    intro start path
    induction path generalizing start with
    | nil => exact nil 0 start
    | cons component path ih =>
      cases component with
      | here => exact here 0 start path (ih start)
      | up => exact up 0 start path (ih _)
      | name text =>
        rcases found : fs.node (start ++ [text]) with _ | (_ | content | target)
        · exact absent 0 start text path found
        · exact dir 0 start text path found (ih _)
        · exact file 0 start text path content found
        · exact spent start text path target found
  | succ links again =>
    intro start path
    induction path generalizing start with
    | nil => exact nil _ start
    | cons component path ih =>
      cases component with
      | here => exact here _ start path (ih start)
      | up => exact up _ start path (ih _)
      | name text =>
        rcases found : fs.node (start ++ [text]) with _ | (_ | content | target)
        · exact absent _ start text path found
        · exact dir _ start text path found (ih _)
        · exact file _ start text path content found
        · exact symlink links start text path target found (again _ _)

/-- Behind a path that leads to a directory a walk goes on from there. -/
theorem walk_append (found : fs.walk links start path = .found location)
    (inDir : fs.node location = some .dir) :
    ∃ left, ∀ rest, fs.walk links start (path ++ rest) = fs.walk left location rest := by
  induction links, start, path using walk_induction fs with
  | nil links start =>
    obtain rfl := Walked.found.inj (walk_nil.symm.trans found)
    exact ⟨links,fun _ => rfl⟩
  | here links start path ih =>
    simp only [List.cons_append,walk_here] at found ⊢
    exact ih found
  | up links start path ih =>
    simp only [List.cons_append,walk_up] at found ⊢
    exact ih found
  | absent links start text path free =>
    simp only [walk_name,free] at found
    split at found <;> contradiction
  | dir links start text path there ih =>
    simp only [List.cons_append,walk_name,there] at found ⊢
    exact ih found
  | file links start text path content there =>
    simp only [walk_name,there] at found
    split at found
    · obtain rfl := Walked.found.inj found
      simp [there] at inDir
    · contradiction
  | spent start text path target there =>
    simp only [walk_name,there] at found
    contradiction
  | symlink links start text path target there ih =>
    simp only [List.cons_append,walk_name,there,follow] at found ⊢
    obtain ⟨left,on⟩ := ih found
    exact ⟨left,fun rest => by rw [← on rest,List.append_assoc]⟩

/-- A path that leads anywhere leads through directories. -/
theorem walk_parent (inDir : fs.node start = some .dir)
    (reaches : ∀ error, fs.walk links start (path ++ .name text :: rest) ≠ .failed error) :
    ∃ location, fs.walk links start path = .found location ∧ fs.node location = some .dir := by
  induction links, start, path using walk_induction fs with
  | nil links start => exact ⟨start,walk_nil,inDir⟩
  | here links start path ih =>
    simp only [List.cons_append,walk_here] at reaches ⊢
    exact ih inDir reaches
  | up links start path ih =>
    simp only [List.cons_append,walk_up] at reaches ⊢
    exact ih (dir_dropLast inDir) reaches
  | absent links start name path free =>
    have lost := reaches .notFound
    simp [walk_name,free] at lost
  | dir links start name path there ih =>
    simp only [List.cons_append,walk_name,there] at reaches ⊢
    exact ih there reaches
  | file links start name path content there =>
    have lost := reaches .notADirectory
    simp [walk_name,there] at lost
  | spent start name path target there =>
    have lost := reaches .loop
    simp [walk_name,there,follow] at lost
  | symlink links start name path target there ih =>
    simp only [List.cons_append,walk_name,there,follow,← List.append_assoc] at reaches ⊢
    refine ih ?_ reaches
    split
    · exact fs.rooted
    · exact inDir

theorem walk_missing {name : String} (inDir : fs.node start = some .dir)
    (missing : fs.walk links start path = .missing dir name) :
    fs.node dir = some .dir ∧ fs.node (dir ++ [name]) = none := by
  induction links, start, path using walk_induction fs with
  | nil links start => simp at missing
  | here links start path ih => exact ih inDir (walk_here ▸ missing)
  | up links start path ih => exact ih (dir_dropLast inDir) (walk_up ▸ missing)
  | absent links start text path free =>
    simp only [walk_name,free] at missing
    split at missing
    · obtain ⟨rfl,rfl⟩ := Walked.missing.inj missing
      exact ⟨inDir,free⟩
    · contradiction
  | dir links start text path there ih =>
    simp only [walk_name,there] at missing
    exact ih there missing
  | file links start text path content there =>
    simp only [walk_name,there] at missing
    split at missing <;> contradiction
  | spent start text path target there =>
    simp only [walk_name,there] at missing
    contradiction
  | symlink links start text path target there ih =>
    simp only [walk_name,there,follow] at missing
    refine ih ?_ missing
    split
    · exact fs.rooted
    · exact inDir

/-- Everything is still there, and is what it was. -/
def Extends (fs fs' : FileSystem) : Prop :=
  ∀ location node, fs.node location = some node → fs'.node location = some node

theorem walk_extends (grown : Extends fs fs')
    (found : fs.walk links start path = .found location) :
    fs'.walk links start path = .found location := by
  induction links, start, path using walk_induction fs with
  | nil links start => simpa using found
  | here links start path ih =>
    rw [walk_here] at found ⊢
    exact ih found
  | up links start path ih =>
    rw [walk_up] at found ⊢
    exact ih found
  | absent links start text path free =>
    simp only [walk_name,free] at found
    split at found <;> contradiction
  | dir links start text path there ih =>
    simp only [walk_name,there,grown _ _ there] at found ⊢
    exact ih found
  | file links start text path content there =>
    simp only [walk_name,there,grown _ _ there] at found ⊢
    exact found
  | spent start text path target there =>
    simp only [walk_name,there] at found
    contradiction
  | symlink links start text path target there ih =>
    simp only [walk_name,there,grown _ _ there,follow] at found ⊢
    exact ih found

theorem walk_dir (there : fs.node (start ++ [text]) = some .dir) :
    fs.walk links start [.name text] = .found (start ++ [text]) := by
  simp [walk_name,there]

theorem walk_free (free : fs.node (start ++ [text]) = none) :
    fs.walk links start [.name text] = .missing start text := by
  simp [walk_name,free]

/-- A file is entered by no path, and nothing is behind a free name. -/
theorem node_below {tail : List String} (above : fs.node location ≠ some .dir) (below : tail ≠ []) :
    fs.node (location ++ tail) = none := by
  induction tail using List.reverseRecOn with
  | nil => contradiction
  | append_singleton tail name ih =>
    by_contra there
    rw [← List.append_assoc] at there
    have parent := dir_of_entry there
    rcases List.eq_nil_or_concat' tail with rfl | ⟨front,last,rfl⟩
    · exact above (by simpa using parent)
    · rw [ih (by simp)] at parent
      contradiction

/-- Behind the first free name of a path everything is free. -/
theorem free_tail {made tail : List String} (free : fs.node (location ++ made.take 1) = none)
    (nonempty : tail ≠ []) (below : tail <+: made) : fs.node (location ++ tail) = none := by
  obtain ⟨first,later,rfl⟩ := List.exists_cons_of_ne_nil nonempty
  obtain ⟨rest,rfl⟩ := below
  have here : fs.node (location ++ [first]) = none := free
  rcases later with _ | ⟨next,later⟩
  · exact here
  · have above : fs.node (location ++ [first]) ≠ some .dir := by simp [here]
    rw [List.append_cons]
    exact node_below above (by simp)

end Walk

section Creation

variable {allows : Location → Bool} {fs : FileSystem} {start dir : Location}
  {path made up : List String} {name : String} {done : Done}

/-- What recursive creation has done that found something to make. -/
structure Grown (allows : Location → Bool) (fs : FileSystem) (start : Location) (path : List String)
    (dir : Location) (made : List String) (done : Done) : Prop where
  nonempty : made ≠ []
  inDir : fs.node dir = some .dir
  free : fs.node (dir ++ made.take 1) = none
  grown : Extends fs done.fs
  below : ∀ location ∈ done.touched, done.fs.node location = some .dir ∧
    ∃ tail, tail ≠ [] ∧ tail <+: made ∧ location = dir ++ tail
  none_iff : done.touched = [] ↔ allows (dir ++ made.take 1) = false
  same : done.touched = [] → done.fs = fs
  ok_iff : done.ok = true ↔ ∀ tail, tail ≠ [] → tail <+: made → allows (dir ++ tail) = true
  reached : done.ok = true → done.fs.walk maxLinks start (names path) = .found (dir ++ made) ∧
    done.fs.node (dir ++ made) = some .dir ∧ ∀ text, done.fs.node (dir ++ made ++ [text]) = none
  stuck : done.ok = false → ∀ location,
    done.fs.walk maxLinks start (names path) ≠ .found location

/-- Either nothing changes, or creation goes on from its starting point as far as it may. -/
def Spec (allows : Location → Bool) (fs : FileSystem) (start : Location) (path : List String)
    (point : Option (Location × List String)) (done : Done) : Prop :=
  match point with
  | none => done.fs = fs ∧ done.touched = [] ∧ done.ok = fs.isDir start (names path)
  | some (dir,made) => Grown allows fs start path dir made done

theorem node_makeDir (inDir : fs.node dir = some .dir) (free : fs.node (dir ++ [name]) = none)
    (location : Location) : (fs.makeDir dir name inDir free).node location =
      if location = dir ++ [name] then some .dir else fs.node location := node_put _ _ _

theorem extends_makeDir (inDir : fs.node dir = some .dir) (free : fs.node (dir ++ [name]) = none) :
    Extends fs (fs.makeDir dir name inDir free) := by
  intro location node there
  rw [node_makeDir,if_neg]
  · exact there
  · rintro rfl
    rw [free] at there
    contradiction

/-- The way to a new directory, in a directory that a path leads to. -/
theorem walk_makeDir (found : fs.walk maxLinks start (names path) = .found dir)
    (inDir : fs.node dir = some .dir) (free : fs.node (dir ++ [name]) = none) :
    (fs.makeDir dir name inDir free).walk maxLinks start (names (path ++ [name])) =
      .found (dir ++ [name]) := by
  have grown := extends_makeDir inDir free
  obtain ⟨left,on⟩ := walk_append (walk_extends grown found) (grown _ _ inDir)
  rw [names,List.map_append]
  exact (on _).trans (walk_dir (by rw [node_makeDir,if_pos rfl]))

/-- A new directory is empty. -/
theorem makeDir_empty (inDir : fs.node dir = some .dir) (free : fs.node (dir ++ [name]) = none)
    (text : String) : (fs.makeDir dir name inDir free).node (dir ++ [name] ++ [text]) = none := by
  rw [node_makeDir,if_neg (by simp)]
  exact node_below (by simp [free]) (by simp)

theorem mkdir_free (allows : Location → Bool) (found : fs.walk maxLinks start (names path) = .found dir)
    (inDir : fs.node dir = some .dir) (free : fs.node (dir ++ [name]) = none) :
    fs.mkdir allows start path name =
      if allows (dir ++ [name]) then
        .ok (fs.makeDir dir name inDir free,dir ++ [name])
      else .error .refused := by
  rw [mkdir,found]
  simp only [dif_pos inDir,dif_pos free]

theorem names_concat (path : List String) (name : String) :
    names (path ++ [name]) = names path ++ [.name name] := by simp [names]

theorem walk_above (inStart : fs.node start = some .dir) {location : Location}
    (found : fs.walk maxLinks start (names (path ++ [name])) = .found location) :
    ∃ dir, fs.walk maxLinks start (names path) = .found dir ∧ fs.node dir = some .dir := by
  have reaches (error : Errno) :
      fs.walk maxLinks start (names path ++ .name name :: []) ≠ .failed error := by
    rw [← names_concat,found]
    simp
  exact walk_parent inStart reaches

theorem walk_concat_stuck (inStart : fs.node start = some .dir)
    (stuck : ∀ location, fs.walk maxLinks start (names path) ≠ .found location)
    (location : Location) : fs.walk maxLinks start (names (path ++ [name])) ≠ .found location := by
  intro found
  obtain ⟨parent,there,_⟩ := walk_above inStart found
  exact stuck parent there

theorem grown_one (found : fs.walk maxLinks start (names path) = .found dir)
    (inDir : fs.node dir = some .dir) (free : fs.node (dir ++ [name]) = none)
    (allowed : allows (dir ++ [name]) = true) : Grown allows fs start (path ++ [name]) dir [name]
      ⟨true,fs.makeDir dir name inDir free,[dir ++ [name]]⟩ where
  nonempty := by simp
  inDir := inDir
  free := free
  grown := extends_makeDir inDir free
  below location member := by
    obtain rfl := List.mem_singleton.mp member
    exact ⟨by rw [node_makeDir,if_pos rfl],[name],by simp,List.prefix_rfl,rfl⟩
  none_iff := by simp [allowed]
  same := by simp
  ok_iff := by
    refine iff_of_true rfl fun tail present below => ?_
    rcases List.prefix_concat_iff.mp (show tail <+: [] ++ [name] from below) with rfl | nothing
    · exact allowed
    · exact absurd (List.prefix_nil.mp nothing) present
  reached _ := ⟨walk_makeDir found inDir free,by rw [node_makeDir,if_pos rfl],makeDir_empty inDir free⟩
  stuck := by simp

theorem grown_refused (found : fs.walk maxLinks start (names path) = .found dir)
    (inDir : fs.node dir = some .dir) (free : fs.node (dir ++ [name]) = none)
    (refused : allows (dir ++ [name]) = false) :
    Grown allows fs start (path ++ [name]) dir [name] ⟨false,fs,[]⟩ where
  nonempty := by simp
  inDir := inDir
  free := free
  grown _ _ there := there
  below := by simp
  none_iff := by simp [refused]
  same := by simp
  ok_iff := by
    refine iff_of_false (by simp) fun allowed => ?_
    have first := allowed [name] (by simp) List.prefix_rfl
    simp [refused] at first
  reached := by simp
  stuck _ location := by
    obtain ⟨left,on⟩ := walk_append found inDir
    rw [names_concat,on,walk_free free]
    simp

theorem take_one_concat (nonempty : made ≠ []) : (made ++ [name]).take 1 = made.take 1 := by
  cases made with
  | nil => contradiction
  | cons first rest => rfl

section Above

variable (above : Grown allows fs start path dir made done)
include above

theorem Grown.take_one : made.take 1 ≠ [] := by simp [above.nonempty]

/-- Creation that stops keeps to the same starting point. -/
theorem Grown.stop {stopped : Done} (same : stopped.fs = done.fs) (touched : stopped.touched = done.touched)
    (failed : stopped.ok = false)
    (refused : ∃ tail, tail ≠ [] ∧ tail <+: made ++ [name] ∧ allows (dir ++ tail) = false)
    (stuck : ∀ location, done.fs.walk maxLinks start (names (path ++ [name])) ≠ .found location) :
    Grown allows fs start (path ++ [name]) dir (made ++ [name]) stopped where
  nonempty := by simp
  inDir := above.inDir
  free := by rw [take_one_concat above.nonempty]; exact above.free
  grown := same ▸ above.grown
  below location member := by
    obtain ⟨there,tail,present,below,rfl⟩ := above.below location (touched ▸ member)
    exact ⟨same ▸ there,tail,present,below.trans (List.prefix_append ..),rfl⟩
  none_iff := by rw [touched,take_one_concat above.nonempty]; exact above.none_iff
  same nothing := same.trans (above.same (touched ▸ nothing))
  ok_iff := by
    obtain ⟨tail,present,below,refused⟩ := refused
    refine iff_of_false (by simp [failed]) fun allowed => ?_
    rw [allowed tail present below] at refused
    contradiction
  reached ok := by simp [failed] at ok
  stuck _ := same ▸ stuck

theorem Grown.more (ok : done.ok = true) (allowed : allows (dir ++ made ++ [name]) = true) :
    Grown allows fs start (path ++ [name]) dir (made ++ [name])
      ⟨true,done.fs.makeDir (dir ++ made) name (above.reached ok).2.1 ((above.reached ok).2.2 name),
        done.touched ++ [dir ++ made ++ [name]]⟩ where
  nonempty := by simp
  inDir := above.inDir
  free := by rw [take_one_concat above.nonempty]; exact above.free
  grown location node there := extends_makeDir (above.reached ok).2.1 ((above.reached ok).2.2 name)
    location node (above.grown location node there)
  below location member := by
    rcases List.mem_append.mp member with old | new
    · obtain ⟨there,tail,present,below,rfl⟩ := above.below location old
      have kept := extends_makeDir (above.reached ok).2.1 ((above.reached ok).2.2 name) _ _ there
      exact ⟨kept,tail,present,below.trans (List.prefix_append ..),rfl⟩
    · obtain rfl := List.mem_singleton.mp new
      exact ⟨by rw [node_makeDir,if_pos rfl],made ++ [name],by simp,List.prefix_rfl,by simp⟩
  none_iff := by
    have first := above.ok_iff.mp ok (made.take 1) above.take_one (List.take_prefix ..)
    rw [take_one_concat above.nonempty]
    simp [first]
  same := by simp
  ok_iff := by
    refine iff_of_true rfl fun tail present below => ?_
    rcases List.prefix_concat_iff.mp below with rfl | inside
    · rwa [List.append_assoc] at allowed
    · exact above.ok_iff.mp ok tail present inside
  reached _ := by
    obtain ⟨there,inDir,free⟩ := above.reached ok
    rw [← List.append_assoc]
    exact ⟨walk_makeDir there inDir (free name),by rw [node_makeDir,if_pos rfl],
      makeDir_empty inDir (free name)⟩
  stuck := by simp

end Above

theorem isDir_of_stuck (stuck : ∀ location, fs.walk maxLinks start (names path) ≠ .found location) :
    fs.isDir start (names path) = false := by
  unfold isDir
  split
  next location found => exact absurd found (stuck location)
  next => rfl

/-- One more name, when the directory that should hold it is not there. -/
theorem createTree_above (inStart : fs.node start = some .dir) {reversed : List String}
    (lost : fs.mkdir allows start reversed.reverse name = .error .notFound)
    (stuck : ∀ location, fs.walk maxLinks start (names reversed.reverse) ≠ .found location)
    (above : Spec allows fs start reversed.reverse (fs.creationPoint start reversed)
      (fs.createTree allows start reversed)) :
    Spec allows fs start (reversed.reverse ++ [name])
      ((fs.creationPoint start reversed).map fun point => (point.1,point.2 ++ [name]))
      (fs.createTree allows start (name :: reversed)) := by
  rw [createTree,lost]
  cases starts : fs.creationPoint start reversed with
  | none =>
    rw [starts] at above
    obtain ⟨same,touched,ok⟩ := above
    rw [isDir_of_stuck stuck] at ok
    simp only [ok,Bool.false_eq_true,if_false,Option.map_none]
    exact ⟨same,touched,ok.trans (isDir_of_stuck (walk_concat_stuck inStart stuck)).symm⟩
  | some point =>
    obtain ⟨dir,made⟩ := point
    rw [starts] at above
    have above : Grown allows fs start reversed.reverse dir made
      (fs.createTree allows start reversed) := above
    dsimp only
    generalize fs.createTree allows start reversed = done at above
    cases ok : done.ok with
    | false =>
      have here := above.grown _ _ inStart
      have refused : ¬∀ tail, tail ≠ [] → tail <+: made → allows (dir ++ tail) = true :=
        mt above.ok_iff.mpr (by simp [ok])
      push Not at refused
      obtain ⟨tail,nonempty,below,refused⟩ := refused
      simp only [Bool.false_eq_true,if_false,Option.map_some]
      exact above.stop rfl rfl ok ⟨tail,nonempty,below.trans (List.prefix_append ..),by simpa using refused⟩
        (walk_concat_stuck here (above.stuck ok))
    | true =>
      obtain ⟨there,inDir,free⟩ := above.reached ok
      have next := mkdir_free allows there inDir (free name)
      simp only [if_true,Option.map_some]
      rw [next]
      cases allowed : allows (dir ++ made ++ [name]) with
      | true => exact above.more ok allowed
      | false =>
        have stuck (location : Location) :
            done.fs.walk maxLinks start (names (reversed.reverse ++ [name])) ≠ .found location := by
          obtain ⟨left,on⟩ := walk_append there inDir
          rw [names_concat,on,walk_free (free name)]
          simp
        refine above.stop rfl rfl ?_ ⟨made ++ [name],by simp,List.prefix_rfl,?_⟩ stuck
        · rw [List.reverse_cons]
          exact isDir_of_stuck stuck
        · rwa [← List.append_assoc]

theorem createTree_spec (allows : Location → Bool) (inStart : fs.node start = some .dir)
    (reversed : List String) : Spec allows fs start reversed.reverse (fs.creationPoint start reversed)
      (fs.createTree allows start reversed) := by
  induction reversed with
  | nil => exact ⟨rfl,rfl,by simp [createTree,isDir,names,inStart]⟩
  | cons name up ih =>
    rw [List.reverse_cons]
    have still (error : Errno) (other : error ≠ .notFound)
        (stops : fs.mkdir allows start up.reverse name = .error error) :
        fs.createTree allows start (name :: up) =
          ⟨fs.isDir start (names (up.reverse ++ [name])),fs,[]⟩ := by
      rw [createTree,stops,List.reverse_cons]
      cases error <;> simp at other ⊢
    rw [creationPoint]
    rcases walked : fs.walk maxLinks start (names up.reverse) with dir | ⟨dir,text⟩ | error
    · dsimp only
      split
      next here =>
        rw [createTree,mkdir_free allows walked here.1 here.2]
        cases allowed : allows (dir ++ [name]) with
        | true => exact grown_one walked here.1 here.2 allowed
        | false =>
          have refused := grown_refused walked here.1 here.2 allowed
          rw [List.reverse_cons]
          dsimp only [Bool.false_eq_true,if_false]
          rw [isDir_of_stuck (refused.stuck rfl)]
          exact refused
      next elsewhere =>
        have stops : ∃ error, error ≠ .notFound ∧
            fs.mkdir allows start up.reverse name = .error error := by
          by_cases inDir : fs.node dir = some .dir
          · have there : fs.node (dir ++ [name]) ≠ none := fun free => elsewhere ⟨inDir,free⟩
            exact ⟨.alreadyExists,by simp,by simp [mkdir,walked,inDir,there]⟩
          · exact ⟨.notADirectory,by simp,by simp [mkdir,walked,inDir]⟩
        obtain ⟨error,other,stops⟩ := stops
        rw [still error other stops]
        exact ⟨rfl,rfl,rfl⟩
    · have lost : fs.mkdir allows start up.reverse name = .error .notFound := by simp [mkdir,walked]
      exact createTree_above inStart lost (by simp [walked]) ih
    · have lost : fs.mkdir allows start up.reverse name = .error error := by simp [mkdir,walked]
      by_cases same : error = .notFound
      · subst same
        exact createTree_above inStart lost (by simp [walked]) ih
      · rw [still error same lost]
        cases error with
        | notFound => contradiction
        | _ => exact ⟨rfl,rfl,rfl⟩

/-- Nothing is made on a path that leads somewhere. -/
theorem creationPoint_of_found (inStart : fs.node start = some .dir) {location : Location}
    (found : fs.walk maxLinks start (names path) = .found location) :
    fs.creationPoint start path.reverse = none := by
  rcases List.eq_nil_or_concat' path with rfl | ⟨path,name,rfl⟩
  · rfl
  · obtain ⟨dir,there,inDir⟩ := walk_above inStart found
    obtain ⟨left,on⟩ := walk_append there inDir
    rw [names_concat] at found
    rw [List.reverse_concat,creationPoint,List.reverse_reverse,there]
    dsimp only
    rw [if_neg]
    rintro ⟨_,free⟩
    rw [on,walk_free free] at found
    contradiction

theorem createDirAll_of_found (allows : Location → Bool) (inStart : fs.node start = some .dir) {location : Location}
    (found : fs.walk maxLinks start (names path) = .found location) :
    (fs.createDirAll allows start path).fs = fs ∧ (fs.createDirAll allows start path).touched = [] := by
  rw [createDirAll]
  split
  · exact ⟨rfl,rfl⟩
  · have spec := createTree_spec allows inStart path.reverse
    rw [creationPoint_of_found inStart found] at spec
    exact ⟨spec.1,spec.2.1⟩

theorem createDirAll_extends (inStart : fs.node start = some .dir) :
    Extends fs (fs.createDirAll allows start path).fs := by
  rw [createDirAll]
  split
  · exact fun _ _ there => there
  · have spec := createTree_spec allows inStart path.reverse
    rcases point : fs.creationPoint start path.reverse with _ | ⟨dir,made⟩
    · rw [point] at spec
      exact fun location _ there => (congrArg (node · location) spec.1).trans there
    · rw [point] at spec
      exact Grown.grown spec

end Creation

/-- A directory without links on the way is walked to by its names. -/
theorem walk_names {fs : FileSystem} {links : Nat} {start home : Location}
    (inHome : fs.node (start ++ home) = some .dir) (path : List Component) :
    fs.walk links start (names home ++ path) = fs.walk links (start ++ home) path := by
  induction home generalizing start with
  | nil => simp [names]
  | cons name rest ih =>
    have step : start ++ name :: rest = start ++ [name] ++ rest := by simp
    have there : fs.node (start ++ [name]) = some .dir := by
      by_contra elsewhere
      rcases rest with _ | ⟨next,rest⟩
      · exact elsewhere inHome
      · rw [step,node_below elsewhere (by simp)] at inHome
        contradiction
    rw [step] at inHome ⊢
    rw [← ih inHome]
    simp [names,walk_name,there]

section Write

variable {allows : Location → Bool} {fs : FileSystem} {start : Location} {path : List Component}
  {content : String}

/-- A write changes its target and nothing else. -/
theorem write_touched (inStart : fs.node start = some .dir) :
    (fs.write allows start path content).touched = (fs.writeTarget allows start path).toList := by
  unfold write writeTarget
  split
  · rfl
  · rcases walked : fs.walk maxLinks start path with location | ⟨dir,name⟩ | error
    · dsimp only
      split
      next file =>
        simp only [file]
        split <;> rfl
      next other =>
        split
        next content file => exact absurd file (other content)
        next => rfl
    · dsimp only
      rw [dif_pos (walk_missing inStart walked)]
      split <;> rfl
    · rfl

theorem write_dirs (location : Location) (inDir : fs.node location = some .dir) :
    (fs.write allows start path content).fs.node location = some .dir := by
  have kept {target : Location} (entry : ∃ dir name, target = dir ++ [name] ∧ fs.node dir = some .dir)
      (leaf : fs.node target ≠ some .dir) :
      (fs.put target (.file content) entry leaf).node location = some .dir := by
    rw [node_put,if_neg]
    · exact inDir
    · rintro rfl
      exact leaf inDir
  unfold write
  split
  · exact inDir
  · split
    · split
      next file =>
        split
        · exact kept (entry_of_file file).1 (entry_of_file file).2
        · exact inDir
      next => exact inDir
    next dir name _ =>
      split
      next here =>
        split
        · exact kept ⟨dir,name,rfl,here.1⟩ (by simp [here.2])
        · exact inDir
      next => exact inDir
    next => exact inDir

end Write

/-- The content of the file that a path leads to, where the file may be read. -/
def read (readable : Location → Bool) (fs : FileSystem) (start : Location) (path : List Component) :
    Option String :=
  match fs.canonicalize start path with
  | some location =>
    match fs.node location with
    | some (.file content) => if readable location then some content else none
    | _ => none
  | none => none

section Changes

variable {allows : Location → Bool} {fs : FileSystem} {start location : Location}

theorem mkdir_frame {made : FileSystem} {path : List String} {name : String} {new : Location}
    (ok : fs.mkdir allows start path name = .ok (made,new)) (other : location ≠ new) :
    made.node location = fs.node location := by
  unfold mkdir at ok
  repeat' split at ok
  all_goals cases ok
  rw [node_makeDir,if_neg other]

/-- Recursive creation changes what it says that it has changed. -/
theorem createTree_frame {reversed : List String}
    (apart : location ∉ (fs.createTree allows start reversed).touched) :
    (fs.createTree allows start reversed).fs.node location = fs.node location := by
  induction reversed with
  | nil => rfl
  | cons name up ih =>
    unfold createTree at apart ⊢
    split at apart
    next made new ok => exact mkdir_frame ok (by simpa using apart)
    next lost =>
      dsimp only at apart ⊢
      split at apart
      next created =>
        rw [if_pos created]
        split at apart
        next made new ok =>
          obtain ⟨earlier,last⟩ : location ∉ _ ∧ location ≠ new := by simpa using apart
          exact (mkdir_frame ok last).trans (ih earlier)
        next error failed => exact ih apart
      next failed =>
        rw [if_neg failed]
        exact ih apart
    next error other failed => rfl

/-- What recursive creation changes becomes a directory. -/
theorem createDirAll_node (inStart : fs.node start = some .dir) (path : List String)
    (location : Location) :
    (fs.createDirAll allows start path).fs.node location = fs.node location ∨
      location ∈ (fs.createDirAll allows start path).touched ∧
        (fs.createDirAll allows start path).fs.node location = some .dir := by
  unfold createDirAll
  split
  · exact .inl rfl
  · by_cases touched : location ∈ (fs.createTree allows start path.reverse).touched
    · have spec := createTree_spec allows inStart path.reverse
      rcases point : fs.creationPoint start path.reverse with _ | ⟨dir,made⟩
      · rw [point] at spec
        rw [spec.2.1] at touched
        cases touched
      · rw [point] at spec
        exact .inr ⟨touched,(Grown.below spec location touched).1⟩
    · exact .inl (createTree_frame touched)

/-- A write makes its target a file, and leaves the rest as it was. -/
theorem write_node {path : List Component} {target : Location} (content : String)
    (inStart : fs.node start = some .dir) (goes : fs.writeTarget allows start path = some target)
    (location : Location) : (fs.write allows start path content).fs.node location =
      if location = target then some (.file content) else fs.node location := by
  unfold writeTarget at goes
  unfold write
  split at goes
  · cases goes
  · next clean =>
    rw [if_neg clean]
    rcases walked : fs.walk maxLinks start path with found | ⟨dir,name⟩ | error
    · simp only [walked] at goes ⊢
      split at goes
      next old file =>
        split at goes <;> cases goes
        next allowed =>
          split
          next => rw [if_pos allowed,node_put]
          next other => exact absurd file (other old)
      next => cases goes
    · simp only [walked] at goes ⊢
      split at goes <;> cases goes
      next allowed =>
        rw [dif_pos (walk_missing inStart walked),if_pos allowed,node_put]
    · simp only [walked] at goes
      cases goes

theorem write_nowhere {path : List Component} (content : String)
    (goes : fs.writeTarget allows start path = none) :
    (fs.write allows start path content).fs = fs := by
  unfold writeTarget at goes
  unfold write
  split at goes
  next dirty => rw [if_pos dirty]
  next clean =>
    rw [if_neg clean]
    rcases walked : fs.walk maxLinks start path with found | ⟨dir,name⟩ | error
    · simp only [walked] at goes ⊢
      split at goes
      next old file =>
        split at goes <;> cases goes
        next refused =>
          split
          next => rw [if_neg refused]
          next => rfl
      next other =>
        split
        next old file => exact absurd file (other old)
        next => rfl
    · simp only [walked] at goes ⊢
      split at goes <;> cases goes
      next refused => split <;> simp
    · rfl

end Changes

section Clear

variable {allows : Location → Bool} {fs : FileSystem} {start : Location} {path : List String}

/-- Nothing but directories is in the way. -/
def Clear (fs : FileSystem) (start : Location) (path : List String) : Prop :=
  ∀ front, front ≠ [] → front <+: path →
    fs.node (start ++ front) = none ∨ fs.node (start ++ front) = some .dir

theorem Clear.above (clear : fs.Clear start path) {front : List String} (here : front <+: path) :
    fs.Clear start front := fun first nonempty below => clear first nonempty (below.trans here)

theorem Clear.tail {name : String} (clear : fs.Clear start (name :: path)) :
    fs.Clear (start ++ [name]) path := by
  intro front _ below
  have here := clear (name :: front) (by simp) (List.cons_prefix_cons.mpr ⟨rfl,below⟩)
  simpa using here

theorem walk_to {links : Nat} (inDir : fs.node (start ++ path) = some .dir) :
    fs.walk links start (names path) = .found (start ++ path) := by
  simpa using walk_names inDir []

theorem walk_to_file {links : Nat} {content : String} (nonempty : path ≠ [])
    (file : fs.node (start ++ path) = some (.file content)) :
    fs.walk links start (names path) = .found (start ++ path) := by
  rcases List.eq_nil_or_concat' path with rfl | ⟨front,last,rfl⟩
  · contradiction
  · rw [← List.append_assoc] at file
    have there : fs.node (start ++ front ++ [last]) ≠ none := by
      rw [file]
      nofun
    rw [names_concat,walk_names (dir_of_entry there),walk_name,file]
    simp

/-- A clear path that leads to nothing ends at the first free name. -/
theorem walk_clear {links : Nat} (clear : fs.Clear start path) (nonempty : path ≠ [])
    (free : fs.node (start ++ path) = none) :
    (∃ dir name, fs.walk links start (names path) = .missing dir name) ∨
      fs.walk links start (names path) = .failed .notFound := by
  induction path generalizing start with
  | nil => contradiction
  | cons name rest ih =>
    rw [show names (name :: rest) = .name name :: names rest from rfl,walk_name]
    rcases clear [name] (by simp) (by simp) with absent | there
    · rw [absent]
      dsimp only
      split
      · exact .inl ⟨_,_,rfl⟩
      · exact .inr rfl
    · rw [there]
      have below : rest ≠ [] := by
        rintro rfl
        rw [free] at there
        cases there
      exact ih clear.tail below (by simpa using free)

theorem creationPoint_clear (inStart : fs.node start = some .dir) (clear : fs.Clear start path)
    (free : fs.node (start ++ path) = none) :
    ∃ dir made, fs.creationPoint start path.reverse = some (dir,made) ∧ dir ++ made = start ++ path := by
  induction path using List.reverseRecOn with
  | nil => simp [inStart] at free
  | append_singleton up name ih =>
    have above : fs.Clear start up := clear.above (List.prefix_append ..)
    have state : fs.node (start ++ up) = none ∨ fs.node (start ++ up) = some .dir := by
      by_cases empty : up = []
      · simp [empty,inStart]
      · exact clear up empty (List.prefix_append ..)
    rw [List.reverse_concat,creationPoint,List.reverse_reverse]
    rcases state with absent | there
    · have nonempty : up ≠ [] := by
        rintro rfl
        simp [inStart] at absent
      obtain ⟨dir,made,point,same⟩ := ih above absent
      refine ⟨dir,made ++ [name],?_,by rw [← List.append_assoc,same,List.append_assoc]⟩
      rcases @walk_clear _ _ _ maxLinks above nonempty absent with ⟨front,text,walked⟩ | walked
      · simp [walked,point]
      · simp [walked,point]
    · refine ⟨start ++ up,[name],?_,by simp⟩
      rw [walk_to there]
      dsimp only
      rw [if_pos ⟨there,by rwa [List.append_assoc]⟩]

/-- What is on the way to a directory is a directory. -/
theorem node_above {below : List String} (inDir : fs.node (start ++ below) = some .dir) :
    fs.node start = some .dir := by
  by_contra elsewhere
  rcases below with _ | ⟨name,rest⟩
  · exact elsewhere (by simpa using inDir)
  · rw [node_below elsewhere (by simp)] at inDir
    cases inDir

/-- Where everything that is missing may be made, a clear path becomes a directory. -/
theorem createDirAll_clear (clear : fs.Clear [] path) (noNul : hasNul (names path) = false)
    (allowed : ∀ front, front <+: path → fs.node front = none → allows front = true) :
    (fs.createDirAll allows [] path).fs.node path = some .dir ∧
      ∀ location, (fs.createDirAll allows [] path).fs.node location = fs.node location ∨
        (fs.createDirAll allows [] path).fs.node location = some .dir ∧
          fs.node location = none ∧ location <+: path := by
  have root : fs.node [] = some .dir := fs.rooted
  have state : fs.node path = none ∨ fs.node path = some .dir := by
    by_cases empty : path = []
    · exact .inr (empty ▸ root)
    · exact clear path empty List.prefix_rfl
  rcases state with free | there
  · obtain ⟨dir,made,point,same⟩ := creationPoint_clear root clear free
    have below (tail : List String) (here : tail <+: made) : dir ++ tail <+: path := by
      rw [List.nil_append] at same
      exact same ▸ (List.prefix_append_right_inj dir).mpr here
    have created : fs.createDirAll allows [] path = fs.createTree allows [] path.reverse := by
      simp [createDirAll,noNul]
    have grown := createTree_spec allows root path.reverse
    rw [List.reverse_reverse,point] at grown
    have grown : Grown allows fs [] path dir made (fs.createTree allows [] path.reverse) := grown
    have ok := grown.ok_iff.mpr fun tail nonempty here =>
      allowed _ (below tail here) (free_tail grown.free nonempty here)
    obtain ⟨-,reached,-⟩ := grown.reached ok
    rw [created]
    refine ⟨by rwa [same,List.nil_append] at reached,fun location => ?_⟩
    rcases @createDirAll_node allows _ _ root path location with unchanged | ⟨touched,made⟩
    · exact .inl (created ▸ unchanged)
    · rw [created] at touched made
      obtain ⟨-,tail,nonempty,here,rfl⟩ := grown.below location touched
      exact .inr ⟨made,free_tail grown.free nonempty here,below tail here⟩
  · have found : fs.walk maxLinks [] (names path) = .found ([] ++ path) := walk_to there
    obtain ⟨same,-⟩ := createDirAll_of_found allows root found
    rw [same]
    exact ⟨there,fun location => .inl rfl⟩

end Clear

section Links

variable {fs fs' : FileSystem} {dir : Location}

/-- The links below a directory lead no way up. -/
def LinksDown (fs : FileSystem) (dir : Location) : Prop :=
  ∀ location target, dir <+: location → fs.node location = some (.symlink target) →
    target.absolute = false ∧ .up ∉ target.components

theorem walk_inside {links : Nat} {start location : Location} {path : List Component}
    (down : fs.LinksDown dir) (inside : dir <+: start) (plain : .up ∉ path)
    (found : fs.walk links start path = .found location) : dir <+: location := by
  induction links, start, path using walk_induction fs with
  | nil links start =>
    obtain rfl := Walked.found.inj (walk_nil.symm.trans found)
    exact inside
  | here links start path ih =>
    exact ih inside (by simpa using plain) (walk_here ▸ found)
  | up links start path ih => simp at plain
  | absent links start text path free =>
    simp only [walk_name,free] at found
    split at found <;> contradiction
  | dir links start text path there ih =>
    simp only [walk_name,there] at found
    exact ih (inside.trans (List.prefix_append ..)) (by simpa using plain) found
  | file links start text path content there =>
    simp only [walk_name,there] at found
    split at found
    · obtain rfl := Walked.found.inj found
      exact inside.trans (List.prefix_append ..)
    · contradiction
  | spent start text path target there =>
    simp only [walk_name,there] at found
    contradiction
  | symlink links start text path target there ih =>
    simp only [walk_name,there,follow] at found
    obtain ⟨relative,level⟩ := down _ _ (inside.trans (List.prefix_append ..)) there
    simp only [relative,Bool.false_eq_true,if_false] at found ih
    refine ih inside ?_ found
    simp only [List.mem_append,not_or]
    exact ⟨level,by simpa using plain⟩

/-- Nothing has become a link. -/
def NoNewLinks (fs fs' : FileSystem) : Prop :=
  ∀ location target, fs'.node location = some (.symlink target) →
    fs.node location = some (.symlink target)

theorem NoNewLinks.trans {last : FileSystem} (first : NoNewLinks fs fs') (second : NoNewLinks fs' last) :
    NoNewLinks fs last := fun location target there => first _ _ (second location target there)

theorem LinksDown.of_noNew (down : fs.LinksDown dir) (none : NoNewLinks fs fs') : fs'.LinksDown dir :=
  fun location target inside there => down location target inside (none _ _ there)

variable {allows : Location → Bool} {start : Location}

theorem createDirAll_noNewLinks (inStart : fs.node start = some .dir) (path : List String) :
    NoNewLinks fs (fs.createDirAll allows start path).fs := by
  intro location target there
  rcases createDirAll_node inStart path location with same | ⟨-,made⟩
  · exact same ▸ there
  · rw [made] at there
    cases there

theorem write_noNewLinks (inStart : fs.node start = some .dir) (path : List Component)
    (content : String) : NoNewLinks fs (fs.write allows start path content).fs := by
  intro location target there
  cases goes : fs.writeTarget allows start path with
  | none => rwa [write_nowhere content goes] at there
  | some written =>
    rw [write_node content inStart goes] at there
    split at there
    · cases there
    · exact there

end Links

end FileSystem
