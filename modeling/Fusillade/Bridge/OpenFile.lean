import Fusillade.Bridge.SharedCsv
import Fusillade.Cluster.Assets

/-! `open` of a script, and the assets that the worker has saved before the script runs. A file
is text in UTF-8; which locations may be read and written is a parameter. -/
namespace Fusillade.Bridge.OpenFile

open FileSystem Cluster.Assets

def validatePath (path : String) : Except String Unit :=
  if (pathBuf path).absolute then
    .error ("Absolute paths are not allowed: '" ++ path ++
      "'. Use a path relative to your script directory.")
  else if (pathBuf path).traverses then
    .error ("Path traversal ('..') is not allowed: '" ++ path ++
      "'. Use a path relative to your script directory.")
  else .ok ()

inductive ReadError where
  | permissionDenied (message : String)
  /-- What the system says. -/
  | other
  deriving DecidableEq

variable (readable : Location → Bool) (cwd : Location)

def readFile (fs : FileSystem) (path : String) : Except ReadError String :=
  match validatePath path with
  | .error message => .error (.permissionDenied message)
  | .ok () =>
    match fs.read readable cwd (pathBuf path).walked with
    | some content => .ok content
    | none => .error .other

/-- The function `open` of the scripts. -/
def openFile (fs : FileSystem) (path : String) : Except Data.FromJs String :=
  (readFile readable cwd fs path).mapError fun _ => ⟨"IOError","String"⟩

variable {readable cwd} {allows : Location → Bool} {fs after : FileSystem} {path content : String}

theorem validatePath_ok : validatePath path = .ok () ↔
    (pathBuf path).absolute = false ∧ (pathBuf path).traverses = false := by
  unfold validatePath
  cases (pathBuf path).absolute <;> cases (pathBuf path).traverses <;> simp

theorem openFile_ok : openFile readable cwd fs path = .ok content ↔
    (pathBuf path).absolute = false ∧ (pathBuf path).traverses = false ∧
      fs.read readable cwd (pathBuf path).walked = some content := by
  rw [← and_assoc,← validatePath_ok,openFile,readFile]
  cases validatePath path with
  | error message => simp [Except.mapError]
  | ok => cases fs.read readable cwd (pathBuf path).walked <;> simp [Except.mapError]

theorem read_eq_some {path : List Component} {start : Location} :
    fs.read readable start path = some content ↔ hasNul path = false ∧ ∃ location,
      fs.walk maxLinks start path = .found location ∧ fs.node location = some (.file content) ∧
        readable location = true := by
  unfold FileSystem.read
  constructor
  · intro text
    split at text
    next location found =>
      obtain ⟨clean,walked⟩ := canonicalize_eq_some.mp found
      split at text
      next old file =>
        split at text <;> cases text
        next may => exact ⟨clean,location,walked,file,may⟩
      next => cases text
    next => cases text
  · rintro ⟨clean,location,walked,file,may⟩
    rw [canonicalize_eq_some.mpr ⟨clean,walked⟩]
    simp [file,may]

theorem up_notMem_walked {p : PathBuf} (plain : p.traverses = false) : Component.up ∉ p.walked := by
  rw [walked_plain plain]
  cases p.directory <;> simp [FileSystem.names]

section Confined

theorem store_noNewLinks (home : Home cwd fs) (p : PathBuf) (content : String) :
    NoNewLinks fs (store allows cwd fs p content).fs := by
  have base := home.base (p := p)
  have made := @createDirAll_noNewLinks _ allows _ base.inDir p.names.dropLast
  exact made.trans (write_noNewLinks (base.createDirAll allows _ base.inDir).inDir p.walked content)

theorem saveAsset_noNewLinks (home : Home cwd fs) (asset : String × String) :
    NoNewLinks fs (saveAsset allows cwd fs asset).fs := by
  have same : NoNewLinks fs fs := fun _ _ there => there
  unfold saveAsset
  dsimp only
  split
  · exact same
  · split
    · split
      · exact store_noNewLinks home _ asset.2
      · exact same
    · split
      · exact same
      · have made := @createDirAll_noNewLinks _ allows _ fs.rooted (List.reverse ‹_›)
        split
        · split
          · exact made.trans (store_noNewLinks (home.createDirAll allows _ fs.rooted) _ asset.2)
          · exact made
        · exact made

theorem rooted_root : ((∅ : FiniteMap Location Node).insert [] .dir).lookup [] = some .dir := by decide

theorem closed_root (dir : Location) (name : String)
    (there : ((∅ : FiniteMap Location Node).insert [] .dir).lookup (dir ++ [name]) ≠ none) :
    ((∅ : FiniteMap Location Node).insert [] .dir).lookup dir = some .dir := by
  simp at there

/-- A worker in `/work`, with its data behind a link. -/
def root : FileSystem := ⟨(∅ : FiniteMap Location Node).insert [] .dir,rooted_root,closed_root⟩

def desk : FileSystem :=
  (root.createDirAll (fun _ => true) [] ["work","data"]).fs.put ["work","current"]
    (.symlink ⟨false,[.name "data"]⟩) ⟨["work"],"current",rfl,by decide +kernel⟩ (by decide +kernel)

theorem desk_home : Home ["work"] desk := ⟨by decide +kernel,by decide +kernel⟩

theorem desk_linksDown : desk.LinksDown ["work"] := by
  intro location target _ there
  rw [desk,node_put] at there
  split at there
  · cases there
    decide
  · have none := @createDirAll_noNewLinks _ (fun _ => true) _ root.rooted ["work","data"]
    have old := none location target there
    rw [root,node,FiniteMap.lookup_insert] at old
    split at old <;> simp at old

/-- No dispatched asset opens a way out: in a directory whose links lead no way up, what a
script can `open` is a file below it, whatever assets have been saved. -/
theorem open_confined (home : Home cwd fs) (down : fs.LinksDown cwd) {assets : List (String × String)}
    (saved : Machine.exec (step allows cwd) fs assets = some after)
    (opened : openFile readable cwd after path = .ok content) :
    ∃ location, cwd <+: location ∧ after.node location = some (.file content) := by
  have kept : Home cwd after ∧ after.LinksDown cwd := by
    refine Machine.exec_invariant (fun fs => Home cwd fs ∧ fs.LinksDown cwd) ?_ saved ⟨home,down⟩
    rintro fs asset next ⟨home,down⟩ taken
    obtain rfl := Option.some.inj taken
    exact ⟨home.saveAsset asset,down.of_noNew (saveAsset_noNewLinks home asset)⟩
  obtain ⟨-,plain,text⟩ := openFile_ok.mp opened
  obtain ⟨-,location,walked,file,-⟩ := read_eq_some.mp text
  exact ⟨location,walk_inside kept.2 List.prefix_rfl (up_notMem_walked plain) walked,file⟩

/-- An asset that is saved through the link. -/
theorem current_confined : ∃ after, Machine.exec (step (fun _ => true) ["work"]) desk
      [("current/users.json","[]")] = some after ∧
    ∃ location, ["work"] <+: location ∧ after.node location = some (.file "[]") :=
  ⟨_,rfl,open_confined desk_home desk_linksDown
    (show Machine.exec (step (fun _ => true) ["work"]) desk [("current/users.json","[]")] = some _ from rfl)
    (show openFile (fun _ => true) ["work"] _ "current/users.json" = .ok "[]" by decide +kernel)⟩

end Confined

section RoundTrip

/-- The names below the current directory that a path has. -/
abbrev namesOf (path : String) : List String := (pathBuf path).names

/-- A path that `open` takes, of a file that is there or that may be made: nothing but
directories is on its way, and the process may write and read along it. -/
structure Ready (allows readable : Location → Bool) (cwd : Location) (fs : FileSystem)
    (path : String) : Prop where
  relative : (pathBuf path).absolute = false
  plain : (pathBuf path).traverses = false
  leaf : (pathBuf path).directory = false
  noNul : hasNul (FileSystem.names (namesOf path)) = false
  way : ∀ front ∈ (namesOf path).dropLast.inits, front ≠ [] →
    fs.node (cwd ++ front) = none ∨ fs.node (cwd ++ front) = some .dir
  room : ∀ node ∈ fs.node (cwd ++ namesOf path), ∃ content, node = .file content
  allowed : ∀ front ∈ (namesOf path).inits, front ≠ [] → allows (cwd ++ front) = true
  readable : readable (cwd ++ namesOf path) = true

/-- Neither of two paths is on the way of the other. -/
def Apart (path other : String) : Prop :=
  ¬namesOf path <+: namesOf other ∧ ¬namesOf other <+: namesOf path

section Path

variable (ready : Ready allows readable cwd fs path)
include ready

theorem Ready.base : (pathBuf path).base cwd = cwd := by simp [PathBuf.base,ready.relative]

theorem Ready.walked : (pathBuf path).walked = FileSystem.names (namesOf path) := by
  simp [walked_plain ready.plain,ready.leaf]

theorem Ready.split : ∃ front last, namesOf path = front ++ [last] := by
  refine (List.eq_nil_or_concat' (namesOf path)).resolve_left fun nothing => ?_
  have leaf := ready.leaf
  obtain ⟨piece,last,nonempty⟩ := (Option.all_eq_false _ _).mp leaf
  have member := List.mem_of_getLast? last
  have kept : component piece = some (if piece = ['.','.'] then none else some (String.ofList piece)) := by
    have other : ¬(piece = [] ∨ piece = ['.']) := by simpa using nonempty
    rw [component,if_neg other]
    split <;> rfl
  have inside := List.mem_filterMap.mpr ⟨piece,member,kept⟩
  split at inside
  · have plain := ready.plain
    simp only [PathBuf.traverses,List.contains_eq_mem,decide_eq_false_iff_not] at plain
    exact plain inside
  · have named : String.ofList piece ∈ namesOf path := List.mem_filterMap.mpr ⟨_,inside,rfl⟩
    rw [nothing] at named
    cases named

theorem Ready.state {front : List String} {last : String} (split : namesOf path = front ++ [last]) :
    fs.Clear cwd front := by
  intro first nonempty below
  exact ready.way first (by rw [split,List.dropLast_concat]; exact (List.mem_inits ..).mpr below) nonempty

/-- What `open` does with a path that is ready depends on the file at its end alone. -/
theorem Ready.openFile : openFile readable cwd fs path =
    match fs.node (cwd ++ namesOf path) with
    | some (.file content) => .ok content
    | _ => .error ⟨"IOError","String"⟩ := by
  have valid := validatePath_ok.mpr ⟨ready.relative,ready.plain⟩
  obtain ⟨front,last,split⟩ := ready.split
  have nonempty : namesOf path ≠ [] := by simp [split]
  simp only [OpenFile.openFile,readFile,valid,ready.walked]
  cases there : fs.node (cwd ++ namesOf path) with
  | none =>
    have lost : fs.read readable cwd (FileSystem.names (namesOf path)) = none := by
      rw [Option.eq_none_iff_forall_ne_some]
      intro text read
      obtain ⟨-,location,walked,-⟩ := read_eq_some.mp read
      have clear : fs.Clear cwd (namesOf path) := by
        intro first present below
        rcases List.prefix_concat_iff.mp (split ▸ below) with rfl | inside
        · exact .inl (split ▸ there)
        · exact ready.state split first present inside
      rcases @walk_clear _ _ _ maxLinks clear nonempty there with ⟨dir,name,missing⟩ | failed
      · simp [missing] at walked
      · simp [failed] at walked
    simp [lost,Except.mapError]
  | some node =>
    obtain ⟨content,rfl⟩ := ready.room node there
    have read : fs.read readable cwd (FileSystem.names (namesOf path)) = some content :=
      read_eq_some.mpr ⟨ready.noNul,_,walk_to_file nonempty there,there,ready.readable⟩
    simp [read,Except.mapError]

/-- New directories on the way leave a path ready. -/
theorem Ready.change
    (way : ∀ front, front <+: (namesOf path).dropLast → after.node (cwd ++ front) = fs.node (cwd ++ front) ∨
      after.node (cwd ++ front) = some .dir)
    (room : ∀ node ∈ after.node (cwd ++ namesOf path), ∃ content, node = .file content) :
    Ready allows readable cwd after path := by
  refine { ready with way := fun front member nonempty => ?_, room := room }
  rcases way front ((List.mem_inits ..).mp member) with same | dir
  · rw [same]
    exact ready.way front member nonempty
  · exact .inr dir

end Path

/-- The last two calls make the file and change nothing else. -/
theorem store_ready (ready : Ready allows readable cwd fs path) (there : Home cwd fs)
    {front : List String} {last : String} (split : namesOf path = front ++ [last])
    (above : fs.node (cwd ++ front) = some .dir) (content : String) (location : Location) :
    (store allows cwd fs (pathBuf path) content).fs.node location =
      if location = cwd ++ namesOf path then some (.file content) else fs.node location := by
  have parent : (namesOf path).dropLast = front := by rw [split,List.dropLast_concat]
  have may : allows (cwd ++ namesOf path) = true :=
    ready.allowed _ ((List.mem_inits ..).mpr List.prefix_rfl) (by simp [split])
  have goes : fs.writeTarget allows cwd (FileSystem.names (namesOf path)) = some (cwd ++ namesOf path) := by
    unfold writeTarget
    rw [if_neg (by simp [ready.noNul])]
    cases here : fs.node (cwd ++ namesOf path) with
    | none =>
      have missing : fs.walk maxLinks cwd (FileSystem.names (namesOf path)) =
          .missing (cwd ++ front) last := by
        have free : fs.node (cwd ++ front ++ [last]) = none := by rw [List.append_assoc,← split,here]
        rw [split,names_concat,walk_names above,walk_free free]
      rw [missing]
      simp only [List.append_assoc,← split,may,if_true]
    | some node =>
      obtain ⟨old,rfl⟩ := ready.room node here
      rw [walk_to_file (by simp [split]) here]
      simp only [here,may,if_true]
  rw [store,ready.base,ready.walked,parent,(createDirAll_of_found allows there.inDir (walk_to above)).1]
  exact write_node content there.inDir goes location

/-- A save makes its file and, on the way to it, directories where nothing was. -/
structure SavedAt (cwd : Location) (fs : FileSystem) (path content : String) (after : FileSystem) :
    Prop where
  file : after.node (cwd ++ namesOf path) = some (.file content)
  others : ∀ location, location ≠ cwd ++ namesOf path → after.node location = fs.node location ∨
    after.node location = some .dir ∧ fs.node location = none ∧
      location <+: cwd ++ (namesOf path).dropLast

theorem saveAsset_ready (home : Home cwd fs) (ready : Ready allows readable cwd fs path) (content : String) :
    SavedAt cwd fs path content (saveAsset allows cwd fs (path,content)).fs := by
  obtain ⟨front,last,split⟩ := ready.split
  have nonempty : namesOf path ≠ [] := by simp [split]
  have resolved : fs.canonicalize [] ((pathBuf path).join cwd).walked =
      fs.canonicalize cwd (FileSystem.names (namesOf path)) := by
    rw [canonicalize_join home,ready.base,ready.walked]
  cases here : fs.node (cwd ++ namesOf path) with
  | some node =>
    obtain ⟨old,rfl⟩ := ready.room node here
    have found : fs.canonicalize [] ((pathBuf path).join cwd).walked = some (cwd ++ namesOf path) :=
      resolved.trans (canonicalize_eq_some.mpr ⟨ready.noNul,walk_to_file nonempty here⟩)
    have saved : saveAsset allows cwd fs (path,content) = store allows cwd fs (pathBuf path) content := by
      simp [saveAsset,ready.plain,found]
    have above : fs.node (cwd ++ front) = some .dir := by
      rw [split,← List.append_assoc] at here
      exact dir_of_entry (by rw [here]; exact Option.some_ne_none _)
    rw [saved]
    have nodes := store_ready ready home split above content
    exact ⟨by rw [nodes,if_pos rfl],fun location other => .inl (by rw [nodes,if_neg other])⟩
  | none =>
    have clear : fs.Clear cwd (namesOf path) := by
      intro first present below
      rcases List.prefix_concat_iff.mp (split ▸ below) with rfl | inside
      · exact .inl (split ▸ here)
      · exact ready.state split first present inside
    have unresolved : fs.canonicalize [] ((pathBuf path).join cwd).walked = none := by
      rw [resolved,canonicalize,if_neg (by simp [ready.noNul])]
      rcases @walk_clear _ _ _ maxLinks clear nonempty here with ⟨dir,name,missing⟩ | failed
      · rw [missing]
      · rw [failed]
    have way : fs.Clear [] (cwd ++ front) := by
      intro first _ below
      rw [List.nil_append]
      rcases List.prefix_or_prefix_of_prefix below (List.prefix_append cwd front) with inside | ⟨rest,rfl⟩
      · obtain ⟨rest,rfl⟩ := inside
        exact .inr (node_above home.inDir)
      · by_cases empty : rest = []
        · exact .inr (by simpa [empty] using home.inDir)
        · exact ready.state split rest empty ((List.prefix_append_right_inj cwd).mp below)
    have noNul : hasNul (FileSystem.names (cwd ++ front)) = false := by
      have whole := ready.noNul
      rw [split,names_concat,hasNul_append,Bool.or_eq_false_iff] at whole
      rw [show FileSystem.names (cwd ++ front) = FileSystem.names cwd ++ FileSystem.names front from
        List.map_append,hasNul_append,home.noNul,whole.1,Bool.false_or]
    have allowed (first : Location) (below : first <+: cwd ++ front) (free : fs.node first = none) :
        allows first = true := by
      rcases List.prefix_or_prefix_of_prefix below (List.prefix_append cwd front) with inside | ⟨rest,rfl⟩
      · obtain ⟨rest,rfl⟩ := inside
        rw [node_above home.inDir] at free
        cases free
      · refine ready.allowed rest ((List.mem_inits ..).mpr ?_) ?_
        · rw [split]
          exact ((List.prefix_append_right_inj cwd).mp below).trans (List.prefix_append ..)
        · rintro rfl
          simp [home.inDir] at free
    obtain ⟨made,frame⟩ := createDirAll_clear way noNul allowed
    have apart : ¬cwd ++ namesOf path <+: cwd ++ front := by
      intro below
      have short := ((List.prefix_append_right_inj cwd).mp below).length_le
      simp [split] at short
    have free : (fs.createDirAll allows [] (cwd ++ front)).fs.node (cwd ++ namesOf path) = none := by
      rcases frame (cwd ++ namesOf path) with same | ⟨-,-,below⟩
      · exact same.trans here
      · exact absurd below apart
    have ready' : Ready allows readable cwd (fs.createDirAll allows [] (cwd ++ front)).fs path :=
      ready.change (fun first _ => (frame _).imp_right And.left) (by simp [free])
    have found : (fs.createDirAll allows [] (cwd ++ front)).fs.canonicalize []
        (FileSystem.names (cwd ++ front)) = some (cwd ++ front) :=
      canonicalize_eq_some.mpr ⟨noNul,walk_to made⟩
    have saved : (saveAsset allows cwd fs (path,content)).fs =
        (store allows cwd (fs.createDirAll allows [] (cwd ++ front)).fs (pathBuf path) content).fs := by
      have new : saveAsset allows cwd fs (path,content) = _ := saveAsset_new ready.plain unresolved split
      rw [new,saveNew,ready.base,found]
      simp
    have nodes := store_ready ready' (home.createDirAll allows _ fs.rooted) split made content
    rw [saved]
    refine ⟨by rw [nodes,if_pos rfl],fun location other => ?_⟩
    rw [nodes,if_neg other,split,List.dropLast_concat]
    exact frame location

variable {other : String}

/-- A save leaves the paths apart from its own as they were. -/
theorem SavedAt.keep (saved : SavedAt cwd fs path content after)
    (ready : Ready allows readable cwd fs other) (apart : Apart path other) :
    Ready allows readable cwd after other ∧
      after.node (cwd ++ namesOf other) = fs.node (cwd ++ namesOf other) := by
  have same : after.node (cwd ++ namesOf other) = fs.node (cwd ++ namesOf other) := by
    have elsewhere : cwd ++ namesOf other ≠ cwd ++ namesOf path := by
      intro same
      exact apart.1 (List.append_cancel_left same ▸ List.prefix_rfl)
    refine (saved.others _ elsewhere).resolve_right ?_
    rintro ⟨-,-,below⟩
    exact apart.2 (((List.prefix_append_right_inj cwd).mp below).trans (List.dropLast_prefix _))
  refine ⟨ready.change (fun front below => ?_) (same ▸ ready.room),same⟩
  have elsewhere : cwd ++ front ≠ cwd ++ namesOf path := by
    intro same
    exact apart.1 (List.append_cancel_left same ▸ below.trans (List.dropLast_prefix _))
  exact (saved.others _ elsewhere).imp_right And.left

theorem SavedAt.again (saved : SavedAt cwd fs path content after)
    (ready : Ready allows readable cwd fs path) : Ready allows readable cwd after path := by
  refine ready.change (fun front below => ?_) (by simp [saved.file])
  have elsewhere : cwd ++ front ≠ cwd ++ namesOf path := by
    intro same
    obtain ⟨first,last,split⟩ := ready.split
    have short := below.length_le
    simp [List.append_cancel_left same,split] at short
  exact (saved.others _ elsewhere).imp_right And.left

/-- Assets saved one after another, apart from each other and from a path. -/
theorem exec_keep {assets : List (String × String)} (home : Home cwd fs)
    (each : ∀ asset ∈ assets, Ready allows readable cwd fs asset.1)
    (apart : assets.Pairwise fun first second => Apart first.1 second.1)
    (ready : Ready allows readable cwd fs other) (away : ∀ asset ∈ assets, Apart asset.1 other)
    (saved : Machine.exec (step allows cwd) fs assets = some after) :
    Ready allows readable cwd after other ∧
      after.node (cwd ++ namesOf other) = fs.node (cwd ++ namesOf other) := by
  induction assets generalizing fs with
  | nil =>
    obtain rfl := Option.some.inj saved
    exact ⟨ready,rfl⟩
  | cons asset rest ih =>
    obtain ⟨next,first,later⟩ := Machine.exec_cons_iff.mp saved
    obtain rfl := Option.some.inj first
    obtain ⟨here,others⟩ := List.forall_mem_cons.mp each
    obtain ⟨fromHere,fromOthers⟩ := List.forall_mem_cons.mp away
    obtain ⟨head,tail⟩ := List.pairwise_cons.mp apart
    have made := saveAsset_ready home here asset.2
    obtain ⟨again,same⟩ := made.keep ready fromHere
    obtain ⟨last,still⟩ := ih (home.saveAsset asset)
      (fun asset' member => (made.keep (others asset' member) (head asset' member)).1) tail again
      fromOthers later
    exact ⟨last,still.trans same⟩

theorem exec_ready {assets : List (String × String)} (home : Home cwd fs)
    (each : ∀ asset ∈ assets, Ready allows readable cwd fs asset.1)
    (apart : assets.Pairwise fun first second => Apart first.1 second.1)
    (saved : Machine.exec (step allows cwd) fs assets = some after) :
    ∀ asset ∈ assets, Ready allows readable cwd after asset.1 ∧
      after.node (cwd ++ namesOf asset.1) = some (.file asset.2) := by
  induction assets generalizing fs with
  | nil => nofun
  | cons asset rest ih =>
    obtain ⟨next,first,later⟩ := Machine.exec_cons_iff.mp saved
    obtain rfl := Option.some.inj first
    obtain ⟨here,others⟩ := List.forall_mem_cons.mp each
    obtain ⟨head,tail⟩ := List.pairwise_cons.mp apart
    have made := saveAsset_ready home here asset.2
    have readied (asset' : String × String) (member : asset' ∈ rest) :
        Ready allows readable cwd (saveAsset allows cwd fs asset).fs asset'.1 :=
      (made.keep (others asset' member) (head asset' member)).1
    refine List.forall_mem_cons.mpr ⟨?_,ih (home.saveAsset asset) readied tail later⟩
    have away (asset' : String × String) (member : asset' ∈ rest) : Apart asset'.1 asset.1 :=
      (head asset' member).symm
    obtain ⟨last,same⟩ := exec_keep (home.saveAsset asset) readied tail (made.again here) away later
    exact ⟨last,same.trans made.file⟩

/-- The assets of a test reach its scripts: in whatever order they are saved, `open` gives the
content of each, and what it gave before for a path apart from them. -/
theorem assets_come_back {assets : List (String × String)} (home : Home cwd fs)
    (each : ∀ asset ∈ assets, Ready allows readable cwd fs asset.1)
    (apart : assets.Pairwise fun first second => Apart first.1 second.1)
    (saved : Machine.exec (step allows cwd) fs assets = some after) :
    (∀ asset ∈ assets, openFile readable cwd after asset.1 = .ok asset.2) ∧
      ∀ other, Ready allows readable cwd fs other → (∀ asset ∈ assets, Apart asset.1 other) →
        openFile readable cwd after other = openFile readable cwd fs other := by
  refine ⟨fun asset member => ?_,fun other ready away => ?_⟩
  · obtain ⟨ready,file⟩ := exec_ready home each apart saved asset member
    rw [ready.openFile,file]
  · obtain ⟨again,same⟩ := exec_keep home each apart ready away saved
    rw [again.openFile,ready.openFile,same]

theorem desk_ready : ∀ path ∈ ["lib/helpers.js","data/users.json"],
    Ready (fun _ => true) (fun _ => true) ["work"] desk path := by
  intro path member
  have free : desk.node (["work"] ++ namesOf path) = none := by
    revert path
    decide +kernel
  refine ⟨?_,?_,?_,?_,?_,by rw [free]; nofun,fun _ _ _ => rfl,rfl⟩ <;>
  · revert path
    decide +kernel

theorem desk_come_back : ∃ after, Machine.exec (step (fun _ => true) ["work"]) desk
      [("lib/helpers.js","export const a = 1"),("data/users.json","[]")] = some after ∧
    openFile (fun _ => true) ["work"] after "data/users.json" = .ok "[]" := by
  refine ⟨_,rfl,(assets_come_back desk_home ?_ ?_
    (show Machine.exec (step (fun _ => true) ["work"]) desk
      [("lib/helpers.js","export const a = 1"),("data/users.json","[]")] = some _ from rfl)).1
    ("data/users.json","[]") (by simp)⟩
  · exact fun asset member => desk_ready _ (List.mem_map_of_mem member)
  · simp only [Apart]
    decide +kernel

end RoundTrip

end Fusillade.Bridge.OpenFile
