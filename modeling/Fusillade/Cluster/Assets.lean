import Fusillade.Lib.FileSystem
import Fusillade.Lib.Machine

/-! Assets of a test, which a worker saves before it runs. The current directory is where the
process is: a real location, from which its relative paths start. -/
namespace Fusillade.Cluster.Assets

open FileSystem

/-- `PathBuf::from`: the components, where `none` stands for a `..`. A trailing slash or dot is
none, but it asks the system for a directory. -/
structure PathBuf where
  absolute : Bool
  components : List (Option String)
  directory : Bool
  deriving DecidableEq

def component (piece : List Char) : Option (Option String) :=
  if piece = [] ∨ piece = ['.'] then none
  else if piece = ['.','.'] then some none
  else some (some (String.ofList piece))

def pathBuf (text : String) : PathBuf :=
  let pieces := text.toList.splitOnP (· == '/')
  { absolute := text.toList.head? = some '/'
    components := pieces.filterMap component
    directory := pieces.getLast?.all fun piece => piece = [] ∨ piece = ['.'] }

namespace PathBuf

def join (cwd : Location) (p : PathBuf) : PathBuf :=
  if p.absolute then p else ⟨true,cwd.map some ++ p.components,p.directory⟩

/-- Any component is a `ParentDir`. -/
def traverses (p : PathBuf) : Bool := p.components.contains none

def names (p : PathBuf) : List String := p.components.filterMap id

/-- What the system walks along. -/
def walked (p : PathBuf) : List Component :=
  (p.components.map fun
    | some name => .name name
    | none => .up) ++ if p.directory then [.here] else []

/-- Where the system starts to walk. -/
def base (cwd : Location) (p : PathBuf) : Location := if p.absolute then [] else cwd

end PathBuf

structure Saved where
  accepted : Bool
  fs : FileSystem
  touched : List Location

variable (allows : Location → Bool) (cwd : Location)

/-- The last two calls, for an asset that is accepted. -/
def store (fs : FileSystem) (p : PathBuf) (content : String) : Saved :=
  let parent := fs.createDirAll allows (p.base cwd) p.names.dropLast
  let written := parent.fs.write allows (p.base cwd) p.walked content
  ⟨true,written.fs,parent.touched ++ written.touched⟩

def saveAsset (fs : FileSystem) (asset : String × String) : Saved :=
  let p := pathBuf asset.1
  if p.traverses then ⟨false,fs,[]⟩
  else
    let resolved := p.join cwd
    match fs.canonicalize [] resolved.walked with
    | some canonical =>
      if cwd <+: canonical then store allows cwd fs p asset.2 else ⟨false,fs,[]⟩
    | none =>
      match resolved.names.reverse with
      | [] => ⟨false,fs,[]⟩
      | fileName :: up =>
        -- The directories are made before the check.
        let parent := fs.createDirAll allows [] up.reverse
        match parent.fs.canonicalize [] (FileSystem.names up.reverse) with
        | some canonical =>
          if cwd <+: canonical ++ [fileName] then
            let stored := store allows cwd parent.fs p asset.2
            { stored with touched := parent.touched ++ stored.touched }
          else ⟨false,parent.fs,parent.touched⟩
        | none => ⟨false,parent.fs,parent.touched⟩

def step (fs : FileSystem) (asset : String × String) : Option FileSystem :=
  some (saveAsset allows cwd fs asset).fs

/-- Every change is inside the current directory, and a rejected asset changes nothing. -/
def Saved.Contained (saved : Saved) (cwd : Location) (fs : FileSystem) : Prop :=
  (∀ location ∈ saved.touched, cwd <+: location) ∧ (saved.accepted = false → saved.fs = fs)

/-- What an asset finds: a path that is refused or leads somewhere; or directories to be made
that are all inside and may all be made; or a parent directory, where the file that would be
written is inside. -/
def confined (fs : FileSystem) (asset : String × String) : Bool :=
  let p := pathBuf asset.1
  let resolved := p.join cwd
  p.traverses || (fs.canonicalize [] resolved.walked).isSome ||
  match resolved.names.reverse with
  | [] => true
  | fileName :: up =>
    if hasNul (FileSystem.names up.reverse) then true
    else match fs.creationPoint [] up with
      | some (dir,made) =>
        !allows (dir ++ made.take 1) || (decide (cwd <+: dir ++ made.take 1) &&
          made.inits.all fun tail => tail.isEmpty || allows (dir ++ tail))
      | none =>
        match fs.canonicalize [] (FileSystem.names up.reverse) with
        | some canonical => !decide (cwd <+: canonical ++ [fileName]) ||
          (fs.writeTarget allows (p.base cwd) p.walked).all fun target => decide (cwd <+: target)
        | none => true

/-- The process is in a directory, under a name that the system takes. -/
structure Home (cwd : Location) (fs : FileSystem) : Prop where
  inDir : fs.node cwd = some .dir
  noNul : hasNul (FileSystem.names cwd) = false

variable {allows cwd} {fs : FileSystem} {p : PathBuf}

section Paths

theorem Home.base (home : Home cwd fs) : Home (p.base cwd) fs := by
  unfold PathBuf.base
  split
  · exact ⟨fs.rooted,rfl⟩
  · exact home

theorem names_join : (p.join cwd).names = p.base cwd ++ p.names := by
  unfold PathBuf.join PathBuf.base
  split
  · rfl
  · simp [PathBuf.names,List.filterMap_map]

theorem walked_join : (p.join cwd).walked = FileSystem.names (p.base cwd) ++ p.walked := by
  unfold PathBuf.join PathBuf.base
  split
  · rfl
  · simp [PathBuf.walked,FileSystem.names]

theorem canonicalize_join (home : Home cwd fs) :
    fs.canonicalize [] (p.join cwd).walked = fs.canonicalize (p.base cwd) p.walked := by
  have base := home.base (p := p)
  rw [walked_join,canonicalize,canonicalize,hasNul_append,base.noNul,Bool.false_or,
    walk_names base.inDir,List.nil_append]

/-- What a path without `..` walks along: its names, and perhaps a request for a directory. -/
theorem walked_plain (plain : p.traverses = false) :
    p.walked = FileSystem.names p.names ++ if p.directory then [.here] else [] := by
  unfold PathBuf.walked
  congr 1
  have named : none ∉ p.components := by simpa [PathBuf.traverses] using plain
  unfold PathBuf.names FileSystem.names
  generalize p.components = components at named
  induction components with
  | nil => rfl
  | cons component rest ih =>
    cases component with
    | none => simp at named
    | some name => simp [ih (by simpa using named)]

/-- The parent of a path that leads somewhere leads somewhere too. -/
theorem parent_found (home : Home cwd fs) (plain : p.traverses = false) {location : Location}
    (found : fs.walk maxLinks (p.base cwd) p.walked = .found location) : ∃ parent,
      fs.walk maxLinks (p.base cwd) (FileSystem.names p.names.dropLast) = .found parent := by
  rcases List.eq_nil_or_concat' p.names with nothing | ⟨front,last,split⟩
  · exact ⟨_,by rw [nothing]; exact walk_nil⟩
  · rw [walked_plain plain,split,names_concat,List.append_assoc] at found
    obtain ⟨parent,there,_⟩ := walk_parent home.base.inDir
      (fun error failed => by rw [List.singleton_append,failed] at found; contradiction)
    rw [split,List.dropLast_concat]
    exact ⟨parent,there⟩

end Paths

theorem store_touched (allows : Location → Bool) (home : Home cwd fs) (content : String) {parent : Location}
    (found : fs.walk maxLinks (p.base cwd) (FileSystem.names p.names.dropLast) = .found parent) :
    (store allows cwd fs p content).touched =
      (fs.writeTarget allows (p.base cwd) p.walked).toList := by
  obtain ⟨same,nothing⟩ := createDirAll_of_found allows home.base.inDir found
  rw [store,same,nothing,List.nil_append]
  exact write_touched home.base.inDir

variable {asset : String × String}

theorem contained_of_found (home : Home cwd fs) (plain : (pathBuf asset.1).traverses = false)
    {canonical : Location}
    (found : fs.canonicalize [] ((pathBuf asset.1).join cwd).walked = some canonical) :
    (saveAsset allows cwd fs asset).Contained cwd fs := by
  by_cases inside : cwd <+: canonical
  · have saved : saveAsset allows cwd fs asset = store allows cwd fs (pathBuf asset.1) asset.2 := by
      simp [saveAsset,plain,found,inside]
    rw [canonicalize_join home] at found
    obtain ⟨_,walked⟩ := canonicalize_eq_some.mp found
    obtain ⟨parent,there⟩ := parent_found home plain walked
    rw [saved]
    refine ⟨fun location member => ?_,fun rejected => nomatch rejected⟩
    rw [store_touched allows home asset.2 there,Option.mem_toList] at member
    rwa [writeTarget_of_found walked location member]
  · have saved : saveAsset allows cwd fs asset = ⟨false,fs,[]⟩ := by
      simp [saveAsset,plain,found,inside]
    rw [saved]
    exact ⟨by simp,fun _ => rfl⟩

/-- What happens to a path that leads nowhere yet. -/
def saveNew (allows : Location → Bool) (cwd : Location) (fs : FileSystem) (p : PathBuf)
    (content : String) (front : List String) (last : String) : Saved :=
  let parent := fs.createDirAll allows [] (p.base cwd ++ front)
  match parent.fs.canonicalize [] (FileSystem.names (p.base cwd ++ front)) with
  | some canonical =>
    if cwd <+: canonical ++ [last] then
      let stored := store allows cwd parent.fs p content
      { stored with touched := parent.touched ++ stored.touched }
    else ⟨false,parent.fs,parent.touched⟩
  | none => ⟨false,parent.fs,parent.touched⟩

section New

variable {content : String} {front : List String} {last : String}

theorem walk_front (home : Home cwd fs) : fs.walk maxLinks (p.base cwd) (FileSystem.names front) =
    fs.walk maxLinks [] (FileSystem.names (p.base cwd ++ front)) := by
  have inBase : fs.node ([] ++ p.base cwd) = some .dir := home.base.inDir
  have split : FileSystem.names (p.base cwd ++ front) =
      FileSystem.names (p.base cwd) ++ FileSystem.names front := List.map_append
  rw [split,walk_names inBase,List.nil_append]

theorem store_touched_front (allows : Location → Bool) (home : Home cwd fs) (content : String)
    (split : p.names = front ++ [last]) {parent : Location}
    (found : fs.walk maxLinks [] (FileSystem.names (p.base cwd ++ front)) = .found parent) :
    (store allows cwd fs p content).touched =
      (fs.writeTarget allows (p.base cwd) p.walked).toList := by
  rw [← walk_front home] at found
  apply store_touched allows home content
  rw [split,List.dropLast_concat]
  exact found

/-- With nothing to make, what counts is where the file would go. -/
theorem saveNew_existing (home : Home cwd fs) (split : p.names = front ++ [last])
    (same : (fs.createDirAll allows [] (p.base cwd ++ front)).fs = fs)
    (nothing : (fs.createDirAll allows [] (p.base cwd ++ front)).touched = []) :
    (saveNew allows cwd fs p content front last).Contained cwd fs ↔
      ∀ canonical ∈ fs.canonicalize [] (FileSystem.names (p.base cwd ++ front)),
        cwd <+: canonical ++ [last] →
          ∀ target ∈ fs.writeTarget allows (p.base cwd) p.walked, cwd <+: target := by
  rw [saveNew,same,nothing]
  cases parent : fs.canonicalize [] (FileSystem.names (p.base cwd ++ front)) with
  | none => exact iff_of_true ⟨by simp,fun _ => rfl⟩ (by simp)
  | some canonical =>
    by_cases inside : cwd <+: canonical ++ [last]
    · have walked := (canonicalize_eq_some.mp parent).2
      have touched := store_touched_front allows home content split walked
      have saved : (store allows cwd fs p content).accepted = true := rfl
      simp [inside,Saved.Contained,touched,saved]
    · simp [inside,Saved.Contained]

/-- A new entry below the current directory is made in it. -/
theorem inside_dir (home : Home cwd fs) {dir tail made : List String} (below : tail <+: made)
    (free : fs.node (dir ++ made.take 1) = none) (inside : cwd <+: dir ++ tail) : cwd <+: dir := by
  rcases List.prefix_or_prefix_of_prefix inside (List.prefix_append dir tail) with here | ⟨rest,rfl⟩
  · exact here
  · rcases List.eq_nil_or_concat' rest with rfl | ⟨_,_,rfl⟩
    · simp
    · have below := ((List.prefix_append_right_inj dir).mp inside).trans below
      have gone := free_tail free (by simp) below
      have inDir := home.inDir
      rw [gone] at inDir
      contradiction

theorem Home.extend {fs' : FileSystem} (home : Home cwd fs) (extension : Extends fs fs') : Home cwd fs' :=
  ⟨extension _ _ home.inDir,home.noNul⟩

section Made

variable {dir made : List String} {done : Done}
  (grown : Grown allows fs [] (p.base cwd ++ front) dir made done)
include grown

theorem touched_inside (inside : cwd <+: dir) : ∀ location ∈ done.touched, cwd <+: location := by
  intro location member
  obtain ⟨_,tail,_,_,rfl⟩ := grown.below location member
  exact inside.trans (List.prefix_append ..)

/-- Where all directories could be made, the file would be new in the last one. -/
theorem writeTarget_made (home : Home cwd fs) (ok : done.ok = true) (split : p.names = front ++ [last])
    (plain : p.traverses = false) : ∀ target ∈ done.fs.writeTarget allows (p.base cwd) p.walked,
      target = dir ++ made ++ [last] := by
  obtain ⟨there,inDir,free⟩ := grown.reached ok
  rw [← walk_front (home.extend grown.grown)] at there
  obtain ⟨left,on⟩ := walk_append there inDir
  intro target member
  have walked : done.fs.walk maxLinks (p.base cwd) p.walked =
      .missing (dir ++ made) last ∨ ∃ error,
        done.fs.walk maxLinks (p.base cwd) p.walked = .failed error := by
    rw [walked_plain plain,split,names_concat,List.append_assoc,on,List.singleton_append,walk_name,
      free last]
    dsimp only
    split
    · exact .inr ⟨_,if_neg (by simp)⟩
    · exact .inl (if_pos rfl)
  unfold writeTarget at member
  split at member
  · contradiction
  · rcases walked with missing | ⟨error,failed⟩
    · rw [missing] at member
      dsimp only at member
      split at member
      · exact (Option.some.inj member).symm
      · contradiction
    · rw [failed] at member
      contradiction

theorem some_made (allowed : allows (dir ++ made.take 1) = true) : ∃ location ∈ done.touched,
    done.fs.node location = some .dir ∧ ∃ tail, tail ≠ [] ∧ tail <+: made ∧ location = dir ++ tail := by
  have nonempty : done.touched ≠ [] := by simp [grown.none_iff,allowed]
  obtain ⟨location,member⟩ := List.exists_mem_of_ne_nil _ nonempty
  exact ⟨location,member,grown.below location member⟩

/-- An asset that is rejected after all must have made nothing. -/
theorem contained_rejected :
    (⟨false,done.fs,done.touched⟩ : Saved).Contained cwd fs ↔ allows (dir ++ made.take 1) = false := by
  constructor
  · rintro ⟨_,unchanged⟩
    by_contra allowed
    obtain ⟨_,_,there,tail,nonempty,below,rfl⟩ := some_made grown (by simpa using allowed)
    rw [show done.fs = fs from unchanged rfl,free_tail grown.free nonempty below] at there
    contradiction
  · intro refused
    have nothing := grown.none_iff.mpr refused
    exact ⟨by simp [nothing],fun _ => grown.same nothing⟩

theorem contained_reached (home : Home cwd fs) (ok : done.ok = true)
    (split : p.names = front ++ [last]) (plain : p.traverses = false) :
    ({ store allows cwd done.fs p content with
      touched := done.touched ++ (store allows cwd done.fs p content).touched } : Saved).Contained
        cwd fs ↔ cwd <+: dir := by
  have all := grown.ok_iff.mp ok
  have first : made.take 1 <+: made := List.take_prefix ..
  have allowed := all (made.take 1) (by simp [grown.nonempty]) first
  constructor
  · rintro ⟨contained,_⟩
    obtain ⟨_,member,_,tail,_,below,rfl⟩ := some_made grown allowed
    exact inside_dir home below grown.free (contained _ (List.mem_append_left _ member))
  · intro inside
    have touched := store_touched_front allows (home.extend grown.grown) content split
      (grown.reached ok).1
    refine ⟨fun location member => ?_,fun rejected => nomatch rejected⟩
    rcases List.mem_append.mp member with earlier | written
    · exact touched_inside grown inside location earlier
    · rw [touched,Option.mem_toList] at written
      rw [writeTarget_made grown home ok split plain location written,List.append_assoc]
      exact inside.trans (List.prefix_append ..)

end Made

theorem saveNew_made (home : Home cwd fs) (split : p.names = front ++ [last])
    (plain : p.traverses = false) {dir made : List String}
    (noNul : hasNul (FileSystem.names (p.base cwd ++ front)) = false)
    (grown : Grown allows fs [] (p.base cwd ++ front) dir made
      (fs.createDirAll allows [] (p.base cwd ++ front))) :
    (saveNew allows cwd fs p content front last).Contained cwd fs ↔
      (allows (dir ++ made.take 1) = true → cwd <+: dir ++ made.take 1 ∧
        ∀ tail, tail ≠ [] → tail <+: made → allows (dir ++ tail) = true) := by
  rw [saveNew]
  generalize fs.createDirAll allows [] (p.base cwd ++ front) = done at grown
  cases ok : done.ok with
  | false =>
    have lost : done.fs.canonicalize [] (FileSystem.names (p.base cwd ++ front)) = none := by
      cases reached : done.fs.canonicalize [] (FileSystem.names (p.base cwd ++ front)) with
      | none => rfl
      | some location => exact absurd (canonicalize_eq_some.mp reached).2 (grown.stuck ok location)
    simp only [lost]
    rw [contained_rejected grown]
    constructor
    · intro refused
      simp [refused]
    · intro may
      by_contra allowed
      rw [grown.ok_iff.mpr (may (by simpa using allowed)).2] at ok
      contradiction
  | true =>
    have all := grown.ok_iff.mp ok
    have first : made.take 1 <+: made := List.take_prefix ..
    have allowed := all (made.take 1) (by simp [grown.nonempty]) first
    simp only [canonicalize_eq_some.mpr ⟨noNul,(grown.reached ok).1⟩]
    have same : (cwd <+: dir ++ made.take 1) ↔ cwd <+: dir :=
      ⟨inside_dir home first grown.free,fun inside => inside.trans (List.prefix_append ..)⟩
    split
    next =>
      rw [contained_reached grown home ok split plain,← same]
      exact ⟨fun inside _ => ⟨inside,all⟩,fun may => (may allowed).1⟩
    next outside =>
      rw [contained_rejected grown,allowed]
      refine iff_of_false (by simp) fun may => outside ?_
      rw [List.append_assoc]
      exact (same.mp (may rfl).1).trans (List.prefix_append ..)

end New

/-- A path that leads nowhere has a last name. -/
theorem split_of_unresolved (home : Home cwd fs) (plain : p.traverses = false)
    (unresolved : fs.canonicalize [] (p.join cwd).walked = none) :
    ∃ front last, p.names = front ++ [last] := by
  rcases List.eq_nil_or_concat' p.names with nothing | split
  · rw [canonicalize_join home] at unresolved
    have found : fs.canonicalize (p.base cwd) p.walked = some (p.base cwd) := by
      rw [walked_plain plain,nothing]
      cases p.directory <;> simp [canonicalize,FileSystem.names,hasNul]
    rw [found] at unresolved
    contradiction
  · exact split

theorem reversed_names {front : List String} {last : String} (split : p.names = front ++ [last]) :
    (p.join cwd).names.reverse = last :: (p.base cwd ++ front).reverse := by
  rw [names_join,split,← List.append_assoc,List.reverse_concat]

section Unresolved

variable {front : List String} {last : String} (plain : (pathBuf asset.1).traverses = false)
  (unresolved : fs.canonicalize [] ((pathBuf asset.1).join cwd).walked = none)
  (split : (pathBuf asset.1).names = front ++ [last])
include plain unresolved split

theorem saveAsset_new : saveAsset allows cwd fs asset =
    saveNew allows cwd fs (pathBuf asset.1) asset.2 front last := by
  simp only [saveAsset,plain,unresolved,reversed_names split,List.reverse_reverse,
    Bool.false_eq_true,if_false]
  rfl

theorem saveAsset_new_contained (home : Home cwd fs) :
    (saveAsset allows cwd fs asset).Contained cwd fs ↔ confined allows cwd fs asset = true := by
  rw [saveAsset_new plain unresolved split]
  simp only [confined,plain,unresolved,reversed_names split,List.reverse_reverse,Bool.false_or,
    Option.isSome_none]
  generalize pathBuf asset.1 = p at plain unresolved split
  cases nul : hasNul (FileSystem.names (p.base cwd ++ front)) with
  | true =>
    have refused : fs.createDirAll allows [] (p.base cwd ++ front) = ⟨false,fs,[]⟩ := by
      simp [createDirAll,nul]
    rw [saveNew_existing home split (by rw [refused]) (by rw [refused])]
    simp [canonicalize,nul]
  | false =>
    have created : fs.createDirAll allows [] (p.base cwd ++ front) =
        fs.createTree allows [] (p.base cwd ++ front).reverse := by simp [createDirAll,nul]
    have spec := createTree_spec allows fs.rooted (p.base cwd ++ front).reverse
    rw [List.reverse_reverse,← created] at spec
    rcases point : fs.creationPoint [] (p.base cwd ++ front).reverse with _ | ⟨dir,made⟩
    · rw [point] at spec
      rw [saveNew_existing home split spec.1 spec.2.1]
      cases fs.canonicalize [] (FileSystem.names (p.base cwd ++ front)) with
      | none => simp
      | some canonical =>
        by_cases inside : cwd <+: canonical ++ [last]
        · simp [inside,Option.all_eq_true]
        · simp [inside]
    · rw [point] at spec
      rw [saveNew_made home split plain nul spec]
      simp only [imp_iff_not_or,List.all_eq_true,List.mem_inits,Bool.or_eq_true,
        Bool.and_eq_true,Bool.not_eq_true',Bool.not_eq_true,decide_eq_true_eq,List.isEmpty_iff,
        ne_eq,not_not,or_left_comm,Bool.false_eq_true,if_false]

end Unresolved

theorem saveAsset_contained (home : Home cwd fs) (asset : String × String) :
    (saveAsset allows cwd fs asset).Contained cwd fs ↔ confined allows cwd fs asset = true := by
  cases plain : (pathBuf asset.1).traverses with
  | true => simp [saveAsset,confined,plain,Saved.Contained]
  | false =>
    cases resolved : fs.canonicalize [] ((pathBuf asset.1).join cwd).walked with
    | some canonical =>
      exact iff_of_true (contained_of_found home plain resolved) (by simp [confined,resolved])
    | none =>
      obtain ⟨front,last,split⟩ := split_of_unresolved home plain resolved
      exact saveAsset_new_contained plain resolved split home

theorem Home.createDirAll (home : Home cwd fs) (allows : Location → Bool) {start : Location}
    (path : List String)
    (inStart : fs.node start = some .dir) : Home cwd (fs.createDirAll allows start path).fs :=
  home.extend (createDirAll_extends inStart)

theorem Home.store (home : Home cwd fs) (content : String) :
    Home cwd (store allows cwd fs p content).fs :=
  ⟨write_dirs cwd (home.createDirAll allows _ home.base.inDir).inDir,home.noNul⟩

/-- Saving an asset moves no directory, so the process stays in its own. -/
theorem Home.saveAsset (home : Home cwd fs) (asset : String × String) :
    Home cwd (saveAsset allows cwd fs asset).fs := by
  unfold Assets.saveAsset
  dsimp only
  split
  · exact home
  · split
    · split
      · exact home.store asset.2
      · exact home
    · split
      · exact home
      · have made := home.createDirAll allows (List.reverse ‹_›) fs.rooted
        split
        · split
          · exact made.store asset.2
          · exact made
        · exact made

/-- Assets are saved one after the other, each on the file system that the earlier ones left. -/
theorem assets_contained (home : Home cwd fs) (assets : List (String × String)) :
    Machine.Guarded (step allows cwd)
      (fun fs asset => (saveAsset allows cwd fs asset).Contained cwd fs) fs assets ↔
    Machine.Guarded (step allows cwd) (fun fs asset => confined allows cwd fs asset = true) fs assets := by
  refine Machine.guarded_congr (Home cwd) ?_ (fun fs asset home => saveAsset_contained home asset)
    home assets
  intro fs asset after home saved
  obtain rfl := Option.some.inj saved
  exact home.saveAsset asset

/-- A worker in `/work`, with a link to a file that is not there. -/
def worker : FileSystem :=
  let root : FileSystem :=
    { nodes := (∅ : FiniteMap Location Node).insert [] .dir
      rooted := by decide
      closed := by
        intro dir name there
        simp at there }
  let made := (root.createDirAll (fun _ => true) [] ["work"]).fs
  made.put ["work","link"] (.symlink ⟨true,[.name "log"]⟩) ⟨["work"],"link",rfl,by decide +kernel⟩
    (by decide +kernel)

theorem worker_home : Home ["work"] worker := ⟨by decide +kernel,by decide +kernel⟩

theorem helpers_contained : Machine.Guarded (step (fun _ => true) ["work"])
    (fun fs asset => (saveAsset (fun _ => true) ["work"] fs asset).Contained ["work"] fs) worker
    [("lib/helpers.js","export const a = 1"),("/work/data/users.json","[]"),("lib/helpers.js","")] :=
  (assets_contained worker_home _).mpr (by decide +kernel)

theorem escapes {asset : String × String}
    (outside : confined (fun _ => true) ["work"] worker asset = false) :
    ¬Machine.Guarded (step (fun _ => true) ["work"])
      (fun fs asset => (saveAsset (fun _ => true) ["work"] fs asset).Contained ["work"] fs) worker
      [asset] := by
  rintro ⟨contained,_⟩
  rw [saveAsset_contained worker_home,outside] at contained
  contradiction

/-- A directory is made outside before the asset is rejected; an asset that is accepted follows a
link to the outside. -/
theorem worker_escapes :
    ¬Machine.Guarded (step (fun _ => true) ["work"])
      (fun fs asset => (saveAsset (fun _ => true) ["work"] fs asset).Contained ["work"] fs) worker
      [("/other/x.js","")] ∧
    ¬Machine.Guarded (step (fun _ => true) ["work"])
      (fun fs asset => (saveAsset (fun _ => true) ["work"] fs asset).Contained ["work"] fs) worker
      [("link","")] :=
  ⟨escapes (by decide +kernel),escapes (by decide +kernel)⟩

example : (saveAsset (fun _ => true) ["work"] worker ("link","")).touched = [["log"]] := by
  decide +kernel

end Fusillade.Cluster.Assets
