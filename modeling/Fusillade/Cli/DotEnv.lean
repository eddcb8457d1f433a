import Fusillade.Bridge.SharedCsv
import Fusillade.Engine.CommandLine

/-! The environment of a script: the variables of the process, those that a `.env` file adds to
them before a run, and what `__ENV` shows of them. All names and values are Unicode: `env::vars`
panics on a variable that is not. -/
namespace Fusillade.Cli.DotEnv

open FiniteMap Stats Utils
open Engine.CommandLine (splitEquals splitEquals_eq_some)
open Bridge.Data (lines)

abbrev Text := List Char

abbrev Environment := FiniteMap Text Text

def trimMatches (c : Char) (text : Text) : Text := (text.dropWhile (· == c)).rdropWhile (· == c)

def assignment (line : Text) : Option (Text × Text) :=
  let line := trim line
  if line = [] ∨ line.head? = some '#' then none
  else (splitEquals line).map fun (key,value) => (trim key,trimMatches '\'' (trimMatches '"' (trim value)))

/-- What `set_var` does not panic on. -/
def Settable (key value : Text) : Prop :=
  key ≠ [] ∧ '=' ∉ key ∧ '\x00' ∉ key ∧ '\x00' ∉ value

instance (key value : Text) : Decidable (Settable key value) := inferInstanceAs (Decidable (_ ∧ _))

def assign (env : Environment) (entry : Text × Text) : Option Environment :=
  if entry.1 ∈ env then some env
  else if Settable entry.1 entry.2 then some (env.insert entry.1 entry.2)
  else none

inductive EnvFile where
  | missing
  | unreadable
  | text (contents : Text)

def assignments (contents : Text) : List (Text × Text) := (lines contents).filterMap assignment

def assigned : List EnvFile → List (Text × Text)
  | [] => []
  | .missing :: rest => assigned rest
  | .unreadable :: _ => []
  | .text contents :: _ => assignments contents

def loadDotEnv (files : List EnvFile) (env : Environment) : Option Environment :=
  (assigned files).foldlM assign env

def exposed (envPassthrough : Bool) (key : Text) : Bool :=
  envPassthrough || "FUSILLADE_".toList.isPrefixOf key || "K6_".toList.isPrefixOf key

/-- The object `__ENV`, for the variables in the order in which they are listed. -/
def registerEnv (envPassthrough : Bool) (vars : List (Text × Text)) : Environment :=
  vars.foldl (fun env_obj entry =>
    if exposed envPassthrough entry.1 then env_obj.insert entry.1 entry.2 else env_obj) ∅

/-- Some variable that is not there is first assigned to in a way that panics. -/
def Panics (env : Environment) (entries : List (Text × Text)) : Prop :=
  ∃ key value, key ∉ env ∧ entries.lookup key = some value ∧ ¬Settable key value

theorem panics_cons_mem {env : Environment} {entry : Text × Text} {entries : List (Text × Text)}
    (there : entry.1 ∈ env) : Panics env (entry :: entries) ↔ Panics env entries := by
  refine exists_congr fun key => exists_congr fun value => and_congr_right fun absent => ?_
  have other : (key == entry.1) = false := beq_eq_false_iff_ne.mpr fun same => absent (same ▸ there)
  rw [List.lookup_cons,other]

theorem panics_cons_insert {env : Environment} {key value : Text} {entries : List (Text × Text)}
    (absent : key ∉ env) (settable : Settable key value) :
    Panics env ((key,value) :: entries) ↔ Panics (env.insert key value) entries := by
  refine exists_congr fun other => exists_congr fun found => ?_
  rw [Finmap.mem_insert,List.lookup_cons]
  by_cases same : other = key
  · subst same
    simp only [beq_self_eq_true,true_or,not_true,false_and,iff_false,Option.some.injEq]
    rintro ⟨-,rfl,refused⟩
    exact refused settable
  · simp only [beq_eq_false_iff_ne.mpr same,same,false_or]

/-- What was there stays; of the assignments to another variable the first one counts. -/
theorem assign_all (env : Environment) (entries : List (Text × Text)) :
    (entries.foldlM assign env = none ↔ Panics env entries) ∧
      ∀ after, entries.foldlM assign env = some after →
        ∀ key, after.lookup key = (env.lookup key).or (entries.lookup key) := by
  induction entries generalizing env with
  | nil =>
    refine ⟨⟨nofun,fun ⟨_,_,_,found,_⟩ => nomatch found⟩,fun after same key => ?_⟩
    rw [← Option.some.inj same,List.lookup_nil,Option.or_none]
  | cons entry entries ih =>
    obtain ⟨name,value⟩ := entry
    rw [List.foldlM_cons,assign]
    split
    next there =>
      rw [Option.bind_eq_bind,Option.bind_some,panics_cons_mem there]
      refine ⟨(ih env).1,fun after loaded key => ?_⟩
      rw [(ih env).2 after loaded,List.lookup_cons]
      by_cases same : key = name
      · obtain ⟨old,found⟩ := Finmap.mem_iff.mp there
        rw [same,found]
        rfl
      · rw [beq_eq_false_iff_ne.mpr same]
    next absent =>
      split
      next settable =>
        rw [Option.bind_eq_bind,Option.bind_some,panics_cons_insert absent settable]
        refine ⟨(ih _).1,fun after loaded key => ?_⟩
        rw [(ih _).2 after loaded,lookup_insert,List.lookup_cons]
        by_cases same : key = name
        · subst same
          rw [if_pos rfl,Finmap.lookup_eq_none.mpr absent,beq_self_eq_true]
          rfl
        · rw [if_neg same,beq_eq_false_iff_ne.mpr same]
      next refused =>
        have panics : Panics env ((name,value) :: entries) := ⟨name,value,absent,by simp,refused⟩
        exact ⟨iff_of_true rfl panics,nofun⟩

theorem registerEnv_eq_some {envPassthrough : Bool} {vars : List (Text × Text)}
    (distinct : (vars.map Prod.fst).Nodup) {key value : Text} :
    (registerEnv envPassthrough vars).lookup key = some value ↔
      exposed envPassthrough key ∧ (key,value) ∈ vars := by
  induction vars using List.reverseRecOn with
  | nil => simp [registerEnv]
  | append_singleton vars entry ih =>
    obtain ⟨name,found⟩ := entry
    rw [List.map_append,List.nodup_append] at distinct
    obtain ⟨distinct,-,apart⟩ := distinct
    specialize ih distinct
    have fresh (value : Text) : (name,value) ∉ vars := fun member =>
      apart name (List.mem_map.mpr ⟨_,member,rfl⟩) name (by simp) rfl
    rw [registerEnv,List.foldl_append,← registerEnv,List.foldl_cons,List.foldl_nil,List.mem_append,
      List.mem_singleton,Prod.mk.injEq]
    split
    next shown =>
      rw [lookup_insert]
      by_cases same : key = name
      · subst same
        simp [shown,fresh,eq_comm]
      · simp [same,ih]
    next hidden =>
      rw [ih]
      refine and_congr_right fun shown => ?_
      have other : key ≠ name := fun same => hidden (same ▸ shown)
      simp [other]

/-- A run starts unless some variable that is not there is first assigned to in a way that
panics; and then `__ENV` shows the variables of the process, with the first assignments to others
that the first file there is makes, under the names that are exposed. -/
theorem script_env (files : List EnvFile) (env : Environment) :
    (loadDotEnv files env = none ↔ ∃ key value, key ∉ env ∧ (assigned files).lookup key = some value ∧
      ¬Settable key value) ∧
    ∀ after vars, loadDotEnv files env = some after → Lists after vars → ∀ envPassthrough key,
      (registerEnv envPassthrough vars).lookup key =
        if exposed envPassthrough key then (env.lookup key).or ((assigned files).lookup key) else none := by
  refine ⟨(assign_all env (assigned files)).1,fun after vars loaded lists envPassthrough key => ?_⟩
  rw [← (assign_all env (assigned files)).2 after loaded key]
  refine Option.ext fun value => ?_
  rw [registerEnv_eq_some lists.nodup,← lists.lookup]
  split
  next shown => simp [shown]
  next hidden => simp [hidden]

def shell : Environment := (∅ : Environment).insert "K6_USER".toList "guest".toList

def settings : Text :=
  "# local\nK6_HOST = 'localhost'\nK6_HOST=example\n\nK6_USER=\"admin\"\nno assignment\nSECRET=x=y".toList

/-- Of the two hosts the first is taken, the user of the process stays, and the secret is not shown
unless all variables are. -/
theorem settings_env : ∃ after, loadDotEnv [.missing,.text settings,.unreadable] shell = some after ∧
    ∀ vars, Lists after vars →
      (registerEnv false vars).lookup "K6_HOST".toList = some "localhost".toList ∧
      (registerEnv false vars).lookup "K6_USER".toList = some "guest".toList ∧
      (registerEnv false vars).lookup "SECRET".toList = none ∧
      (registerEnv true vars).lookup "SECRET".toList = some "x=y".toList := by
  have starts : (loadDotEnv [.missing,.text settings,.unreadable] shell).isSome = true := by decide +kernel
  obtain ⟨after,loaded⟩ := Option.isSome_iff_exists.mp starts
  refine ⟨after,loaded,fun vars lists => ?_⟩
  have shown := (script_env _ shell).2 after vars loaded lists
  rw [shown,shown,shown,shown]
  decide +kernel

/-- A variable that can be written on a line of its own, between double quotes. -/
structure Writable (entry : Text × Text) : Prop where
  trimmed : trim entry.1 = entry.1
  noComment : entry.1.head? ≠ some '#'
  noEquals : '=' ∉ entry.1
  oneLine : '\n' ∉ entry.1 ∧ '\n' ∉ entry.2
  starts : ∀ c ∈ entry.2.head?, c ≠ '"' ∧ c ≠ '\''
  ends : ∀ c ∈ entry.2.getLast?, c ≠ '"' ∧ c ≠ '\''

def written (entry : Text × Text) : Text := entry.1 ++ '=' :: '"' :: (entry.2 ++ ['"'])

def write (entries : List (Text × Text)) : Text := entries.flatMap fun entry => written entry ++ ['\n']

section

variable {c d : Char} {key value text : Text} {entry : Text × Text} {entries : List (Text × Text)}

theorem trimMatches_sublist (c : Char) (text : Text) : (trimMatches c text).Sublist text :=
  (List.rdropWhile_prefix _ _).sublist.trans (List.dropWhile_sublist _)

theorem trimMatches_eq_self : trimMatches c text = text ↔
    (∀ d ∈ text.head?, d ≠ c) ∧ ∀ d ∈ text.getLast?, d ≠ c := by
  cases text with
  | nil => simp [trimMatches]
  | cons first rest =>
    by_cases quote : first = c
    · have shorter : (trimMatches c (first :: rest)).length ≤ rest.length := by
        rw [trimMatches,List.dropWhile_cons_of_pos (by simp [quote])]
        exact (trimMatches_sublist c rest).length_le
      refine iff_of_false (fun same => ?_) (by simp [quote])
      rw [same,List.length_cons] at shorter
      omega
    · rw [trimMatches,List.dropWhile_cons_of_neg (by simp [quote]),List.rdropWhile_eq_self_iff]
      simp [quote,List.getLast?_eq_some_getLast]

theorem trimMatches_both : trimMatches d (trimMatches c text) = text ↔
    trimMatches c text = text ∧ trimMatches d text = text := by
  constructor
  · intro same
    have inner := trimMatches_sublist c text
    have whole : text.length ≤ (trimMatches c text).length := by
      have outer := (trimMatches_sublist d (trimMatches c text)).length_le
      rwa [same] at outer
    have first := inner.eq_of_length_le whole
    exact ⟨first,by rwa [first] at same⟩
  · rintro ⟨first,second⟩
    rw [first,second]

theorem trimMatches_quoted (c : Char) (text : Text) : trimMatches c (c :: (text ++ [c])) = trimMatches c text := by
  rw [trimMatches,List.dropWhile_cons_of_pos (by simp),List.dropWhile_append]
  split
  next quotesOnly =>
    rw [trimMatches,List.isEmpty_iff.mp quotesOnly]
    simp
  next => rw [List.rdropWhile_concat_pos _ _ _ (by simp),trimMatches]

theorem ink_of_trimmed (trimmed : trim (c :: text) = c :: text) : isWhitespace c = false := by
  by_contra blank
  rw [Bool.not_eq_false] at blank
  have shorter : (trim (c :: text)).length ≤ text.length := by
    rw [trim,List.dropWhile_cons_of_pos blank,List.length_reverse]
    exact (List.dropWhile_sublist _).length_le.trans (by simpa using (List.dropWhile_sublist _).length_le)
  rw [trimmed,List.length_cons] at shorter
  omega

/-- Only the quotes can make a difference to the value. -/
theorem assignment_written (trimmed : trim entry.1 = entry.1) (noEquals : '=' ∉ entry.1) :
    assignment (written entry) = if entry.1.head? = some '#' then none
      else some (entry.1,trimMatches '\'' (trimMatches '"' entry.2)) := by
  obtain ⟨key,value⟩ := entry
  have whole : trim (written (key,value)) = written (key,value) := by
    cases key with
    | nil => exact @trim_eq_self _ _ (value.reverse ++ ['"','=']) '=' '"' rfl (by simp [written]) rfl rfl
    | cons first rest =>
      refine @trim_eq_self _ _ ((first :: rest ++ '=' :: '"' :: value).reverse) first '"' rfl ?_ (ink_of_trimmed trimmed) rfl
      simp [written]
  have quoted : trim ('"' :: (value ++ ['"'])) = '"' :: (value ++ ['"']) :=
    @trim_eq_self _ _ ('"' :: value).reverse '"' '"' rfl (by simp) rfl rfl
  have start : (written (key,value)).head? = some '#' ↔ key.head? = some '#' := by
    cases key <;> simp [written]
  have cut : splitEquals (written (key,value)) = some (key,'"' :: (value ++ ['"'])) :=
    splitEquals_eq_some.mpr ⟨rfl,noEquals⟩
  have nonempty : written (key,value) ≠ [] := by simp [written]
  simp only [assignment,whole,nonempty,false_or,start,cut,Option.map_some,trimmed,quoted,trimMatches_quoted]

/-- What a line assigns has a trimmed name without an equals sign, and no more characters than the line. -/
theorem assignment_eq_some {line : Text} (assigns : assignment line = some entry) :
    trim entry.1 = entry.1 ∧ '=' ∉ entry.1 ∧ (∀ c ∈ entry.1, c ∈ line) ∧ ∀ c ∈ entry.2, c ∈ line := by
  unfold assignment at assigns
  dsimp only at assigns
  split at assigns
  next => cases assigns
  next =>
    obtain ⟨⟨key,value⟩,cut,rfl⟩ := Option.map_eq_some_iff.mp assigns
    obtain ⟨whole,free⟩ := splitEquals_eq_some.mp cut
    have onLine (c : Char) (member : c ∈ key ++ '=' :: value) : c ∈ line := mem_of_mem_trim (whole ▸ member)
    refine ⟨trim_trim key,fun member => free (mem_of_mem_trim member),fun c member => ?_,fun c member => ?_⟩
    · exact onLine c (List.mem_append_left _ (mem_of_mem_trim member))
    · have inside := (trimMatches_sublist _ _).mem ((trimMatches_sublist _ _).mem member)
      exact onLine c (List.mem_append_right _ (List.mem_cons_of_mem _ (mem_of_mem_trim inside)))

theorem lines_write (oneLine : ∀ entry ∈ entries, '\n' ∉ entry.1 ∧ '\n' ∉ entry.2) :
    lines (write entries) = entries.map written := by
  induction entries with
  | nil => rfl
  | cons entry entries ih =>
    obtain ⟨here,later⟩ := List.forall_mem_cons.mp oneLine
    have inside : '\n' ∉ written entry := by simp [written,here]
    have quoted : (written entry).getLast? ≠ some '\r' := by
      have whole : written entry = (entry.1 ++ '=' :: '"' :: entry.2) ++ ['"'] := by simp [written]
      rw [whole,List.getLast?_concat]
      decide
    rw [write,List.flatMap_cons,← write,lines,List.append_assoc,List.singleton_append,
      Bridge.Replay.linesFrom_append,Bridge.Replay.linesFrom_ended inside quoted,List.map_append,← lines,ih later]
    simp

theorem assignment_written_iff (oneLine : '\n' ∉ entry.1 ∧ '\n' ∉ entry.2) :
    assignment (written entry) = some entry ↔ Writable entry := by
  have ends : trimMatches '\'' (trimMatches '"' entry.2) = entry.2 ↔
      (∀ c ∈ entry.2.head?, c ≠ '"' ∧ c ≠ '\'') ∧ ∀ c ∈ entry.2.getLast?, c ≠ '"' ∧ c ≠ '\'' := by
    rw [trimMatches_both,trimMatches_eq_self,trimMatches_eq_self]
    grind
  constructor
  · intro assigns
    obtain ⟨trimmed,noEquals,-⟩ := assignment_eq_some assigns
    rw [assignment_written trimmed noEquals] at assigns
    split at assigns
    next => cases assigns
    next noComment =>
      obtain ⟨starts,ends⟩ := ends.mp (congrArg Prod.snd (Option.some.inj assigns))
      exact ⟨trimmed,noComment,noEquals,oneLine,starts,ends⟩
  · intro writable
    rw [assignment_written writable.trimmed writable.noEquals,if_neg writable.noComment,
      ends.mpr ⟨writable.starts,writable.ends⟩]

theorem filterMap_eq_self {α : Type} {f : α → Option α} {items : List α} (same : items.filterMap f = items) :
    ∀ item ∈ items, f item = some item := by
  induction items with
  | nil => nofun
  | cons item items ih =>
    rw [List.filterMap_cons] at same
    split at same
    next =>
      have shorter := List.length_filterMap_le f items
      rw [same,List.length_cons] at shorter
      omega
    next other kept =>
      obtain ⟨rfl,rest⟩ := List.cons.inj same
      exact List.forall_mem_cons.mpr ⟨kept,ih rest⟩

/-- A file of variables between quotes is read as just these if and only if they can be written so:
names are trimmed and start no comment, no quote is at an end of a value, and nothing goes over
lines. -/
theorem written_back_iff (entries : List (Text × Text)) :
    assignments (write entries) = entries ↔ ∀ entry ∈ entries, Writable entry := by
  constructor
  · intro same
    have oneLine : ∀ entry ∈ entries, '\n' ∉ entry.1 ∧ '\n' ∉ entry.2 := by
      intro entry member
      rw [← same] at member
      obtain ⟨line,listed,assigns⟩ := List.mem_filterMap.mp member
      obtain ⟨-,-,name,value⟩ := assignment_eq_some assigns
      have free := Bridge.Data.lines_oneLine listed
      exact ⟨fun inside => free (name _ inside),fun inside => free (value _ inside)⟩
    rw [assignments,lines_write oneLine,List.filterMap_map] at same
    exact fun entry member => (assignment_written_iff (oneLine entry member)).mp (filterMap_eq_self same entry member)
  · intro writable
    rw [assignments,lines_write fun entry member => (writable entry member).oneLine,List.filterMap_map]
    have each : ∀ entry ∈ entries, (assignment ∘ written) entry = some entry := fun entry member =>
      (assignment_written_iff (writable entry member).oneLine).mpr (writable entry member)
    rw [List.filterMap_congr each,List.filterMap_some]

example : assignment "  K6_HOST = 'localhost' ".toList = some ("K6_HOST".toList,"localhost".toList) := by decide

end

end Fusillade.Cli.DotEnv
