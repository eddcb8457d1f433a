import Fusillade.Lib.FiniteMap
import Mathlib.Data.Rat.Defs

/-! JSON trees, and structs read from them the way derived deserializers do. A field is found
under any of its names; `null` counts as missing; two members for one field are an error, and
members that no field is named after are ignored. -/

inductive Json where
  | null
  | bool (value : Bool)
  | int (value : Int)
  | float (value : ℚ)
  | str (text : String)
  | arr (values : List Json)
  | obj (members : List (String × Json))

namespace Json

/-- An object as a map: the first member of a name stands for it. -/
abbrev Members := List (String × Json)

def get : Members → String → Option Json
  | [],_ => none
  | (name,value) :: rest, key => if key = name then some value else get rest key

def remove (members : Members) (key : String) : Members :=
  members.filter fun member => member.1 != key

def insert (members : Members) (key : String) (value : Json) : Members :=
  (key,value) :: remove members key

/-- Put the value of one key under another, when there is one. -/
def move (members : Members) (old new : String) : Members :=
  match get members old with
  | some value => insert (remove members old) new value
  | none => members

/-- The chosen moves of a table, one after the other. -/
def rename (chosen : String × String → Bool) (table : List (String × String)) (members : Members) :
    Members :=
  table.foldl (fun members pair => if chosen pair then move members pair.1 pair.2 else members) members

def nonNull : Json → Option Json
  | .null => none
  | value => some value

/-- Where a struct finds its fields: none when a field is there twice. -/
abbrev Source := List String → Option (Option Json)

def ofObject (members : Members) : Source := fun names =>
  match names.filterMap (get members) with
  | [] => some none
  | [value] => some value.nonNull
  | _ => none

/-- The fields in the order of their declaration. -/
def ofArray (fields : List (List String)) (values : List Json) : Source := fun names =>
  values[fields.idxOf names]?.map nonNull

section Decoders

variable {α : Type} (decode : Json → Option α)

def field (found : Option (Option Json)) : Option (Option α) :=
  match found with
  | some (some value) => (decode value).map some
  | some none => some none
  | none => none

def required (found : Option (Option Json)) : Option α := (field decode found).join

def decodeVec : Json → Option (List α)
  | .arr values => values.mapM decode
  | _ => none

def decodeMembers (members : Members) : Option (List (Sigma fun _ : String => α)) :=
  members.mapM fun member => (decode member.2).map (Sigma.mk member.1)

def decodeMap : Json → Option (FiniteMap String α)
  | .obj members => (decodeMembers decode members).map List.toFinmap
  | _ => none

/-- A struct from an object, and from an array where the format allows it. -/
def decodeStruct (positional : Bool) (fields : List (List String)) (read : Source → Option α) :
    Json → Option α
  | .obj members => read (ofObject members)
  | .arr values =>
    if positional && values.length == fields.length then read (ofArray fields values) else none
  | _ => none

end Decoders

variable {members : Members} {chosen : String × String → Bool} {table : List (String × String)}
  {key : String} {pair : String × String}

theorem get_remove (members : Members) (key other : String) :
    get (remove members key) other = if other = key then none else get members other := by
  induction members with
  | nil => simp [remove,get]
  | cons member rest ih =>
    obtain ⟨name,value⟩ := member
    rw [remove] at ih ⊢
    by_cases gone : name = key
    · subst gone
      by_cases same : other = name
      · simpa [same] using ih
      · simpa [same,get] using ih
    · by_cases same : other = name
      · subst same
        simp [gone,get]
      · simpa [gone,same,get] using ih

theorem get_insert (members : Members) (key other : String) (value : Json) :
    get (insert members key value) other = if other = key then some value else get members other := by
  by_cases same : other = key
  · simp [insert,get,same]
  · simp [insert,get,same,get_remove]

theorem get_move (members : Members) (old new key : String) :
    get (move members old new) key =
      if key = new then (get members old).or (get members new)
      else if key = old then none else get members key := by
  unfold move
  cases found : get members old with
  | some value => simp [get_insert,get_remove]
  | none =>
    by_cases same : key = new
    · simp [same]
    · by_cases there : key = old
      · subst there
        simp [same,found]
      · simp [same,there]

/-- No move of the table touches a key of another one. -/
def Separate (table : List (String × String)) : Prop :=
  table.Pairwise fun p q => p.1 ≠ q.1 ∧ p.1 ≠ q.2 ∧ p.2 ≠ q.1 ∧ p.2 ≠ q.2

theorem get_move_other (members : Members) (chosen : String × String → Bool)
    (fixed : key = pair.1 ↔ key = pair.2) :
    get (if chosen pair then move members pair.1 pair.2 else members) key = get members key := by
  split
  · rw [get_move]
    split
    next here => simp [← fixed.mpr here,← here]
    next elsewhere => rw [if_neg (mt fixed.mp elsewhere)]
  · rfl

/-- A key stays as it is when no pair moves it elsewhere. -/
theorem get_rename_other (fixed : ∀ pair ∈ table, key = pair.1 ↔ key = pair.2) :
    get (rename chosen table members) key = get members key := by
  induction table generalizing members with
  | nil => rfl
  | cons pair rest ih =>
    rw [rename,List.foldl_cons]
    exact (ih fun other member => fixed other (List.mem_cons_of_mem _ member)).trans
      (get_move_other members chosen (fixed pair (List.mem_cons_self ..)))

/-- The keys of a pair are as its own move leaves them. -/
theorem get_rename (separate : Separate table) (member : pair ∈ table)
    (involved : key = pair.1 ∨ key = pair.2) :
    get (rename chosen table members) key =
      if chosen pair then get (move members pair.1 pair.2) key else get members key := by
  induction table generalizing members with
  | nil => simp at member
  | cons first rest ih =>
    obtain ⟨apart,later⟩ := List.pairwise_cons.mp separate
    rw [rename,List.foldl_cons]
    rcases List.mem_cons.mp member with rfl | member
    · refine (get_rename_other fun other inRest => ?_).trans (apply_ite (get · key) _ _ _)
      obtain ⟨oldOld,oldNew,newOld,newNew⟩ := apart other inRest
      rcases involved with rfl | rfl
      · exact iff_of_false oldOld oldNew
      · exact iff_of_false newOld newNew
    · obtain ⟨oldOld,oldNew,newOld,newNew⟩ := apart pair member
      have atOld := get_move_other members chosen (iff_of_false oldOld.symm newOld.symm)
      have atNew := get_move_other members chosen (iff_of_false oldNew.symm newNew.symm)
      have atKey : get (if chosen first then move members first.1 first.2 else members) key =
          get members key := by
        rcases involved with rfl | rfl
        · exact atOld
        · exact atNew
      refine (ih later member).trans ?_
      rw [get_move,get_move,atOld,atNew,atKey]

theorem get_rename_old (separate : Separate table) (member : pair ∈ table)
    (distinct : pair.1 ≠ pair.2) : get (rename chosen table members) pair.1 =
      if chosen pair then none else get members pair.1 := by
  rw [get_rename separate member (.inl rfl),get_move,if_neg distinct,if_pos rfl]

theorem get_rename_new (separate : Separate table) (member : pair ∈ table) :
    get (rename chosen table members) pair.2 =
      if chosen pair then (get members pair.1).or (get members pair.2) else get members pair.2 := by
  rw [get_rename separate member (.inr rfl),get_move,if_pos rfl]

section Decoders

variable {α : Type} {decode : Json → Option α} {members : Members}

theorem ofObject_congr {members' : Members} {names : List String}
    (same : ∀ name ∈ names, get members' name = get members name) :
    ofObject members' names = ofObject members names := by
  have found : names.filterMap (get members') = names.filterMap (get members) :=
    List.filterMap_congr same
  rw [ofObject,ofObject,found]

theorem ofObject_single (members : Members) (name : String) :
    ofObject members [name] = some ((get members name).bind nonNull) := by
  cases found : get members name <;> simp [ofObject,found]

/-- With one of its two names in use, a field is what is there. -/
theorem ofObject_pair (members : Members) (name other : String)
    (once : get members name ≠ none → get members other = none) :
    ofObject members [name,other] =
      some (((get members name).or (get members other)).bind nonNull) := by
  cases found : get members name with
  | none => cases there : get members other <;> simp [ofObject,found,there]
  | some value => simp [ofObject,found,once (by simp [found])]

/-- Two structs with the same fields are read from the same place. -/
theorem decodeStruct_both {β : Type} {positional : Bool} {fields : List (List String)} {read : Source → Option α}
    {other : Source → Option β} {json : Json} {a : α} {b : β} (one : decodeStruct positional fields read json = some a)
    (two : decodeStruct positional fields other json = some b) : ∃ source, read source = some a ∧ other source = some b := by
  cases json with
  | obj members => exact ⟨_,one,two⟩
  | arr values =>
    simp only [decodeStruct] at one two
    split at one
    next fits =>
      rw [if_pos fits] at two
      exact ⟨_,one,two⟩
    next => cases one
  | null | bool _ | int _ | float _ | str _ => cases one

theorem required_both {β : Type} {other : Json → Option β} {found : Option (Option Json)} {a : α} {b : β}
    (one : required decode found = some a) (two : required other found = some b) :
    ∃ json, decode json = some a ∧ other json = some b := by
  rcases found with _ | _ | json
  · cases one
  · cases one
  · have whole {γ : Type} (o : Option γ) : (o.map some).join = o := by cases o <;> rfl
    exact ⟨json,(whole _).symm.trans one,(whole _).symm.trans two⟩

theorem mapM_forall₂ {β : Type} {other : Json → Option β} {R : α → β → Prop}
    (each : ∀ json a b, decode json = some a → other json = some b → R a b) {values : List Json} {as : List α}
    {bs : List β} (one : values.mapM decode = some as) (two : values.mapM other = some bs) : List.Forall₂ R as bs := by
  induction values generalizing as bs with
  | nil =>
    cases one
    cases two
    exact .nil
  | cons value values ih =>
    simp only [List.mapM_cons,Option.bind_eq_bind,Option.bind_eq_some_iff,Option.pure_def,Option.some.injEq] at one two
    obtain ⟨a,first,later,rest,rfl⟩ := one
    obtain ⟨b,first',later',rest',rfl⟩ := two
    exact .cons (each value a b first first') (ih rest rest')

theorem decodeVec_forall₂ {β : Type} {other : Json → Option β} {R : α → β → Prop}
    (each : ∀ json a b, decode json = some a → other json = some b → R a b) {json : Json} {as : List α} {bs : List β}
    (one : decodeVec decode json = some as) (two : decodeVec other json = some bs) : List.Forall₂ R as bs := by
  cases json with
  | arr values => exact mapM_forall₂ each one two
  | null | bool _ | int _ | float _ | str _ | obj _ => cases one

theorem field_eq_some_none {found : Option (Option Json)} :
    field decode found = some none ↔ found = some none := by
  rcases found with _ | _ | value
  · simp [field]
  · simp [field]
  · simp [field]

theorem decodeMembers_cons {member : String × Json} {rest : Members}
    {entries : List (Sigma fun _ : String => α)}
    (decoded : decodeMembers decode (member :: rest) = some entries) :
    ∃ value later, decode member.2 = some value ∧ decodeMembers decode rest = some later ∧
      entries = ⟨member.1,value⟩ :: later := by
  rw [decodeMembers,List.mapM_cons] at decoded
  simp only [Option.bind_eq_bind,Option.bind_eq_some_iff,Option.map_eq_some_iff] at decoded
  obtain ⟨_,⟨value,here,rfl⟩,later,there,same⟩ := decoded
  exact ⟨value,later,here,there,(Option.some.inj same).symm⟩

theorem dlookup_decodeMembers (distinct : (members.map Prod.fst).Nodup)
    {entries : List (Sigma fun _ : String => α)}
    (decoded : decodeMembers decode members = some entries) :
    ∀ member ∈ members, ∃ value, decode member.2 = some value ∧
      entries.dlookup member.1 = some value := by
  induction members generalizing entries with
  | nil => simp
  | cons first rest ih =>
    obtain ⟨value,later,here,there,rfl⟩ := decodeMembers_cons decoded
    obtain ⟨fresh,distinct⟩ := List.nodup_cons.mp distinct
    intro member inside
    rcases List.mem_cons.mp inside with rfl | inside
    · exact ⟨value,here,List.dlookup_cons_eq ..⟩
    · obtain ⟨found,decodes,lookup⟩ := ih distinct there member inside
      refine ⟨found,decodes,?_⟩
      rw [List.dlookup_cons_ne]
      · exact lookup
      · intro same
        exact fresh (List.mem_map.mpr ⟨member,inside,same⟩)

theorem lookup_decodeMap (distinct : (members.map Prod.fst).Nodup) {decoded : FiniteMap String α}
    (accepted : decodeMap decode (.obj members) = some decoded) :
    ∀ member ∈ members, ∃ value, decode member.2 = some value ∧
      decoded.lookup member.1 = some value := by
  obtain ⟨entries,there,rfl⟩ := Option.map_eq_some_iff.mp accepted
  intro member inside
  rw [Finmap.dlookup_list_toFinmap]
  exact dlookup_decodeMembers distinct there member inside

theorem decodeMembers_congr {f g : String × Json → Json}
    (same : ∀ m ∈ members, decode (g m) = decode (f m)) :
    decodeMembers decode (members.map fun m => (m.1,g m)) =
      decodeMembers decode (members.map fun m => (m.1,f m)) := by
  induction members with
  | nil => rfl
  | cons first rest ih =>
    obtain ⟨here,later⟩ := List.forall_mem_cons.mp same
    rw [decodeMembers,decodeMembers] at ih
    simp only [decodeMembers,List.map_cons,List.mapM_cons,here,ih later]

theorem nodup_prepared (distinct : (members.map Prod.fst).Nodup) (f : String × Json → Json) :
    ((members.map fun m => (m.1,f m)).map Prod.fst).Nodup := by
  rw [List.map_map]
  exact distinct

/-- A map is decoded member by member, for two ways to prepare the values. -/
theorem decodeMap_eq_iff (distinct : (members.map Prod.fst).Nodup) (f g : String × Json → Json)
    {decoded : FiniteMap String α}
    (accepted : decodeMap decode (.obj (members.map fun m => (m.1,f m))) = some decoded) :
    decodeMap decode (.obj (members.map fun m => (m.1,g m))) = some decoded ↔
      ∀ m ∈ members, decode (g m) = decode (f m) := by
  have names := nodup_prepared distinct
  constructor
  · intro same m inside
    obtain ⟨before,reads,found⟩ :=
      lookup_decodeMap (names f) accepted (m.1,f m) (List.mem_map_of_mem inside)
    obtain ⟨after,reads',found'⟩ :=
      lookup_decodeMap (names g) same (m.1,g m) (List.mem_map_of_mem inside)
    rw [reads,reads',← found,← found']
  · intro same
    rw [← accepted,decodeMap,decodeMap,decodeMembers_congr same]

end Decoders

end Json
