import Fusillade.Lib.JsonText
import Fusillade.Lib.Replacement
import Fusillade.Lib.Separators
import Mathlib.Data.List.Perm.Subperm

/-! The parameters of paths in specifications. They are replaced one after the other, where a path
template gives every placeholder its value at once. -/
namespace Fusillade.Cli.PathParams

open Replacement

abbrev Text := List Char

structure Parameter where
  name : String
  sample : Option Json

def braced (name : Text) : Text := '\x7b' :: (name ++ ['\x7d'])

namespace Parameter

def placeholder (param : Parameter) : Text := braced param.name.toList

-- How a number that is no integer is written.
variable (number : ℚ → Text)

def value (param : Parameter) : Text :=
  match param.sample with
  | some (.str text) => text.toList
  | some other => JavaScript.erase (Json.print number other)
  | none => param.name.toList

end Parameter

section Code

variable (number : ℚ → Text)

def resolveParam (resolved : Text) (param : Parameter) : Text :=
  if param.placeholder <:+: resolved then replace param.placeholder (param.value number) resolved else resolved

/-- `resolve_path_params`, for an operation with these parameters. -/
def resolvePathParams (path : String) (parameters : Option (List Parameter)) : Text :=
  match parameters with
  | some params => params.foldl (resolveParam number) path.toList
  | none => path.toList

end Code

/-- A placeholder of a template is a name without braces, in braces. -/
inductive Part where
  | char (c : Char)
  | hole (name : Text)
  deriving DecidableEq

/-- The parts of a template, after a brace and some of a name. -/
def partsAfter : Option Text → Text → List Part
  | none,[] => []
  | some name,[] => .char '\x7b' :: name.map .char
  | none,c :: rest => if c = '\x7b' then partsAfter (some []) rest else .char c :: partsAfter none rest
  | some name,c :: rest =>
    if c = '\x7b' then .char '\x7b' :: (name.map .char ++ partsAfter (some []) rest)
    else if c = '\x7d' then .hole name :: partsAfter none rest
    else partsAfter (some (name ++ [c])) rest

def parts (template : Text) : List Part := partsAfter none template

def holes (name : Text) (template : Text) : Nat := (parts template).count (.hole name)

section Substitution

variable (number : ℚ → Text)

def lookup (params : List Parameter) (name : Text) : Option Text :=
  (params.find? fun param => param.name.toList = name).map (Parameter.value number)

def fill (params : List Parameter) : Part → Text
  | .char c => [c]
  | .hole name => (lookup number params name).getD (braced name)

/-- Every placeholder of a parameter replaced at once, by its value. -/
def substitute (params : List Parameter) (template : Text) : Text := (parts template).flatMap (fill number params)

end Substitution

def Distinct (params : List Parameter) : Prop := (params.map Parameter.name).Nodup

instance (params : List Parameter) : Decidable (Distinct params) := inferInstanceAs (Decidable (List.Nodup _))

section Templates

def Part.text : Part → Text
  | .char c => [c]
  | .hole name => braced name

theorem partsAfter_text (text : Text) :
    (partsAfter none text).flatMap Part.text = text ∧
      ∀ name, (partsAfter (some name) text).flatMap Part.text = '\x7b' :: (name ++ text) := by
  have spelled (name : Text) : (name.map Part.char).flatMap Part.text = name := by
    rw [List.flatMap_map]
    exact List.flatMap_singleton' name
  induction text with
  | nil => exact ⟨rfl,fun name => by simp [partsAfter,Part.text,spelled]⟩
  | cons c text ih =>
    obtain ⟨closed,unclosed⟩ := ih
    refine ⟨?_,fun name => ?_⟩
    · rw [partsAfter]
      split
      next brace => rw [unclosed,brace,List.nil_append]
      next => rw [List.flatMap_cons,closed,Part.text,List.singleton_append]
    · rw [partsAfter]
      split_ifs with opens closes
      · rw [List.flatMap_cons,List.flatMap_append,spelled,unclosed,opens]
        rfl
      · rw [List.flatMap_cons,closed,closes]
        simp [Part.text,braced]
      · rw [unclosed,List.append_assoc,List.singleton_append]

theorem parts_text (template : Text) : (parts template).flatMap Part.text = template := (partsAfter_text template).1

def BraceFree (name : Text) : Prop := '\x7b' ∉ name ∧ '\x7d' ∉ name

theorem partsAfter_braceFree (text : Text) {name : Text} :
    (Part.hole name ∈ partsAfter none text → BraceFree name) ∧
      ∀ begun, BraceFree begun → Part.hole name ∈ partsAfter (some begun) text → BraceFree name := by
  induction text with
  | nil => simp [partsAfter]
  | cons c text ih =>
    obtain ⟨closed,unclosed⟩ := ih
    refine ⟨fun member => ?_,fun begun free member => ?_⟩
    · rw [partsAfter] at member
      split at member
      · exact unclosed [] (by simp [BraceFree]) member
      · exact closed (by simpa using member)
    · rw [partsAfter] at member
      split_ifs at member with opens closes
      · refine unclosed [] (by simp [BraceFree]) ?_
        simpa using member
      · rcases List.mem_cons.mp member with same | later
        · obtain rfl := Part.hole.inj same
          exact free
        · exact closed later
      · refine unclosed (begun ++ [c]) ⟨?_,?_⟩ member
        · simpa [free.1,eq_comm] using opens
        · simpa [free.2,eq_comm] using closes

theorem braceFree_of_hole {template name : Text} (member : Part.hole name ∈ parts template) : BraceFree name :=
  (partsAfter_braceFree template).1 member

theorem braced_ne_nil (name : Text) : braced name ≠ [] := List.cons_ne_nil _ _

theorem unbordered_braced {name : Text} (free : BraceFree name) : Unbordered (braced name) := by
  intro border nonempty front back
  obtain ⟨c,border,rfl⟩ := List.exists_cons_of_ne_nil nonempty
  obtain ⟨rfl,-⟩ := List.cons_prefix_cons.mp front
  rcases List.suffix_cons_iff.mp back with whole | inside
  · exact whole
  · have brace : '\x7b' ∈ name ++ ['\x7d'] := inside.subset List.mem_cons_self
    rcases List.mem_append.mp brace with name | closing
    · exact absurd name free.1
    · exact absurd closing (by decide)

end Templates

section Lookup

variable {params order : List Parameter}

theorem find_iff (distinct : Distinct params) {name : Text} {param : Parameter} :
    params.find? (fun other => other.name.toList = name) = some param ↔ param ∈ params ∧ param.name.toList = name := by
  induction params with
  | nil => simp
  | cons first params ih =>
    obtain ⟨new,rest⟩ := List.nodup_cons.mp distinct
    rw [List.mem_cons]
    by_cases here : first.name.toList = name
    · rw [List.find?_cons_of_pos (by simpa using here),Option.some_inj]
      refine ⟨fun same => same ▸ ⟨.inl rfl,here⟩,?_⟩
      rintro ⟨rfl | later,named⟩
      · rfl
      · have equal : param.name = first.name := String.toList_inj.mp (named.trans here.symm)
        exact absurd (List.mem_map.mpr ⟨param,later,equal⟩) new
    · rw [List.find?_cons_of_neg (by simpa using here),ih rest]
      refine ⟨fun ⟨member,named⟩ => ⟨.inr member,named⟩,?_⟩
      rintro ⟨rfl | later,named⟩
      · exact absurd named here
      · exact ⟨later,named⟩

variable (number : ℚ → Text)

/-- The order of the parameters makes no difference when they are substituted at once. -/
theorem substitute_perm (distinct : Distinct params) (perm : order.Perm params) (template : Text) :
    substitute number order template = substitute number params template := by
  have reordered : Distinct order := (perm.map Parameter.name).nodup_iff.mpr distinct
  have same (name : Text) : lookup number order name = lookup number params name := by
    rw [lookup,lookup]
    refine congrArg _ (Option.ext fun param => ?_)
    rw [find_iff distinct,find_iff reordered,perm.mem_iff]
  refine List.flatMap_congr fun part _ => ?_
  cases part with
  | char c => rfl
  | hole name => rw [fill,fill,same]

theorem lookup_none (name : Text) (absent : ∀ param ∈ params, param.name.toList ≠ name) :
    lookup number params name = none := by
  rw [lookup,List.find?_eq_none.mpr fun param member => by simpa using absent param member]
  rfl

theorem lookup_append (param : Parameter) (name : Text) :
    lookup number (params ++ [param]) name =
      (lookup number params name).or (if param.name.toList = name then some (param.value number) else none) := by
  rw [lookup,lookup,List.find?_append]
  split
  next here =>
    rw [List.find?_cons_of_pos (by simpa using here)]
    cases params.find? fun other => other.name.toList = name <;> rfl
  next different =>
    rw [List.find?_cons_of_neg (by simpa using different)]
    cases params.find? fun other => other.name.toList = name <;> rfl

theorem substitute_nil (template : Text) : substitute number [] template = template := by
  refine Eq.trans (List.flatMap_congr fun part _ => ?_) (parts_text template)
  cases part <;> rfl

end Lookup

section Steps

variable (number : ℚ → Text)

/-- Where the placeholder of a parameter stands in a template with others filled in, the template
has it, or else the value is the placeholder. -/
def Exact (others : List Parameter) (template : Text) (param : Parameter) : Prop :=
  param.value number = param.placeholder ∨
    occurrences param.placeholder (substitute number others template) = holes param.name.toList template

theorem resolveParam_eq (resolved : Text) (param : Parameter) :
    resolveParam number resolved param = replace param.placeholder (param.value number) resolved := by
  rw [resolveParam]
  split
  · rfl
  next absent => exact (replace_absent (braced_ne_nil _) _ absent).symm

theorem substitute_segments (params : List Parameter) {template name : Text} {segments : List (List Part)}
    (cut : parts template = List.intercalate [.hole name] segments) :
    substitute number params template = List.intercalate (fill number params (.hole name))
      (segments.map fun segment => segment.flatMap (fill number params)) := by
  rw [substitute,cut,Separators.flatMap_intercalate]

theorem cut_segments {template name : Text} {segments : List (List Part)}
    (counted : segments.length = holes name template + 1) (texts : List Text) (each : texts.length = segments.length) :
    cut (braced name) (List.intercalate (braced name) texts) = texts.flatMap (cut (braced name)) := by
  have nonempty : texts ≠ [] := List.ne_nil_of_length_pos (by omega)
  by_cases free : BraceFree name
  · exact cut_intercalate (unbordered_braced free) (braced_ne_nil name) nonempty
  · have nothing : holes name template = 0 := List.count_eq_zero.mpr (mt braceFree_of_hole free)
    obtain ⟨text,rfl⟩ := List.length_eq_one_iff.mp (by omega : texts.length = 1)
    simp

/-- **One more parameter is replaced as it is substituted exactly when its placeholder is only
where the template has it.** -/
theorem resolveParam_exact {others : List Parameter} {param : Parameter} (template : Text)
    (new : ∀ other ∈ others, other.name.toList ≠ param.name.toList) :
    resolveParam number (substitute number others template) param = substitute number (others ++ [param]) template ↔
      Exact number others template param := by
  obtain ⟨segments,whole,clear,counted⟩ :=
    Separators.exists_segments (Part.hole param.name.toList) (parts template)
  have kept : fill number others (.hole param.name.toList) = param.placeholder := by
    rw [fill,lookup_none number _ new]
    rfl
  have filled : fill number (others ++ [param]) (.hole param.name.toList) = param.value number := by
    rw [fill,lookup_append,lookup_none number _ new,if_pos rfl]
    rfl
  have between : segments.map (fun segment => segment.flatMap (fill number (others ++ [param]))) =
      segments.map fun segment => segment.flatMap (fill number others) := by
    refine List.map_congr_left fun segment member => List.flatMap_congr fun part inside => ?_
    cases part with
    | char c => rfl
    | hole name =>
      have other : param.name.toList ≠ name := fun same => clear segment member (same ▸ inside)
      rw [fill,fill,lookup_append,if_neg other,Option.or_none]
  have before := substitute_segments number others whole
  have after := substitute_segments number (others ++ [param]) whole
  rw [kept] at before
  rw [filled,between] at after
  have nonempty : param.placeholder ≠ [] := braced_ne_nil _
  have cuts : cut param.placeholder (List.intercalate param.placeholder (segments.map _)) = _ :=
    cut_segments counted (segments.map fun segment => segment.flatMap (fill number others)) (by simp)
  have present : (segments.map fun segment => segment.flatMap (fill number others)) ≠ [] :=
    List.ne_nil_of_length_pos (by simp [counted])
  rw [resolveParam_eq,Exact,after,before,replace_intercalate_iff nonempty present cuts,List.length_map,counted]
  exact or_congr_right (Nat.add_right_cancel_iff)

end Steps

section Runs

variable (number : ℚ → Text) {params order : List Parameter}

theorem resolve_snoc (path : String) (order : List Parameter) (param : Parameter) :
    resolvePathParams number path (some (order ++ [param])) =
      resolveParam number (resolvePathParams number path (some order)) param := List.foldl_append

theorem distinct_of_subperm (chosen : order.Subperm params) (distinct : Distinct params) : Distinct order := by
  obtain ⟨sub,perm,among⟩ := chosen
  exact (perm.map Parameter.name).nodup_iff.mp (distinct.sublist (among.map Parameter.name))

theorem subperm_snoc {param : Parameter} (chosen : (order ++ [param]).Subperm params) (distinct : Distinct params) :
    order.Subperm params ∧ param ∈ params ∧ ∀ other ∈ order, other.name ≠ param.name := by
  have apart := distinct_of_subperm chosen distinct
  rw [Distinct,List.map_append] at apart
  refine ⟨(List.sublist_append_left order [param]).subperm.trans chosen,chosen.subset (by simp),fun other member => ?_⟩
  exact fun same => (List.nodup_append.mp apart).2.2 _ (List.mem_map_of_mem member) _ (by simp) same

theorem resolve_eq (path : String) (distinct : Distinct params)
    (precise : ∀ param ∈ params, ∀ others, others.Sublist params → param ∉ others →
      Exact number others path.toList param)
    (chosen : order.Subperm params) :
    resolvePathParams number path (some order) = substitute number order path.toList := by
  induction order using List.reverseRecOn with
  | nil => exact (substitute_nil number path.toList).symm
  | append_singleton order param ih =>
    obtain ⟨before,member,new⟩ := subperm_snoc chosen distinct
    rw [resolve_snoc,ih before,resolveParam_exact number path.toList fun other inside same =>
      new other inside (String.toList_inj.mp same)]
    obtain ⟨sub,perm,among⟩ := before
    have alone : param ∉ sub := fun inside => new param (perm.mem_iff.mp inside) rfl
    have same := substitute_perm number (distinct.sublist (among.map Parameter.name)) perm.symm path.toList
    have here := precise param member sub among alone
    rw [Exact] at here ⊢
    rwa [same]

/-- **Any of the parameters, in any order, are substituted at once exactly when the placeholder of
each is, with any of the others filled in, only where the template has it.** -/
theorem resolvePathParams_iff (path : String) (distinct : Distinct params) :
    (∀ chosen, chosen.Sublist params → ∀ order, order.Perm chosen →
      resolvePathParams number path (some order) = substitute number chosen path.toList) ↔
    ∀ param ∈ params, ∀ others, others.Sublist params → param ∉ others →
      Exact number others path.toList param := by
  constructor
  · intro resolves param member others among alone
    have apart : (others ++ [param]).Nodup := by
      rw [List.nodup_append_comm]
      exact List.nodup_cons.mpr ⟨alone,(List.Nodup.of_map _ distinct).sublist among⟩
    have inside : (others ++ [param]).Subperm params := apart.subperm (by
      rw [List.append_subset]
      exact ⟨among.subset,by simpa using member⟩)
    have both := subperm_snoc inside distinct
    have names := distinct_of_subperm inside distinct
    obtain ⟨chosen,perm,drawn⟩ := inside
    rw [← resolveParam_exact number path.toList fun other present same =>
      both.2.2 other present (String.toList_inj.mp same)]
    calc resolveParam number (substitute number others path.toList) param
        = resolveParam number (resolvePathParams number path (some others)) param := by
          rw [resolves others among others (.refl _)]
      _ = resolvePathParams number path (some (others ++ [param])) := (resolve_snoc number path others param).symm
      _ = substitute number chosen path.toList := resolves chosen drawn _ perm.symm
      _ = substitute number (others ++ [param]) path.toList := substitute_perm number names perm path.toList
  · intro precise chosen among order perm
    rw [resolve_eq number path distinct precise ⟨chosen,perm.symm,among⟩]
    exact substitute_perm number (distinct.sublist (among.map Parameter.name)) perm path.toList

end Runs

section Prefixes

variable (number : ℚ → Text)

/-- What has to hold of a parameter after those before it in a list, where names may be given
twice: a name that was filled in has no placeholder left. -/
def ExactAfter (before : List Parameter) (template : Text) (param : Parameter) : Prop :=
  if ∃ other ∈ before, other.name = param.name then
    param.value number = param.placeholder ∨ occurrences param.placeholder (substitute number before template) = 0
  else Exact number before template param

theorem substitute_again {before : List Parameter} {param : Parameter} (template : Text)
    (again : ∃ other ∈ before, other.name = param.name) :
    substitute number (before ++ [param]) template = substitute number before template := by
  obtain ⟨other,member,named⟩ := again
  refine List.flatMap_congr fun part _ => ?_
  cases part with
  | char c => rfl
  | hole name =>
    rw [fill,fill,lookup_append]
    split
    next here =>
      have given : (before.find? fun other => other.name.toList = name).isSome :=
        List.find?_isSome.mpr ⟨other,member,by simpa [named] using here⟩
      obtain ⟨first,found⟩ := Option.isSome_iff_exists.mp given
      rw [lookup,found,Option.map_some,Option.some_or]
    next => rw [Option.or_none]

/-- One more parameter of a list is replaced as it is substituted. -/
theorem resolveParam_exactAfter (before : List Parameter) (template : Text) (param : Parameter) :
    resolveParam number (substitute number before template) param =
        substitute number (before ++ [param]) template ↔ ExactAfter number before template param := by
  rw [ExactAfter]
  split
  next again =>
    rw [substitute_again number template again,resolveParam_eq]
    exact replace_eq_self_iff (braced_ne_nil _)
  next new =>
    exact resolveParam_exact number template fun other member same =>
      new ⟨other,member,String.toList_inj.mp same⟩

/-- **The path is the template with the parameters so far substituted at once, after every one of
them, exactly when the placeholder of each is then only where the template has it.** -/
theorem resolve_stepwise_iff (path : String) (params : List Parameter) :
    (∀ before after, params = before ++ after →
      resolvePathParams number path (some before) = substitute number before path.toList) ↔
    ∀ before param after, params = before ++ param :: after →
      ExactAfter number before path.toList param := by
  constructor
  · rintro stepwise before param after rfl
    have here := stepwise before (param :: after) rfl
    have next := stepwise (before ++ [param]) after (by simp)
    rw [resolve_snoc,here] at next
    exact (resolveParam_exactAfter number before path.toList param).mp next
  · intro exactly before
    induction before using List.reverseRecOn with
    | nil => exact fun _ _ => (substitute_nil number path.toList).symm
    | append_singleton before param ih =>
      rintro after rfl
      rw [resolve_snoc,ih (param :: after) (by simp)]
      exact (resolveParam_exactAfter number before path.toList param).mpr
        (exactly before param after (by simp))

end Prefixes

def named : List Parameter := [⟨"a",some (.str "\x7bb\x7d")⟩,⟨"b",some (.int 1)⟩]

theorem resolvePathParams_iff_named :
    (∀ chosen, chosen.Sublist named → ∀ order, order.Perm chosen →
      resolvePathParams Decimal.display "/\x7ba\x7d/\x7bb\x7d" (some order) =
        substitute Decimal.display chosen "/\x7ba\x7d/\x7bb\x7d".toList) ↔
    ∀ param ∈ named, ∀ others, others.Sublist named → param ∉ others →
      Exact Decimal.display others "/\x7ba\x7d/\x7bb\x7d".toList param :=
  resolvePathParams_iff Decimal.display _ (by decide)

/-- A value is searched for the parameters that follow. -/
theorem value_substituted : ¬∀ (number : ℚ → Text) (path : String) (params : List Parameter), Distinct params →
    ∀ order, order.Perm params →
      resolvePathParams number path (some order) = substitute number params path.toList := by
  intro resolves
  have wrong := resolves Decimal.display "/\x7ba\x7d/\x7bb\x7d" named (by decide) named (.refl _)
  exact absurd wrong (by decide +kernel)

end Fusillade.Cli.PathParams
