import Mathlib.Data.List.Sort

/-! Maps as lists of entries in the strict order of their keys. The entries of such a list
say what the list is. -/
namespace SortedEntries

variable {κ ν : Type} [LinearOrder κ]

/-- At its place, over an entry of the same key. -/
def insert (key : κ) (value : ν) : List (κ × ν) → List (κ × ν)
  | [] => [(key,value)]
  | entry :: rest =>
    if key < entry.1 then (key,value) :: entry :: rest
    else if entry.1 < key then entry :: insert key value rest
    else (key,value) :: rest

def Sorted (entries : List (κ × ν)) : Prop := entries.Pairwise fun a b => a.1 < b.1

variable {entries others : List (κ × ν)} {key : κ} {value : ν} {entry : κ × ν}

theorem sorted_nil : Sorted ([] : List (κ × ν)) := List.Pairwise.nil

theorem Sorted.filter (sorted : Sorted entries) (p : κ × ν → Bool) : Sorted (entries.filter p) :=
  List.Pairwise.filter p sorted

theorem mem_insert (sorted : Sorted entries) :
    entry ∈ insert key value entries ↔ entry = (key,value) ∨ entry ∈ entries ∧ entry.1 ≠ key := by
  induction entries with
  | nil => simp [insert]
  | cons first rest ih =>
    obtain ⟨above,sorted⟩ := List.pairwise_cons.mp sorted
    unfold insert
    split
    next before =>
      have others : ∀ entry ∈ first :: rest, entry.1 ≠ key := by
        intro entry member
        rcases List.mem_cons.mp member with rfl | later
        · exact before.ne'
        · exact (before.trans (above entry later)).ne'
      rw [List.mem_cons]
      exact or_congr_right (iff_self_and.mpr (others entry))
    next notBefore =>
      split
      next after =>
        rw [List.mem_cons,List.mem_cons,ih sorted]
        constructor
        · rintro (rfl | here | ⟨later,other⟩)
          · exact .inr ⟨.inl rfl,after.ne⟩
          · exact .inl here
          · exact .inr ⟨.inr later,other⟩
        · rintro (here | ⟨rfl | later,other⟩)
          · exact .inr (.inl here)
          · exact .inl rfl
          · exact .inr (.inr ⟨later,other⟩)
      next notAfter =>
        obtain same : first.1 = key := le_antisymm (not_lt.mp notBefore) (not_lt.mp notAfter)
        rw [List.mem_cons,List.mem_cons]
        constructor
        · rintro (here | later)
          · exact .inl here
          · exact .inr ⟨.inr later,same ▸ (above entry later).ne'⟩
        · rintro (here | ⟨rfl | later,other⟩)
          · exact .inl here
          · exact absurd same other
          · exact .inr later

theorem sorted_insert (sorted : Sorted entries) (key : κ) (value : ν) :
    Sorted (insert key value entries) := by
  induction entries with
  | nil => exact List.pairwise_singleton _ _
  | cons first rest ih =>
    obtain ⟨above,later⟩ := List.pairwise_cons.mp sorted
    unfold insert
    split
    next before =>
      refine List.pairwise_cons.mpr ⟨?_,sorted⟩
      intro entry member
      rcases List.mem_cons.mp member with rfl | inRest
      · exact before
      · exact before.trans (above entry inRest)
    next notBefore =>
      split
      next after =>
        refine List.pairwise_cons.mpr ⟨?_,ih later⟩
        intro entry member
        rcases (mem_insert later).mp member with rfl | ⟨inRest,-⟩
        · exact after
        · exact above entry inRest
      next notAfter =>
        obtain same : first.1 = key := le_antisymm (not_lt.mp notBefore) (not_lt.mp notAfter)
        exact List.pairwise_cons.mpr ⟨same ▸ above,later⟩

theorem Sorted.nodup (sorted : Sorted entries) : entries.Nodup :=
  List.Pairwise.imp (fun before => fun same => absurd (same ▸ before) (lt_irrefl _)) sorted

theorem Sorted.keys_nodup (sorted : Sorted entries) : (entries.map Prod.fst).Nodup :=
  List.Pairwise.map _ (fun _ _ before => before.ne) sorted

/-- An entry is known by its key. -/
theorem Sorted.unique (sorted : Sorted entries) {other : ν} (here : (key,value) ∈ entries)
    (there : (key,other) ∈ entries) : value = other := by
  induction entries with
  | nil => simp at here
  | cons first rest ih =>
    obtain ⟨above,later⟩ := List.pairwise_cons.mp sorted
    rcases List.mem_cons.mp here with rfl | hereLater
    · rcases List.mem_cons.mp there with same | thereLater
      · exact (congrArg Prod.snd same).symm
      · exact absurd (above _ thereLater) (lt_irrefl _)
    · rcases List.mem_cons.mp there with rfl | thereLater
      · exact absurd (above _ hereLater) (lt_irrefl _)
      · exact ih later hereLater thereLater

theorem Sorted.ext (sorted : Sorted entries) (sorted' : Sorted others)
    (same : ∀ entry, entry ∈ entries ↔ entry ∈ others) : entries = others := by
  have perm : entries.Perm others := (List.perm_ext_iff_of_nodup sorted.nodup sorted'.nodup).mpr same
  exact perm.eq_of_pairwise (fun a b _ _ before after => absurd (before.trans after) (lt_irrefl _))
    sorted sorted'

/-- Entries with distinct keys may come in any order. -/
theorem foldl_insert {given : List (κ × ν)} (distinct : (given.map Prod.fst).Nodup)
    (sorted : Sorted entries) (apart : ∀ entry ∈ given, ∀ old ∈ entries, old.1 ≠ entry.1) :
    Sorted (given.foldl (fun entries entry => insert entry.1 entry.2 entries) entries) ∧
      ∀ entry, entry ∈ given.foldl (fun entries entry => insert entry.1 entry.2 entries) entries ↔
        entry ∈ entries ∨ entry ∈ given := by
  induction given generalizing entries with
  | nil => exact ⟨sorted,fun entry => by simp⟩
  | cons first rest ih =>
    obtain ⟨fresh,distinct⟩ := List.nodup_cons.mp distinct
    obtain ⟨here,after⟩ := List.forall_mem_cons.mp apart
    have next := sorted_insert sorted first.1 first.2
    obtain ⟨final,members⟩ := ih distinct next (by
      intro entry member old inserted
      rcases (mem_insert sorted).mp inserted with rfl | ⟨before,-⟩
      · exact fun same => fresh (same ▸ List.mem_map_of_mem member)
      · exact after entry member old before)
    refine ⟨final,fun entry => ?_⟩
    rw [List.foldl_cons,members,mem_insert sorted,List.mem_cons]
    constructor
    · rintro ((same | ⟨old,-⟩) | later)
      · exact .inr (.inl same)
      · exact .inl old
      · exact .inr (.inr later)
    · rintro (old | same | later)
      · exact .inl (.inr ⟨old,here entry old⟩)
      · exact .inl (.inl same)
      · exact .inr later

/-- A list of entries is built from them in any order. -/
theorem Sorted.foldl_insert_perm (sorted : Sorted entries) (perm : others.Perm entries) :
    others.foldl (fun entries entry => insert entry.1 entry.2 entries) [] = entries := by
  have distinct : (others.map Prod.fst).Nodup := (perm.map _).nodup_iff.mpr sorted.keys_nodup
  obtain ⟨built,members⟩ := @foldl_insert κ ν _ [] others distinct sorted_nil (by simp)
  refine built.ext sorted fun entry => ?_
  rw [members,perm.mem_iff]
  simp

section Rebuild

variable {ε : Type}

/-- Entries inserted one after the other as what they are converted to. A conversion may pass
over an entry, and the first error ends the loop. -/
def rebuild (convert : κ × ν → Option (Except ε ν)) :
    List (κ × ν) → List (κ × ν) → Except ε (List (κ × ν))
  | [],built => .ok built
  | entry :: rest,built =>
    match convert entry with
    | none => rebuild convert rest built
    | some (.error error) => .error error
    | some (.ok value) => rebuild convert rest (insert entry.1 value built)

variable {convert : κ × ν → Option (Except ε ν)} {order built result : List (κ × ν)}

theorem rebuild_eq_foldl (kept : ∀ entry ∈ order, convert entry = some (.ok entry.2)) :
    rebuild convert order built =
      .ok (order.foldl (fun entries entry => insert entry.1 entry.2 entries) built) := by
  induction order generalizing built with
  | nil => rfl
  | cons entry rest ih =>
    obtain ⟨here,later⟩ := List.forall_mem_cons.mp kept
    rw [rebuild,here]
    exact ih later

/-- What was not there before comes from an entry of its key. -/
theorem of_mem_rebuild (sorted : Sorted built) (ok : rebuild convert order built = .ok result)
    (member : entry ∈ result) : entry ∈ built ∨
      ∃ given ∈ order, given.1 = entry.1 ∧ convert given = some (.ok entry.2) := by
  induction order generalizing built with
  | nil =>
    obtain rfl := Except.ok.inj ok
    exact .inl member
  | cons first rest ih =>
    unfold rebuild at ok
    split at ok
    next skipped =>
      rcases ih sorted ok with before | ⟨given,later,origin⟩
      · exact .inl before
      · exact .inr ⟨given,List.mem_cons_of_mem _ later,origin⟩
    next => cases ok
    next value converted =>
      rcases ih (sorted_insert sorted first.1 value) ok with inserted | ⟨given,later,origin⟩
      · rcases (mem_insert sorted).mp inserted with rfl | ⟨before,-⟩
        · exact .inr ⟨first,List.mem_cons_self,rfl,converted⟩
        · exact .inl before
      · exact .inr ⟨given,List.mem_cons_of_mem _ later,origin⟩

/-- A list of entries is rebuilt, in whatever order they come, exactly when the conversion
gives every entry its own value. -/
theorem rebuild_iff (sorted : Sorted entries) (perm : order.Perm entries) :
    rebuild convert order [] = .ok entries ↔
      ∀ entry ∈ entries, convert entry = some (.ok entry.2) := by
  constructor
  · intro ok entry member
    rcases of_mem_rebuild sorted_nil ok member with before | ⟨given,origin,key,converted⟩
    · simp at before
    · have there : (entry.1,given.2) ∈ entries := key ▸ perm.mem_iff.mp origin
      have same : given = entry := Prod.ext key (sorted.unique there member)
      exact same ▸ converted
  · intro kept
    rw [rebuild_eq_foldl fun entry member => kept entry (perm.mem_iff.mp member)]
    exact congrArg Except.ok (sorted.foldl_insert_perm perm)

end Rebuild

end SortedEntries
