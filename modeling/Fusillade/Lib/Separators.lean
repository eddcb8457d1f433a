import Mathlib.Data.List.Basic

/-! Lists cut at an element, or joined with it: when the parts can be told from the whole. -/
namespace Separators

variable {α : Type} {mark : α} {before other after rest : List α}

/-- What comes before the first occurrence of a separator, and what after it. -/
theorem first_separator (free : mark ∉ before) (clear : mark ∉ other) :
    before ++ mark :: after = other ++ mark :: rest ↔ before = other ∧ after = rest := by
  refine ⟨fun same => ?_,fun ⟨front,back⟩ => by rw [front,back]⟩
  induction before generalizing other with
  | nil =>
    cases other with
    | nil => exact ⟨rfl,(List.cons.inj same).2⟩
    | cons c other =>
      obtain rfl := (List.cons.inj same).1
      exact absurd List.mem_cons_self clear
  | cons c before ih =>
    cases other with
    | nil =>
      obtain rfl := (List.cons.inj same).1
      exact absurd List.mem_cons_self free
    | cons d other =>
      obtain ⟨rfl,tail⟩ := List.cons.inj same
      obtain ⟨rfl,rfl⟩ := ih (fun member => free (List.mem_cons_of_mem _ member))
        (fun member => clear (List.mem_cons_of_mem _ member)) tail
      exact ⟨rfl,rfl⟩

/-- The same for the last occurrence. -/
theorem last_separator (free : mark ∉ after) (clear : mark ∉ rest) :
    before ++ mark :: after = other ++ mark :: rest ↔ before = other ∧ after = rest := by
  have mirrored := @first_separator _ mark after.reverse rest.reverse before.reverse other.reverse
    (by simpa using free) (by simpa using clear)
  rw [List.reverse_inj,List.reverse_inj] at mirrored
  rw [and_comm,← mirrored,← List.reverse_inj]
  simp

theorem mem_intercalate {c : α} {parts : List (List α)} (member : c ∈ List.intercalate [mark] parts) :
    c = mark ∨ ∃ part ∈ parts, c ∈ part := by
  induction parts with
  | nil => cases member
  | cons part parts ih =>
    cases parts with
    | nil => exact .inr ⟨part,List.mem_cons_self,by simpa [List.intercalate] using member⟩
    | cons next parts =>
      rw [List.intercalate_cons_cons] at member
      rcases List.mem_append.mp member with here | later
      · rcases List.mem_append.mp here with inside | between
        · exact .inr ⟨part,List.mem_cons_self,inside⟩
        · exact .inl (List.mem_singleton.mp between)
      · exact (ih later).imp_right fun ⟨part,of,inside⟩ => ⟨part,List.mem_cons_of_mem _ of,inside⟩

/-- Parts without the separator can be told from the whole. -/
theorem intercalate_inj [DecidableEq α] {parts others : List (List α)} (free : ∀ part ∈ parts, mark ∉ part)
    (clear : ∀ part ∈ others, mark ∉ part) (nonempty : parts ≠ []) (inhabited : others ≠ []) :
    List.intercalate [mark] parts = List.intercalate [mark] others ↔ parts = others := by
  refine ⟨fun same => ?_,congrArg _⟩
  rw [← List.splitOn_intercalate mark free nonempty,← List.splitOn_intercalate mark clear inhabited,same]

/-- Every list is cut at an element. -/
theorem exists_segments [DecidableEq α] (mark : α) (whole : List α) :
    ∃ segments : List (List α), whole = List.intercalate [mark] segments ∧ (∀ segment ∈ segments, mark ∉ segment) ∧
      segments.length = whole.count mark + 1 := by
  induction whole with
  | nil => exact ⟨[[]],rfl,by simp,rfl⟩
  | cons c whole ih =>
    obtain ⟨segments,rfl,clear,counted⟩ := ih
    obtain ⟨segment,segments,rfl⟩ := List.exists_cons_of_length_eq_add_one counted
    by_cases here : c = mark
    · subst here
      refine ⟨[] :: segment :: segments,by simp [List.intercalate_cons_cons],?_,?_⟩
      · exact List.forall_mem_cons.mpr ⟨List.not_mem_nil,clear⟩
      · rw [List.length_cons,counted,List.count_cons_self]
    · obtain ⟨first,others⟩ := List.forall_mem_cons.mp clear
      refine ⟨(c :: segment) :: segments,?_,List.forall_mem_cons.mpr ⟨?_,others⟩,?_⟩
      · cases segments <;> simp [List.intercalate_cons_cons]
      · simp [first,Ne.symm here]
      · rw [List.count_cons_of_ne here]
        exact counted

theorem flatMap_intercalate {β : Type} (f : α → List β) (mark : α) (segments : List (List α)) :
    (List.intercalate [mark] segments).flatMap f =
      List.intercalate (f mark) (segments.map fun segment => segment.flatMap f) := by
  induction segments with
  | nil => rfl
  | cons segment segments ih =>
    cases segments with
    | nil => simp
    | cons next segments =>
      rw [List.intercalate_cons_cons,List.flatMap_append,ih]
      simp [List.intercalate_cons_cons]

end Separators
