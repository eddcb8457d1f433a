import Mathlib.Data.List.Infix

/-! Texts as lists of code units, and the ASCII characters in them. -/
namespace CodeUnits

abbrev Text := List Nat

abbrev code (c : Char) : Nat := c.toNat

def ascii (s : String) : Text := s.toList.map code

def lower (c : Nat) : Nat := if code 'A' ≤ c ∧ c ≤ code 'Z' then c + 32 else c

/-- The text is the lower-case word, in any case. -/
def spells (text : Text) (word : String) : Bool := text.map lower == ascii word

theorem infix_of_mark {pattern before after : Text} {mark : Nat} (outside : mark ∉ pattern)
    (inside : pattern <:+: before ++ mark :: after) : pattern <:+: before ∨ pattern <:+: after := by
  obtain ⟨front,back,same⟩ := inside
  rw [List.append_assoc] at same
  rcases List.append_eq_append_iff.mp same with ⟨more,beginning,rest⟩ | ⟨more,opening,rest⟩
  · rcases List.append_eq_append_iff.mp rest with ⟨tail,inMore,-⟩ | ⟨tail,across,follows⟩
    · exact .inl ⟨front,tail,by rw [beginning,inMore,List.append_assoc]⟩
    · cases tail with
      | nil =>
        rw [List.append_nil] at across
        exact .inl ⟨front,[],by rw [beginning,across,List.append_nil]⟩
      | cons c tail =>
        obtain ⟨rfl,-⟩ := List.cons.inj follows
        exact absurd (by rw [across]; simp) outside
  · cases more with
    | nil =>
      cases pattern with
      | nil => exact .inr List.nil_infix
      | cons c pattern =>
        obtain ⟨rfl,-⟩ := List.cons.inj rest
        exact absurd List.mem_cons_self outside
    | cons c more =>
      obtain ⟨rfl,later⟩ := List.cons.inj rest
      exact .inr ⟨more,back,by rw [List.append_assoc]; exact later.symm⟩

end CodeUnits
