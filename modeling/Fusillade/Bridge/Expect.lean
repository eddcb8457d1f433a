import Fusillade.Lib.JsValue

/-! `expect(actual).toEqual(expected)` on JSON values: an equality of their serialisations. -/
namespace Fusillade.Bridge.Expect

open JsValue

/-- A JSON value of a script. The numbers are the finite ones, with one zero. -/
structure JsonValue (N : Type) where
  value : Value N
  distinct : Distinct value

section

variable {N : Type} (decimal : N → List Char)

def toEqual (actual expected : JsonValue N) : Except (List Char) Unit :=
  let s1 := stringify decimal actual.value
  let s2 := stringify decimal expected.value
  if s1 = s2 then .ok ()
  else .error ("AssertionError: Expected ".toList ++ s1 ++ " to equal ".toList ++ s2)

def Passes (actual expected : JsonValue N) : Prop := toEqual decimal actual expected = .ok ()

variable {decimal}

theorem passes_iff (prints : Prints decimal) (actual expected : JsonValue N) :
    Passes decimal actual expected ↔
      Same actual.value expected.value ∧ SameOrder actual.value expected.value := by
  rw [← ordered_eq_iff actual.distinct expected.distinct,← stringify_eq_iff prints,Passes,toEqual]
  split
  next same => simpa using same
  next apart => simpa using apart

/-- The expectation is one of structural equality except on equal values whose objects had
their names inserted in different orders. -/
theorem toEqual_iff (prints : Prints decimal) (actual expected : JsonValue N) :
    (Passes decimal actual expected ↔ Same actual.value expected.value) ↔
      (Same actual.value expected.value → SameOrder actual.value expected.value) := by
  rw [passes_iff prints]
  exact and_iff_left_iff_imp

end

theorem nat_prints : Prints Decimal.nat where
  injective m n same := by
    have read (k : Nat) : Nat.ofDigitChars 10 (Decimal.nat k) 0 = k :=
      Nat.ofDigitChars_toDigits (by decide) (by decide)
    rw [← read m,same,read n]
  nonempty := Decimal.nat_ne_nil
  numeric _ _ member := .inl (Nat.isDigit_of_mem_toDigits (by decide) (by decide) member)

def a : Text := [.char 'a']
def b : Text := [.char 'b']

/-- An object with two members. -/
def pair (first second : Text) (apart : [first,second].Nodup) (m n : Nat) : JsonValue Nat where
  value := .object [(first,.number m),(second,.number n)]
  distinct := .object apart (by
    simp only [List.mem_cons,List.not_mem_nil,or_false,forall_eq_or_imp,forall_eq]
    exact ⟨.scalar (by simp [Value.kind]) (by simp [Value.kind]),.scalar (by simp [Value.kind]) (by simp [Value.kind])⟩)

/-- Names in one order, where the expectation is one of equality. -/
theorem toEqual_pair : Passes Decimal.nat (pair a b (by decide) 1 2) (pair a b (by decide) 1 2) ↔
    Same (pair a b (by decide) 1 2).value (pair a b (by decide) 1 2).value := by
  refine (toEqual_iff nat_prints _ _).mpr fun _ => .object rfl ?_
  intro key x y here _
  have plain : x.kind = .number := by
    rcases List.mem_cons.mp here with same | rest
    · rw [(Prod.mk.inj same).2]
      rfl
    · rw [(Prod.mk.inj (List.mem_singleton.mp rest)).2]
      rfl
  exact .scalar (by simp [plain]) (by simp [plain])

theorem pair_same : Same (pair a b (by decide) 1 2).value (pair b a (by decide) 2 1).value := by
  refine .object (fun key => by simp [or_comm]) ?_
  intro key x y here there
  simp only [List.mem_cons,List.not_mem_nil,or_false,Prod.mk.injEq] at here there
  rcases here with ⟨rfl,rfl⟩ | ⟨rfl,rfl⟩ <;> rcases there with ⟨same,rfl⟩ | ⟨same,rfl⟩
  · cases same
  · exact .number 1
  · exact .number 2
  · cases same

/-- The object with `a` and `b` is not equal to the one with `b` and `a`. -/
theorem toEqual_swapped : ¬∀ actual expected : JsonValue Nat,
    Passes Decimal.nat actual expected ↔ Same actual.value expected.value := by
  intro equality
  have passes := (equality (pair a b (by decide) 1 2) (pair b a (by decide) 2 1)).mpr pair_same
  revert passes
  unfold Passes toEqual
  decide +kernel

end Fusillade.Bridge.Expect
