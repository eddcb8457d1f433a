import Fusillade.Lib.Binary64

/-! Numbers as decimal text: natural numbers, and doubles with a number of digits after the
point or with the fewest digits that read back as the same double. -/
namespace Decimal

def nat (n : Nat) : List Char := Nat.toDigits 10 n

/-- `m / 10^digits`, with that many digits after the point. -/
def scaled (digits m : Nat) : List Char :=
  if digits = 0 then nat m
  else
    let after := nat (m % 10^digits)
    nat (m / 10^digits) ++ '.' :: (List.replicate (digits - after.length) '0' ++ after)

def signed (q : ℚ) (magnitude : List Char) : List Char := if q < 0 then '-' :: magnitude else magnitude

/-- The double nearest to a number, halves rounded to the even digit. -/
def fixed (digits : Nat) (q : ℚ) : List Char :=
  match Binary64.round q with
  | none => signed q "inf".toList
  | some x => signed q (scaled digits (Binary64.halfEven (|x| * 10^digits)).toNat)

/-- The nearest multiple of a power of ten, in its multiples. -/
def multiple (x : ℚ) (place : ℤ) : Nat := (Binary64.halfEven (|x| / 10^place)).toNat

def readsBack (x : ℚ) (place : ℤ) : Bool := Binary64.round (multiple x place * 10^place) = some |x|

/-- The places of the last digit of a double, from the largest on. -/
def places : List ℤ := (List.range 650).map fun i => 309 - (i : ℤ)

/-- The double nearest to a number, in as few digits as tell it from the others. -/
def display (q : ℚ) : List Char :=
  match Binary64.round q with
  | none => signed q "inf".toList
  | some x =>
    let place := (places.find? (readsBack x)).getD (-340)
    signed q (if 0 ≤ place then nat (multiple x place * 10^place.toNat)
      else scaled (-place).toNat (multiple x place))

/-- A character of the text of a number. -/
def Numeric (c : Char) : Prop := c.isDigit = true ∨ c ∈ ['.','-','i','n','f']

instance (c : Char) : Decidable (Numeric c) := inferInstanceAs (Decidable (_ ∨ _))

theorem nat_numeric (n : Nat) : ∀ c ∈ nat n, Numeric c :=
  fun _ member => .inl (Nat.isDigit_of_mem_toDigits (by decide) (by decide) member)

theorem nat_ne_nil (n : Nat) : nat n ≠ [] := Nat.toDigits_ne_nil

theorem scaled_numeric (digits m : Nat) : ∀ c ∈ scaled digits m, Numeric c := by
  unfold scaled
  split
  · exact nat_numeric m
  · dsimp only
    intro c member
    rcases List.mem_append.mp member with whole | rest
    · exact nat_numeric _ c whole
    · rcases List.mem_cons.mp rest with rfl | after
      · decide
      · rcases List.mem_append.mp after with zero | digit
        · obtain rfl := List.eq_of_mem_replicate zero
          decide
        · exact nat_numeric _ c digit

theorem signed_numeric (q : ℚ) {magnitude : List Char} (numeric : ∀ c ∈ magnitude, Numeric c) :
    ∀ c ∈ signed q magnitude, Numeric c := by
  unfold signed
  split
  · exact List.forall_mem_cons.mpr ⟨by decide,numeric⟩
  · exact numeric

theorem infinite_numeric : ∀ c ∈ "inf".toList, Numeric c := by
  have letters : "inf".toList = ['i','n','f'] := rfl
  simp [letters,Numeric]

theorem fixed_numeric (digits : Nat) (q : ℚ) : ∀ c ∈ fixed digits q, Numeric c := by
  unfold fixed
  split
  · exact signed_numeric q infinite_numeric
  · exact signed_numeric q (scaled_numeric _ _)

theorem display_numeric (q : ℚ) : ∀ c ∈ display q, Numeric c := by
  unfold display
  split
  · exact signed_numeric q infinite_numeric
  · dsimp only
    split
    · exact signed_numeric q (nat_numeric _)
    · exact signed_numeric q (scaled_numeric _ _)

end Decimal
