import Mathlib.Data.Int.Log
import Mathlib.Data.Rat.Floor
import Mathlib.Tactic.Linarith
import Mathlib.Tactic.Positivity
import Mathlib.Tactic.FieldSimp
import Mathlib.Tactic.NormNum

/-! Rounding of rationals to binary64: to the nearest multiple of the spacing at that size,
halves to the even one. Zeros have no sign here, and every overflow is `none`. -/
namespace Binary64

def halfEven (q : ℚ) : ℤ :=
  let low := ⌊q⌋
  if q - low < 1 / 2 then low
  else if 1 / 2 < q - low then low + 1
  else low + low % 2

/-- Fifty-three bits from the leading one on, down to the subnormal spacing. -/
def exponent (q : ℚ) : ℤ := max (Int.log 2 |q| - 52) (-1074)

def spacing (q : ℚ) : ℚ := 2 ^ exponent q

def round (q : ℚ) : Option ℚ :=
  let rounded := halfEven (q / spacing q) * spacing q
  if |rounded| < 2 ^ 1024 then some rounded else none

/-- The spacing where the exponent has no lower end. -/
def ulp (q : ℚ) : ℚ := 2 ^ (Int.log 2 |q| - 52)

/-- Rounding to fifty-three bits whatever the exponent: that of `round` for a number which is
neither subnormal nor too large. -/
def nearest (q : ℚ) : ℚ := halfEven (q / ulp q) * ulp q

/-- A natural number with at most 53 significant bits. -/
def Representable (n : ℕ) : Prop := ∃ m k, n = m * 2 ^ k ∧ m < 2 ^ 53

@[simp] theorem halfEven_intCast (k : ℤ) : halfEven k = k := by simp [halfEven]

@[simp] theorem halfEven_natCast (k : ℕ) : halfEven k = k := halfEven_intCast k

theorem halfEven_error (q : ℚ) : |(halfEven q : ℚ) - q| ≤ 1 / 2 := by
  have below := Int.floor_le q
  have above := Int.lt_floor_add_one q
  rw [abs_le]
  unfold halfEven
  dsimp only
  split_ifs with small large
  · constructor <;> linarith
  · push_cast
    constructor <;> linarith
  · rcases Int.emod_two_eq_zero_or_one ⌊q⌋ with even | odd
    · rw [even,add_zero]
      constructor <;> linarith
    · rw [odd]
      push_cast
      constructor <;> linarith

theorem halfEven_nonneg {q : ℚ} (nonneg : 0 ≤ q) : 0 ≤ halfEven q := by
  have low : 0 ≤ ⌊q⌋ := Int.floor_nonneg.mpr nonneg
  unfold halfEven
  dsimp only
  split_ifs <;> omega

/-- The nearest integer, and the even one of two. -/
def Nearest (n : ℤ) (q : ℚ) : Prop := |q - n| < 1 / 2 ∨ |q - n| = 1 / 2 ∧ n % 2 = 0

theorem halfEven_nearest (q : ℚ) : Nearest (halfEven q) q := by
  rcases (halfEven_error q).lt_or_eq with inside | half
  · rw [abs_sub_comm] at inside
    exact .inl inside
  · rw [abs_sub_comm] at half
    refine .inr ⟨half,?_⟩
    have below := Int.floor_le q
    have above := Int.lt_floor_add_one q
    revert half
    unfold halfEven
    dsimp only
    split_ifs with small large
    · intro half
      rw [abs_of_nonneg (by linarith)] at half
      linarith
    · intro half
      push_cast at half
      rw [abs_of_nonpos (by linarith)] at half
      linarith
    · intro _
      omega

/-- Between two integers that are both nearest lies the number, and one of them is odd. -/
theorem Nearest.not_succ {q : ℚ} {n : ℤ} (first : Nearest (n + 1) q) (second : Nearest n q) : False := by
  have upper : |q - (n + 1 : ℤ)| ≤ 1 / 2 := first.elim le_of_lt fun half => half.1.le
  have lower : |q - n| ≤ 1 / 2 := second.elim le_of_lt fun half => half.1.le
  rw [abs_le] at upper lower
  push_cast at upper
  have middle : q = n + 1 / 2 := by linarith
  have away : |q - n| = 1 / 2 := by rw [middle]; norm_num
  have away' : |q - (n + 1 : ℤ)| = 1 / 2 := by rw [middle]; push_cast; norm_num
  have even := (second.resolve_left (by rw [away]; exact lt_irrefl _)).2
  have even' := (first.resolve_left (by rw [away']; exact lt_irrefl _)).2
  omega

theorem Nearest.unique {q : ℚ} {m n : ℤ} (first : Nearest m q) (second : Nearest n q) : m = n := by
  have bounds := abs_le.mp (first.elim le_of_lt fun half => half.1.le)
  have bounds' := abs_le.mp (second.elim le_of_lt fun half => half.1.le)
  have upper : m ≤ n + 1 := by exact_mod_cast (by linarith : (m : ℚ) ≤ n + 1)
  have lower : n ≤ m + 1 := by exact_mod_cast (by linarith : (n : ℚ) ≤ m + 1)
  by_contra apart
  have whole : m = n + 1 ∨ n = m + 1 := by omega
  rcases whole with rfl | rfl
  · exact first.not_succ second
  · exact second.not_succ first

theorem halfEven_eq_iff {q : ℚ} {n : ℤ} : halfEven q = n ↔ Nearest n q :=
  ⟨fun same => same ▸ halfEven_nearest q,(halfEven_nearest q).unique⟩

theorem spacing_pos (q : ℚ) : 0 < spacing q := zpow_pos (by norm_num) _

theorem ulp_pos (q : ℚ) : 0 < ulp q := zpow_pos (by norm_num) _

theorem spacing_eq_ulp {q : ℚ} (normal : -1022 ≤ Int.log 2 |q|) : spacing q = ulp q := by
  rw [spacing,ulp,exponent,max_eq_left (by omega)]

/-- Nothing is subnormal here, and nothing overflows. -/
theorem round_eq_nearest {q : ℚ} (normal : -1022 ≤ Int.log 2 |q|) (bounded : |nearest q| < 2 ^ 1024) :
    round q = some (nearest q) := by
  rw [nearest,← spacing_eq_ulp normal] at bounded ⊢
  exact if_pos bounded

theorem normal_natCast (n : ℕ) : -1022 ≤ Int.log 2 |(n : ℚ)| := by
  rw [Nat.abs_cast,Int.log_natCast]
  omega

@[simp] theorem nearest_zero : nearest 0 = 0 := by simp [nearest,halfEven]

/-- Only zero is rounded to zero: every other quotient has 53 bits. -/
theorem nearest_pos {q : ℚ} (positive : 0 < q) : 0 < nearest q := by
  have leading : (2 : ℚ) ^ Int.log 2 q ≤ q := by
    exact_mod_cast Int.zpow_log_le_self (by decide : 1 < 2) positive
  have quotient : 1 ≤ q / ulp q := by
    rw [one_le_div (ulp_pos q),ulp,abs_of_pos positive]
    exact (zpow_le_zpow_right₀ (by norm_num) (by omega)).trans leading
  obtain ⟨near,_⟩ := abs_le.mp (halfEven_error (q / ulp q))
  exact mul_pos (by linarith) (ulp_pos q)

theorem nearest_nonpos_iff {q : ℚ} (nonneg : 0 ≤ q) : nearest q ≤ 0 ↔ q ≤ 0 := by
  constructor
  · intro rounded
    by_contra positive
    exact absurd (nearest_pos (not_le.mp positive)) (not_lt.mpr rounded)
  · intro nonpos
    rw [le_antisymm nonpos nonneg,nearest_zero]

theorem ulp_natCast (n : ℕ) : ulp n = 2 ^ ((Nat.log 2 n : ℤ) - 52) := by
  rw [ulp,Nat.abs_cast,Int.log_natCast]

/-- Below 54 bits the spacing divides every natural number. -/
theorem div_ulp_small {n : ℕ} (small : Nat.log 2 n ≤ 52) :
    (n : ℚ) / ulp n = (n * 2 ^ (52 - Nat.log 2 n) : ℕ) := by
  have power : ulp n = (2 ^ (52 - Nat.log 2 n) : ℚ)⁻¹ := by
    rw [ulp_natCast,← zpow_natCast,← zpow_neg]
    congr 1
    omega
  rw [power,div_inv_eq_mul]
  push_cast
  rfl

theorem ulp_large {n : ℕ} (large : 52 ≤ Nat.log 2 n) : ulp n = (2 ^ (Nat.log 2 n - 52) : ℕ) := by
  have power : (Nat.log 2 n : ℤ) - 52 = (Nat.log 2 n - 52 : ℕ) := by omega
  rw [ulp_natCast,power,zpow_natCast]
  push_cast
  rfl

/-- A multiple of the spacing is its own rounding. -/
theorem nearest_of_multiple {n a : ℕ} (multiple : (n : ℚ) / ulp n = a) : nearest n = n := by
  rw [nearest,multiple,halfEven_natCast,Int.cast_natCast,← multiple,
    div_mul_cancel₀ _ (ne_of_gt (ulp_pos _))]

theorem nearest_representable {n : ℕ} (representable : Representable n) : nearest n = n := by
  by_cases small : Nat.log 2 n ≤ 52
  · exact nearest_of_multiple (div_ulp_small small)
  · obtain ⟨m,k,rfl,short⟩ := representable
    have large : 52 ≤ Nat.log 2 (m * 2 ^ k) := by omega
    -- the factor of two outside the leading bits covers the spacing
    have covers : Nat.log 2 (m * 2 ^ k) - 52 ≤ k := by
      have below : m * 2 ^ k < 2 ^ (53 + k) := by
        rw [Nat.pow_add]
        exact Nat.mul_lt_mul_of_pos_right short (Nat.two_pow_pos k)
      have bits := Nat.log_lt_of_lt_pow (by rintro none; simp [none] at small) below
      omega
    obtain ⟨rest,same⟩ := Nat.exists_eq_add_of_le covers
    refine nearest_of_multiple (a := m * 2 ^ rest) ?_
    rw [ulp_large large]
    generalize Nat.log 2 (m * 2 ^ k) - 52 = s at same
    subst same
    have apart : (2 : ℚ) ^ s ≠ 0 := by positivity
    push_cast
    rw [pow_add]
    field_simp

theorem round_representable {n : ℕ} (representable : Representable n) (bounded : n < 2 ^ 1024) :
    round n = some (n : ℚ) := by
  have same := nearest_representable representable
  have fits : |nearest n| < 2 ^ 1024 := by
    rw [same,Nat.abs_cast]
    exact_mod_cast bounded
  rw [round_eq_nearest (normal_natCast n) fits,same]

theorem round_eq {q r : ℚ} (rounded : round q = some r) : r = halfEven (q / spacing q) * spacing q :=
  Option.some.inj (Option.ite_none_right_eq_some.mp rounded).2.symm

theorem round_nonneg {q r : ℚ} (nonneg : 0 ≤ q) (rounded : round q = some r) : 0 ≤ r := by
  rw [round_eq rounded]
  have quotient := div_nonneg nonneg (spacing_pos q).le
  exact mul_nonneg (Int.cast_nonneg (halfEven_nonneg quotient)) (spacing_pos q).le

/-- A quotient of 53 bits is rounded to a natural number of 53 bits, or just past them. -/
theorem halfEven_bits {q : ℚ} (low : 2 ^ 52 ≤ q) (high : q < 2 ^ 53) :
    ∃ k : ℕ, halfEven q = k ∧ k ≤ 2 ^ 53 ∧ 3 * q ≤ 4 * k := by
  obtain ⟨below,above⟩ := abs_le.mp (halfEven_error q)
  have least : 2 ^ 52 - 1 < halfEven q := by
    have bound : (2 ^ 52 - 1 : ℚ) < halfEven q := by linarith
    exact_mod_cast bound
  have most : halfEven q < 2 ^ 53 + 1 := by
    have bound : (halfEven q : ℚ) < 2 ^ 53 + 1 := by linarith
    exact_mod_cast bound
  obtain ⟨k,digits⟩ := Int.eq_ofNat_of_zero_le (by omega : 0 ≤ halfEven q)
  rw [digits] at below least most
  have two : (2 : ℚ) ≤ k := by exact_mod_cast (by omega : 2 ≤ k)
  push_cast at below
  exact ⟨k,digits,by omega,by linarith⟩

/-- The rounding of a natural number: a natural number of 53 bits, three quarters of it at least. -/
theorem nearest_natCast (n : ℕ) : ∃ k : ℕ, nearest n = k ∧ Representable k ∧ 3 * n ≤ 4 * k := by
  by_cases small : Nat.log 2 n ≤ 52
  · have short : n < 2 ^ 53 := (Nat.lt_pow_succ_log_self (by decide) n).trans_le
      (Nat.pow_le_pow_right (by decide) (by omega))
    exact ⟨n,nearest_of_multiple (div_ulp_small small),⟨n,0,by simp,short⟩,by omega⟩
  · have large : 52 ≤ Nat.log 2 n := by omega
    have nonzero : n ≠ 0 := by rintro rfl; simp at small
    obtain ⟨s,bits⟩ := Nat.exists_eq_add_of_le large
    have low := Nat.pow_log_le_self 2 nonzero
    have high := Nat.lt_pow_succ_log_self (by decide : 1 < 2) n
    have spaced := ulp_large large
    rw [bits,Nat.add_sub_cancel_left] at spaced
    rw [bits,Nat.pow_add] at low
    rw [bits,Nat.succ_eq_add_one,Nat.add_right_comm,Nat.pow_add] at high
    have positive : (0 : ℚ) < (2 ^ s : ℕ) := by positivity
    have lowQ : (2 ^ 52 : ℚ) ≤ n / (2 ^ s : ℕ) := by
      rw [le_div_iff₀ positive]
      exact_mod_cast low
    have highQ : (n : ℚ) / (2 ^ s : ℕ) < 2 ^ 53 := by
      rw [div_lt_iff₀ positive]
      exact_mod_cast high
    obtain ⟨k,digits,most,near⟩ := halfEven_bits lowQ highQ
    rw [← mul_div_assoc,div_le_iff₀ positive] at near
    refine ⟨k * 2 ^ s,?_,?_,?_⟩
    · rw [nearest,spaced,digits]
      push_cast
      rfl
    · by_cases full : k = 2 ^ 53
      · exact ⟨1,53 + s,by rw [full,Nat.pow_add,Nat.one_mul],by decide⟩
      · exact ⟨k,s,rfl,by omega⟩
    · rw [← Nat.mul_assoc]
      exact_mod_cast near

/-- What is rounded once is not rounded again. -/
theorem nearest_idem_natCast (n : ℕ) : nearest (nearest n) = nearest n := by
  obtain ⟨k,same,representable,_⟩ := nearest_natCast n
  rw [same,nearest_representable representable]

theorem round_natCast {n : ℕ} {r : ℚ} (rounded : round n = some r) :
    ∃ k : ℕ, r = k ∧ Representable k ∧ 3 * n ≤ 4 * k := by
  obtain ⟨k,same,digits⟩ := nearest_natCast n
  refine ⟨k,?_,digits⟩
  rw [round_eq rounded,spacing_eq_ulp (normal_natCast n)]
  exact same

/-- An odd factor takes no bits away. -/
theorem Representable.of_mul {n odd twos : ℕ} (coprime : Nat.Coprime odd 2) (positive : 0 < odd)
    (product : Representable (odd * 2 ^ twos * n)) : Representable n := by
  obtain ⟨m,k,same,short⟩ := product
  have divides : odd ∣ m := by
    refine (Nat.Coprime.pow_right k coprime).dvd_of_dvd_mul_right ⟨2 ^ twos * n,?_⟩
    rw [← same,Nat.mul_assoc]
  obtain ⟨rest,rfl⟩ := divides
  have shorter : rest < 2 ^ 53 := (Nat.le_mul_of_pos_left rest positive).trans_lt short
  have reduced : 2 ^ twos * n = rest * 2 ^ k := by
    refine Nat.eq_of_mul_eq_mul_left positive ?_
    rw [← Nat.mul_assoc,same,Nat.mul_assoc]
  rcases Nat.le_total twos k with covers | covers
  · obtain ⟨j,rfl⟩ := Nat.exists_eq_add_of_le covers
    refine ⟨rest,j,Nat.eq_of_mul_eq_mul_left (Nat.two_pow_pos twos) ?_,shorter⟩
    rw [reduced,Nat.pow_add,Nat.mul_left_comm]
  · refine ⟨n,0,by simp,lt_of_le_of_lt ?_ shorter⟩
    refine Nat.le_of_mul_le_mul_left ?_ (Nat.two_pow_pos twos)
    rw [reduced,Nat.mul_comm]
    exact Nat.mul_le_mul_right rest (Nat.pow_le_pow_right (by decide) covers)

end Binary64
