import Fusillade.Engine.DurationSyntax

/-! The shared duration parser against its documentation: a number with one of four suffixes,
or a whole number of milliseconds, and exactly the time that it says. -/
namespace Fusillade.Utils

open Stats Engine

/-- A decimal number without a sign and without an exponent. -/
def plainDecimal (number : List Char) : Option ℚ :=
  let whole := number.takeWhile Char.isDigit
  match number.dropWhile Char.isDigit with
  | [] => if whole = [] then none else some (digitsValue whole)
  | '.' :: fraction =>
    if fraction.all Char.isDigit ∧ (whole ≠ [] ∨ fraction ≠ []) then
      some (digitsValue (whole ++ fraction) / 10^fraction.length)
    else none
  | _ :: _ => none

/-- A whole number of nanoseconds below `2^64` seconds is a `Duration`. -/
def exactly (secs : ℚ) : Option Duration :=
  if (secs * 1000000000).den = 1 ∧ secs < 2^64 then some (secs * 1000000000).num.toNat else none

def lengthOf (unit : ℚ) (number : List Char) : Option Duration :=
  (plainDecimal number).bind fun value => exactly (value * unit)

/-- A plain integer counts milliseconds. -/
def plainMillis (number : List Char) : Option Duration :=
  if number ≠ [] ∧ number.all Char.isDigit then exactly (digitsValue number / 1000) else none

/-- The documented formats. -/
def documented (text : String) : Option Duration :=
  let s := trim text.toList
  match s.reverse with
  | 's' :: 'm' :: rest => lengthOf (1 / 1000) rest.reverse
  | 's' :: rest => lengthOf 1 rest.reverse
  | 'm' :: rest => lengthOf 60 rest.reverse
  | 'h' :: rest => lengthOf 3600 rest.reverse
  | _ => plainMillis s

/-- `Some` and `None`. -/
def returned (length : Option Duration) : Parsed := length.elim .rejected .duration

/-- The parser returns what the text says, and rejects every other text without a panic. -/
def AsDocumented (text : String) : Prop :=
  parseDurationStr text = returned (documented text)

instance (text : String) : Decidable (AsDocumented text) := inferInstanceAs (Decidable (_ = _))

/-- A count that is parsed as a `u64`, without the suffixes that are taken away from its end. -/
def SoundCount (length : Option Duration) (number stripped : List Char) : Prop :=
  match parseU64 stripped with
  | some _ => number = stripped ∧ number.all Char.isDigit
  | none => length = none

/-- A count that is parsed as an `f64`: no number, or a plain decimal whose `f64`, in seconds,
is nearest to the nanosecond that it says. -/
def SoundDecimal (unit : ℚ) (scale : Option ℚ → Option ℚ) (number stripped : List Char) : Prop :=
  readF64 stripped = none ∨ ∃ value d secs, plainDecimal number = some value ∧
    exactly (value * unit) = some d ∧ scale (Binary64.round value) = some secs ∧ secs < 2^64 ∧
      Binary64.Nearest d (secs * 1000000000)

/-- The texts that are parsed as documented. -/
def Sound (text : String) : Prop :=
  let s := trim text.toList
  match s.reverse with
  | 's' :: 'm' :: rest => SoundCount (lengthOf (1 / 1000) rest.reverse) rest.reverse (trimMs rest).reverse
  | 's' :: rest => SoundDecimal 1 id rest.reverse (rest.dropWhile (· == 's')).reverse
  | 'm' :: rest => SoundDecimal 60 (scaled 60) rest.reverse (rest.dropWhile (· == 'm')).reverse
  | 'h' :: rest => SoundDecimal 3600 (scaled 3600) rest.reverse (rest.dropWhile (· == 'h')).reverse
  | _ => SoundCount (plainMillis s) s s

section Decimal

variable {number : List Char} {value : ℚ}

/-- The two forms of a plain decimal. -/
theorem plainDecimal_cases (plain : plainDecimal number = some value) :
    (number ≠ [] ∧ number.all Char.isDigit ∧ value = digitsValue number) ∨
      ∃ whole fraction, number = whole ++ '.' :: fraction ∧ whole.all Char.isDigit ∧
        fraction.all Char.isDigit ∧ (whole ≠ [] ∨ fraction ≠ []) ∧
          value = digitsValue (whole ++ fraction) / 10^fraction.length := by
  have split := List.takeWhile_append_dropWhile (p := Char.isDigit) (l := number)
  have whole : (number.takeWhile Char.isDigit).all Char.isDigit := by simp
  unfold plainDecimal at plain
  dsimp only at plain
  split at plain
  next rest =>
    rw [rest,List.append_nil] at split
    rw [split] at plain whole
    split at plain
    · contradiction
    · exact .inl ⟨‹_›,whole,(Option.some.inj plain).symm⟩
  next fraction rest =>
    split at plain
    next digits =>
      rw [rest] at split
      exact .inr ⟨_,fraction,split.symm,whole,digits.1,digits.2,(Option.some.inj plain).symm⟩
    next => contradiction
  next => contradiction

theorem plainDecimal_chars (plain : plainDecimal number = some value) :
    ∀ c ∈ number, c.isDigit = true ∨ c = '.' := by
  rcases plainDecimal_cases plain with ⟨-,digits,-⟩ | ⟨whole,fraction,rfl,front,back,-⟩
  · exact fun c member => .inl (List.all_eq_true.mp digits c member)
  · intro c member
    rcases List.mem_append.mp member with early | late
    · exact .inl (List.all_eq_true.mp front c early)
    · rcases List.mem_cons.mp late with rfl | later
      · exact .inr rfl
      · exact .inl (List.all_eq_true.mp back c later)

theorem plainDecimal_nonneg (plain : plainDecimal number = some value) : 0 ≤ value := by
  rcases plainDecimal_cases plain with ⟨-,-,rfl⟩ | ⟨whole,fraction,-,-,-,-,rfl⟩ <;> positivity

theorem plainDecimal_digits (nonempty : number ≠ []) (all : number.all Char.isDigit) :
    plainDecimal number = some (digitsValue number : ℚ) := by
  have each : ∀ c ∈ number, c.isDigit = true := List.all_eq_true.mp all
  have whole : number.takeWhile Char.isDigit = number := List.takeWhile_eq_self_iff.mpr each
  have rest : number.dropWhile Char.isDigit = [] := List.dropWhile_eq_nil_iff.mpr each
  simp [plainDecimal,whole,rest,nonempty]

theorem parseDecimal_plain (plain : plainDecimal number = some value) : parseDecimal number = some value := by
  rcases plainDecimal_cases plain with ⟨present,all,rfl⟩ | ⟨whole,fraction,rfl,front,back,present,rfl⟩
  · exact parseDecimal_digits present all
  · have whole' : (whole ++ '.' :: fraction).takeWhile Char.isDigit = whole := by
      rw [List.takeWhile_append_of_pos (List.all_eq_true.mp front)]
      simp
    have rest : (whole ++ '.' :: fraction).dropWhile Char.isDigit = '.' :: fraction := by
      rw [List.dropWhile_append_of_pos (List.all_eq_true.mp front)]
      simp
    have digits : fraction.takeWhile Char.isDigit = fraction :=
      List.takeWhile_eq_self_iff.mpr (List.all_eq_true.mp back)
    have ended : fraction.dropWhile Char.isDigit = [] :=
      List.dropWhile_eq_nil_iff.mpr (List.all_eq_true.mp back)
    have nonempty : ¬(whole = [] ∧ fraction = []) := by
      rintro ⟨rfl,rfl⟩
      simp at present
    simp [parseDecimal,whole',rest,digits,ended,nonempty,parseExponent,div_eq_mul_inv]

/-- `parse::<f64>` reads a plain decimal for what it says. -/
theorem readF64_plain (plain : plainDecimal number = some value) :
    readF64 number = some (.finite value) := by
  have chars := plainDecimal_chars plain
  have lower : number.map Char.toLower = number := by
    refine (List.map_congr_left fun c member => ?_).trans (List.map_id _)
    rcases chars c member with digit | rfl
    · exact toLower_digit digit
    · decide
  have word (text : String) (letters : ¬text.toList.all fun c => c.isDigit || c == '.') :
      String.ofList number ≠ text := by
    rintro rfl
    exact letters (by simpa using chars)
  have spelled : ¬(String.ofList number = "inf" ∨ String.ofList number = "infinity") := by
    rintro (same | same)
    · exact word _ (by decide) same
    · exact word _ (by decide) same
  have nan := word "nan" (by decide)
  unfold readF64
  split
  next negative unsigned sign =>
    split at sign
    next rest => exact absurd (chars '-' List.mem_cons_self) (by decide)
    next rest => exact absurd (chars '+' List.mem_cons_self) (by decide)
    next =>
      obtain ⟨rfl,rfl⟩ := Prod.mk.inj sign
      simp [lower,spelled,nan,parseDecimal_plain plain]

end Decimal

theorem exactly_eq_some_iff {secs : ℚ} {d : Duration} (nonneg : 0 ≤ secs) :
    exactly secs = some d ↔ secs * 1000000000 = d ∧ secs < 2^64 := by
  unfold exactly
  have whole : 0 ≤ (secs * 1000000000).num := Rat.num_nonneg.mpr (by positivity)
  constructor
  · intro same
    obtain ⟨⟨integral,inside⟩,rfl⟩ := by simpa using same
    have count : (((secs * 1000000000).num.toNat : ℤ) : ℚ) = (secs * 1000000000).num := by
      rw [Int.toNat_of_nonneg whole]
    exact ⟨((Rat.den_eq_one_iff _).mp integral).symm.trans count.symm,inside⟩
  · rintro ⟨same,inside⟩
    rw [same]
    simp [inside]

/-- A count of milliseconds below `2^64` is a duration. -/
theorem exactly_millis {n : Nat} (inside : n < 2^64) :
    exactly ((n : ℚ) / 1000) = some (Duration.fromMillis n) := by
  rw [exactly_eq_some_iff (by positivity)]
  constructor
  · rw [Duration.fromMillis]
    push_cast
    ring
  · have below : (n : ℚ) < 2^64 := by exact_mod_cast inside
    linarith

/-- A plain decimal ends in no suffix, so that none is taken away from it. -/
theorem rest_of_plain {rest : List Char} {value : ℚ} (plain : plainDecimal rest.reverse = some value)
    {unit : Char} (letter : ¬(unit.isDigit = true ∨ unit = '.')) :
    rest.dropWhile (· == unit) = rest := by
  cases rest with
  | nil => rfl
  | cons c rest =>
    refine List.dropWhile_cons_of_neg fun same => letter ?_
    obtain rfl := beq_iff_eq.mp same
    exact plainDecimal_chars plain c (by simp)

theorem trimMs_of_plain {rest : List Char} {value : ℚ} (plain : plainDecimal rest.reverse = some value) :
    trimMs rest = rest := by
  unfold trimMs
  split
  next => exact absurd (plainDecimal_chars plain 's' (by simp)) (by decide)
  next => rfl

theorem scale_nonneg {seconds : Nat} {value secs : ℚ} (nonneg : 0 ≤ value)
    (same : scaled seconds (Binary64.round value) = some secs) : 0 ≤ secs := by
  obtain ⟨near,first,second⟩ := Option.bind_eq_some_iff.mp same
  have := Binary64.round_nonneg nonneg first
  exact Binary64.round_nonneg (by positivity) second

theorem fromSecsF64_eq_iff {secs : Option ℚ} {d : Duration} (nonneg : ∀ s, secs = some s → 0 ≤ s) :
    fromSecsF64 secs = .duration d ↔
      ∃ s, secs = some s ∧ s < 2^64 ∧ Binary64.Nearest d (s * 1000000000) := by
  cases secs with
  | none => simp [fromSecsF64]
  | some s =>
    have above := nonneg s rfl
    have nanos : 0 ≤ Binary64.halfEven (s * 1000000000) := Binary64.halfEven_nonneg (by positivity)
    have nearest : (Binary64.halfEven (s * 1000000000)).toNat = d ↔ Binary64.Nearest d (s * 1000000000) := by
      rw [← Binary64.halfEven_eq_iff]
      omega
    simp only [fromSecsF64,above,true_and,Option.some.injEq,exists_eq_left']
    split
    next inside => simp [inside,nearest]
    next outside => simp [outside]

theorem fromSecsF64_ne_rejected (secs : Option ℚ) : fromSecsF64 secs ≠ .rejected := by
  unfold fromSecsF64
  grind

variable {length : Option Duration} {number stripped : List Char}

theorem whole_iff (counts : ∀ n, parseU64 stripped = some n →
      length = if number = stripped ∧ number.all Char.isDigit then some (Duration.fromMillis n) else none) :
    whole stripped = returned length ↔ SoundCount length number stripped := by
  unfold whole SoundCount
  cases parsed : parseU64 stripped with
  | some n =>
    dsimp only
    rw [counts n parsed]
    split
    next plain => simp only [returned,Option.elim_some,plain.1,plain.1 ▸ plain.2,and_self]
    next other => simp only [returned,Option.elim_none,other,reduceCtorEq]
  | none => cases length <;> simp [returned]

theorem fractional_iff {unit : ℚ} {scale : Option ℚ → Option ℚ}
    (strips : ∀ value, plainDecimal number = some value → stripped = number)
    (keeps : ∀ value secs, 0 ≤ value → scale (Binary64.round value) = some secs → 0 ≤ secs) :
    fractional scale stripped = returned (lengthOf unit number) ↔
      SoundDecimal unit scale number stripped := by
  unfold SoundDecimal
  cases parsed : readF64 stripped with
  | none =>
    have unread : plainDecimal number = none := by
      cases plain : plainDecimal number with
      | none => rfl
      | some value =>
        have read := readF64_plain plain
        rw [← strips value plain,parsed] at read
        contradiction
    simp [fractional,parsed,lengthOf,unread,returned]
  | some read =>
    have panics : fractional scale stripped ≠ .rejected := by
      simpa [fractional,parsed] using fromSecsF64_ne_rejected _
    constructor
    · intro same
      cases length : lengthOf unit number with
      | none =>
        rw [length,returned,Option.elim_none] at same
        exact absurd same panics
      | some d =>
        obtain ⟨value,plain,precise⟩ := Option.bind_eq_some_iff.mp length
        obtain rfl := strips value plain
        rw [length,returned,Option.elim_some,fractional,readF64_plain plain] at same
        obtain ⟨secs,scaled,below,nearest⟩ :=
          (fromSecsF64_eq_iff fun s => keeps value s (plainDecimal_nonneg plain)).mp same
        exact .inr ⟨value,d,secs,plain,precise,scaled,below,nearest⟩
    · rintro (none | ⟨value,d,secs,plain,precise,scaled,below,nearest⟩)
      · contradiction
      · obtain rfl := strips value plain
        have length : lengthOf unit stripped = some d := by rw [lengthOf,plain,Option.bind_some,precise]
        rw [length,returned,Option.elim_some,fractional,readF64_plain plain]
        exact (fromSecsF64_eq_iff fun s => keeps value s (plainDecimal_nonneg plain)).mpr
          ⟨secs,scaled,below,nearest⟩

theorem parseU64_plain {n : Nat} (parsed : parseU64 number = some n) (all : number.all Char.isDigit) :
    number ≠ [] ∧ digitsValue number = n ∧ n < 2^64 := by
  obtain ⟨digits,rfl | rfl,nonempty,-,value,inside⟩ := parseU64_digits parsed
  · exact ⟨nonempty,value,inside⟩
  · exact absurd (List.all_eq_true.mp all '+' List.mem_cons_self) (by decide)

/-- What a `u64` says is plain where there is nothing but digits. -/
theorem all_digits_of_chars {n : Nat} (parsed : parseU64 number = some n)
    (chars : ∀ c ∈ number, c.isDigit = true ∨ c = '.') : number.all Char.isDigit := by
  obtain ⟨digits,rfl | rfl,-,all,-⟩ := parseU64_digits parsed
  · exact all
  · exact absurd (chars '+' List.mem_cons_self) (by decide)

theorem millis_iff (rest : List Char) :
    whole (trimMs rest).reverse = returned (lengthOf (1 / 1000) rest.reverse) ↔
      SoundCount (lengthOf (1 / 1000) rest.reverse) rest.reverse (trimMs rest).reverse := by
  refine whole_iff fun n parsed => ?_
  split
  next plain =>
    obtain ⟨same,all⟩ := plain
    rw [← same] at parsed
    obtain ⟨nonempty,rfl,inside⟩ := parseU64_plain parsed all
    rw [lengthOf,plainDecimal_digits nonempty all,Option.bind_some,mul_one_div,exactly_millis inside]
  next other =>
    cases plain : plainDecimal rest.reverse with
    | none => rw [lengthOf,plain,Option.bind_none]
    | some value =>
      rw [trimMs_of_plain plain] at parsed other
      exact absurd ⟨rfl,all_digits_of_chars parsed (plainDecimal_chars plain)⟩ other

theorem plain_iff (s : List Char) :
    whole s = returned (plainMillis s) ↔ SoundCount (plainMillis s) s s := by
  refine whole_iff fun n parsed => ?_
  split
  next plain =>
    obtain ⟨nonempty,rfl,inside⟩ := parseU64_plain parsed plain.2
    rw [plainMillis,if_pos ⟨nonempty,plain.2⟩,exactly_millis inside]
  next other =>
    rw [plainMillis,if_neg fun digits => other ⟨rfl,digits.2⟩]

/-- Without a suffix the text is a count of milliseconds. -/
theorem documented_plain {text : String} (seconds : ∀ rest, (trim text.toList).reverse ≠ 's' :: rest)
    (minutes : ∀ rest, (trim text.toList).reverse ≠ 'm' :: rest)
    (hours : ∀ rest, (trim text.toList).reverse ≠ 'h' :: rest) :
    documented text = plainMillis (trim text.toList) ∧
      (Sound text ↔ SoundCount (plainMillis (trim text.toList)) (trim text.toList) (trim text.toList)) := by
  constructor
  · unfold documented
    dsimp only
    split
    next rest ends => exact absurd ends (seconds _)
    next rest _ ends => exact absurd ends (seconds _)
    next rest ends => exact absurd ends (minutes _)
    next rest ends => exact absurd ends (hours _)
    next => rfl
  · unfold Sound
    dsimp only
    split
    next rest ends => exact absurd ends (seconds _)
    next rest _ ends => exact absurd ends (seconds _)
    next rest ends => exact absurd ends (minutes _)
    next rest ends => exact absurd ends (hours _)
    next => rfl

theorem asDocumented_iff (text : String) : AsDocumented text ↔ Sound text := by
  have stripped {rest : List Char} (unit : Char) (letter : ¬(unit.isDigit = true ∨ unit = '.'))
      (value : ℚ) (plain : plainDecimal rest.reverse = some value) :
      (rest.dropWhile (· == unit)).reverse = rest.reverse := by rw [rest_of_plain plain letter]
  unfold AsDocumented parseDurationStr
  dsimp only
  split
  next rest ends => simpa only [documented,Sound,ends] using millis_iff rest
  next rest other ends =>
    have seconds : _ ↔ SoundDecimal 1 id rest.reverse _ :=
      fractional_iff (stripped 's' (by decide)) fun _ _ => Binary64.round_nonneg
    simpa only [documented,Sound,ends] using seconds
  next rest ends =>
    have minutes : _ ↔ SoundDecimal 60 (scaled 60) rest.reverse _ :=
      fractional_iff (stripped 'm' (by decide)) fun _ _ => scale_nonneg
    simpa only [documented,Sound,ends] using minutes
  next rest ends =>
    have hours : _ ↔ SoundDecimal 3600 (scaled 3600) rest.reverse _ :=
      fractional_iff (stripped 'h' (by decide)) fun _ _ => scale_nonneg
    simpa only [documented,Sound,ends] using hours
  next millis seconds minutes hours =>
    obtain ⟨plain,sound⟩ := documented_plain seconds minutes hours
    rw [plain,sound]
    exact plain_iff _

/-- The documented examples, and what is read otherwise. -/
example : ["500ms","1.5s","0.5m","2.5h","1000"," 30s ","5 s"].all (fun text => decide (AsDocumented text)) ∧
    ["1.5ms","5ss","+5s","1e3s","infs"].all (fun text => !decide (AsDocumented text)) := by
  decide +kernel

/-- A negative number of seconds. -/
theorem negative_panics : ¬∀ text, AsDocumented text := by
  intro all
  exact absurd (all "-1s") (by decide +kernel)

end Fusillade.Utils
