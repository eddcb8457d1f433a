import Fusillade.Engine.Schedule
import Fusillade.Lib.Binary64
import Fusillade.Stats.Thresholds
import Mathlib.Data.List.DropRight

/-! The two parsers of a duration: the shared utility, behind the documented syntax, and the
engine's own one, which reads scenario durations and schedules. -/
namespace Fusillade

open Stats Engine

namespace Utils

/-- What a call to the utility comes to: `from_secs_f64` panics on what is no duration. -/
inductive Parsed where
  | duration (d : Duration)
  | rejected
  | panics
  deriving DecidableEq

def trim (text : List Char) : List Char :=
  ((text.dropWhile isWhitespace).reverse.dropWhile isWhitespace).reverse

def toF64 : F64 → Option ℚ
  | .finite value => Binary64.round value
  | .infinite _ | .nan => none

def scaled (seconds : Nat) (number : Option ℚ) : Option ℚ :=
  number.bind fun number => Binary64.round (number * seconds)

/-- `Duration::from_secs_f64`: to the nearest nanosecond, halves to the even one. -/
def fromSecsF64 : Option ℚ → Parsed
  | some secs =>
    if 0 ≤ secs ∧ secs < 2^64 then .duration (Binary64.halfEven (secs * 1000000000)).toNat
    else .panics
  | none => .panics

def whole (number : List Char) : Parsed :=
  match parseU64 number with
  | some ms => .duration (Duration.fromMillis ms)
  | none => .rejected

def fractional (scale : Option ℚ → Option ℚ) (number : List Char) : Parsed :=
  match readF64 number with
  | some value => fromSecsF64 (scale (toF64 value))
  | none => .rejected

def parseDurationStr (text : String) : Parsed :=
  let s := trim text.toList
  match s.reverse with
  | 's' :: 'm' :: rest => whole (trimMs rest).reverse
  | 's' :: rest => fractional id (rest.dropWhile (· == 's')).reverse
  | 'm' :: rest => fractional (scaled 60) (rest.dropWhile (· == 'm')).reverse
  | 'h' :: rest => fractional (scaled 3600) (rest.dropWhile (· == 'h')).reverse
  | _ => whole s

/-- The parsers take a text for the same duration, or neither takes it for one. -/
def Agree (text : String) : Prop :=
  ∀ d, parseDurationStr text = .duration d ↔ parseDuration text = some d

def Numeric (scale : Option ℚ → Option ℚ) (number : List Char) : Prop :=
  ∃ value secs, readF64 number = some value ∧ scale (toF64 value) = some secs ∧
    0 ≤ secs ∧ secs < 2^64

/-- A number in the documented syntax of its unit. -/
def Readable (text : String) : Prop :=
  let s := trim text.toList
  match s.reverse with
  | 's' :: 'm' :: rest => (parseU64 (trimMs rest).reverse).isSome
  | 's' :: rest => Numeric id (rest.dropWhile (· == 's')).reverse
  | 'm' :: rest => Numeric (scaled 60) (rest.dropWhile (· == 'm')).reverse
  | 'h' :: rest => Numeric (scaled 3600) (rest.dropWhile (· == 'h')).reverse
  | _ => (parseU64 s).isSome

/-- A whole count of a unit that comes to an exact `f64` of seconds within 64 bits, or
something that is a number in neither syntax. -/
def SharedCount (seconds : Nat) (scale : Option ℚ → Option ℚ) (number : List Char) : Prop :=
  match parseU64 number with
  | some n => seconds * n < 2^64 ∧ Binary64.Representable (seconds * n)
  | none => ¬Numeric scale number

/-- Without blanks around it, any count of milliseconds and the shared counts of seconds and
minutes; of all other texts those that the documented syntax does not cover. -/
def Shared (text : String) : Prop :=
  if trim text.toList = text.toList then
    match text.toList.reverse with
    | 's' :: 'm' :: _ => True
    | 's' :: rest => SharedCount 1 id (rest.dropWhile (· == 's')).reverse
    | 'm' :: rest => SharedCount 60 (scaled 60) (rest.dropWhile (· == 'm')).reverse
    | _ => ¬Readable text
  else ¬Readable text

theorem whole_eq_duration {number : List Char} {d : Duration} :
    whole number = .duration d ↔ (parseU64 number).map Duration.fromMillis = some d := by
  unfold whole
  cases parseU64 number <;> simp

theorem whole_duration_iff {number : List Char} :
    (∃ d, whole number = .duration d) ↔ (parseU64 number).isSome := by
  simp only [whole_eq_duration]
  cases parseU64 number <;> simp

theorem fromSecsF64_duration_iff {secs : Option ℚ} :
    (∃ d, fromSecsF64 secs = .duration d) ↔ ∃ s, secs = some s ∧ 0 ≤ s ∧ s < 2^64 := by
  cases secs with
  | none => simp [fromSecsF64]
  | some s =>
    simp only [fromSecsF64,Option.some.injEq,exists_eq_left']
    split
    next inside => simp [inside]
    next outside => simp [outside]

theorem fractional_duration_iff {scale : Option ℚ → Option ℚ} {number : List Char} :
    (∃ d, fractional scale number = .duration d) ↔ Numeric scale number := by
  unfold fractional Numeric
  cases parsed : readF64 number with
  | none => simp
  | some value => simpa using fromSecsF64_duration_iff

theorem readable_iff (text : String) : (∃ d, parseDurationStr text = .duration d) ↔ Readable text := by
  unfold parseDurationStr Readable
  dsimp only
  split
  · exact whole_duration_iff
  · exact fractional_duration_iff
  · exact fractional_duration_iff
  · exact fractional_duration_iff
  · exact whole_duration_iff

theorem fromSecsF64_natCast (k : Nat) :
    fromSecsF64 (some (k : ℚ)) = if k < 2^64 then .duration (Duration.fromSecs k) else .panics := by
  have nanos : Binary64.halfEven ((k : ℚ) * 1000000000) = (k * 1000000000 : ℕ) := by
    rw [← Binary64.halfEven_natCast]
    push_cast
    rfl
  have inside : (0 ≤ (k : ℚ) ∧ (k : ℚ) < 2^64) ↔ k < 2^64 := by
    rw [and_iff_right (Nat.cast_nonneg k)]
    exact_mod_cast Iff.rfl
  simp only [fromSecsF64,inside,nanos,Int.toNat_natCast]
  rfl

/-- A unit of so many seconds: exact on counts that are an `f64` of seconds, and never far off. -/
structure Scaling (seconds : Nat) (scale : Option ℚ → Option ℚ) : Prop where
  exactly : ∀ n : Nat, Binary64.Representable (seconds * n) → seconds * n < 2^64 →
    scale (Binary64.round n) = some ((seconds * n : Nat) : ℚ)
  near : ∀ (n : Nat) (r : ℚ), scale (Binary64.round n) = some r →
    ∃ k : Nat, r = k ∧ Binary64.Representable k ∧ 9 * (seconds * n) ≤ 16 * k

theorem lt_two_pow {n a b : Nat} (inside : n < 2^a) (more : a ≤ b) : n < 2^b :=
  Nat.lt_of_lt_of_le inside (Nat.pow_le_pow_right (by decide) more)

theorem seconds_scaling : Scaling 1 id := by
  constructor
  · intro n representable inside
    rw [Nat.one_mul] at representable inside ⊢
    exact Binary64.round_representable representable (lt_two_pow (b := 1024) inside (by decide))
  · intro n r rounded
    obtain ⟨k,rfl,representable,near⟩ := Binary64.round_natCast rounded
    exact ⟨k,rfl,representable,by omega⟩

theorem minutes_scaling : Scaling 60 (scaled 60) := by
  constructor
  · intro n representable inside
    have minutes : Binary64.Representable n :=
      @Binary64.Representable.of_mul n 15 2 (by decide) (by decide) representable
    have factor : (n : ℚ) * (60 : Nat) = (60 * n : Nat) := by push_cast; ring
    rw [Binary64.round_representable minutes (lt_two_pow (a := 64) (b := 1024) (by omega) (by decide)),scaled,Option.bind_some,factor]
    exact Binary64.round_representable representable (lt_two_pow (b := 1024) inside (by decide))
  · intro n r rounded
    obtain ⟨half,first,second⟩ := Option.bind_eq_some_iff.mp rounded
    obtain ⟨j,rfl,_,near⟩ := Binary64.round_natCast first
    have factor : (j : ℚ) * (60 : Nat) = (60 * j : Nat) := by push_cast; ring
    rw [factor] at second
    obtain ⟨k,rfl,representable,nearer⟩ := Binary64.round_natCast second
    exact ⟨k,rfl,representable,by omega⟩

theorem toLower_digit {c : Char} (digit : c.isDigit = true) : c.toLower = c := by
  have low : c.toNat ≤ 57 := by
    simp only [Char.isDigit,Bool.and_eq_true,decide_eq_true_eq] at digit
    exact digit.2
  unfold Char.toLower
  split
  next upper =>
    have high : 65 ≤ c.toNat := upper.1
    omega
  next => rfl

theorem parseDecimal_digits {digits : List Char} (nonempty : digits ≠ []) (all : digits.all Char.isDigit) :
    parseDecimal digits = some (digitsValue digits : ℚ) := by
  have each : ∀ c ∈ digits, c.isDigit = true := List.all_eq_true.mp all
  have whole : digits.takeWhile Char.isDigit = digits := List.takeWhile_eq_self_iff.mpr each
  have rest : digits.dropWhile Char.isDigit = [] := List.dropWhile_eq_nil_iff.mpr each
  simp [parseDecimal,whole,rest,nonempty,parseExponent]

theorem readF64_digits {digits : List Char} (nonempty : digits ≠ []) (all : digits.all Char.isDigit) :
    readF64 digits = some (.finite (digitsValue digits)) ∧
      readF64 ('+' :: digits) = some (.finite (digitsValue digits)) := by
  have each : ∀ c ∈ digits, c.isDigit = true := List.all_eq_true.mp all
  have lower : digits.map Char.toLower = digits :=
    (List.map_congr_left fun c member => toLower_digit (each c member)).trans (List.map_id _)
  have word (text : String) (letters : ¬text.toList.all Char.isDigit) : String.ofList digits ≠ text := by
    rintro rfl
    exact letters (by simpa using all)
  have spelled : ¬(String.ofList digits = "inf" ∨ String.ofList digits = "infinity") := by
    rintro (same | same)
    · exact word _ (by decide) same
    · exact word _ (by decide) same
  have nan := word "nan" (by decide)
  constructor
  · unfold readF64
    split
    next negative unsigned sign =>
      split at sign
      next rest => exact absurd (each '-' List.mem_cons_self) (by decide)
      next rest => exact absurd (each '+' List.mem_cons_self) (by decide)
      next =>
        obtain ⟨rfl,rfl⟩ := Prod.mk.inj sign
        simp [lower,spelled,nan,parseDecimal_digits nonempty all]
  · simp [readF64,lower,spelled,nan,parseDecimal_digits nonempty all]

theorem parseU64_digits {number : List Char} {n : Nat} (parsed : parseU64 number = some n) :
    ∃ digits, (number = digits ∨ number = '+' :: digits) ∧ digits ≠ [] ∧ digits.all Char.isDigit ∧
      digitsValue digits = n ∧ n < 2^64 := by
  have unsigned (digits : List Char)
      (parsed : (if digits = [] ∨ !digits.all Char.isDigit then none
        else if digitsValue digits < 2^64 then some (digitsValue digits) else none) = some n) :
      digits ≠ [] ∧ digits.all Char.isDigit ∧ digitsValue digits = n ∧ n < 2^64 := by
    split at parsed
    next => contradiction
    next digital =>
      obtain ⟨inside,same⟩ := Option.ite_none_right_eq_some.mp parsed
      obtain rfl := Option.some.inj same
      simp only [not_or,Bool.not_eq_true,Bool.not_eq_false'] at digital
      exact ⟨digital.1,digital.2,rfl,inside⟩
  unfold parseU64 at parsed
  split at parsed
  next digits => exact ⟨digits,.inr rfl,unsigned digits parsed⟩
  next => exact ⟨number,.inl rfl,unsigned number parsed⟩

theorem readF64_of_parseU64 {number : List Char} {n : Nat} (parsed : parseU64 number = some n) :
    readF64 number = some (.finite n) := by
  obtain ⟨digits,rfl | rfl,nonempty,all,rfl,_⟩ := parseU64_digits parsed
  · exact (readF64_digits nonempty all).1
  · exact (readF64_digits nonempty all).2

theorem count_agrees_iff {seconds : Nat} {scale : Option ℚ → Option ℚ} (scaling : Scaling seconds scale)
    (number : List Char) :
    (∀ d, fractional scale number = .duration d ↔
      (parseU64 number).map (fun n => Duration.fromSecs (seconds * n % 2^64)) = some d) ↔
      SharedCount seconds scale number := by
  unfold SharedCount
  cases parsed : parseU64 number with
  | none =>
    rw [← fractional_duration_iff]
    simp
  | some n =>
    simp only [Option.map_some,Option.some.injEq,fractional,readF64_of_parseU64 parsed,toF64]
    constructor
    · intro agree
      have read := (agree _).mpr rfl
      obtain ⟨r,rounded,_⟩ := fromSecsF64_duration_iff.mp ⟨_,read⟩
      obtain ⟨k,rfl,representable,near⟩ := scaling.near n r rounded
      rw [rounded,fromSecsF64_natCast] at read
      split at read
      next =>
        have same : k = seconds * n % 2^64 :=
          Nat.eq_of_mul_eq_mul_right (by decide) (Parsed.duration.inj read)
        -- a wrapped product would be less than half of it
        have inside : seconds * n < 2^64 := by omega
        rw [Nat.mod_eq_of_lt inside] at same
        exact ⟨inside,same ▸ representable⟩
      next => contradiction
    · rintro ⟨inside,representable⟩ d
      rw [scaling.exactly n representable inside,fromSecsF64_natCast,if_pos inside,
        Nat.mod_eq_of_lt inside]
      exact Parsed.duration.injEq _ _ ▸ Iff.rfl

theorem trim_eq_self {text tail front : List Char} {first last : Char} (starts : text = first :: tail)
    (ends : text.reverse = last :: front) (ink : isWhitespace first = false)
    (inkLast : isWhitespace last = false) : trim text = text := by
  have left : text.dropWhile isWhitespace = text := by
    rw [starts,List.dropWhile_cons_of_neg (by simp [ink])]
  rw [trim,left,ends,List.dropWhile_cons_of_neg (by simp [inkLast]),← ends,List.reverse_reverse]

theorem mem_of_mem_trim {c : Char} {text : List Char} (member : c ∈ trim text) : c ∈ text := by
  have inside := (List.dropWhile_suffix _).mem (List.mem_reverse.mp member)
  exact (List.dropWhile_suffix _).mem (List.mem_reverse.mp inside)

theorem trim_trim (text : List Char) : trim (trim text) = trim text := by
  have left : (trim text).dropWhile isWhitespace = trim text := by
    obtain ⟨ends,whole⟩ : trim text <+: text.dropWhile isWhitespace := List.rdropWhile_prefix _ _
    cases kept : trim text with
    | nil => rfl
    | cons c rest =>
      have first := List.head?_dropWhile_not isWhitespace text
      rw [← whole,kept,List.cons_append,List.head?_cons] at first
      exact List.dropWhile_cons_of_neg (by simpa using first)
  exact (congrArg (List.rdropWhile isWhitespace) left).trans (List.rdropWhile_idempotent _ _)

theorem trim_cons_ne_nil {c : Char} (ink : isWhitespace c = false) (text : List Char) :
    trim (c :: text) ≠ [] := by
  intro blank
  rw [trim,List.dropWhile_cons_of_neg (by simp [ink])] at blank
  have all : ∀ d ∈ c :: text, isWhitespace d := List.rdropWhile_eq_nil_iff.mp blank
  have := all c List.mem_cons_self
  rw [ink] at this
  cases this

theorem digit_ink {c : Char} (digit : c.isDigit = true) : isWhitespace c = false := by
  have range : 48 ≤ c.toNat ∧ c.toNat ≤ 57 := by
    simp only [Char.isDigit,Bool.and_eq_true,decide_eq_true_eq] at digit
    exact digit
  simp only [isWhitespace,List.mem_cons,List.not_mem_nil,or_false,Bool.or_eq_false_iff,
    decide_eq_false_iff_not,Bool.and_eq_false_iff]
  omega

theorem parseU64_starts {number : List Char} {n : Nat} (parsed : parseU64 number = some n) :
    ∃ first tail, number = first :: tail ∧ isWhitespace first = false := by
  obtain ⟨digits,rfl | rfl,nonempty,all,_⟩ := parseU64_digits parsed
  · obtain ⟨first,tail,rfl⟩ := List.exists_cons_of_ne_nil nonempty
    exact ⟨first,tail,rfl,digit_ink (List.all_eq_true.mp all first List.mem_cons_self)⟩
  · exact ⟨'+',digits,rfl,by decide⟩

theorem trim_of_count {text front number : List Char} {unit : Char} {n : Nat}
    (ends : text.reverse = unit :: front) (starts : number <:+ front)
    (parsed : parseU64 number.reverse = some n) (ink : isWhitespace unit = false) :
    trim text = text := by
  obtain ⟨first,tail,same,inkFirst⟩ := parseU64_starts parsed
  obtain ⟨middle,rfl⟩ := starts
  have whole : text = first :: (tail ++ middle.reverse ++ [unit]) := by
    rw [← List.reverse_reverse text,ends,List.reverse_cons,List.reverse_append,same]
    rfl
  exact trim_eq_self whole ends inkFirst ink

theorem trimMs_suffix (text : List Char) : trimMs text <:+ text := by
  fun_induction trimMs text with
  | case1 rest ih => exact ih.trans ((List.suffix_cons 'm' rest).trans (List.suffix_cons 's' _))
  | case2 text => exact List.suffix_refl text

theorem parseDuration_unblanked {text : String} {d : Duration} (parsed : parseDuration text = some d) :
    trim text.toList = text.toList := by
  unfold parseDuration at parsed
  split at parsed
  next rest ends =>
    obtain ⟨n,number,_⟩ := Option.map_eq_some_iff.mp parsed
    exact trim_of_count ends ((trimMs_suffix rest).trans (List.suffix_cons 'm' rest)) number (by decide)
  next rest _ ends =>
    obtain ⟨n,number,_⟩ := Option.map_eq_some_iff.mp parsed
    exact trim_of_count ends (List.dropWhile_suffix _) number (by decide)
  next rest ends =>
    obtain ⟨n,number,_⟩ := Option.map_eq_some_iff.mp parsed
    exact trim_of_count ends (List.dropWhile_suffix _) number (by decide)
  next => contradiction

theorem agree_iff_of_none {text : String} (none : ∀ d, parseDuration text ≠ some d) :
    Agree text ↔ ¬Readable text := by
  rw [← readable_iff]
  simp [Agree,none]

/-- The utility and the engine agree on exactly the shared texts. -/
theorem syntax_agrees_iff (text : String) : Agree text ↔ Shared text := by
  unfold Shared
  split
  next unblanked =>
    split
    next rest ends =>
      simp [Agree,parseDurationStr,parseDuration,unblanked,ends,whole_eq_duration]
    next rest other ends =>
      have seconds := count_agrees_iff seconds_scaling (rest.dropWhile (· == 's')).reverse
      have engine : parseDuration text = (parseU64 (rest.dropWhile (· == 's')).reverse).map
          (fun n => Duration.fromSecs (1 * n % 2^64)) := by
        simp only [parseDuration,ends]
        apply Option.map_congr
        intro n parsed
        obtain ⟨_,_,_,_,_,inside⟩ := parseU64_digits parsed
        rw [Nat.one_mul,Nat.mod_eq_of_lt inside]
      have utility : parseDurationStr text = fractional id (rest.dropWhile (· == 's')).reverse := by
        simp only [parseDurationStr,unblanked,ends]
      simpa only [Agree,engine,utility] using seconds
    next rest ends =>
      have minutes := count_agrees_iff minutes_scaling (rest.dropWhile (· == 'm')).reverse
      simpa [Agree,parseDurationStr,parseDuration,unblanked,ends,Nat.mul_comm] using minutes
    next ms seconds minutes =>
      apply agree_iff_of_none
      intro d
      unfold parseDuration
      split
      next rest ends => exact absurd ends (ms rest)
      next rest _ ends => exact absurd ends (seconds rest)
      next rest ends => exact absurd ends (minutes rest)
      next => simp
  next blanks => exact agree_iff_of_none fun d parsed => blanks (parseDuration_unblanked parsed)

/-- Fractions, hours, plain numbers and blanks are documented and read by the utility alone. -/
theorem documented_syntax_unread :
    ["1.5s","1h","1000"," 30s "].map parseDurationStr =
        [.duration (Duration.fromMillis 1500),.duration (Duration.fromSecs 3600),
          .duration (Duration.fromSecs 1),.duration (Duration.fromSecs 30)] ∧
      ["1.5s","1h","1000"," 30s "].map parseDuration = [none,none,none,none] := by
  decide +kernel

end Utils

end Fusillade
