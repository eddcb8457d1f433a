import Fusillade.Engine.DurationSyntax
import Fusillade.Lib.Decimal

/-! The commands that a run takes while it is going, and the lines that the console reads them
from in interactive mode. -/
namespace Fusillade.Engine

abbrev Text := List Char

inductive ControlCommand where
  | ramp (workers : Nat)
  | pause
  | resume
  | tag (key value : Text)
  | status
  | stop
  deriving DecidableEq

namespace CommandLine

open Stats Utils

/-- `split_once('=')` -/
def splitEquals : Text → Option (Text × Text)
  | [] => none
  | '=' :: rest => some ([],rest)
  | c :: rest => (splitEquals rest).map fun (key,value) => (c :: key,value)

/-- No other letter has one of these words in lower case. -/
def lowercase (word : Text) : Text := word.map Char.toLower

def parseControlCommand (input : Text) : Option ControlCommand :=
  match Words.words isWhitespace (trim input) with
  | [] => none
  | word :: rest =>
    let name := String.ofList (lowercase word)
    if name = "ramp" ∨ name = "scale" then (rest.head?.bind parseU64).map .ramp
    else if name = "pause" then some .pause
    else if name = "resume" ∨ name = "unpause" then some .resume
    else if name = "tag" then (rest.head?.bind splitEquals).map fun (key,value) => .tag key value
    else if name = "status" ∨ name = "stats" then some .status
    else if name = "stop" ∨ name = "quit" ∨ name = "exit" then some .stop
    else none

/-- A command that some line stands for. -/
def Sendable : ControlCommand → Prop
  | .ramp workers => workers < 2^64
  | .tag key value => '=' ∉ key ∧ ∀ c ∈ key ++ value, isWhitespace c = false
  | .pause | .resume | .status | .stop => True

/-- The words that a command goes by. -/
def names : ControlCommand → List String
  | .ramp _ => ["ramp","scale"]
  | .pause => ["pause"]
  | .resume => ["resume","unpause"]
  | .tag _ _ => ["tag"]
  | .status => ["status","stats"]
  | .stop => ["stop","quit","exit"]

/-- What the word behind the name has to be. -/
def Means : ControlCommand → Option Text → Prop
  | .ramp workers, word => word.bind parseU64 = some workers
  | .tag key value, word => word = some (key ++ '=' :: value) ∧ '=' ∉ key
  | .pause, _ | .resume, _ | .status, _ | .stop, _ => True

/-- The word that gives a command its values. -/
def argument : ControlCommand → Text
  | .ramp workers => Decimal.nat workers
  | .tag key value => key ++ '=' :: value
  | .pause | .resume | .status | .stop => []

theorem splitEquals_eq_some {text key value : Text} :
    splitEquals text = some (key,value) ↔ text = key ++ '=' :: value ∧ '=' ∉ key := by
  induction text generalizing key with
  | nil => simp [splitEquals]
  | cons c rest ih =>
    by_cases here : c = '='
    · subst here
      cases key with
      | nil => simp [splitEquals,eq_comm]
      | cons d key => simp [splitEquals]; tauto
    · have moves : splitEquals (c :: rest) =
          (splitEquals rest).map fun (key,value) => (c :: key,value) := by
        rw [splitEquals]
        exact here
      rw [moves]
      cases key with
      | nil => simp [here]
      | cons d key =>
        simp only [Option.map_eq_some_iff,Prod.mk.injEq,List.cons.injEq,List.cons_append,List.mem_cons,
          not_or]
        constructor
        · rintro ⟨⟨front,back⟩,found,⟨rfl,rfl⟩,rfl⟩
          obtain ⟨rfl,free⟩ := ih.mp found
          exact ⟨⟨rfl,rfl⟩,Ne.symm here,free⟩
        · rintro ⟨⟨rfl,rfl⟩,-,free⟩
          exact ⟨(key,value),ih.mpr ⟨rfl,free⟩,⟨rfl,rfl⟩,rfl⟩

theorem parseU64_nat {n : Nat} (fits : n < 2^64) : parseU64 (Decimal.nat n) = some n := by
  have digits : ∀ c ∈ Decimal.nat n, c.isDigit = true := fun c member =>
    Nat.isDigit_of_mem_toDigits (by decide) (by decide) member
  have value : digitsValue (Decimal.nat n) = n := by
    have read : Nat.ofDigitChars 10 (Decimal.nat n) 0 = n :=
      Nat.ofDigitChars_toDigits (by decide) (by decide)
    rw [Nat.ofDigitChars_eq_foldl] at read
    simpa only [digitsValue,Nat.mul_comm] using read
  unfold parseU64
  split
  next rest same =>
    have sign := digits '+' (same ▸ List.mem_cons_self)
    exact absurd sign (by decide)
  next =>
    have all : (Decimal.nat n).all Char.isDigit = true := List.all_eq_true.mpr digits
    have nonempty := Decimal.nat_ne_nil n
    change (if _ then none else if digitsValue (Decimal.nat n) < 2^64 then
      some (digitsValue (Decimal.nat n)) else none) = some n
    rw [if_neg (by simp [all,nonempty]),value,if_pos fits]

theorem words_trim (input : Text) :
    Words.words isWhitespace (trim input) = Words.words isWhitespace input := by
  have parts : input.takeWhile isWhitespace ++ trim input ++
      (input.dropWhile isWhitespace).rtakeWhile isWhitespace = input := by
    rw [List.append_assoc]
    change _ ++ ((input.dropWhile isWhitespace).rdropWhile isWhitespace ++ _) = input
    rw [List.rdropWhile_append_rtakeWhile,List.takeWhile_append_dropWhile]
  conv => rhs; rw [← parts]
  exact (Words.words_surrounded (fun c => List.mem_takeWhile_imp) (fun c => List.mem_rtakeWhile_imp) _).symm

/-- A line stands for a command exactly when its first word is one of the command's names, in
whatever case, and the second gives the command its values; the others do not matter. -/
theorem parse_eq_some {input : Text} {command : ControlCommand} :
    parseControlCommand input = some command ↔
      ∃ word rest, Words.words isWhitespace input = word :: rest ∧
        String.ofList (lowercase word) ∈ names command ∧ Means command rest.head? := by
  rw [parseControlCommand,words_trim]
  cases split : Words.words isWhitespace input with
  | nil => simp
  | cons word rest =>
    have only : (∃ first others, word :: rest = first :: others ∧
        String.ofList (lowercase first) ∈ names command ∧ Means command others.head?) ↔
          String.ofList (lowercase word) ∈ names command ∧ Means command rest.head? := by
      constructor
      · rintro ⟨_,_,⟨⟩,named,means⟩
        exact ⟨named,means⟩
      · exact fun ⟨named,means⟩ => ⟨word,rest,rfl,named,means⟩
    rw [only]
    dsimp only
    generalize String.ofList (lowercase word) = name
    split_ifs with ramp pause resume tag status stop
    · rw [Option.map_eq_some_iff]
      rcases ramp with rfl | rfl <;> cases command <;> simp [names,Means]
    · subst pause
      cases command <;> simp [names,Means]
    · rcases resume with rfl | rfl <;> cases command <;> simp [names,Means]
    · rw [Option.map_eq_some_iff]
      subst tag
      cases command <;> simp [names,Means,Option.bind_eq_some_iff,splitEquals_eq_some]
    · rcases status with rfl | rfl <;> cases command <;> simp [names,Means]
    · rcases stop with rfl | rfl | rfl <;> cases command <;> simp [names,Means]
    · refine iff_of_false nofun ?_
      rintro ⟨named,-⟩
      cases command <;> simp only [names,List.mem_cons,List.not_mem_nil,or_false] at named <;> tauto

theorem sendable_of_parse {input : Text} {command : ControlCommand}
    (parsed : parseControlCommand input = some command) : Sendable command := by
  obtain ⟨word,rest,words,-,means⟩ := parse_eq_some.mp parsed
  cases command with
  | pause | resume | status | stop => trivial
  | ramp workers =>
    obtain ⟨digits,-,number⟩ := Option.bind_eq_some_iff.mp means
    obtain ⟨-,-,-,-,-,fits⟩ := parseU64_digits number
    exact fits
  | tag key value =>
    obtain ⟨first,free⟩ := means
    have inside : key ++ '=' :: value ∈ Words.words isWhitespace input :=
      words ▸ List.mem_cons_of_mem word (List.mem_of_head? first)
    refine ⟨free,fun c member => Words.clean_of_mem_words inside c ?_⟩
    rcases List.mem_append.mp member with inKey | inValue
    · exact List.mem_append_left _ inKey
    · exact List.mem_append_right _ (List.mem_cons_of_mem _ inValue)

theorem toLower_eq_self {c : Char} (blank : isWhitespace c = true) : c.toLower = c := by
  simp only [isWhitespace,List.mem_cons,List.not_mem_nil,or_false,Bool.or_eq_true,
    decide_eq_true_eq,Bool.and_eq_true] at blank
  have low : ¬(65 ≤ c.toNat ∧ c.toNat ≤ 90) := by omega
  exact dif_neg low

/-- A name in whatever case is a word. -/
theorem word_of_name {command : ControlCommand} {word : Text}
    (named : String.ofList (lowercase word) ∈ names command) :
    word ≠ [] ∧ ∀ c ∈ word, isWhitespace c = false := by
  have letters : ∀ name ∈ ["ramp","scale","pause","resume","unpause","tag","status","stats","stop",
      "quit","exit"], name.toList ≠ [] ∧ name.toList.all (!isWhitespace ·) = true := by decide
  have known : ∀ name ∈ names command, name ∈ ["ramp","scale","pause","resume","unpause","tag",
      "status","stats","stop","quit","exit"] := by
    cases command <;> simp [names]
  obtain ⟨some,ink⟩ := letters _ (known _ named)
  rw [String.toList_ofList] at some ink
  refine ⟨fun none => some (by rw [none]; rfl),fun c member => ?_⟩
  have lower := List.all_eq_true.mp ink _ (List.mem_map_of_mem member)
  cases blank : isWhitespace c with
  | false => rfl
  | true => simp [toLower_eq_self blank,blank] at lower

theorem means_argument {command : ControlCommand} (sendable : Sendable command) :
    (∀ c ∈ argument command, isWhitespace c = false) ∧
      Means command (Words.words isWhitespace (argument command)).head? := by
  cases command with
  | pause | resume | status | stop => exact ⟨by simp [argument],trivial⟩
  | ramp workers =>
    have digits : ∀ c ∈ Decimal.nat workers, isWhitespace c = false := fun c member =>
      digit_ink (Nat.isDigit_of_mem_toDigits (by decide) (by decide) member)
    refine ⟨digits,?_⟩
    rw [argument,Words.words_single (Decimal.nat_ne_nil workers) digits]
    exact parseU64_nat sendable
  | tag key value =>
    obtain ⟨free,clean⟩ := sendable
    have ink : ∀ c ∈ key ++ '=' :: value, isWhitespace c = false := by
      intro c member
      rcases List.mem_append.mp member with inKey | rest
      · exact clean c (List.mem_append_left _ inKey)
      · rcases List.mem_cons.mp rest with rfl | inValue
        · decide
        · exact clean c (List.mem_append_right _ inValue)
    refine ⟨ink,?_⟩
    rw [argument,Words.words_single (by simp) ink]
    exact ⟨rfl,free⟩

/-- Any of its names in any case, with any white space around it and before the argument. -/
theorem parse_line {command : ControlCommand} (sendable : Sendable command)
    {before name gap after : Text} (blank : ∀ c ∈ before ++ gap ++ after, isWhitespace c = true)
    (apart : gap ≠ []) (named : String.ofList (lowercase name) ∈ names command) :
    parseControlCommand (before ++ (name ++ gap ++ argument command) ++ after) = some command := by
  obtain ⟨some,ink⟩ := word_of_name named
  obtain ⟨clean,means⟩ := means_argument sendable
  obtain ⟨separator,spaces,rfl⟩ := List.exists_cons_of_ne_nil apart
  have words : Words.words isWhitespace (before ++ (name ++ separator :: spaces ++ argument command) ++ after) =
      name :: Words.words isWhitespace (argument command) := by
    have inner := @Words.words_surrounded _ isWhitespace spaces [] (by simp_all) (by simp) (argument command)
    rw [List.append_nil] at inner
    rw [Words.words_surrounded (by simp_all) (by simp_all),List.append_assoc,List.cons_append,
      Words.words_append_sep some ink (by simp_all),inner]
  exact parse_eq_some.mpr ⟨name,_,words,named,means⟩

example : parseControlCommand "  SCALE 50 now".toList = some (.ramp 50) := by decide +kernel

end CommandLine

end Fusillade.Engine
