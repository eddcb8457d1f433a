import Fusillade.Cli.CostEstimate
import Fusillade.Lib.Separators
import Fusillade.Stats.ScenarioThresholds

/-! The names of scenarios. No accepted name has a colon, so that the two colons after it mark
where it ends in the key of a group. -/
namespace Fusillade.Engine.ScenarioNames

open Stats

section

-- The tables of `char::is_alphanumeric` for the characters that are not ASCII.
variable (unicode : Char → Bool)

def isAlphanumeric (c : Char) : Bool :=
  if c.toNat < 128 then c.isAlphanum else unicode c

def invalidCharacter (c : Char) : Bool :=
  !isAlphanumeric unicode c && c != '_' && c != '-' && c != '.'

def validateScenarioName (name : String) : Except String Unit :=
  if name = "" then .error "Scenario name cannot be empty"
  else if name.utf8ByteSize > 64 then
    .error ("Scenario name '" ++ name ++ "' is too long (max 64 characters)")
  else match name.toList.find? (invalidCharacter unicode) with
    | some c => .error ("Scenario name '" ++ name ++ "' contains invalid character '" ++ String.singleton c ++
        "'. Use only alphanumeric, underscore, hyphen, or dot.")
    | none => .ok ()

end

variable {unicode : Char → Bool} {name scenario key : String}

theorem invalidCharacter_colon (unicode : Char → Bool) : invalidCharacter unicode ':' = true := rfl

theorem validCharacters_of_ok (accepted : validateScenarioName unicode name = .ok ()) :
    ∀ c ∈ name.toList, invalidCharacter unicode c = false := by
  unfold validateScenarioName at accepted
  split at accepted
  · contradiction
  · split at accepted
    · contradiction
    · split at accepted
      · contradiction
      · rename_i nothing
        simpa using List.find?_eq_none.mp nothing

/-- What the run asks of the names of its scenarios. -/
theorem validateScenarioName_ok : validateScenarioName unicode name = .ok () ↔
    Cli.CostEstimate.validateScenarioName (isAlphanumeric unicode) name = true := by
  have valid : (name.toList.all fun c => isAlphanumeric unicode c || c == '_' || c == '-' || c == '.') = true ↔
      name.toList.find? (invalidCharacter unicode) = none := by
    rw [List.find?_eq_none,List.all_eq_true]
    refine forall₂_congr fun c _ => ?_
    simp only [invalidCharacter,bne]
    cases isAlphanumeric unicode c <;> cases c == '_' <;> cases c == '-' <;> cases c == '.' <;> simp
  rw [Cli.CostEstimate.validateScenarioName,Bool.and_eq_true,Bool.and_eq_true,valid,validateScenarioName]
  by_cases empty : name = ""
  · simp [empty]
  · by_cases long : name.utf8ByteSize > 64
    · simp [empty,long]
    · have short : name.utf8ByteSize ≤ 64 := Nat.le_of_not_lt long
      cases name.toList.find? (invalidCharacter unicode) <;> simp [empty,short,Nat.not_lt.mpr short]

theorem colon_not_mem (accepted : validateScenarioName unicode name = .ok ()) : ':' ∉ name.toList := by
  intro inside
  have valid := validCharacters_of_ok accepted ':' inside
  rw [invalidCharacter_colon] at valid
  contradiction

theorem startsWith_iff : startsWith key (scenario ++ "::") = true ↔
    ∃ rest, key.toList = scenario.toList ++ ':' :: ':' :: rest := by
  rw [startsWith,List.isPrefixOf_iff_prefix,String.toList_append]
  exact exists_congr fun rest => by simp [eq_comm]

/-- A group of another scenario is passed over. -/
theorem validateScenarioThresholds_other (foreign : startsWith key (scenario ++ "::") = false)
    (reader : HistogramReader) (a : StatsAggregator) (before after : List (String × RequestStats))
    (stats : RequestStats) (criteria : Criteria) :
    a.validateScenarioThresholds reader (before ++ (key,stats) :: after) scenario criteria =
      a.validateScenarioThresholds reader (before ++ after) scenario criteria := by
  have same : absorbGroups scenario (before ++ (key,stats) :: after) = absorbGroups scenario (before ++ after) := by
    rw [absorbGroups,absorbGroups,List.foldl_append,List.foldl_append,List.foldl_cons,foreign]
    rfl
  simp only [StatsAggregator.validateScenarioThresholds,StatsAggregator.scenarioPart,same]

/-- The key of a group bears the name of one scenario at most, and the thresholds of the other
do not see the group. -/
theorem group_of_one_scenario {a b : String} (accepted : validateScenarioName unicode a = .ok ())
    (acceptedToo : validateScenarioName unicode b = .ok ()) (distinct : a ≠ b) (key : String) :
    ¬(startsWith key (a ++ "::") = true ∧ startsWith key (b ++ "::") = true) ∧
      ∃ unseen ∈ [a,b], ∀ reader aggregator before stats after criteria,
        StatsAggregator.validateScenarioThresholds reader aggregator (before ++ (key,stats) :: after) unseen criteria =
          aggregator.validateScenarioThresholds reader (before ++ after) unseen criteria := by
  have one : ¬(startsWith key (a ++ "::") = true ∧ startsWith key (b ++ "::") = true) := by
    rintro ⟨ofA,ofB⟩
    obtain ⟨rest,front⟩ := startsWith_iff.mp ofA
    obtain ⟨more,start⟩ := startsWith_iff.mp ofB
    have names := (Separators.first_separator (colon_not_mem accepted) (colon_not_mem acceptedToo)).mp
      (front.symm.trans start)
    exact distinct (String.toList_inj.mp names.1)
  refine ⟨one,?_⟩
  cases ofA : startsWith key (a ++ "::") with
  | false => exact ⟨a,List.mem_cons_self,fun reader aggregator before stats after criteria =>
      validateScenarioThresholds_other ofA reader aggregator before after stats criteria⟩
  | true =>
    have notB : startsWith key (b ++ "::") = false := Bool.eq_false_iff.mpr fun ofB => one ⟨ofA,ofB⟩
    exact ⟨b,by simp,fun reader aggregator before stats after criteria =>
      validateScenarioThresholds_other notB reader aggregator before after stats criteria⟩

/-- One name may start another. -/
theorem shop_groups : startsWith "shop.v2::login" ("shop.v2" ++ "::") = true ∧
    ¬(startsWith "shop.v2::login" ("shop" ++ "::") = true ∧ startsWith "shop.v2::login" ("shop.v2" ++ "::") = true) :=
  ⟨by decide,(@group_of_one_scenario (fun _ => false) "shop" "shop.v2" (by rfl) (by rfl) (by decide)
    "shop.v2::login").1⟩

end Fusillade.Engine.ScenarioNames
