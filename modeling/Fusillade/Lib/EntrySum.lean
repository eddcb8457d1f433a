import Fusillade.Lib.FiniteMap
import Mathlib.Algebra.BigOperators.Group.Finset.Basic

/-! Sums over the entries of a finite map. A sum visits each key once, so no order of the
visit shows in it, and a pointwise combination of maps adds the sums of a part that the
combination of values adds. -/
namespace FiniteMap

variable {κ ν M : Type} [DecidableEq κ] [AddCommMonoid M]

/-- What one key stands for in a sum: nothing when it has no entry. -/
def part (f : κ → ν → M) (m : FiniteMap κ ν) (key : κ) : M := (m.lookup key).elim 0 (f key)

def sum (f : κ → ν → M) (m : FiniteMap κ ν) : M := ∑ key ∈ m.keys, part f m key

/-- `values().sum()`. -/
def sumValues (m : FiniteMap κ M) : M := sum (fun _ => id) m

/-- Keys without an entry may be counted along. -/
theorem sum_eq_of_subset (f : κ → ν → M) (m : FiniteMap κ ν) {keys : Finset κ}
    (covered : m.keys ⊆ keys) : sum f m = ∑ key ∈ keys, part f m key := by
  apply Finset.sum_subset covered
  intro key _ absent
  have none : m.lookup key = none := Finmap.lookup_eq_none.mpr fun there =>
    absent (Finmap.mem_keys.mpr there)
  rw [part,none]
  rfl

@[simp] theorem sum_empty (f : κ → ν → M) : sum f (∅ : FiniteMap κ ν) = 0 := by
  simp [sum]

theorem keys_mergeWith (combine : ν → ν → ν) (a b : FiniteMap κ ν) :
    (mergeWith combine a b).keys = a.keys ∪ b.keys := by
  ext key
  simp only [Finset.mem_union,Finmap.mem_keys,← Finmap.lookup_isSome,lookup_mergeWith]
  cases a.lookup key <;> cases b.lookup key <;> simp

theorem part_mergeWith {f : κ → ν → M} {combine : ν → ν → ν}
    (additive : ∀ key a b, f key (combine a b) = f key a + f key b) (a b : FiniteMap κ ν) (key : κ) :
    part f (mergeWith combine a b) key = part f a key + part f b key := by
  rw [part,part,part,lookup_mergeWith]
  cases a.lookup key <;> cases b.lookup key <;> simp [additive]

theorem sum_mergeWith (f : κ → ν → M) (combine : ν → ν → ν)
    (additive : ∀ key a b, f key (combine a b) = f key a + f key b) (a b : FiniteMap κ ν) :
    sum f (mergeWith combine a b) = sum f a + sum f b := by
  rw [sum,keys_mergeWith,Finset.sum_congr rfl fun key _ => part_mergeWith additive a b key,
    Finset.sum_add_distrib,← sum_eq_of_subset f a Finset.subset_union_left,
    ← sum_eq_of_subset f b Finset.subset_union_right]

theorem part_upsert_empty (f : κ → ν → M) (default : ν) (update : ν → ν) (key other : κ) :
    part f (upsert default update key ∅) other = if other = key then f key (update default) else 0 := by
  rw [part,lookup_upsert]
  by_cases same : other = key
  · simp [same]
  · simp [same]

/-- An entry made where there was none is the whole sum of a map without others. -/
theorem sum_upsert_empty (f : κ → ν → M) (default : ν) (update : ν → ν) (key : κ) :
    sum f (upsert default update key ∅) = f key (update default) := by
  have only : (upsert default update key ∅ : FiniteMap κ ν).keys ⊆ {key} := by
    intro other there
    rw [Finmap.mem_keys,← Finmap.lookup_isSome,lookup_upsert] at there
    by_contra different
    simp [Finset.mem_singleton.not.mp different] at there
  rw [sum_eq_of_subset f _ only,Finset.sum_singleton,part_upsert_empty,if_pos rfl]

theorem sumValues_mergeWith (a b : FiniteMap κ M) :
    sumValues (mergeWith (· + ·) a b) = sumValues a + sumValues b :=
  sum_mergeWith _ _ (fun _ _ _ => rfl) a b

@[simp] theorem sumValues_empty : sumValues (∅ : FiniteMap κ M) = 0 := sum_empty _

theorem sumValues_upsert_empty (default : M) (update : M → M) (key : κ) :
    sumValues (upsert default update key ∅) = update default :=
  sum_upsert_empty _ default update key

/-- A loop that visits the entries in some order adds up to the sum. -/
theorem sum_of_lists (f : κ → ν → M) {m : FiniteMap κ ν} {entries : List (κ × ν)}
    (lists : Lists m entries) : sum f m = (entries.map fun entry => f entry.1 entry.2).sum := by
  have keys : m.keys = (entries.map Prod.fst).toFinset := by
    ext key
    simp only [Finmap.mem_keys,Finmap.mem_iff,lists.lookup,List.mem_toFinset,List.mem_map]
    constructor
    · rintro ⟨value,member⟩
      exact ⟨(key,value),member,rfl⟩
    · rintro ⟨entry,member,rfl⟩
      exact ⟨entry.2,member⟩
  rw [sum,keys,List.sum_toFinset _ lists.nodup,List.map_map]
  congr 1
  apply List.map_congr_left
  intro entry member
  rw [Function.comp_apply,part,(lists.lookup entry.1 entry.2).mpr member]
  rfl

theorem sumValues_upsert_add (amount : M) (key : κ) (m : FiniteMap κ M) :
    sumValues (upsert 0 (· + amount) key m) = sumValues m + amount := by
  rw [upsert_eq_mergeWith 0 (· + amount) (· + ·) (by simp),sumValues_mergeWith,
    sumValues_upsert_empty,zero_add]

/-- A zero may be left out. -/
theorem sumValues_erase {key : κ} {m : FiniteMap κ M} (zero : m.lookup key = some 0) :
    sumValues (m.erase key) = sumValues m := by
  have fewer : (m.erase key).keys ⊆ m.keys := by
    rw [Finmap.keys_erase]
    exact Finset.erase_subset ..
  rw [sumValues,sum_eq_of_subset _ _ fewer]
  apply Finset.sum_congr rfl
  intro other _
  rw [part,part,lookup_erase]
  split
  next same => rw [same,zero]; rfl
  next => rfl

end FiniteMap
