import Mathlib.Algebra.BigOperators.Group.Finset.Basic
import Mathlib.Data.Fintype.BigOperators
import Mathlib.Algebra.Order.BigOperators.Group.Finset

/-! A quantity summed over an indexed family of local states, and how the sum moves when
one member of the family does. -/
namespace Family

variable {ι S M : Type} [Fintype ι] [DecidableEq ι] [AddCommMonoid M]

def total (f : S → M) (g : ι → S) : M := ∑ i, f (g i)

theorem total_update (f : S → M) (g : ι → S) (i : ι) (v : S) :
    total f (Function.update g i v) + f (g i) = total f g + f v := by
  have moved : total f (Function.update g i v) = f v + ∑ j ∈ Finset.univ \ {i}, f (g j) := by
    have pushed : (fun j => f (Function.update g i v j)) =
        Function.update (fun j => f (g j)) i (f v) := by
      funext j
      by_cases same : j = i
      · subst j; simp
      · simp [same]
    rw [total,pushed,Finset.sum_update_of_mem (Finset.mem_univ i)]
  have split : total f g = f (g i) + ∑ j ∈ Finset.univ \ {i}, f (g j) := by
    rw [total,← Finset.sum_update_of_mem (Finset.mem_univ i),Function.update_eq_self]
  rw [moved,split,add_comm (f v),add_right_comm,add_comm (∑ j ∈ _, f (g j))]

/-- A member with nothing to count takes something up. -/
theorem total_gain {f : S → M} {g : ι → S} {i : ι} (v : S) (before : f (g i) = 0) :
    total f (Function.update g i v) = total f g + f v := by
  simpa [before] using total_update f g i v

/-- A member gives up all that it counted for. -/
theorem total_spend {f : S → M} {g : ι → S} {i : ι} (v : S) (after : f v = 0) :
    total f (Function.update g i v) + f (g i) = total f g := by
  simpa [after] using total_update f g i v

theorem total_same {f : S → M} {g : ι → S} {i : ι} (v : S) (same : f v = f (g i)) :
    total f (Function.update g i v) = total f g := by
  apply Finset.sum_congr rfl
  intro j _
  by_cases here : j = i
  · subst j; simpa using same
  · simp [here]

omit [DecidableEq ι] in
theorem total_congr {f : S → M} {g h : ι → S} (same : ∀ i, f (g i) = f (h i)) :
    total f g = total f h :=
  Finset.sum_congr rfl fun i _ => same i

omit [DecidableEq ι] in
theorem total_zero {f : S → M} {g : ι → S} (none : ∀ i, f (g i) = 0) : total f g = 0 :=
  Finset.sum_eq_zero fun i _ => none i

omit [DecidableEq ι] in
theorem total_eq_zero_iff [PartialOrder M] [IsOrderedAddMonoid M] [CanonicallyOrderedAdd M]
    {f : S → M} {g : ι → S} : total f g = 0 ↔ ∀ i, f (g i) = 0 := by
  simp [total,Finset.sum_eq_zero_iff]

omit [Fintype ι] [DecidableEq ι] in
/-- The same for a list of members, one of which is replaced. -/
theorem sum_set {f : S → M} {members : List S} {i : Nat} {old : S} (new : S)
    (found : members[i]? = some old) :
    ((members.set i new).map f).sum + f old = (members.map f).sum + f new := by
  induction members generalizing i with
  | nil => simp at found
  | cons head rest ih =>
    cases i with
    | zero =>
      obtain rfl : head = old := by simpa using found
      simp only [List.set_cons_zero,List.map_cons,List.sum_cons]
      rw [add_comm (f new),add_right_comm,add_comm _ (f head)]
    | succ i =>
      have later := ih (by simpa using found)
      simp only [List.set_cons_succ,List.map_cons,List.sum_cons]
      rw [add_assoc,later,add_assoc]

end Family
