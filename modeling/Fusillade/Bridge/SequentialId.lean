import Mathlib.Data.Set.Basic
import Mathlib.Data.List.Nodup
import Mathlib.Algebra.Group.Nat.Defs
import Mathlib.Tactic.Common

/-! `utils.sequentialId()`: the number of the worker, in steps of a billion, and a counter that all
workers of the process share. Additions and products wrap, as they do in a release build. -/
namespace Fusillade.Bridge.SequentialId

def base (workerId : UInt64) : UInt64 := workerId * 1000000000

def sequentialId (workerId counter : UInt64) : UInt64 × UInt64 := (base workerId + counter,counter + 1)

/-- What the calls of a run return, in the order in which they reach the counter. -/
def identifiers : UInt64 → List UInt64 → List UInt64
  | _, [] => []
  | counter, workerId :: calls =>
    let (id,next) := sequentialId workerId counter
    id :: identifiers next calls

/-- How far the counter goes until the second worker is given what the first was given. -/
def apart (a b : UInt64) : Nat := if base a = base b then 2^64 else (base a - base b).toNat

example : apart 1 0 = 1000000000 := by decide

variable {a b : UInt64} {i j n : Nat} {workers : Set UInt64} {calls : List UInt64}

theorem identifiers_length (counter : UInt64) (calls : List UInt64) :
    (identifiers counter calls).length = calls.length := by
  induction calls generalizing counter with
  | nil => rfl
  | cons workerId calls ih => simp [identifiers,ih]

theorem identifiers_getElem? (counter : UInt64) (calls : List UInt64) (i : Nat) :
    (identifiers counter calls)[i]? = calls[i]?.map fun workerId => base workerId + (counter + .ofNat i) := by
  induction calls generalizing counter i with
  | nil => rfl
  | cons workerId calls ih =>
    cases i with
    | zero => simp [identifiers,sequentialId]
    | succ i =>
      have shifted : counter + 1 + UInt64.ofNat i = counter + .ofNat (i + 1) := by
        rw [UInt64.ofNat_add,UInt64.add_assoc,UInt64.add_comm 1]
        rfl
      simp [identifiers,sequentialId,ih,shifted]

theorem ofNat_eq_zero : UInt64.ofNat n = 0 ↔ 2^64 ∣ n := by
  rw [← UInt64.toNat_inj,UInt64.toNat_ofNat',Nat.dvd_iff_mod_eq_zero]
  rfl

/-- Two calls collide when the counter has come from one base to the other between them. -/
theorem collide_iff : base a + .ofNat i = base b + .ofNat (i + n) ↔ base a - base b = .ofNat n := by
  rw [UInt64.ofNat_add,UInt64.sub_eq_iff_eq_add,UInt64.add_comm (.ofNat n),UInt64.add_comm (.ofNat i),
    ← UInt64.add_assoc,UInt64.add_left_inj]

theorem apart_pos (a b : UInt64) : 0 < apart a b := by
  unfold apart
  split
  · decide
  next other =>
    refine Nat.pos_of_ne_zero fun zero => other ?_
    have nothing : base a - base b = 0 := UInt64.toNat_inj.mp zero
    rwa [UInt64.sub_eq_iff_eq_add,UInt64.zero_add] at nothing

theorem apart_collides (a b : UInt64) : base a - base b = .ofNat (apart a b) := by
  unfold apart
  split
  next same =>
    rw [same,UInt64.sub_self]
    exact (ofNat_eq_zero.mpr (Nat.dvd_refl _)).symm
  next => rw [UInt64.ofNat_toNat]

theorem apart_le (collides : base a - base b = .ofNat n) (positive : 0 < n) : apart a b ≤ n := by
  unfold apart
  split
  next same =>
    rw [same,UInt64.sub_self] at collides
    exact Nat.le_of_dvd positive (ofNat_eq_zero.mp collides.symm)
  next =>
    rw [collides,UInt64.toNat_ofNat']
    exact Nat.mod_le n _

/-- The calls of a run of which no two are as far apart as their workers are given distinct numbers. -/
theorem identifiers_nodup (short : calls.length ≤ n) (among : ∀ workerId ∈ calls, workerId ∈ workers)
    (far : ∀ a ∈ workers, ∀ b ∈ workers, n ≤ apart a b) (counter : UInt64) : (identifiers counter calls).Nodup := by
  rw [List.nodup_iff_getElem?_ne_getElem?]
  intro i j before inside same
  rw [identifiers_length] at inside
  have onCall {k : Nat} (within : k < calls.length) :
      (identifiers counter calls)[k]? = some (base calls[k] + .ofNat k + counter) := by
    rw [identifiers_getElem?,List.getElem?_eq_getElem within,UInt64.add_assoc,UInt64.add_comm counter]
    rfl
  rw [onCall (before.trans inside),onCall inside,Option.some_inj,UInt64.add_left_inj] at same
  have steps : j = i + (j - i) := (Nat.add_sub_of_le before.le).symm
  have same : base calls[i] + .ofNat i = base calls[j] + .ofNat (i + (j - i)) := steps ▸ same
  rw [collide_iff] at same
  have close := apart_le same (Nat.sub_pos_of_lt before)
  have wide := far _ (among _ (List.getElem_mem (before.trans inside))) _ (among _ (List.getElem_mem inside))
  omega

theorem collision_repeats (collides : base a - base b = .ofNat n) (positive : 0 < n) :
    ¬(identifiers 0 (a :: List.replicate n b)).Nodup := by
  intro distinct
  have first : (identifiers 0 (a :: List.replicate n b))[0]? = some (base a + .ofNat 0) := by
    simp [identifiers_getElem?]
  have last : (identifiers 0 (a :: List.replicate n b))[n]? = some (base b + .ofNat (0 + n)) := by
    have there : (a :: List.replicate n b)[n]? = some b := by
      obtain ⟨m,rfl⟩ := Nat.exists_eq_succ_of_ne_zero positive.ne'
      simp
    rw [identifiers_getElem?,there,UInt64.zero_add,Nat.zero_add,Option.map_some]
  have inside : n < (identifiers 0 (a :: List.replicate n b)).length := by simp [identifiers_length]
  refine List.nodup_iff_getElem?_ne_getElem?.mp distinct 0 n positive inside ?_
  rw [first,last,collide_iff.mpr collides]

/-- **In all runs of so many calls by these workers the identifiers are distinct exactly when the
counter does not get from the base of one worker to that of another in fewer.** -/
theorem identifiers_nodup_iff (workers : Set UInt64) (n : Nat) :
    (∀ calls : List UInt64, calls.length ≤ n → (∀ workerId ∈ calls, workerId ∈ workers) →
        (identifiers 0 calls).Nodup) ↔
      ∀ a ∈ workers, ∀ b ∈ workers, n ≤ apart a b := by
  refine ⟨fun distinct a first b second => ?_,fun far calls short among => identifiers_nodup short among far 0⟩
  by_contra close
  refine collision_repeats (apart_collides a b) (apart_pos a b) (distinct _ ?_ ?_)
  · rw [List.length_cons,List.length_replicate]
    omega
  · refine List.forall_mem_cons.mpr ⟨first,fun workerId member => ?_⟩
    exact List.eq_of_mem_replicate member ▸ second

/-- The first call of worker 1 is given what worker 0 is given after a billion calls. -/
theorem billionth_repeats : ¬∀ calls : List UInt64, (identifiers 0 calls).Nodup := by
  have collides : base 1 - base 0 = .ofNat 1000000000 := by decide
  exact fun distinct => collision_repeats collides (by decide) (distinct _)

end Fusillade.Bridge.SequentialId
