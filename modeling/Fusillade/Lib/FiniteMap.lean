import Mathlib.Data.Finmap

/-! Finite maps with one value type, and the two loops programs run over them: updating
one entry in place, and folding every entry of another map into this one. The second loop
visits each key once, so its result does not depend on the order of the visit. -/

abbrev FiniteMap (κ ν : Type) := Finmap fun _ : κ => ν

namespace FiniteMap

variable {κ ν μ : Type} [DecidableEq κ]

/-- Update the entry of a key, starting from a default value when there is none. -/
def upsert (default : ν) (update : ν → ν) (key : κ) (m : FiniteMap κ ν) : FiniteMap κ ν :=
  m.insert key (update ((m.lookup key).getD default))

theorem lookup_insert (m : FiniteMap κ ν) (key other : κ) (value : ν) :
    (m.insert key value).lookup other = if other = key then some value else m.lookup other := by
  by_cases same : other = key
  · subst other; simp
  · simp [same,Finmap.lookup_insert_of_ne m same]

theorem lookup_erase (m : FiniteMap κ ν) (key other : κ) :
    (m.erase key).lookup other = if other = key then none else m.lookup other := by
  by_cases same : other = key
  · subst other; simp
  · simp [same,Finmap.lookup_erase_ne same]

theorem lookup_upsert (default : ν) (update : ν → ν) (key other : κ) (m : FiniteMap κ ν) :
    (upsert default update key m).lookup other =
      if other = key then some (update ((m.lookup key).getD default)) else m.lookup other :=
  lookup_insert m key other _

/-- The loop over a list of entries: each is combined with what the map has at its key. -/
def absorbEntries (combine : Option ν → μ → ν) :
    FiniteMap κ ν → List (Sigma fun _ : κ => μ) → FiniteMap κ ν
  | m, [] => m
  | m, entry :: rest =>
    absorbEntries combine (m.insert entry.1 (combine (m.lookup entry.1) entry.2)) rest

theorem lookup_absorbEntries (combine : Option ν → μ → ν) (m : FiniteMap κ ν)
    (entries : List (Sigma fun _ : κ => μ)) (distinct : entries.NodupKeys) (key : κ) :
    (absorbEntries combine m entries).lookup key =
      match entries.dlookup key with
      | none => m.lookup key
      | some value => some (combine (m.lookup key) value) := by
  induction entries generalizing m with
  | nil => rfl
  | cons entry rest ih =>
    obtain ⟨k,v⟩ := entry
    obtain ⟨fresh,later⟩ := List.nodupKeys_cons.mp distinct
    rw [absorbEntries,ih _ later,lookup_insert]
    by_cases same : key = k
    · subst key
      have absent : rest.dlookup k = none := List.dlookup_eq_none.mpr fresh
      simp [absent]
    · have skipped : List.dlookup key (⟨k,v⟩ :: rest) = rest.dlookup key :=
        List.dlookup_cons_ne rest ⟨k,v⟩ same
      rw [skipped,if_neg same]

/-- `for (key, value) in other` with an update of this map's entry for the key. -/
def absorb (combine : Option ν → μ → ν) (m : FiniteMap κ ν) (other : FiniteMap κ μ) :
    FiniteMap κ ν :=
  other.liftOn (fun entries => absorbEntries combine m entries.entries) (by
    intro a b permuted
    apply Finmap.ext_lookup
    intro key
    rw [lookup_absorbEntries _ _ _ a.nodupKeys,lookup_absorbEntries _ _ _ b.nodupKeys,
      List.perm_dlookup key a.nodupKeys permuted])

theorem lookup_absorb (combine : Option ν → μ → ν) (m : FiniteMap κ ν)
    (other : FiniteMap κ μ) (key : κ) :
    (absorb combine m other).lookup key =
      match other.lookup key with
      | none => m.lookup key
      | some value => some (combine (m.lookup key) value) := by
  induction other using Finmap.induction_on with
  | H entries => exact lookup_absorbEntries combine m entries.entries entries.nodupKeys key

/-- The map with the same keys and a value computed from each entry. -/
def mapEntries (f : κ → ν → μ) (m : FiniteMap κ ν) : FiniteMap κ μ :=
  m.liftOn (fun a => AList.toFinmap ⟨a.entries.map (Sigma.map id f),a.nodupKeys.map₂ f⟩) (by
    intro a b permuted
    exact AList.toFinmap_eq.mpr (List.Perm.map _ permuted))

theorem lookup_mapEntries (f : κ → ν → μ) (m : FiniteMap κ ν) (key : κ) :
    (mapEntries f m).lookup key = (m.lookup key).map (f key) := by
  induction m using Finmap.induction_on with
  | H a => exact List.dlookup_map₂ (l := a.entries) (f := f) key

/-- The pointwise combination of two maps; a key of only one map keeps its value. -/
def mergeWith (f : ν → ν → ν) (a b : FiniteMap κ ν) : FiniteMap κ ν :=
  absorb (fun old value => old.elim value (f · value)) a b

theorem lookup_mergeWith (f : ν → ν → ν) (a b : FiniteMap κ ν) (key : κ) :
    (mergeWith f a b).lookup key = (a.lookup key).merge f (b.lookup key) := by
  rw [mergeWith,lookup_absorb]
  cases b.lookup key <;> cases a.lookup key <;> rfl

/-- A loop whose update agrees with `f` on every entry it visits is a pointwise combination. -/
theorem absorb_eq_mergeWith (combine : Option ν → ν → ν) (f : ν → ν → ν)
    (a b : FiniteMap κ ν)
    (agrees : ∀ key value, b.lookup key = some value →
      ∀ old, combine old value = old.elim value (f · value)) :
    absorb combine a b = mergeWith f a b := by
  apply Finmap.ext_lookup
  intro key
  rw [mergeWith,lookup_absorb,lookup_absorb]
  cases present : b.lookup key with
  | none => rfl
  | some value => simp only [agrees key value present]

/-- An update that adds a fixed amount is the combination with a one-entry map. -/
theorem upsert_eq_mergeWith (default : ν) (update : ν → ν) (f : ν → ν → ν)
    (splits : ∀ value, update value = f value (update default)) (key : κ)
    (m : FiniteMap κ ν) :
    upsert default update key m = mergeWith f m (upsert default update key ∅) := by
  apply Finmap.ext_lookup
  intro other
  rw [lookup_mergeWith,lookup_upsert,lookup_upsert]
  by_cases same : other = key
  · subst other
    cases m.lookup key with
    | none => simp
    | some value => simpa using splits value
  · simp [same]

theorem mergeWith_comm (f : ν → ν → ν) [Std.Commutative f] (a b : FiniteMap κ ν) :
    mergeWith f a b = mergeWith f b a :=
  Finmap.ext_lookup fun key => by
    simp only [lookup_mergeWith]
    exact (Option.commutative_merge f).comm _ _

theorem mergeWith_assoc (f : ν → ν → ν) [Std.Associative f] (a b c : FiniteMap κ ν) :
    mergeWith f (mergeWith f a b) c = mergeWith f a (mergeWith f b c) :=
  Finmap.ext_lookup fun key => by
    simp only [lookup_mergeWith]
    exact (Option.associative_merge f).assoc _ _ _

@[simp] theorem mergeWith_empty (f : ν → ν → ν) (a : FiniteMap κ ν) : mergeWith f a ∅ = a :=
  Finmap.ext_lookup fun key => by simp [lookup_mergeWith]

@[simp] theorem empty_mergeWith (f : ν → ν → ν) (a : FiniteMap κ ν) : mergeWith f ∅ a = a :=
  Finmap.ext_lookup fun key => by simp [lookup_mergeWith]

/-- A property of every value of the map. -/
def Entries (p : ν → Prop) (m : FiniteMap κ ν) : Prop := ∀ key value, m.lookup key = some value → p value

theorem entries_empty (p : ν → Prop) : Entries p (∅ : FiniteMap κ ν) := by
  intro key value found
  simp at found

/-- What combining two values keeps, combining two maps does. -/
theorem Entries.mergeWith {p : ν → Prop} {f : ν → ν → ν} (closed : ∀ a b, p a → p b → p (f a b))
    {a b : FiniteMap κ ν} (left : Entries p a) (right : Entries p b) :
    Entries p (mergeWith f a b) := by
  intro key value found
  rw [lookup_mergeWith] at found
  cases hereA : a.lookup key with
  | none =>
    rw [hereA,Option.merge_none_left] at found
    exact right key value found
  | some old =>
    cases hereB : b.lookup key with
    | none =>
      rw [hereA,hereB,Option.merge_none_right] at found
      exact left key value (hereA.trans found)
    | some new =>
      rw [hereA,hereB] at found
      obtain rfl := Option.some.inj found
      exact closed old new (left key old hereA) (right key new hereB)

theorem entries_upsert_empty {p : ν → Prop} {default : ν} {update : ν → ν} (key : κ)
    (holds : p (update default)) : Entries p (upsert default update key ∅) := by
  intro other value found
  rw [lookup_upsert] at found
  split at found
  · obtain rfl := Option.some.inj found
    exact holds
  · simp at found

/-- The entries of the map in some order, each once. -/
def Lists (m : FiniteMap κ ν) (entries : List (κ × ν)) : Prop :=
  m.entries = (entries.map fun entry => (⟨entry.1,entry.2⟩ : Sigma fun _ : κ => ν) : List _)

instance [DecidableEq ν] (m : FiniteMap κ ν) (entries : List (κ × ν)) :
    Decidable (Lists m entries) :=
  inferInstanceAs (Decidable (m.entries = _))

omit [DecidableEq κ] in
theorem exists_lists (m : FiniteMap κ ν) : ∃ entries, Lists m entries := by
  obtain ⟨entries,same⟩ := Quot.exists_rep m.entries
  refine ⟨entries.map fun entry => (entry.1,entry.2),?_⟩
  rw [Lists,← same,List.map_map]
  exact congrArg _ (List.map_id entries).symm

omit [DecidableEq κ] in
theorem Lists.nodup {m : FiniteMap κ ν} {entries : List (κ × ν)} (lists : Lists m entries) :
    (entries.map Prod.fst).Nodup := by
  have distinct := m.nodupKeys
  rw [lists,Multiset.coe_nodupKeys,List.NodupKeys,List.keys,List.map_map] at distinct
  exact distinct

theorem Lists.lookup {m : FiniteMap κ ν} {entries : List (κ × ν)} (lists : Lists m entries)
    (key : κ) (value : ν) : m.lookup key = some value ↔ (key,value) ∈ entries := by
  rw [← Option.mem_def,Finmap.mem_lookup_iff,lists,Multiset.mem_coe,List.mem_map]
  constructor
  · rintro ⟨⟨k,v⟩,member,same⟩
    cases same
    exact member
  · intro member
    exact ⟨(key,value),member,rfl⟩

/-- What holds of every key holds along the list. -/
theorem Lists.forall_keys {m : FiniteMap κ ν} {entries : List (κ × ν)} (lists : Lists m entries)
    (holds : κ → Prop) : (∀ key ∈ m, holds key) ↔ ∀ entry ∈ entries, holds entry.1 := by
  constructor
  · intro all entry member
    exact all entry.1 (Finmap.mem_iff.mpr ⟨entry.2,(lists.lookup entry.1 entry.2).mpr member⟩)
  · intro all key member
    obtain ⟨value,present⟩ := Finmap.mem_iff.mp member
    exact all _ ((lists.lookup key value).mp present)

end FiniteMap
