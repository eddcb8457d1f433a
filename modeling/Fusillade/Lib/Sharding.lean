import Mathlib.Data.List.Basic
import Mathlib.Data.Multiset.Fold

/-! Folding events into several parts and recombining the parts. A measure into a
commutative monoid that every event moves by a fixed weight does not see how the events
were split, nor the order in which they came. -/
namespace Sharding

variable {S E M : Type} (op : M → M → M) (unit : M)

/-- The combination of all the measures of a list, from the unit. -/
def total (measures : List M) : M := measures.foldr op unit

/-- Each event goes to the part with the index that comes with it. -/
def feed (add : S → E → S) (parts : List S) (feeds : List (Nat × E)) : List S :=
  feeds.foldl (fun parts f => parts.modify f.1 (add · f.2)) parts

/-- Events keep a state valid and move its measure by their own weight. -/
structure Homomorphic (valid : S → Prop) (add : S → E → S) (measure : S → M)
    (weight : E → M) : Prop where
  keeps : ∀ s e, valid s → valid (add s e)
  grows : ∀ s e, valid s → measure (add s e) = op (measure s) (weight e)

variable {op unit} {valid : S → Prop} {add : S → E → S} {measure : S → M} {weight : E → M}

theorem feed_cons (parts : List S) (f : Nat × E) (feeds : List (Nat × E)) :
    feed add parts (f :: feeds) = feed add (parts.modify f.1 (add · f.2)) feeds := rfl

theorem feed_valid (keeps : ∀ s e, valid s → valid (add s e)) (parts : List S)
    (feeds : List (Nat × E)) (start : ∀ s ∈ parts, valid s) :
    ∀ s ∈ feed add parts feeds, valid s := by
  induction feeds generalizing parts with
  | nil => exact start
  | cons f rest ih =>
    apply ih _
    intro s member
    obtain ⟨i,inside,rfl⟩ := List.mem_iff_getElem.mp member
    rw [List.getElem_modify]
    split
    · exact keeps _ _ (start _ (List.getElem_mem _))
    · exact start _ (List.getElem_mem _)

theorem modify_map {f g : S → S} (commutes : ∀ s, g (f s) = f (g s)) (parts : List S) (i : Nat) :
    (parts.map f).modify i g = (parts.modify i g).map f := by
  apply List.ext_getElem?
  intro j
  rw [List.getElem?_modify,List.getElem?_map,List.getElem?_map,List.getElem?_modify]
  split
  · cases parts[j]? <;> simp [commutes]
  · simp

theorem feed_map {f : S → S} (parts : List S) {feeds : List (Nat × E)}
    (commutes : ∀ feed ∈ feeds, ∀ s, add (f s) feed.2 = f (add s feed.2)) :
    feed add (parts.map f) feeds = (feed add parts feeds).map f := by
  induction feeds generalizing parts with
  | nil => rfl
  | cons first rest ih =>
    obtain ⟨here,after⟩ := List.forall_mem_cons.mp commutes
    rw [feed_cons,modify_map here,ih _ after,feed_cons]

def stream (feeds : List (Nat × E)) (i : Nat) : List E := (feeds.filter (·.1 = i)).map Prod.snd

theorem feed_getElem? (parts : List S) (feeds : List (Nat × E)) (i : Nat) :
    (feed add parts feeds)[i]? = parts[i]?.map ((stream feeds i).foldl add ·) := by
  induction feeds generalizing parts with
  | nil => simp [feed,stream]
  | cons f rest ih =>
    rw [feed_cons,ih,List.getElem?_modify]
    by_cases here : f.1 = i
    · simp [stream,here,Function.comp_def]
    · simp [stream,here]

theorem feed_replicate (n : Nat) (s : S) (feeds : List (Nat × E)) :
    feed add (List.replicate n s) feeds =
      (List.range n).map fun i => (stream feeds i).foldl add s := by
  apply List.ext_getElem?
  intro i
  rw [feed_getElem?,List.getElem?_replicate,List.getElem?_map]
  by_cases inside : i < n <;> simp [inside]

section

variable [comm : Std.Commutative op] [assoc : Std.Associative op]

theorem total_perm {xs ys : List M} (perm : xs.Perm ys) : total op unit xs = total op unit ys :=
  perm.foldr_op_eq

theorem total_modify (parts : List S) (i : Nat) (inside : i < parts.length) (f : S → S)
    (w : M) (grows : ∀ s ∈ parts, measure (f s) = op (measure s) w) :
    total op unit ((parts.modify i f).map measure) = op (total op unit (parts.map measure)) w := by
  induction parts generalizing i with
  | nil => simp at inside
  | cons s rest ih =>
    cases i with
    | zero =>
      simp only [List.modify_zero_cons,List.map_cons,total,List.foldr_cons,
        grows s List.mem_cons_self]
      rw [assoc.assoc,comm.comm w,assoc.assoc]
    | succ i =>
      have later := ih i (by simpa using inside) fun t member => grows t (List.mem_cons_of_mem _ member)
      simp only [List.modify_succ_cons,List.map_cons,total,List.foldr_cons] at later ⊢
      rw [later,assoc.assoc]

variable [identity : Std.LawfulIdentity op unit]

omit comm in
theorem measure_foldl (law : Homomorphic op valid add measure weight) (events : List E)
    (s : S) (start : valid s) :
    measure (events.foldl add s) = op (measure s) (total op unit (events.map weight)) := by
  induction events generalizing s with
  | nil => exact (identity.right_id _).symm
  | cons e rest ih =>
    rw [List.foldl_cons,ih _ (law.keeps s e start),law.grows s e start,assoc.assoc]
    rfl

/-- The parts together measure what they measured before and the weight of every event. -/
theorem total_feed (law : Homomorphic op valid add measure weight) (parts : List S)
    (feeds : List (Nat × E)) (start : ∀ s ∈ parts, valid s)
    (inside : ∀ f ∈ feeds, f.1 < parts.length) :
    total op unit ((feed add parts feeds).map measure) =
      op (total op unit (parts.map measure)) (total op unit (feeds.map (weight ·.2))) := by
  induction feeds generalizing parts with
  | nil => exact (identity.right_id _).symm
  | cons f rest ih =>
    have grown := @total_modify _ _ op unit measure _ _ parts f.1 (inside f List.mem_cons_self)
      (add · f.2) (weight f.2) fun s member => law.grows s f.2 (start s member)
    have validNext : ∀ s ∈ parts.modify f.1 (add · f.2), valid s :=
      feed_valid law.keeps parts [f] start
    rw [feed_cons,ih _ validNext fun g member => by
      simpa using inside g (List.mem_cons_of_mem _ member)]
    rw [grown,assoc.assoc]
    rfl

end

end Sharding
