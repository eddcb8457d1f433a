import Fusillade.Lib.Replacement

/-! Characters that are written as entities. Every entity starts with one mark, which is written
as an entity itself and is the first to be replaced. -/
namespace Entities

/-- A mark with its own entity and the entities of other characters. None of them holds a
character that has an entity, but for the mark at its start, or starts another. -/
structure Table (α : Type) where
  mark : α
  own : List α
  others : List (α × List α)
  starts : ∀ e ∈ (mark,own) :: others, ∃ tail, e.2 = mark :: tail ∧ mark ∉ tail
  clean : ∀ e ∈ others, ∀ f ∈ (mark,own) :: others, e.1 ∉ f.2
  unambiguous : ∀ e ∈ (mark,own) :: others, ∀ f ∈ (mark,own) :: others, e.2 <+: f.2 → e = f

variable {α : Type} [DecidableEq α]

def substitute (entries : List (α × List α)) (text : List α) : List α :=
  entries.foldl (fun text e => Replacement.replace [e.1] e.2 text) text

/-- All replacements at once. -/
def write (entries : List (α × List α)) (c : α) : List α := (entries.lookup c).getD [c]

/-- A text read with every entity taken for its character, after some elements that are left out. -/
def decodeAfter (entries : List (α × List α)) : Nat → List α → List α
  | _,[] => []
  | 0,c :: rest =>
    match entries.find? fun e => decide (e.2 <+: c :: rest) with
    | some e => e.1 :: decodeAfter entries (e.2.length - 1) rest
    | none => c :: decodeAfter entries 0 rest
  | skip + 1,_ :: rest => decodeAfter entries skip rest

def decode (entries : List (α × List α)) (text : List α) : List α := decodeAfter entries 0 text

section

variable {entries : List (α × List α)}

theorem write_absent {c : α} (absent : ∀ e ∈ entries, e.1 ≠ c) : write entries c = [c] := by
  rw [write,List.lookup_eq_none_iff.mpr fun e member => by simpa using (absent e member).symm]
  rfl

theorem flatMap_write_absent {text : List α} (absent : ∀ e ∈ entries, e.1 ∉ text) :
    text.flatMap (write entries) = text := by
  induction text with
  | nil => rfl
  | cons c text ih =>
    rw [List.flatMap_cons,ih fun e member inside => absent e member (List.mem_cons_of_mem _ inside),
      write_absent fun e member same => absent e member (same ▸ List.mem_cons_self)]
    rfl

/-- Replacements that leave alone what the earlier ones put in may be made at once. -/
theorem substitute_eq (ordered : entries.Pairwise fun e f => f.1 ∉ e.2) (text : List α) :
    substitute entries text = text.flatMap (write entries) := by
  induction entries generalizing text with
  | nil => exact (flatMap_write_absent (fun _ member => absurd member List.not_mem_nil)).symm
  | cons e entries ih =>
    obtain ⟨first,later⟩ := List.pairwise_cons.mp ordered
    have rest := ih later (Replacement.replace [e.1] e.2 text)
    rw [substitute,List.foldl_cons,← substitute,rest,Replacement.replace_singleton,List.flatMap_assoc]
    congr 1
    funext c
    by_cases here : c = e.1
    · rw [if_pos here,flatMap_write_absent first,write,List.lookup_cons,here,beq_self_eq_true]
      rfl
    · rw [if_neg here,List.flatMap_singleton,write,write,List.lookup_cons,beq_false_of_ne here]

end

namespace Table

variable (t : Table α) {c : α}

def entries : List (α × List α) := (t.mark,t.own) :: t.others

theorem substitute_entries (text : List α) : substitute t.entries text = text.flatMap (write t.entries) := by
  refine substitute_eq (List.pairwise_cons.mpr ⟨fun f member => t.clean f member _ List.mem_cons_self,?_⟩) text
  refine List.pairwise_iff_forall_sublist.mpr fun {e f} both => ?_
  have inside := both.subset
  exact t.clean f (inside (by simp)) e (List.mem_cons_of_mem _ (inside (by simp)))

/-- A character is written as its entity, or as itself if it has none. -/
theorem write_cases (c : α) : (∃ e ∈ t.entries, e.1 = c ∧ write t.entries c = e.2) ∨
    (∀ e ∈ t.entries, e.1 ≠ c) ∧ write t.entries c = [c] := by
  cases found : t.entries.lookup c with
  | none =>
    have absent : ∀ e ∈ t.entries, e.1 ≠ c := fun e member same => by
      simpa [same] using List.lookup_eq_none_iff.mp found e member
    exact .inr ⟨absent,write_absent absent⟩
  | some value =>
    obtain ⟨before,after,split,-⟩ := List.lookup_eq_some_iff.mp found
    refine .inl ⟨(c,value),?_,rfl,by rw [write,found]; rfl⟩
    rw [split]
    simp

theorem not_mem_written {e : α × List α} (member : e ∈ t.others) (text : List α) :
    e.1 ∉ text.flatMap (write t.entries) := by
  intro inside
  obtain ⟨c,-,written⟩ := List.mem_flatMap.mp inside
  rcases t.write_cases c with ⟨f,entry,-,same⟩ | ⟨absent,same⟩
  · exact t.clean e member f entry (same ▸ written)
  · rw [same,List.mem_singleton] at written
    exact absent e (List.mem_cons_of_mem _ member) written

theorem entity_of_mark {text before after : List α}
    (split : text.flatMap (write t.entries) = before ++ t.mark :: after) :
    ∃ e ∈ t.entries, e.2 <+: t.mark :: after := by
  induction text generalizing before with
  | nil => simp at split
  | cons c text ih =>
    rw [List.flatMap_cons] at split
    rcases List.append_eq_append_iff.mp split with ⟨more,-,later⟩ | ⟨more,here,follows⟩
    · exact ih later
    · cases more with
      | nil => exact @ih [] follows.symm
      | cons d more =>
        obtain ⟨rfl,rest⟩ := List.cons.inj follows
        rcases t.write_cases c with ⟨e,entry,-,same⟩ | ⟨absent,same⟩
        · obtain ⟨tail,value,clear⟩ := t.starts e entry
          rw [same,value] at here
          cases before with
          | nil => exact ⟨e,entry,by rw [value,here]; exact ⟨_,by rw [rest]; rfl⟩⟩
          | cons d before =>
            refine absurd ?_ clear
            rw [(List.cons.inj here).2]
            simp
        · have only : t.mark = c := by
            have inside : t.mark ∈ [c] := by rw [← same,here]; simp
            exact List.mem_singleton.mp inside
          exact absurd only (absent _ List.mem_cons_self)

omit [DecidableEq α] in
theorem eq_of_prefix {e f : α × List α} (entry : e ∈ t.entries) (other : f ∈ t.entries) {rest : List α}
    (start : f.2 <+: e.2 ++ rest) : f = e := by
  rcases List.prefix_or_prefix_of_prefix start (List.prefix_append e.2 rest) with shorter | longer
  · exact t.unambiguous f other e entry shorter
  · exact (t.unambiguous e entry f other longer).symm

theorem decodeAfter_skip (entries : List (α × List α)) (skip : Nat) (text : List α) :
    decodeAfter entries skip text = decode entries (text.drop skip) := by
  induction text generalizing skip with
  | nil => simp [decode,decodeAfter]
  | cons c text ih =>
    cases skip with
    | zero => rfl
    | succ skip => exact ih skip

theorem decode_entity {e : α × List α} (entry : e ∈ t.entries) (rest : List α) :
    decode t.entries (e.2 ++ rest) = e.1 :: decode t.entries rest := by
  obtain ⟨tail,value,-⟩ := t.starts e entry
  have found : t.entries.find? (fun f => decide (f.2 <+: t.mark :: (tail ++ rest))) = some e := by
    cases search : t.entries.find? (fun f => decide (f.2 <+: t.mark :: (tail ++ rest))) with
    | none =>
      have never := List.find?_eq_none.mp search e entry
      simp [value] at never
    | some f =>
      have start : f.2 <+: e.2 ++ rest := by simpa [value] using List.find?_some search
      rw [t.eq_of_prefix entry (List.mem_of_find?_eq_some search) start]
  rw [value,List.cons_append,decode,decodeAfter,found]
  simp only [value,decodeAfter_skip,List.length_cons,Nat.add_sub_cancel,List.drop_left]

theorem decode_plain (absent : ∀ e ∈ t.entries, e.1 ≠ c) (rest : List α) :
    decode t.entries (c :: rest) = c :: decode t.entries rest := by
  have nothing : t.entries.find? (fun f => decide (f.2 <+: c :: rest)) = none := by
    refine List.find?_eq_none.mpr fun f entry start => ?_
    obtain ⟨tail,value,-⟩ := t.starts f entry
    obtain ⟨more,same⟩ := of_decide_eq_true start
    rw [value,List.cons_append] at same
    exact absent _ List.mem_cons_self (List.cons.inj same).1
  rw [decode,decodeAfter,nothing]
  rfl

theorem decode_written (text : List α) : decode t.entries (text.flatMap (write t.entries)) = text := by
  induction text with
  | nil => rfl
  | cons c text ih =>
    rw [List.flatMap_cons]
    rcases t.write_cases c with ⟨e,entry,key,same⟩ | ⟨absent,same⟩
    · rw [same,t.decode_entity entry,ih,key]
    · rw [same,List.singleton_append,t.decode_plain absent,ih]

end Table

end Entities
