import Mathlib.Data.List.Infix
import Mathlib.Data.List.Basic
import Mathlib.Data.List.Forall2
import Mathlib.Tactic.Linarith
import Mathlib.Tactic.Zify

/-! Every occurrence of a pattern in a text, found from left to right, replaced at once. -/
namespace Replacement

section Intercalate

variable {α : Type}

theorem intercalate_modifyHead (value : List α) (c : α) {parts : List (List α)} (nonempty : parts ≠ []) :
    List.intercalate value (parts.modifyHead (c :: ·)) = c :: List.intercalate value parts := by
  obtain ⟨part,parts,rfl⟩ := List.exists_cons_of_ne_nil nonempty
  cases parts with
  | nil => simp
  | cons next parts => simp [List.intercalate_cons_cons]

theorem intercalate_append (value : List α) {parts more : List (List α)} (nonempty : parts ≠ []) (others : more ≠ []) :
    List.intercalate value (parts ++ more) = List.intercalate value parts ++ (value ++ List.intercalate value more) := by
  induction parts with
  | nil => exact absurd rfl nonempty
  | cons part parts ih =>
    cases parts with
    | nil => simp [List.intercalate_cons_of_ne_nil others]
    | cons next parts =>
      rw [List.cons_append,List.cons_append,List.intercalate_cons_cons,List.intercalate_cons_cons,← List.cons_append,
        ih (List.cons_ne_nil _ _)]
      simp

theorem length_intercalate (value : List α) {parts : List (List α)} (nonempty : parts ≠ []) :
    (List.intercalate value parts).length + value.length = parts.flatten.length + parts.length * value.length := by
  induction parts with
  | nil => exact absurd rfl nonempty
  | cons part parts ih =>
    cases parts with
    | nil => simp
    | cons next parts =>
      have rest := ih (List.cons_ne_nil _ _)
      rw [List.intercalate_cons_cons,List.flatten_cons,List.length_cons,Nat.add_one_mul]
      simp only [List.length_append] at rest ⊢
      omega

/-- Parts of the same lengths can be told from the whole. -/
theorem eq_of_intercalate_eq {value : List α} {parts others : List (List α)}
    (lengths : List.Forall₂ (fun part other => part.length = other.length) parts others)
    (same : List.intercalate value parts = List.intercalate value others) : parts = others := by
  induction lengths with
  | nil => rfl
  | @cons part other parts others length rest ih =>
    cases rest with
    | nil =>
      rw [List.intercalate_singleton,List.intercalate_singleton] at same
      rw [same]
    | cons next rest =>
      rw [List.intercalate_cons_cons,List.intercalate_cons_cons,List.append_assoc,List.append_assoc] at same
      obtain ⟨rfl,later⟩ := List.append_inj same length
      rw [ih (List.append_cancel_left later)]

end Intercalate

variable {α : Type} [DecidableEq α]

/-- The parts of a text between the occurrences of a pattern, after some elements that are left out. -/
def cutAfter (pattern : List α) : Nat → List α → List (List α)
  | _,[] => [[]]
  | 0,c :: rest =>
    if pattern <+: c :: rest then [] :: cutAfter pattern (pattern.length - 1) rest
    else (cutAfter pattern 0 rest).modifyHead (c :: ·)
  | skip + 1,_ :: rest => cutAfter pattern skip rest

def cut (pattern text : List α) : List (List α) := cutAfter pattern 0 text

def replace (pattern value text : List α) : List α := List.intercalate value (cut pattern text)

def occurrences (pattern text : List α) : Nat := (cut pattern text).length - 1

/-- No occurrence of the pattern overlaps with another. -/
def Unbordered (pattern : List α) : Prop :=
  ∀ border, border ≠ [] → border <+: pattern → border <:+ pattern → border = pattern

variable {pattern value text : List α}

theorem cutAfter_skip (skip : Nat) (text : List α) : cutAfter pattern skip text = cut pattern (text.drop skip) := by
  induction text generalizing skip with
  | nil => simp [cut,cutAfter]
  | cons c text ih =>
    cases skip with
    | zero => rfl
    | succ skip => exact ih skip

theorem cut_ne_nil (pattern text : List α) : cut pattern text ≠ [] := by
  have nonempty (skip : Nat) : cutAfter pattern skip text ≠ [] := by
    induction text generalizing skip with
    | nil => simp [cutAfter]
    | cons c text ih =>
      cases skip with
      | zero =>
        rw [cutAfter]
        split
        · exact List.cons_ne_nil _ _
        · cases parts : cutAfter pattern 0 text with
          | nil => exact absurd parts (ih 0)
          | cons part parts => exact List.cons_ne_nil _ _
      | succ skip => exact ih skip
  exact nonempty 0

theorem cut_pattern (nonempty : pattern ≠ []) (rest : List α) : cut pattern (pattern ++ rest) = [] :: cut pattern rest := by
  obtain ⟨c,tail,rfl⟩ := List.exists_cons_of_ne_nil nonempty
  have found : c :: tail <+: c :: (tail ++ rest) := List.prefix_append (c :: tail) rest
  rw [cut,List.cons_append,cutAfter,if_pos found,cutAfter_skip]
  simp

theorem cut_cons {c : α} (other : ¬pattern <+: c :: text) :
    cut pattern (c :: text) = (cut pattern text).modifyHead (c :: ·) := by
  rw [cut,cutAfter,if_neg other]
  rfl

theorem replace_singleton (c : α) (value text : List α) :
    replace [c] value text = text.flatMap fun d => if d = c then value else [d] := by
  induction text with
  | nil => rfl
  | cons d text ih =>
    rw [List.flatMap_cons,← ih]
    by_cases here : d = c
    · have cuts : cut [c] (c :: text) = [] :: cut [c] text := cut_pattern (List.cons_ne_nil c []) text
      obtain ⟨part,parts,later⟩ := List.exists_cons_of_ne_nil (cut_ne_nil [c] text)
      rw [if_pos here,here,replace,replace,cuts,later,List.intercalate_cons_cons,List.nil_append]
    · have other : ¬[c] <+: d :: text := fun start => here (List.cons_prefix_cons.mp start).1.symm
      rw [if_neg here,replace,cut_cons other,intercalate_modifyHead value d (cut_ne_nil _ _)]
      rfl

/-- The induction that follows the cuts. -/
theorem cut_induction {motive : List α → Prop} (nonempty : pattern ≠ []) (nil : motive [])
    (found : ∀ rest, motive rest → motive (pattern ++ rest))
    (other : ∀ c rest, ¬pattern <+: c :: rest → motive rest → motive (c :: rest)) (text : List α) : motive text := by
  induction h : text.length using Nat.strong_induction_on generalizing text with
  | h n ih =>
    subst h
    cases text with
    | nil => exact nil
    | cons c text =>
      by_cases here : pattern <+: c :: text
      · obtain ⟨rest,same⟩ := here
        have shorter : rest.length < (c :: text).length := by
          have present := List.length_pos_of_ne_nil nonempty
          rw [← same,List.length_append]
          omega
        exact same ▸ found rest (ih _ shorter rest rfl)
      · exact other c text here (ih _ (Nat.lt_succ_self _) text rfl)

/-- Replacing the pattern by itself changes nothing. -/
theorem intercalate_cut (nonempty : pattern ≠ []) (text : List α) : List.intercalate pattern (cut pattern text) = text := by
  induction text using cut_induction nonempty with
  | nil => rfl
  | found rest ih =>
    obtain ⟨part,parts,cuts⟩ := List.exists_cons_of_ne_nil (cut_ne_nil pattern rest)
    rw [cut_pattern nonempty,cuts,List.intercalate_cons_cons,← cuts,ih,List.nil_append]
  | other c rest different ih => rw [cut_cons different,intercalate_modifyHead pattern c (cut_ne_nil _ _),ih]

/-- What stands on either side of the pattern is cut on its own. -/
theorem cut_append (unbordered : Unbordered pattern) (nonempty : pattern ≠ []) (before after : List α) :
    cut pattern (before ++ (pattern ++ after)) = cut pattern before ++ cut pattern after := by
  induction before using cut_induction nonempty with
  | nil => exact cut_pattern nonempty after
  | found rest ih => rw [List.append_assoc,cut_pattern nonempty,ih,cut_pattern nonempty,List.cons_append]
  | other c rest different ih =>
    have still : ¬pattern <+: c :: (rest ++ (pattern ++ after)) := by
      rintro ⟨more,same⟩
      have same : pattern ++ more = (c :: rest) ++ (pattern ++ after) := same
      rcases List.append_eq_append_iff.mp same with ⟨tail,inside,-⟩ | ⟨border,across,follows⟩
      · exact different ⟨tail,inside.symm⟩
      · have short : border.length < pattern.length := by
          rw [across,List.length_append,List.length_cons]
          omega
        have present : border ≠ [] := by
          rintro rfl
          exact different ⟨[],by simpa using across⟩
        have front : border <+: pattern :=
          List.prefix_of_prefix_length_le ⟨more,follows.symm⟩ (List.prefix_append pattern after) short.le
        have whole := unbordered border present front ⟨c :: rest,across.symm⟩
        exact absurd short (by simp [whole])
    obtain ⟨part,parts,cuts⟩ := List.exists_cons_of_ne_nil (cut_ne_nil pattern rest)
    rw [List.cons_append,cut_cons still,cut_cons different,ih,cuts]
    rfl

/-- The texts between some occurrences of the pattern are each cut on their own. -/
theorem cut_intercalate (unbordered : Unbordered pattern) (nonempty : pattern ≠ []) {texts : List (List α)}
    (present : texts ≠ []) : cut pattern (List.intercalate pattern texts) = texts.flatMap (cut pattern) := by
  induction texts with
  | nil => exact absurd rfl present
  | cons text texts ih =>
    cases texts with
    | nil => simp
    | cons next texts =>
      rw [List.intercalate_cons_cons,List.append_assoc,cut_append unbordered nonempty,ih (List.cons_ne_nil _ _)]
      rfl

/-- A text in which the pattern does not occur is one part. -/
theorem cut_eq_singleton (nonempty : pattern ≠ []) (text : List α) (one : (cut pattern text).length = 1) :
    cut pattern text = [text] := by
  obtain ⟨part,cuts⟩ := List.length_eq_one_iff.mp one
  have whole := intercalate_cut nonempty text
  rw [cuts,List.intercalate_singleton] at whole
  rw [cuts,whole]

/-- Texts that give one part each give as many parts as they are. -/
theorem length_flatMap_cut (pattern : List α) (texts : List (List α)) :
    texts.length ≤ (texts.flatMap (cut pattern)).length ∧
      ((texts.flatMap (cut pattern)).length = texts.length ↔ ∀ text ∈ texts, (cut pattern text).length = 1) := by
  induction texts with
  | nil => simp
  | cons text texts ih =>
    have nonempty := List.length_pos_of_ne_nil (cut_ne_nil pattern text)
    rw [List.flatMap_cons,List.length_append,List.length_cons,List.forall_mem_cons,← ih.2]
    omega

theorem cut_absent (nonempty : pattern ≠ []) {text : List α} (absent : ¬pattern <:+: text) :
    cut pattern text = [text] := by
  induction text using cut_induction nonempty with
  | nil => rfl
  | found rest ih => exact absurd (List.prefix_append pattern rest).isInfix absent
  | other c rest different ih =>
    rw [cut_cons different,ih fun found => absent (found.trans (List.suffix_cons c rest).isInfix)]
    rfl

/-- Nothing happens where the pattern does not occur. -/
theorem replace_absent (nonempty : pattern ≠ []) (value : List α) {text : List α} (absent : ¬pattern <:+: text) :
    replace pattern value text = text := by
  rw [replace,cut_absent nonempty absent,List.intercalate_singleton]

/-- No occurrence begins where the first character of the pattern does not stand. -/
theorem cut_clear {c : α} {tail : List α} (clear : c ∉ text) (rest : List α) :
    cut (c :: tail) (text ++ rest) = (cut (c :: tail) rest).modifyHead (text ++ ·) := by
  induction text with
  | nil => exact (congrFun List.modifyHead_id (cut (c :: tail) rest)).symm
  | cons d text ih =>
    have different : ¬c :: tail <+: d :: (text ++ rest) := fun start =>
      clear ((List.cons_prefix_cons.mp start).1 ▸ List.mem_cons_self)
    rw [List.cons_append,cut_cons different,ih fun inside => clear (List.mem_cons_of_mem _ inside),
      List.modifyHead_modifyHead]
    rfl

/-- Before a character that is not in the pattern, a text holds a whole occurrence or none at all. -/
theorem cut_before (nonempty : pattern ≠ []) {mark : α} (outside : mark ∉ pattern) (text rest : List α) :
    (∃ part, (cut pattern (text ++ mark :: rest)).head? = some part ∧ part ++ pattern <+: text) ∨
      cut pattern (text ++ mark :: rest) = (cut pattern rest).modifyHead (text ++ mark :: ·) := by
  induction text with
  | nil =>
    have different : ¬pattern <+: mark :: rest := by
      intro start
      obtain ⟨c,tail,rfl⟩ := List.exists_cons_of_ne_nil nonempty
      exact outside ((List.cons_prefix_cons.mp start).1 ▸ List.mem_cons_self)
    exact .inr (cut_cons different)
  | cons c text ih =>
    by_cases here : pattern <+: c :: (text ++ mark :: rest)
    · have whole : pattern <+: c :: text := by
        obtain ⟨more,same⟩ := here
        have same : pattern ++ more = (c :: text) ++ (mark :: rest) := same
        rcases List.append_eq_append_iff.mp same with ⟨tail,inside,-⟩ | ⟨tail,across,follows⟩
        · exact ⟨tail,inside.symm⟩
        · cases tail with
          | nil => exact ⟨[],by simpa using across⟩
          | cons d tail =>
            obtain ⟨rfl,-⟩ := List.cons.inj follows
            exact absurd (by rw [across]; simp) outside
      obtain ⟨more,same⟩ := here
      left
      refine ⟨[],?_,whole⟩
      rw [List.cons_append,← same,cut_pattern nonempty]
      rfl
    · rw [List.cons_append,cut_cons here]
      rcases ih with ⟨part,first,found⟩ | nothing
      · refine .inl ⟨c :: part,?_,(List.prefix_cons_inj c).mpr found⟩
        rw [List.head?_modifyHead,first]
        rfl
      · right
        rw [nothing,List.modifyHead_modifyHead]
        rfl

omit [DecidableEq α] in
theorem unbordered_cons {c : α} {tail : List α} (absent : c ∉ tail) : Unbordered (c :: tail) := by
  intro border nonempty front back
  obtain ⟨d,rest,rfl⟩ := List.exists_cons_of_ne_nil nonempty
  obtain ⟨rfl,-⟩ := List.cons_prefix_cons.mp front
  rcases List.suffix_cons_iff.mp back with whole | inside
  · exact whole
  · exact absurd (inside.subset List.mem_cons_self) absent

theorem length_replace (nonempty : pattern ≠ []) (value text : List α) :
    (replace pattern value text).length + occurrences pattern text * pattern.length =
      text.length + occurrences pattern text * value.length := by
  obtain ⟨n,parts⟩ := Nat.exists_eq_add_one.mpr (List.length_pos_of_ne_nil (cut_ne_nil pattern text))
  have written := length_intercalate value (cut_ne_nil pattern text)
  have read := length_intercalate pattern (cut_ne_nil pattern text)
  rw [intercalate_cut nonempty] at read
  rw [parts,Nat.add_one_mul] at written read
  rw [replace,occurrences,parts,Nat.add_sub_cancel]
  omega

/-- Only the pattern itself leaves a text as it is where the pattern occurs. -/
theorem value_eq_of_replace {text : List α} (nonempty : pattern ≠ []) (same : replace pattern value text = text) :
    value = pattern ∨ (cut pattern text).length = 1 := by
  have lengths := length_replace nonempty value text
  have whole := intercalate_cut nonempty text
  rw [same,occurrences] at lengths
  rw [replace] at same
  rcases cuts : cut pattern text with _ | ⟨part,_ | ⟨next,parts⟩⟩
  · exact absurd cuts (cut_ne_nil _ _)
  · exact .inr rfl
  · left
    rw [cuts] at same whole lengths
    have long : value.length = pattern.length :=
      Nat.eq_of_mul_eq_mul_left (Nat.succ_pos parts.length) (Nat.add_left_cancel lengths).symm
    have joined := same.trans whole.symm
    rw [List.intercalate_cons_cons,List.intercalate_cons_cons,List.append_assoc,List.append_assoc] at joined
    exact (List.append_inj (List.append_cancel_left joined) long).1

/-- A part for each text: then replacing between the texts leaves the texts alone. -/
theorem replace_intercalate {texts : List (List α)} (nonempty : pattern ≠ [])
    (cuts : cut pattern (List.intercalate pattern texts) = texts.flatMap (cut pattern))
    (one : ∀ text ∈ texts, (cut pattern text).length = 1) :
    replace pattern value (List.intercalate pattern texts) = List.intercalate value texts := by
  have parts : texts.flatMap (cut pattern) = texts := by
    calc texts.flatMap (cut pattern) = texts.flatMap fun text => [text] :=
          List.flatMap_congr fun text member => cut_eq_singleton nonempty text (one text member)
      _ = texts := by simp
  rw [replace,cuts,parts]

theorem intercalate_flatMap_cut (value : List α) (texts : List (List α)) :
    List.intercalate value (texts.flatMap (cut pattern)) = List.intercalate value (texts.map (replace pattern value)) := by
  induction texts with
  | nil => rfl
  | cons text texts ih =>
    cases texts with
    | nil => simp [replace]
    | cons next texts =>
      have later : (next :: texts).flatMap (cut pattern) ≠ [] := by
        have counted := (length_flatMap_cut pattern (next :: texts)).1
        intro nothing
        rw [nothing] at counted
        cases counted
      have others : (next :: texts).map (replace pattern value) ≠ [] := List.cons_ne_nil _ _
      rw [List.flatMap_cons,intercalate_append value (cut_ne_nil _ _) later,ih,List.map_cons (l := next :: texts),
        List.intercalate_cons_of_ne_nil others,replace,List.append_assoc]

/-- Where the value is as long as the pattern, every text has to stay as it is. -/
theorem replace_eq_self_of_length {texts : List (List α)} (nonempty : pattern ≠ [])
    (cuts : cut pattern (List.intercalate pattern texts) = texts.flatMap (cut pattern))
    (lengths : value.length = pattern.length)
    (same : replace pattern value (List.intercalate pattern texts) = List.intercalate value texts) :
    ∀ text ∈ texts, replace pattern value text = text := by
  have long (text : List α) : (replace pattern value text).length = text.length := by
    have both := length_replace nonempty value text
    rw [lengths] at both
    exact Nat.add_right_cancel both
  have unmoved : texts.map (replace pattern value) = texts.map id := by
    rw [List.map_id]
    have joined : List.intercalate value (texts.map (replace pattern value)) = List.intercalate value texts := by
      rw [← intercalate_flatMap_cut,← cuts]
      exact same
    refine eq_of_intercalate_eq ?_ joined
    rw [List.forall₂_map_left_iff,List.forall₂_same]
    exact fun text _ => long text
  exact List.map_inj_left.mp unmoved

/-- **Replacing what stands between texts is all that replacing does exactly when the pattern
occurs nowhere else, or is replaced by itself.** -/
theorem replace_intercalate_iff {texts : List (List α)} (nonempty : pattern ≠ []) (present : texts ≠ [])
    (cuts : cut pattern (List.intercalate pattern texts) = texts.flatMap (cut pattern)) :
    replace pattern value (List.intercalate pattern texts) = List.intercalate value texts ↔
      value = pattern ∨ occurrences pattern (List.intercalate pattern texts) + 1 = texts.length := by
  obtain ⟨m,counted⟩ := Nat.exists_eq_add_one.mpr (List.length_pos_of_ne_nil present)
  obtain ⟨n,parts⟩ := Nat.exists_eq_add_one.mpr
    (List.length_pos_of_ne_nil (cut_ne_nil pattern (List.intercalate pattern texts)))
  have one : occurrences pattern (List.intercalate pattern texts) + 1 = texts.length ↔
      ∀ text ∈ texts, (cut pattern text).length = 1 := by
    rw [← (length_flatMap_cut pattern texts).2,occurrences,← cuts,parts]
    rfl
  constructor
  · intro same
    by_cases lengths : value.length = pattern.length
    · by_cases itself : value = pattern
      · exact .inl itself
      · right
        have unmoved := replace_eq_self_of_length nonempty cuts lengths same
        exact one.mpr fun text member => (value_eq_of_replace nonempty (unmoved text member)).resolve_left itself
    · right
      have written := length_intercalate value present
      have read := length_intercalate pattern present
      have replaced := length_replace nonempty value (List.intercalate pattern texts)
      rw [same] at replaced
      rw [counted,Nat.add_one_mul] at written read
      have balance : ((m : ℤ) - occurrences pattern (List.intercalate pattern texts)) *
          (value.length - pattern.length) = 0 := by
        zify at written read replaced
        linarith
      rcases mul_eq_zero.mp balance with equal | equal
      · rw [counted]
        omega
      · exact absurd (by omega) lengths
  · rintro (rfl | single)
    · rw [replace]
      exact intercalate_cut nonempty _
    · exact replace_intercalate nonempty cuts (one.mp single)

/-- A text is left as it is where the pattern does not occur, or is replaced by itself. -/
theorem replace_eq_self_iff {text : List α} (nonempty : pattern ≠ []) :
    replace pattern value text = text ↔ value = pattern ∨ occurrences pattern text = 0 := by
  have whole : replace pattern value (List.intercalate pattern [text]) = List.intercalate value [text] ↔ _ :=
    replace_intercalate_iff nonempty (List.cons_ne_nil _ _) (by simp)
  simpa using whole

end Replacement
