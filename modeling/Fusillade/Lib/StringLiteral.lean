import Mathlib.Data.List.Basic
import Mathlib.Tactic.Common

/-! String literals of ECMAScript, read character by character to the UTF-16 code units they stand
for, in strict code: no octal escapes, and no line break but an escaped one or U+2028 and U+2029. -/
namespace JavaScript

def codeUnits (n : Nat) : List Nat :=
  if n < 0x10000 then [n] else [0xD800 + (n - 0x10000) / 0x400,0xDC00 + (n - 0x10000) % 0x400]

def units (c : Char) : List Nat := codeUnits c.toNat

def textUnits (text : List Char) : List Nat := text.flatMap units

def hexDigit (c : Char) : Option Nat :=
  if '0' ≤ c ∧ c ≤ '9' then some (c.toNat - 48)
  else if 'a' ≤ c ∧ c ≤ 'f' then some (c.toNat - 87)
  else if 'A' ≤ c ∧ c ≤ 'F' then some (c.toNat - 55)
  else none

/-- Where in an escape sequence the reader is. -/
inductive Escape where
  | none
  /-- After the backslash. -/
  | started
  /-- The hexadecimal digits after the next one, and the number so far. -/
  | hex (later : Nat) (number : Nat)
  | unicode
  /-- In braces, with the number once it has a digit. -/
  | braced (number : Option Nat)
  /-- After `\\0`, which no digit may follow. -/
  | zero
  /-- After an escaped carriage return, which takes a newline with it. -/
  | carriage
  deriving DecidableEq

structure Literal where
  quote : Char
  value : List Nat := []
  escape : Escape := .none
  deriving DecidableEq

def single (c : Char) : Option Nat :=
  if c = 'b' then some 8
  else if c = 't' then some 9
  else if c = 'n' then some 10
  else if c = 'v' then some 11
  else if c = 'f' then some 12
  else if c = 'r' then some 13
  else none

namespace Literal

def push (l : Literal) (more : List Nat) : Literal := { l with value := l.value ++ more, escape := .none }

def plain (l : Literal) (c : Char) : Option (Option Literal) :=
  if c = l.quote then some none
  else if c = '\\' then some (some { l with escape := .started })
  else if c = '\n' ∨ c = '\r' then none
  else some (some (l.push (units c)))

def escaped (l : Literal) (c : Char) : Option Literal :=
  if c = 'x' then some { l with escape := .hex 1 0 }
  else if c = 'u' then some { l with escape := .unicode }
  else if c = '\r' then some { l with escape := .carriage }
  else if c ∈ ['\n','\u2028','\u2029'] then some (l.push [])
  else if c = '0' then some { l with value := l.value ++ [0], escape := .zero }
  else if c.isDigit then none
  else some (l.push ((single c).elim (units c) fun n => [n]))

def next (l : Literal) (c : Char) : Option (Option Literal) :=
  match l.escape with
  | .none => l.plain c
  | .started => (l.escaped c).map some
  | .unicode =>
    if c = '{' then some (some { l with escape := .braced none })
    else (hexDigit c).map fun d => some { l with escape := .hex 2 d }
  | .hex later number =>
    (hexDigit c).map fun d =>
      some (if later = 0 then l.push [number * 16 + d] else { l with escape := .hex (later - 1) (number * 16 + d) })
  | .braced number =>
    if c = '}' then number.map fun n => some (l.push (codeUnits n))
    else (hexDigit c).bind fun d =>
      let longer := number.getD 0 * 16 + d
      if longer ≤ 0x10FFFF then some (some { l with escape := .braced (some longer) }) else none
  | .zero => if c.isDigit then none else l.plain c
  | .carriage => if c = '\n' then some (some (l.push [])) else l.plain c

def run (l : Literal) (text : List Char) : Option Literal := text.foldlM (fun l c => (l.next c).join) l

end Literal

def Plain (quote : Char) (text : List Char) : Prop := ∀ c ∈ text, c ∉ [quote,'\\','\n','\r']

instance (quote : Char) (text : List Char) : Decidable (Plain quote text) :=
  List.decidableBAll _ text

theorem textUnits_append (a b : List Char) : textUnits (a ++ b) = textUnits a ++ textUnits b := List.flatMap_append

theorem textUnits_cons (c : Char) (text : List Char) : textUnits (c :: text) = units c ++ textUnits text :=
  List.flatMap_cons

theorem codeUnits_length (n : Nat) : 0 < (codeUnits n).length ∧ (codeUnits n).length ≤ 2 := by
  unfold codeUnits
  split <;> simp

theorem units_length_pos (c : Char) : 0 < (units c).length := (codeUnits_length _).1

/-- A code point can be told from what its units begin. -/
theorem codeUnits_append {m n : Nat} (first : m.isValidChar) (second : n.isValidChar) {a b : List Nat}
    (same : codeUnits m ++ a = codeUnits n ++ b) : m = n ∧ a = b := by
  unfold Nat.isValidChar at first second
  unfold codeUnits at same
  split_ifs at same
  · simpa using same
  · simp only [List.cons_append,List.nil_append,List.cons.injEq] at same
    omega
  · simp only [List.cons_append,List.nil_append,List.cons.injEq] at same
    omega
  · simp only [List.cons_append,List.nil_append,List.cons.injEq] at same
    exact ⟨by omega,same.2.2⟩

/-- Text can be told from its units. -/
theorem textUnits_injective {a b : List Char} (same : textUnits a = textUnits b) : a = b := by
  have taken (c : Char) (text : List Char) : textUnits (c :: text) ≠ [] := by
    refine List.ne_nil_of_length_pos ?_
    rw [textUnits_cons,List.length_append]
    exact Nat.add_pos_left (units_length_pos c) _
  induction a generalizing b with
  | nil =>
    cases b with
    | nil => rfl
    | cons d b => exact absurd same.symm (taken d b)
  | cons c a ih =>
    cases b with
    | nil => exact absurd same (taken c a)
    | cons d b =>
      rw [textUnits_cons,textUnits_cons] at same
      obtain ⟨head,tail⟩ := codeUnits_append c.valid d.valid same
      rw [Char.toNat_inj.mp head,ih tail]

namespace Literal

variable {l t : Literal} {c : Char} {text : List Char}

theorem run_cons : l.run (c :: text) = (l.next c).join.bind fun t => t.run text := rfl

theorem run_append (l : Literal) (a b : List Char) : l.run (a ++ b) = (l.run a).bind fun t => t.run b :=
  List.foldlM_append

theorem next_plain (outside : l.escape = .none) (plain : Plain l.quote [c]) :
    l.next c = some (some (l.push (units c))) := by
  have apart := plain c (List.mem_singleton_self c)
  simp only [List.mem_cons,not_or] at apart
  obtain ⟨quote,backslash,newline,carriage,-⟩ := apart
  simp [next,outside,Literal.plain,quote,backslash,newline,carriage]

theorem run_plain (outside : l.escape = .none) (plain : Plain l.quote text) :
    l.run text = some (l.push (textUnits text)) := by
  induction text generalizing l with
  | nil =>
    cases l
    simp_all [run,push,textUnits]
  | cons c text ih =>
    obtain ⟨here,later⟩ := List.forall_mem_cons.mp plain
    rw [run_cons,next_plain outside (List.forall_mem_singleton.mpr here),Option.join_some,Option.bind_some,
      @ih (l.push (units c)) rfl later,textUnits_cons]
    simp [push]

/-- Units that an escape has read and not yet given back; one of them never is. -/
def debt : Escape → Nat
  | .none | .started | .zero | .carriage => 1
  | .unicode | .hex .. => 2
  | .braced _ => 3

def owed (l : Literal) : Nat := l.value.length + debt l.escape

theorem owed_push (l : Literal) (more : List Nat) : (l.push more).owed = l.value.length + more.length + 1 := by
  simp [owed,push,debt]

theorem owed_plain (continued : l.plain c = some (some t)) (low : debt l.escape = 1) :
    t.owed ≤ l.owed + (units c).length := by
  have positive := units_length_pos c
  unfold Literal.plain at continued
  split at continued
  · cases continued
  · split at continued
    · cases continued
      simp [owed,debt]
      omega
    · split at continued
      · cases continued
      · cases continued
        rw [owed_push,owed,low]
        omega

theorem owed_escaped (continued : l.escaped c = some t) (started : l.escape = .started) :
    t.owed ≤ l.owed + (units c).length := by
  have positive := units_length_pos c
  have low : l.owed = l.value.length + 1 := by rw [owed,started]; rfl
  rw [low]
  unfold escaped at continued
  split_ifs at continued with x unicode carriage line zero digit <;> obtain rfl := Option.some.inj continued
  · simp [owed,debt]
    omega
  · simp [owed,debt]
    omega
  · simp [owed,debt]
  · simp [owed_push]
  · simp [owed,debt]
    omega
  · rw [owed_push]
    cases single c with
    | none =>
      rw [Option.elim_none]
      omega
    | some n =>
      rw [Option.elim_some,List.length_singleton]
      omega

/-- No step gives more units than it reads. -/
theorem owed_next (continued : l.next c = some (some t)) : t.owed ≤ l.owed + (units c).length := by
  have positive := units_length_pos c
  have before : l.owed = l.value.length + debt l.escape := rfl
  unfold next at continued
  split at continued
  next outside => exact owed_plain continued (by rw [outside]; rfl)
  next started =>
    obtain ⟨u,escaped,same⟩ := Option.map_eq_some_iff.mp continued
    exact Option.some.inj same ▸ owed_escaped escaped started
  next unicode =>
    rw [before,unicode]
    split at continued
    · obtain rfl := Option.some.inj (Option.some.inj continued)
      simp [owed,debt]
      omega
    · obtain ⟨d,-,same⟩ := Option.map_eq_some_iff.mp continued
      obtain rfl := Option.some.inj same
      simp [owed,debt]
  next later number hex =>
    obtain ⟨d,-,same⟩ := Option.map_eq_some_iff.mp continued
    obtain rfl := Option.some.inj same
    rw [before,hex]
    split
    · simp [owed_push,debt]
    · simp [owed,debt]
  next number braced =>
    rw [before,braced]
    split at continued
    · obtain ⟨n,-,same⟩ := Option.map_eq_some_iff.mp continued
      obtain rfl := Option.some.inj same
      have two := (codeUnits_length n).2
      simp only [owed_push,debt]
      omega
    · obtain ⟨d,-,same⟩ := Option.bind_eq_some_iff.mp continued
      dsimp only at same
      split at same
      · obtain rfl := Option.some.inj (Option.some.inj same)
        simp [owed,debt]
      · cases same
  next zero =>
    split at continued
    · cases continued
    · exact owed_plain continued (by rw [zero]; rfl)
  next carriage =>
    split at continued
    · obtain rfl := Option.some.inj (Option.some.inj continued)
      rw [before,carriage]
      simp [owed_push,debt]
    · exact owed_plain continued (by rw [carriage]; rfl)

theorem join_eq_some {o : Option (Option Literal)} : o.join = some t ↔ o = some (some t) := by
  rcases o with _ | _ | u <;> simp

theorem owed_run (continued : l.run text = some t) : t.owed ≤ l.owed + (textUnits text).length := by
  induction text generalizing l with
  | nil =>
    obtain rfl := Option.some.inj continued
    simp [textUnits]
  | cons c text ih =>
    rw [run_cons] at continued
    obtain ⟨u,here,later⟩ := Option.bind_eq_some_iff.mp continued
    have first := owed_next (join_eq_some.mp here)
    have rest := ih later
    rw [textUnits_cons,List.length_append]
    omega

theorem value_length_le (outside : l.escape = .none) (continued : l.run text = some t) :
    t.value.length ≤ l.value.length + (textUnits text).length := by
  have bound := owed_run continued
  have lowest : t.value.length + 1 ≤ t.owed := by
    rw [owed]
    cases t.escape <;> simp [debt]
  rw [owed,owed,outside] at bound
  simp only [owed,debt] at bound lowest
  omega

theorem value_length_lt (outside : l.escape = .none) (continued : l.run text = some t)
    (special : ¬Plain l.quote text) : t.value.length < l.value.length + (textUnits text).length := by
  induction text generalizing l with
  | nil => exact absurd (by simp [Plain]) special
  | cons c text ih =>
    rw [run_cons] at continued
    obtain ⟨u,here,later⟩ := Option.bind_eq_some_iff.mp continued
    have here := join_eq_some.mp here
    rw [textUnits_cons,List.length_append]
    by_cases plain : Plain l.quote [c]
    · rw [next_plain outside plain] at here
      obtain rfl := Option.some.inj (Option.some.inj here)
      have further : ¬Plain l.quote text := fun rest =>
        special (List.forall_mem_cons.mpr ⟨plain c (List.mem_singleton_self c),rest⟩)
      have shorter := @ih (l.push (units c)) rfl later further
      simp only [push,List.length_append] at shorter
      omega
    · have backslash : c = '\\' ∧ u = { l with escape := .started } := by
        rw [next,outside] at here
        dsimp only [Literal.plain] at here
        split_ifs at here with quote backslash line
        · cases here
        · exact ⟨backslash,(Option.some.inj (Option.some.inj here)).symm⟩
        · refine absurd ?_ plain
          intro d member
          obtain rfl := List.mem_singleton.mp member
          simpa [quote,backslash] using line
      obtain ⟨rfl,rfl⟩ := backslash
      have bound := owed_run later
      have lowest : t.value.length + 1 ≤ t.owed := by
        rw [owed]
        cases t.escape <;> simp [debt]
      have one : (units '\\').length = 1 := by decide
      simp only [owed,debt] at bound lowest
      omega

theorem plain_value (continued : l.plain c = some (some t)) : t.quote = l.quote ∧ l.value <+: t.value := by
  unfold Literal.plain at continued
  split_ifs at continued
  · cases continued
  · obtain rfl := Option.some.inj (Option.some.inj continued)
    exact ⟨rfl,List.prefix_refl _⟩
  · obtain rfl := Option.some.inj (Option.some.inj continued)
    exact ⟨rfl,List.prefix_append _ _⟩

theorem escaped_value (continued : l.escaped c = some t) : t.quote = l.quote ∧ l.value <+: t.value := by
  unfold escaped at continued
  split_ifs at continued <;> obtain rfl := Option.some.inj continued
  · exact ⟨rfl,List.prefix_refl _⟩
  · exact ⟨rfl,List.prefix_refl _⟩
  · exact ⟨rfl,List.prefix_refl _⟩
  · exact ⟨rfl,List.prefix_append _ _⟩
  · exact ⟨rfl,List.prefix_append _ _⟩
  · exact ⟨rfl,List.prefix_append _ _⟩

theorem next_value (continued : l.next c = some (some t)) : t.quote = l.quote ∧ l.value <+: t.value := by
  unfold next at continued
  split at continued
  next => exact plain_value continued
  next =>
    obtain ⟨u,escaped,same⟩ := Option.map_eq_some_iff.mp continued
    exact Option.some.inj same ▸ escaped_value escaped
  next =>
    split at continued
    · obtain rfl := Option.some.inj (Option.some.inj continued)
      exact ⟨rfl,List.prefix_refl _⟩
    · obtain ⟨d,-,same⟩ := Option.map_eq_some_iff.mp continued
      obtain rfl := Option.some.inj same
      exact ⟨rfl,List.prefix_refl _⟩
  next =>
    obtain ⟨d,-,same⟩ := Option.map_eq_some_iff.mp continued
    obtain rfl := Option.some.inj same
    split
    · exact ⟨rfl,List.prefix_append _ _⟩
    · exact ⟨rfl,List.prefix_refl _⟩
  next =>
    split at continued
    · obtain ⟨n,-,same⟩ := Option.map_eq_some_iff.mp continued
      obtain rfl := Option.some.inj same
      exact ⟨rfl,List.prefix_append _ _⟩
    · obtain ⟨d,-,same⟩ := Option.bind_eq_some_iff.mp continued
      dsimp only at same
      split at same
      · obtain rfl := Option.some.inj (Option.some.inj same)
        exact ⟨rfl,List.prefix_refl _⟩
      · cases same
  next =>
    split at continued
    · cases continued
    · exact plain_value continued
  next =>
    split at continued
    · obtain rfl := Option.some.inj (Option.some.inj continued)
      exact ⟨rfl,List.prefix_append _ _⟩
    · exact plain_value continued

theorem next_end (ends : l.next c = some none) : c = l.quote := by
  have plain {c : Char} (ends : l.plain c = some none) : c = l.quote := by
    unfold Literal.plain at ends
    split_ifs at ends with quote
    · exact quote
    · cases ends
    · cases ends
  unfold next at ends
  split at ends
  next => exact plain ends
  next => simp at ends
  next => split_ifs at ends <;> simp at ends
  next => simp at ends
  next =>
    split_ifs at ends
    · simp at ends
    · obtain ⟨d,-,same⟩ := Option.bind_eq_some_iff.mp ends
      dsimp only at same
      split_ifs at same
      cases same
  next =>
    split_ifs at ends
    exact plain ends
  next =>
    split_ifs at ends
    · simp at ends
    · exact plain ends

/-- A quote goes on with the literal only when a backslash has escaped it. -/
theorem next_quote (quote : l.quote = '\'') (continued : l.next '\'' = some (some t)) : t.value = l.value ++ [39] := by
  have ends : l.plain '\'' = some none := by simp [Literal.plain,quote]
  have noDigit : hexDigit '\'' = none := by decide
  unfold next at continued
  split at continued
  next => simp [ends] at continued
  next =>
    obtain rfl : l.push [39] = t := by simpa [escaped,single,units,codeUnits] using continued
    rfl
  next => simp [noDigit] at continued
  next => simp [noDigit] at continued
  next => simp [noDigit] at continued
  next => simp [ends] at continued
  next => simp [ends] at continued

theorem mem_units_quote : 39 ∈ units c ↔ c = '\'' := by
  rw [units,codeUnits]
  split
  · rw [List.mem_singleton,eq_comm]
    exact Char.toNat_inj (d := '\'')
  next wide =>
    refine iff_of_false ?_ fun same => wide (by rw [same]; decide)
    simp
    omega

theorem count_quote (quote : l.quote = '\'') (continued : l.run text = some t) :
    l.value.count 39 + (textUnits text).count 39 ≤ t.value.count 39 := by
  induction text generalizing l with
  | nil =>
    obtain rfl := Option.some.inj continued
    simp [textUnits]
  | cons c text ih =>
    rw [run_cons] at continued
    obtain ⟨u,here,later⟩ := Option.bind_eq_some_iff.mp continued
    have here := join_eq_some.mp here
    obtain ⟨kept,grown⟩ := next_value here
    have rest := ih (kept.trans quote) later
    rw [textUnits_cons,List.count_append]
    by_cases quoted : c = '\''
    · subst quoted
      have one : (units '\'').count 39 = 1 := by decide
      rw [next_quote quote here,List.count_append] at rest
      simp at rest
      omega
    · have nothing : (units c).count 39 = 0 := List.count_eq_zero.mpr (mt mem_units_quote.mp quoted)
      have more := grown.sublist.count_le 39
      omega

/-- A way to write each character that the reader undoes is undone for a whole text. -/
theorem run_encoded {encode : Char → List Char} {text : List Char}
    (each : ∀ c ∈ text, ∀ u : Literal, u.quote = l.quote → u.escape = .none →
      u.run (encode c) = some (u.push (units c)))
    (outside : l.escape = .none) : l.run (text.flatMap encode) = some (l.push (textUnits text)) := by
  induction text generalizing l with
  | nil =>
    cases l
    simp_all [run,push,textUnits]
  | cons c text ih =>
    obtain ⟨here,later⟩ := List.forall_mem_cons.mp each
    rw [List.flatMap_cons,run_append,here l rfl outside,Option.bind_some,@ih (l.push (units c)) later rfl,
      textUnits_cons]
    simp [push]

/-- A backslash before every backslash and every single quote. -/
def backslashed (text : List Char) : List Char :=
  text.flatMap fun c => if c = '\\' ∨ c = '\'' then ['\\',c] else [c]

def NoBreak (text : List Char) : Prop := '\n' ∉ text ∧ '\r' ∉ text

instance (text : List Char) : Decidable (NoBreak text) := inferInstanceAs (Decidable (_ ∧ _))

theorem run_backslashed (quote : l.quote = '\'') (outside : l.escape = .none) (unbroken : NoBreak text) :
    l.run (backslashed text) = some (l.push (textUnits text)) := by
  refine run_encoded (fun c member u same free => ?_) outside
  have single : u.quote = '\'' := same.trans quote
  split
  next special =>
    have written : u.next '\\' = some (some { u with escape := .started }) := by
      simp [next,free,Literal.plain,single]
    rw [run_cons,written]
    rcases special with rfl | rfl <;> rfl
  next ordinary =>
    have newline : c ≠ '\n' := fun lineBreak => unbroken.1 (lineBreak ▸ member)
    have carriage : c ≠ '\r' := fun lineBreak => unbroken.2 (lineBreak ▸ member)
    have plain : Plain u.quote [c] := by
      intro d alone
      obtain rfl := List.mem_singleton.mp alone
      simp only [List.mem_cons,List.not_mem_nil,or_false,not_or,single]
      exact ⟨fun same => ordinary (.inr same),fun same => ordinary (.inl same),newline,carriage⟩
    rw [run_plain free plain,textUnits]
    simp

theorem exists_break {text : List Char} (broken : ¬NoBreak text) :
    ∃ before c after, text = before ++ c :: after ∧ NoBreak before ∧ (c = '\n' ∨ c = '\r') := by
  induction text with
  | nil => exact absurd (by simp [NoBreak]) broken
  | cons c text ih =>
    by_cases here : c = '\n' ∨ c = '\r'
    · exact ⟨[],c,text,rfl,by simp [NoBreak],here⟩
    · obtain ⟨newline,carriage⟩ := not_or.mp here
      have later : ¬NoBreak text := by
        intro unbroken
        exact broken ⟨by simpa [eq_comm,newline] using unbroken.1,by simpa [eq_comm,carriage] using unbroken.2⟩
      obtain ⟨before,d,after,rfl,unbroken,which⟩ := ih later
      refine ⟨c :: before,d,after,rfl,⟨?_,?_⟩,which⟩
      · simpa [eq_comm,newline] using unbroken.1
      · simpa [eq_comm,carriage] using unbroken.2

theorem next_break (quote : l.quote = '\'') (outside : l.escape = .none) (lineBreak : c = '\n' ∨ c = '\r') :
    l.next c = none := by
  rcases lineBreak with rfl | rfl <;> simp [next,outside,Literal.plain,quote]

end Literal

end JavaScript
