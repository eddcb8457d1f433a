import Mathlib.Data.List.TakeWhile

/-! Splitting a list at separators, where runs of separators count once and none are
needed at either end. -/
namespace Words

variable {α : Type} (sep : α → Bool)

def words (text : List α) : List (List α) := (text.splitOnP sep).filter (!·.isEmpty)

/-- The text behind a first stretch without separators. -/
def afterWord (text : List α) : List α := text.dropWhile (!sep ·)

def firstWord (text : List α) : List α := text.takeWhile (!sep ·)

variable {sep}

theorem words_cons_sep {c : α} (separates : sep c = true) (text : List α) :
    words sep (c :: text) = words sep text := by
  simp [words,List.splitOnP_cons_eq_if_modifyHead,separates]

theorem words_dropWhile (text : List α) : words sep (text.dropWhile sep) = words sep text := by
  induction text with
  | nil => rfl
  | cons c rest ih =>
    cases separates : sep c with
    | true => rw [List.dropWhile_cons_of_pos separates,ih,words_cons_sep separates]
    | false => rw [List.dropWhile_cons_of_neg (by simp [separates])]

/-- The pieces are the first stretch without separators and the words behind it. -/
theorem splitOnP_eq (sep : α → Bool) (text : List α) : ∃ rest,
    text.splitOnP sep = firstWord sep text :: rest ∧
    rest.filter (!·.isEmpty) = words sep (afterWord sep text) := by
  induction text with
  | nil => exact ⟨[],rfl,rfl⟩
  | cons c text ih =>
    obtain ⟨rest,split,later⟩ := ih
    rw [List.splitOnP_cons_eq_if_modifyHead,firstWord,afterWord]
    cases separates : sep c with
    | true =>
      refine ⟨text.splitOnP sep,by simp [separates],?_⟩
      rw [List.dropWhile_cons_of_neg (by simp [separates]),words_cons_sep separates]
      rfl
    | false =>
      refine ⟨rest,?_,?_⟩
      · simp [split,separates,firstWord]
      · rw [List.dropWhile_cons_of_pos (by simp [separates])]
        exact later

theorem words_of_word {text : List α} (starts : firstWord sep text ≠ []) :
    words sep text = firstWord sep text :: words sep (afterWord sep text) := by
  obtain ⟨rest,split,later⟩ := splitOnP_eq sep text
  rw [words,split,List.filter_cons_of_pos (by simpa using starts),later]

/-- The first word of a list of words stands behind the leading separators. -/
theorem words_eq_cons {text word : List α} {rest : List (List α)}
    (split : words sep text = word :: rest) :
    firstWord sep (text.dropWhile sep) = word ∧
      words sep (afterWord sep (text.dropWhile sep)) = rest := by
  rw [← words_dropWhile] at split
  have starts : firstWord sep (text.dropWhile sep) ≠ [] := by
    cases left : text.dropWhile sep with
    | nil => simp [left,words] at split
    | cons c more =>
      have word : sep c = false := by
        have head := List.head?_dropWhile_not sep text
        simpa [left] using head
      simp [firstWord,word]
  rw [words_of_word starts] at split
  exact List.cons_eq_cons.mp split

/-- A stretch that covers the first word and stops at separators is that word. -/
theorem span_eq_word {p : α → Bool} {text : List α} (stops : ∀ c, p c = true → sep c = false)
    (covers : ∀ c ∈ firstWord sep text, p c = true) :
    text.takeWhile p = firstWord sep text ∧ text.dropWhile p = afterWord sep text := by
  induction text with
  | nil => exact ⟨rfl,rfl⟩
  | cons c rest ih =>
    simp only [firstWord,afterWord] at covers ih ⊢
    cases inside : p c with
    | true =>
      have word := stops c inside
      have later := ih (by
        intro d member
        exact covers d (by simp [word,member]))
      simp [inside,word,later.1,later.2]
    | false =>
      cases separates : sep c with
      | true => simp [inside,separates]
      | false =>
        have covered := covers c (by simp [separates])
        simp [inside] at covered

theorem firstWord_append {word : List α} (clean : ∀ c ∈ word, sep c = false) (rest : List α) :
    firstWord sep (word ++ rest) = word ++ firstWord sep rest ∧
      afterWord sep (word ++ rest) = afterWord sep rest := by
  have covers : ∀ c ∈ word, (!sep c) = true := fun c member => by simp [clean c member]
  exact ⟨List.takeWhile_append_of_pos covers,List.dropWhile_append_of_pos covers⟩

theorem words_single {word : List α} (nonempty : word ≠ []) (clean : ∀ c ∈ word, sep c = false) :
    words sep word = [word] := by
  obtain ⟨first,after⟩ := firstWord_append clean []
  rw [List.append_nil] at first after
  have whole : firstWord sep word = word := by rw [first]; exact List.append_nil word
  have starts : firstWord sep word ≠ [] := by rwa [whole]
  rw [words_of_word starts,whole,after]
  rfl

/-- Whatever words there are on both sides of a separator. -/
theorem words_append {c : α} (separates : sep c = true) (text rest : List α) :
    words sep (text ++ c :: rest) = words sep text ++ words sep rest := by
  rw [words,List.splitOnP_append_cons text rest separates,List.filter_append]
  rfl

/-- A word, a separator and whatever words there are behind it. -/
theorem words_append_sep {word : List α} {c : α} (nonempty : word ≠ []) (clean : ∀ c ∈ word, sep c = false)
    (separates : sep c = true) (rest : List α) :
    words sep (word ++ c :: rest) = word :: words sep rest := by
  rw [words_append separates,words_single nonempty clean]
  rfl

/-- Separators before the words and behind them do not matter. -/
theorem words_surrounded {before after : List α} (leading : ∀ c ∈ before, sep c = true)
    (trailing : ∀ c ∈ after, sep c = true) (text : List α) :
    words sep (before ++ text ++ after) = words sep text := by
  have behind : words sep (text ++ after) = words sep text := by
    cases after with
    | nil => rw [List.append_nil]
    | cons c rest =>
      obtain ⟨separates,later⟩ := List.forall_mem_cons.mp trailing
      have nothing : words sep rest = [] := by
        rw [← words_dropWhile,List.dropWhile_eq_nil_iff.mpr later]
        rfl
      rw [words_append separates,nothing,List.append_nil]
  rw [List.append_assoc,← words_dropWhile,List.dropWhile_append_of_pos leading,words_dropWhile,behind]

theorem clean_of_mem_words {text word : List α} (member : word ∈ words sep text) :
    ∀ c ∈ word, sep c = false := by
  have inside : ∀ piece ∈ text.splitOnP sep, ∀ c ∈ piece, sep c = false := by
    clear member
    induction text with
    | nil => simp
    | cons d text ih =>
      rw [List.splitOnP_cons_eq_if_modifyHead]
      obtain ⟨piece,pieces,split⟩ := List.exists_cons_of_ne_nil (List.splitOnP_ne_nil sep text)
      rw [split] at ih ⊢
      obtain ⟨first,later⟩ := List.forall_mem_cons.mp ih
      split
      next => simpa using ⟨first,later⟩
      next word =>
        refine List.forall_mem_cons.mpr ⟨?_,later⟩
        simpa [word] using first
  exact inside word (List.mem_filter.mp member).1

end Words
