import Fusillade.Lib.Shell

/-! A reader that takes a text in another way than it is meant never catches up with it: only words
that need no other way of writing come back from a command. -/
namespace Shell

def Mode.pending : Mode → Nat
  | .escape | .doubleEscape => 1
  | .unquoted | .single | .double | .comment => 0

/-- The word falls behind what was meant so far, in quotes, line breaks or characters at all, but
has every `x` of it. -/
structure Astray (x : Char) (meant word : Text) (mode : Mode) : Prop where
  kept : word.count x = meant.count x
  quotes : word.count '\'' ≤ meant.count '\''
  lines : word.count '\n' ≤ meant.count '\n'
  behind : word.count '\'' < meant.count '\'' ∨ word.count '\n' < meant.count '\n' ∨
    word.length + mode.pending < meant.length
  inside : mode = .single → word.count '\'' < meant.count '\''
  escaped : mode.pending = 1 → meant.getLast? = some '\\'
  code : mode ≠ .comment

namespace Astray

variable {x c : Char} {meant word whole more : Text} {mode next : Mode}

theorem ne (astray : Astray x meant word mode) (part : meant <+: whole) : word ≠ whole := by
  rintro rfl
  have quotes := part.sublist.count_le '\''
  have lines := part.sublist.count_le '\n'
  have length := part.length_le
  have behind := astray.behind
  omega

/-- Where a reader goes astray: what is added to the word is less than what is meant. -/
theorem start (word : Text) {missing : Text} (kept : more.count x = missing.count x)
    (quotes : more.count '\'' ≤ missing.count '\'') (lines : more.count '\n' ≤ missing.count '\n')
    (behind : more.count '\'' < missing.count '\'' ∨ more.count '\n' < missing.count '\n' ∨
      more.length + mode.pending < missing.length)
    (inside : mode = .single → more.count '\'' < missing.count '\'') (pending : mode.pending = 0)
    (code : mode ≠ .comment) : Astray x (word ++ missing) (word ++ more) mode where
  kept := by rw [List.count_append,List.count_append,kept]
  quotes := by rw [List.count_append,List.count_append]; omega
  lines := by rw [List.count_append,List.count_append]; omega
  behind := by
    simp only [List.count_append,List.length_append]
    omega
  inside := by
    intro single
    have := inside single
    rw [List.count_append,List.count_append]
    omega
  escaped := fun impossible => absurd impossible (by simp [pending])
  code := code

theorem step (astray : Astray x meant word mode) (kept : more.count x = [c].count x)
    (quotes : more.count '\'' ≤ [c].count '\'') (lines : more.count '\n' ≤ [c].count '\n')
    (short : more.count '\'' < [c].count '\'' ∨ more.count '\n' < [c].count '\n' ∨ mode = .single ∨
      more.length + next.pending ≤ mode.pending + 1)
    (inside : next = .single → mode = .single ∨ more.count '\'' < [c].count '\'')
    (escaped : next.pending = 1 → c = '\\') (code : next ≠ .comment) :
    Astray x (meant ++ [c]) (word ++ more) next where
  kept := by rw [List.count_append,List.count_append,astray.kept,kept]
  quotes := by
    have before := astray.quotes
    rw [List.count_append,List.count_append]
    omega
  lines := by
    have before := astray.lines
    rw [List.count_append,List.count_append]
    omega
  behind := by
    have before := astray.behind
    have quotesBefore := astray.quotes
    have linesBefore := astray.lines
    have single := astray.inside
    simp only [List.count_append,List.length_append,List.length_singleton]
    rcases short with fewer | fewer | here | shorter
    · omega
    · omega
    · have := single here
      omega
    · omega
  inside := by
    intro single
    have quotesBefore := astray.quotes
    rw [List.count_append,List.count_append]
    rcases inside single with here | fewer
    · have := astray.inside here
      omega
    · omega
  escaped := by
    intro pending
    rw [List.getLast?_append,escaped pending]
    rfl
  code := code

end Astray

namespace Reader

variable {x c : Char} {ended : List Text} {current : Option Text} {mode : Mode} {meant tail : Text} {t : Reader}
  {final : List Text}

def Stays (x : Char) (ended : List Text) (current : Option Text) (meant : Text) (t : Reader) : Prop :=
  ∃ word mode, t = ⟨ended,word,mode⟩ ∧ Astray x meant (word.getD []) mode ∧ (current ≠ none → word ≠ none)

theorem astray_add (astray : Astray x meant (current.getD []) mode) (next : Mode) (same : next = .single → mode = .single)
    (pending : next.pending = 0) (code : next ≠ .comment) :
    Stays x ended current (meant ++ [c]) (add ⟨ended,current,mode⟩ [c] next) :=
  ⟨_,_,rfl,astray.step rfl (Nat.le_refl _) (Nat.le_refl _) (.inr (.inr (.inr (by simp [pending]))))
    (fun single => .inl (same single)) (fun impossible => absurd impossible (by simp [pending])) code,
    fun _ => Option.some_ne_none _⟩

theorem astray_skip {word : Option Text} (astray : Astray x meant (current.getD []) mode) (next : Mode) (other : c ≠ x)
    (same : word.getD [] = current.getD []) (begun : current ≠ none → word ≠ none)
    (short : c = '\'' ∨ c = '\n' ∨ next.pending ≤ mode.pending + 1)
    (inside : next = .single → c = '\'') (escaped : next.pending = 1 → c = '\\') (code : next ≠ .comment) :
    Stays x ended current (meant ++ [c]) ⟨ended,word,next⟩ := by
  refine ⟨word,next,rfl,?_,begun⟩
  have nothing : Astray x (meant ++ [c]) (current.getD [] ++ []) next := astray.step (by simp [other]) (Nat.zero_le _) (Nat.zero_le _)
    (by
      rcases short with rfl | rfl | pending
      · exact .inl (by decide)
      · exact .inr (.inl (by decide))
      · exact .inr (.inr (.inr (by simpa using pending))))
    (fun single => .inr (by rw [inside single]; decide)) escaped code
  rw [same]
  simpa using nothing

theorem astray_raw (ordinary : x = ' ' ∨ x = '-') (astray : Astray x meant (current.getD []) mode)
    (begun : x = ' ' → current ≠ none) (stepped : step ⟨ended,current,mode⟩ c = some t) :
    Stays x ended current (meant ++ [c]) t ∨ (∃ word, current = some word ∧ t = ⟨ended ++ [word],none,.unquoted⟩) ∨
      (current = none ∧ t = ⟨ended,none,.comment⟩) := by
  have other {d : Char} (special : d ≠ ' ' ∧ d ≠ '-') : d ≠ x := by
    rcases ordinary with rfl | rfl
    · exact special.1
    · exact special.2
  cases mode with
  | unquoted =>
    simp only [step,unquoted] at stepped
    split_ifs at stepped with backslash quote double blank special comment <;> cases stepped
    · subst backslash
      exact .inl (astray_skip astray .escape (other (by decide)) rfl id (.inr (.inr (by decide))) (by simp)
        (fun _ => rfl) (by simp))
    · subst quote
      exact .inl (astray_skip astray .single (other (by decide)) (by simp) (by simp) (.inl rfl) (fun _ => rfl)
        (by decide) (by simp))
    · subst double
      exact .inl (astray_skip astray .double (other (by decide)) (by simp) (by simp) (.inr (.inr (by decide)))
        (by simp) (by decide) (by simp))
    · cases current with
      | some word => exact .inr (.inl ⟨word,rfl,rfl⟩)
      | none =>
        have dash : x = '-' := ordinary.resolve_left fun space => begun space rfl
        have apart : c ≠ x := by
          rcases blank with rfl | rfl <;> rw [dash] <;> decide
        have kept : Stays x ended none (meant ++ [c]) ⟨ended,none,.unquoted⟩ :=
          astray_skip astray .unquoted apart rfl id (.inr (.inr (by decide))) (by simp) (by simp [Mode.pending]) (by simp)
        exact .inl (by simpa [endWord] using kept)
    · exact .inr (.inr ⟨comment.1,by rw [comment.1]⟩)
    · exact .inl (astray_add astray .unquoted (by simp) rfl (by simp))
  | escape =>
    simp only [step] at stepped
    split_ifs at stepped with line <;> cases stepped
    · subst line
      exact .inl (astray_skip astray .unquoted (other (by decide)) rfl id (.inr (.inl rfl)) (by simp) (by decide)
        (by simp))
    · exact .inl (astray_add astray .unquoted (by simp) rfl (by simp))
  | single =>
    simp only [step] at stepped
    split_ifs at stepped with quote <;> cases stepped
    · subst quote
      exact .inl (astray_skip astray .unquoted (other (by decide)) rfl id (.inl rfl) (by simp) (by decide) (by simp))
    · exact .inl (astray_add astray .single (fun _ => rfl) rfl (by simp))
  | double =>
    simp only [step] at stepped
    split_ifs at stepped with quote backslash <;> cases stepped
    · subst quote
      exact .inl (astray_skip astray .unquoted (other (by decide)) rfl id (.inr (.inr (by decide))) (by simp)
        (by decide) (by simp))
    · subst backslash
      exact .inl (astray_skip astray .doubleEscape (other (by decide)) rfl id (.inr (.inr (by decide))) (by simp)
        (fun _ => rfl) (by simp))
    · exact .inl (astray_add astray .double (by simp) rfl (by simp))
  | doubleEscape =>
    simp only [step] at stepped
    split_ifs at stepped with line escaped <;> cases stepped
    · subst line
      exact .inl (astray_skip astray .double (other (by decide)) rfl id (.inr (.inl rfl)) (by simp) (by decide)
        (by simp))
    · exact .inl (astray_add astray .double (by simp) rfl (by simp))
    · refine .inl ⟨_,_,rfl,astray.step ?_ ?_ ?_ (.inr (.inr (.inr ?_))) (by simp) (by simp [Mode.pending])
        (by simp),
        fun _ => Option.some_ne_none _⟩
      · exact List.count_cons_of_ne (other (by decide))
      · exact (List.count_cons_of_ne (by decide)).le
      · exact (List.count_cons_of_ne (by decide)).le
      · simp [Mode.pending]
  | comment => exact absurd rfl astray.code

theorem stays_written (ended : List Text) (ordinary : x = ' ' ∨ x = '-') {item : Written} (escaped : ∀ c, item ≠ .raw c)
    (astray : Astray x meant (current.getD []) mode) (more : Text) (next : Mode)
    (letters : ∀ c ∈ more, c = '\\' ∨ c = '"' ∨ c = 'n')
    (short : item = .newline ∨ mode = .single ∨ more.length + next.pending ≤ mode.pending + 1)
    (inside : next = .single → mode = .single) (code : next ≠ .comment) (pending : next.pending = 0) :
    Stays x ended current (meant ++ [item.meant]) ⟨ended,some (current.getD [] ++ more),next⟩ := by
  have absent {c : Char} (other : c ≠ '\\' ∧ c ≠ '"' ∧ c ≠ 'n') : more.count c = 0 := by
    refine List.count_eq_zero.mpr fun member => ?_
    rcases letters c member with same | same | same
    · exact other.1 same
    · exact other.2.1 same
    · exact other.2.2 same
  have kept : more.count x = [item.meant].count x := by
    rcases ordinary with rfl | rfl <;> rw [absent (by decide)] <;> cases item <;> first | rfl | exact absurd rfl (escaped _)
  refine ⟨_,_,rfl,astray.step kept ?_ ?_ ?_ (fun single => .inl (inside single))
    (fun impossible => absurd impossible (by simp [pending])) code,fun _ => Option.some_ne_none _⟩
  · simp [absent (c := '\'') (by decide)]
  · simp [absent (c := '\n') (by decide)]
  · rcases short with rfl | single | shorter
    · exact .inr (.inl (by rw [absent (c := '\n') (by decide)]; decide))
    · exact .inr (.inr (.inl single))
    · exact .inr (.inr (.inr shorter))

theorem astray_written (ordinary : x = ' ' ∨ x = '-') {item : Written} (escaped : ∀ c, item ≠ .raw c)
    (astray : Astray x meant (current.getD []) mode) :
    ∃ t, Stays x ended current (meant ++ [item.meant]) t ∧
      ∀ rest, read ⟨ended,current,mode⟩ (item.text ++ rest) = read t rest := by
  have stay := stays_written ended ordinary escaped astray
  cases item with
  | raw c => exact absurd rfl (escaped c)
  | quote =>
    cases mode with
    | unquoted =>
      exact ⟨_,stay ['"'] .unquoted (by simp) (.inr (.inr (by decide))) (by simp) (by simp) rfl,fun _ => rfl⟩
    | escape =>
      exact ⟨_,stay ['\\'] .double (by simp) (.inr (.inr (by decide))) (by simp) (by simp) rfl,fun _ => rfl⟩
    | single =>
      exact ⟨_,stay ['\\','"'] .single (by simp) (.inr (.inl rfl)) (by simp) (by simp) rfl,
        fun rest => by simp [Written.text,read_cons,step,add]⟩
    | double =>
      exact ⟨_,stay ['"'] .double (by simp) (.inr (.inr (by decide))) (by simp) (by simp) rfl,fun _ => rfl⟩
    | doubleEscape =>
      exact ⟨_,stay ['\\'] .unquoted (by simp) (.inr (.inr (by decide))) (by simp) (by simp) rfl,fun _ => rfl⟩
    | comment => exact absurd rfl astray.code
  | newline =>
    cases mode with
    | unquoted =>
      exact ⟨_,stay ['n'] .unquoted (by simp) (.inl rfl) (by simp) (by simp) rfl,fun _ => rfl⟩
    | escape =>
      exact ⟨_,stay ['\\','n'] .unquoted (by simp) (.inl rfl) (by simp) (by simp) rfl,
        fun rest => by simp [Written.text,read_cons,step,unquoted,special,add]⟩
    | single =>
      exact ⟨_,stay ['\\','n'] .single (by simp) (.inl rfl) (by simp) (by simp) rfl,
        fun rest => by simp [Written.text,read_cons,step,add]⟩
    | double =>
      exact ⟨_,stay ['\\','n'] .double (by simp) (.inl rfl) (by simp) (by simp) rfl,fun _ => rfl⟩
    | doubleEscape =>
      exact ⟨_,stay ['\\','n'] .double (by simp) (.inl rfl) (by simp) (by simp) rfl,
        fun rest => by simp [Written.text,read_cons,step,escapable,add]⟩
    | comment => exact absurd rfl astray.code

theorem read_comment {ended : List Text} {text : Text} (line : '\n' ∈ text) :
    read ⟨ended,none,.comment⟩ text = none := by
  induction text with
  | nil => cases line
  | cons c text ih =>
    have stepped : step ⟨ended,none,.comment⟩ c = if c = '\n' then none else some ⟨ended,none,.comment⟩ := rfl
    rw [read_cons,stepped]
    by_cases here : c = '\n'
    · rw [if_pos here]
      rfl
    · rw [if_neg here]
      exact ih (List.mem_of_ne_of_mem (Ne.symm here) line)

theorem ended_eq {word whole : Text} (readAll : read ⟨ended ++ [word],none,.unquoted⟩ tail = some final)
    (expected : ended ++ [whole] <+: final) : word = whole := by
  have here := List.prefix_of_prefix_length_le (read_words readAll) expected (by simp)
  simpa using here.eq_of_length (by simp)

theorem current_starts {word whole : Text} (readAll : read ⟨ended,some word,mode⟩ tail = some final)
    (expected : ended ++ [whole] <+: final) : word <+: whole := by
  obtain ⟨more,grown⟩ := read_current rfl readAll
  have here := List.prefix_of_prefix_length_le grown expected (by simp)
  have same : word ++ more = whole := by simpa using here.eq_of_length (by simp)
  exact ⟨more,same⟩

/-- A reader that is astray does not get the word that is meant, if what follows makes it end. -/
theorem astray_absurd (ordinary : x = ' ' ∨ x = '-') {items : List Written} {whole : Text}
    (stop : ∀ current mode, Astray x whole (Option.getD current []) mode → (x = ' ' → current ≠ none) →
      read ⟨ended,current,mode⟩ tail = some final → False)
    (line : x = ' ' ∨ '\n' ∈ tail) (astray : Astray x meant (current.getD []) mode) (begun : x = ' ' → current ≠ none)
    (parts : meant ++ Shell.meant items = whole) (readAll : read ⟨ended,current,mode⟩ (written items ++ tail) = some final)
    (expected : ended ++ [whole] <+: final) : False := by
  induction items generalizing meant current mode with
  | nil =>
    obtain rfl : meant = whole := by simpa [Shell.meant] using parts
    exact stop current mode astray begun readAll
  | cons item items ih =>
    have shape : written (item :: items) ++ tail = item.text ++ (written items ++ tail) := by simp [written]
    have total : (meant ++ [item.meant]) ++ Shell.meant items = whole := by simpa [Shell.meant] using parts
    rw [shape] at readAll
    have goes {t : Reader} (stays : Stays x ended current (meant ++ [item.meant]) t)
        (later : t.read (written items ++ tail) = some final) : False := by
      obtain ⟨word,next,rfl,still,kept⟩ := stays
      exact ih still (fun space => kept (begun space)) total later
    by_cases raw : ∃ c, item = .raw c
    · obtain ⟨c,rfl⟩ := raw
      rw [Written.text,List.singleton_append,read_cons] at readAll
      obtain ⟨t,stepped,later⟩ := Option.bind_eq_some_iff.mp readAll
      rcases astray_raw ordinary astray begun stepped with stays | ⟨word,rfl,rfl⟩ | ⟨unbegun,rfl⟩
      · exact goes stays later
      · exact astray.ne ⟨_,parts⟩ (ended_eq later expected)
      · rcases line with space | line
        · exact begun space unbegun
        · rw [read_comment (List.mem_append_right _ line)] at later
          cases later
    · obtain ⟨t,stays,same⟩ := astray_written ordinary (fun c here => raw ⟨c,here⟩) astray
      rw [same] at readAll
      exact goes stays readAll

theorem mismatch {word more missing : Text} {mode : Mode} {text : Text}
    (readAll : read ⟨ended,some (word ++ more),mode⟩ text = some final)
    (expected : ended ++ [word ++ missing] <+: final) : more <+: missing :=
  (List.prefix_append_right_inj word).mp (current_starts readAll expected)

theorem blank_stop {word more whole : Text} {mode : Mode} (kept : word.count x = whole.count x) (counted : 0 < more.count x)
    (expected : ended ++ [whole] <+: final) (readAll : read ⟨ended,some (word ++ more),mode⟩ tail = some final) : False := by
  have few := (current_starts readAll expected).sublist.count_le x
  rw [List.count_append] at few
  omega

theorem quote_stop {whole : Text} (astray : Astray ' ' whole (current.getD []) mode) (begun : current ≠ none)
    (expected : ended ++ [whole] <+: final) (readAll : read ⟨ended,current,mode⟩ ('"' :: ' ' :: tail) = some final) :
    False := by
  obtain ⟨word,rfl⟩ := Option.ne_none_iff_exists'.mp begun
  have kept : word.count ' ' = whole.count ' ' := astray.kept
  cases mode with
  | unquoted =>
    have later : read ⟨ended,some (word ++ [' ']),.double⟩ tail = some final := readAll
    exact blank_stop kept (by decide) expected later
  | escape =>
    have same : word ++ ['"'] = whole := ended_eq readAll expected
    have last : whole.getLast? = some '\\' := astray.escaped rfl
    rw [← same,List.getLast?_concat] at last
    exact absurd last (by decide)
  | single =>
    have later : read ⟨ended,some (word ++ ['"'] ++ [' ']),.single⟩ tail = some final := readAll
    rw [List.append_assoc] at later
    exact blank_stop kept (by decide) expected later
  | double => exact astray.ne (List.prefix_refl _) (ended_eq readAll expected)
  | doubleEscape =>
    have later : read ⟨ended,some (word ++ ['"'] ++ [' ']),.double⟩ tail = some final := readAll
    rw [List.append_assoc] at later
    exact blank_stop kept (by decide) expected later
  | comment => exact astray.code rfl

section Double

variable {word : Text} {items : List Written}

/-- In double quotes what is meant so far has been read, but for what is missing: that does not come back. -/
theorem double_absurd {more missing : Text} {mode : Mode}
    (start : Astray ' ' (word ++ missing) (word ++ more) mode)
    (readAll : read ⟨ended,some (word ++ more),mode⟩ (written items ++ '"' :: ' ' :: tail) = some final)
    (expected : ended ++ [word ++ (missing ++ Shell.meant items)] <+: final) : False := by
  rw [← List.append_assoc] at expected
  refine astray_absurd (.inl rfl) (fun current mode astray begun => quote_stop astray (begun rfl) expected) (.inl rfl)
    ?_ (fun _ => Option.some_ne_none (word ++ more)) rfl readAll expected
  exact start

theorem lone_of_read (readAll : read ⟨ended,some word,.doubleEscape⟩ (written items ++ '"' :: ' ' :: tail) = some final)
    (expected : ended ++ [word ++ '\\' :: Shell.meant items] <+: final) :
    ∃ c rest, items = .raw c :: rest ∧ c ∉ '\n' :: escapable := by
  cases items with
  | nil =>
    have later : read ⟨ended,some (word ++ ['"']),.double⟩ (' ' :: tail) = some final := readAll
    exact absurd (mismatch later expected) (by decide)
  | cons item items =>
    cases item with
    | quote =>
      have later : read ⟨ended,some (word ++ ['\\']),.unquoted⟩ (written items ++ '"' :: ' ' :: tail) = some final := readAll
      have start : Astray ' ' (word ++ ['\\','"']) (word ++ ['\\']) .unquoted :=
        Astray.start word (by decide) (by decide) (by decide) (by decide) (by decide) rfl (by decide)
      exact (double_absurd start later expected).elim
    | newline =>
      have later : read ⟨ended,some (word ++ ['\\'] ++ ['n']),.double⟩ (written items ++ '"' :: ' ' :: tail) = some final :=
        readAll
      rw [List.append_assoc] at later
      exact absurd (mismatch later expected) (by simp [Shell.meant,Written.meant])
    | raw c =>
      by_cases ordinary : c ∉ '\n' :: escapable
      · exact ⟨c,items,rfl,ordinary⟩
      have spelled : written (.raw c :: items) = c :: written items := by simp [written,Written.text]
      have changed : c = '\n' ∨ c ∈ escapable := List.mem_cons.mp (not_not.mp ordinary)
      rw [spelled,List.cons_append] at readAll
      by_cases line : c = '\n'
      · subst line
        have later : read ⟨ended,some (word ++ []),.double⟩ (written items ++ '"' :: ' ' :: tail) = some final := by
          rw [List.append_nil]
          exact readAll
        have start : Astray ' ' (word ++ ['\\','\n']) (word ++ []) .double :=
          Astray.start word (by decide) (by decide) (by decide) (by decide) (by decide) rfl (by decide)
        exact (double_absurd start later expected).elim
      have escapes := changed.resolve_left line
      have later : read ⟨ended,some (word ++ [c]),.double⟩ (written items ++ '"' :: ' ' :: tail) = some final := by
        have stepped : step ⟨ended,some word,.doubleEscape⟩ c = some ⟨ended,some (word ++ [c]),.double⟩ := by
          simp [step,line,escapes,add]
        rw [read_cons,stepped] at readAll
        exact readAll
      by_cases backslash : c = '\\'
      · subst backslash
        have start : Astray ' ' (word ++ ['\\','\\']) (word ++ ['\\']) .double :=
          Astray.start word (by decide) (by decide) (by decide) (by decide) (by decide) rfl (by decide)
        exact (double_absurd start later expected).elim
      · exact absurd (List.cons_prefix_cons.mp (mismatch later expected)).1 backslash

/-- What comes back from between double quotes was written cleanly. -/
theorem clean_of_read (readAll : read ⟨ended,some word,.double⟩ (written items ++ '"' :: ' ' :: tail) = some final)
    (expected : ended ++ [word ++ Shell.meant items] <+: final) : Clean items := by
  induction items generalizing word with
  | nil => exact ⟨List.not_mem_nil,List.not_mem_nil,List.not_mem_nil,List.not_mem_nil,trivial⟩
  | cons item items ih =>
    have goes {c : Char} (same : item.meant = c)
        (later : read ⟨ended,some (word ++ [c]),.double⟩ (written items ++ '"' :: ' ' :: tail) = some final) : Clean items := by
      refine ih later ?_
      have joined : word ++ [c] ++ Shell.meant items = word ++ Shell.meant (item :: items) := by simp [Shell.meant,same]
      rw [joined]
      exact expected
    cases item with
    | quote => exact (goes rfl readAll).cons (by decide) (by decide) (by decide) (by decide) (by simp)
    | newline =>
      have later : read ⟨ended,some (word ++ ['\\','n']),.double⟩ (written items ++ '"' :: ' ' :: tail) = some final := readAll
      exact absurd (mismatch later expected) (by simp [Shell.meant,Written.meant])
    | raw c =>
      have spelled : written (.raw c :: items) = c :: written items := by simp [written,Written.text]
      rw [spelled,List.cons_append] at readAll
      by_cases quote : c = '"'
      · subst quote
        have later : read ⟨ended,some (word ++ []),.unquoted⟩ (written items ++ '"' :: ' ' :: tail) = some final := by
          rw [List.append_nil]
          exact readAll
        have start : Astray ' ' (word ++ ['"']) (word ++ []) .unquoted :=
          Astray.start word (by decide) (by decide) (by decide) (by decide) (by decide) rfl (by decide)
        exact (double_absurd start later expected).elim
      by_cases backslash : c = '\\'
      · subst backslash
        obtain ⟨d,rest,rfl,ordinary⟩ := lone_of_read readAll expected
        have next : written (.raw d :: rest) ++ '"' :: ' ' :: tail = d :: (written rest ++ '"' :: ' ' :: tail) := by
          simp [written,Written.text]
        have later : read ⟨ended,some (word ++ ['\\']),.double⟩ (written (.raw d :: rest) ++ '"' :: ' ' :: tail) = some final := by
          rw [next,← read_lone ordinary,← next]
          exact readAll
        exact (goes rfl later).cons (by decide) (by decide) (by decide) (by decide) fun _ => ⟨d,rfl,ordinary⟩
      · obtain ⟨t,stepped,later⟩ := read_cons_iff.mp readAll
        simp only [step,if_neg quote,if_neg backslash] at stepped
        split_ifs at stepped with special
        cases stepped
        have apart : c ≠ '$' ∧ c ≠ '\x60' := by
          constructor <;> rintro rfl <;> exact special (by decide)
        exact (goes rfl later).cons (by simp [quote]) (by simp) (by simp [apart.1]) (by simp [apart.2])
          (by simp [backslash])

end Double

section Single

variable {word text : Text}

theorem last_stop {whole : Text} (astray : Astray x whole (current.getD []) mode) (begun : current ≠ none)
    (expected : ended ++ [whole] <+: final) (readAll : read ⟨ended,current,mode⟩ ['\''] = some final) : False := by
  obtain ⟨word,rfl⟩ := Option.ne_none_iff_exists'.mp begun
  have goes {word : Text} (same : some (ended ++ [word]) = some final) : word = whole := by
    obtain rfl := Option.some.inj same
    simpa using (expected.eq_of_length (by simp)).symm
  cases mode with
  | unquoted => exact absurd readAll (by simp [read,Machine.exec,step,unquoted,openQuote,finish])
  | escape =>
    have same : word ++ ['\''] = whole := goes readAll
    have last : whole.getLast? = some '\\' := astray.escaped rfl
    rw [← same,List.getLast?_concat] at last
    exact absurd last (by decide)
  | single => exact astray.ne (List.prefix_refl _) (goes readAll)
  | double => exact absurd readAll (by simp [read,Machine.exec,step,escapable,add,finish])
  | doubleEscape => exact absurd readAll (by simp [read,Machine.exec,step,escapable,add,finish])
  | comment => exact astray.code rfl

/-- What comes back from between single quotes at the end has none of its own. -/
theorem single_of_read (readAll : read ⟨ended,some word,.single⟩ (text ++ ['\'']) = some final)
    (expected : ended ++ [word ++ text] <+: final) : '\'' ∉ text := by
  induction text generalizing word with
  | nil => exact List.not_mem_nil
  | cons c text ih =>
    by_cases quote : c = '\''
    · subst quote
      have start : Astray ' ' (word ++ ['\'']) (word ++ []) .unquoted :=
        Astray.start word (by decide) (by decide) (by decide) (by decide) (by decide) rfl (by decide)
      have later : read ⟨ended,some (word ++ []),.unquoted⟩ (written (text.map .raw) ++ ['\'']) = some final := by
        rw [List.append_nil,written_raw]
        exact readAll
      refine (astray_absurd (.inl rfl) (fun current mode astray begun => last_stop astray (begun rfl) expected) (.inl rfl)
        start (fun _ => Option.some_ne_none _) ?_ later expected).elim
      rw [meant_raw,List.append_assoc]
      rfl
    · have stepped : step ⟨ended,some word,.single⟩ c = some ⟨ended,some (word ++ [c]),.single⟩ := by
        simp [step,quote,add]
      rw [List.cons_append,read_cons,stepped,Option.bind_some] at readAll
      have later := ih readAll (by rw [List.append_assoc]; exact expected)
      exact List.not_mem_cons_of_ne_of_not_mem (Ne.symm quote) later

end Single

section Bare

variable {word text whole more : Text}

/-- What stands between two arguments: the line goes on. -/
def join : Text := [' ','\\','\n',' ',' ']

/-- What may follow a bare word: an option, or the last argument in single quotes. -/
def Follows (ended : List Text) (whole more : Text) (final : List Text) : Prop :=
  (∃ rest, more = '-' :: rest) ∨ ∃ last, more = '\'' :: (last ++ ['\'']) ∧ final = ended ++ [whole,last]

theorem none_stop (follows : Follows ended whole more final) (dashes : whole.count '-' = 0)
    (expected : ended ++ [whole] <+: final) (readAll : read ⟨ended,none,.unquoted⟩ more = some final) : False := by
  rcases follows with ⟨rest,rfl⟩ | ⟨last,rfl,rfl⟩
  · have begun : read ⟨ended,some ['-'],.unquoted⟩ rest = some final := readAll
    have few := (current_starts begun expected).sublist.count_le '-'
    rw [dashes] at few
    exact absurd few (by decide)
  · have quoted : read ⟨ended,some [],.single⟩ (last ++ ['\'']) = some (ended ++ [whole,last]) := readAll
    have short := read_extent quoted
    simp [extent,held,inQuotes] at short
    omega

theorem read_join (astray : Astray '-' whole (current.getD []) mode) (expected : ended ++ [whole] <+: final)
    (readAll : read ⟨ended,current,mode⟩ (join ++ more) = some final) :
    (whole.count '-' = 0 ∧ read ⟨ended,none,.unquoted⟩ more = some final) ∨
      (∃ added, '\'' ∉ added ∧ (current.getD []).count '\'' < whole.count '\'' ∧
        read ⟨ended,some (current.getD [] ++ added),.single⟩ more = some final) ∨
      ∃ added, read ⟨ended,some (current.getD [] ++ added),.double⟩ more = some final := by
  cases mode with
  | unquoted =>
    cases current with
    | none =>
      refine .inl ⟨astray.kept.symm,?_⟩
      have later : read ⟨ended ++ [] ++ [] ++ [],none,.unquoted⟩ more = some final := readAll
      simpa using later
    | some word => exact (astray.ne (List.prefix_refl _) (ended_eq readAll expected)).elim
  | escape =>
    have same : current.getD [] ++ [' '] = whole := ended_eq readAll expected
    have last : whole.getLast? = some '\\' := astray.escaped rfl
    rw [← same,List.getLast?_concat] at last
    exact absurd last (by decide)
  | single =>
    have later : read ⟨ended,some (current.getD [] ++ [' '] ++ ['\\'] ++ ['\n'] ++ [' '] ++ [' ']),.single⟩ more = some final :=
      readAll
    exact .inr (.inl ⟨join,by decide,astray.inside rfl,by simpa [join] using later⟩)
  | double =>
    have later : read ⟨ended,some (current.getD [] ++ [' '] ++ [' '] ++ [' ']),.double⟩ more = some final := readAll
    exact .inr (.inr ⟨[' ',' ',' '],by simpa using later⟩)
  | doubleEscape =>
    have later : read ⟨ended,some (current.getD [] ++ ['\\',' '] ++ [' '] ++ [' ']),.double⟩ more = some final := readAll
    exact .inr (.inr ⟨['\\',' ',' ',' '],by simpa using later⟩)
  | comment => exact (astray.code rfl).elim

theorem join_stop (follows : Follows ended whole more final) (astray : Astray '-' whole (current.getD []) mode)
    (expected : ended ++ [whole] <+: final) (readAll : read ⟨ended,current,mode⟩ (join ++ more) = some final) : False := by
  have kept : (current.getD []).count '-' = whole.count '-' := astray.kept
  rcases read_join astray expected readAll with ⟨dashes,later⟩ | ⟨added,clear,behind,later⟩ | ⟨added,later⟩
  · exact none_stop follows dashes expected later
  · rcases follows with ⟨rest,rfl⟩ | ⟨last,rfl,rfl⟩
    · have dashed : read ⟨ended,some (current.getD [] ++ added ++ ['-']),.single⟩ rest = some final := later
      rw [List.append_assoc] at dashed
      exact blank_stop kept (by simp) expected dashed
    · have closed : read ⟨ended,some (current.getD [] ++ added),.unquoted⟩ (last ++ ['\'']) = some (ended ++ [whole,last]) :=
        later
      have short := read_extent closed
      simp [extent,held,inQuotes] at short
      have same := (current_starts closed expected).eq_of_length_le (by rw [List.length_append]; omega)
      rw [← same,List.count_append,List.count_eq_zero.mpr clear] at behind
      omega
  · rcases follows with ⟨rest,rfl⟩ | ⟨last,rfl,rfl⟩
    · have dashed : read ⟨ended,some (current.getD [] ++ added ++ ['-']),.double⟩ rest = some final := later
      rw [List.append_assoc] at dashed
      exact blank_stop kept (by simp) expected dashed
    · have quoted : read ⟨ended,some (current.getD [] ++ added ++ ['\'']),.double⟩ (last ++ ['\'']) =
          some (ended ++ [whole,last]) := later
      have short := read_extent quoted
      have long := (current_starts quoted expected).length_le
      simp [extent,held,inQuotes] at short long
      omega

theorem bare_absurd {missing : Text} (follows : Follows ended (word ++ (missing ++ text)) more final)
    (start : Astray '-' (word ++ missing) (current.getD []) mode)
    (readAll : read ⟨ended,current,mode⟩ (text ++ (join ++ more)) = some final)
    (expected : ended ++ [word ++ (missing ++ text)] <+: final) : False := by
  rw [← written_raw text] at readAll
  refine astray_absurd (.inr rfl) (fun current mode astray _ => join_stop follows astray expected)
    (.inr (List.mem_append_left more (by decide))) start (fun space => absurd space (by decide)) ?_ readAll expected
  rw [meant_raw,List.append_assoc]

theorem escape_absurd (follows : Follows ended (word ++ '\\' :: text) more final) (same : current.getD [] = word)
    (readAll : read ⟨ended,current,.escape⟩ (text ++ (join ++ more)) = some final)
    (expected : ended ++ [word ++ '\\' :: text] <+: final) : False := by
  subst same
  cases text with
  | nil =>
    have later : read ⟨ended,some (current.getD [] ++ [' ']),.unquoted⟩ ('\\' :: '\n' :: ' ' :: ' ' :: more) = some final :=
      readAll
    exact absurd (mismatch later expected) (by decide)
  | cons c text =>
    by_cases line : c = '\n'
    · subst line
      have start : Astray '-' (current.getD [] ++ ['\\','\n']) (current.getD [] ++ []) .unquoted :=
        Astray.start _ (by decide) (by decide) (by decide) (by decide) (by decide) rfl (by decide)
      rw [List.append_nil] at start
      exact bare_absurd follows start readAll expected
    have stepped : step ⟨ended,current,.escape⟩ c = some ⟨ended,some (current.getD [] ++ [c]),.unquoted⟩ := by
      simp [step,line,add]
    rw [List.cons_append,read_cons,stepped] at readAll
    by_cases backslash : c = '\\'
    · subst backslash
      have start : Astray '-' (current.getD [] ++ ['\\','\\']) (current.getD [] ++ ['\\']) .unquoted :=
        Astray.start _ (by decide) (by decide) (by decide) (by decide) (by decide) rfl (by decide)
      exact @bare_absurd ended (some (current.getD [] ++ ['\\'])) _ _ _ _ _ _ follows start readAll expected
    · exact backslash (List.cons_prefix_cons.mp (mismatch readAll expected)).1

theorem plain_of_read {c : Char} (follows : Follows ended (word ++ c :: text) more final) (same : current.getD [] = word)
    (readAll : read ⟨ended,current,.unquoted⟩ (c :: text ++ (join ++ more)) = some final)
    (expected : ended ++ [word ++ c :: text] <+: final) : Plain c := by
  subst same
  by_contra special
  have behind {mode : Mode} (start : Astray '-' (current.getD [] ++ [c]) (current.getD [] ++ []) mode)
      (later : read ⟨ended,some (current.getD []),mode⟩ (text ++ (join ++ more)) = some final) : False := by
    rw [List.append_nil] at start
    exact @bare_absurd ended (some (current.getD [])) _ _ _ _ _ _ follows start later expected
  obtain ⟨t,stepped,later⟩ := read_cons_iff.mp readAll
  simp only [step,unquoted] at stepped
  split_ifs at stepped with backslash quote double blank operator comment home <;> cases stepped
  · subst backslash
    exact escape_absurd follows rfl later expected
  · subst quote
    exact behind (Astray.start _ (by decide) (by decide) (by decide) (by decide) (by decide) rfl (by decide)) later
  · subst double
    exact behind (Astray.start _ (by decide) (by decide) (by decide) (by decide) (by decide) rfl (by decide)) later
  · cases current with
    | none =>
      have start : Astray '-' ([] ++ [c]) ([] ++ []) .unquoted := by
        rcases blank with rfl | rfl <;>
          exact Astray.start [] (by decide) (by decide) (by decide) (by decide) (by decide) rfl (by decide)
      have unbegun : read ⟨ended ++ [],none,.unquoted⟩ (text ++ (join ++ more)) = some final := later
      rw [List.append_nil] at unbegun
      exact @bare_absurd ended none _ _ _ _ _ _ follows start unbegun expected
    | some word => exact absurd (congrArg List.length (ended_eq later expected)) (by simp)
  · obtain ⟨rfl,-⟩ := comment
    have skipped := @read_comment ended (text ++ (join ++ more))
      (List.mem_append_right _ (List.mem_append_left more (by decide)))
    exact absurd (skipped.symm.trans later) (Option.some_ne_none final).symm
  · exact special (by simp [Plain,backslash,quote,double,not_or.mp blank,operator])

/-- **A bare word comes back only if it is one.** -/
theorem bare_of_read (follows : Follows ended text more final) (expected : ended ++ [text] <+: final)
    (readAll : read ⟨ended,none,.unquoted⟩ (text ++ (join ++ more)) = some final) : Bare text := by
  have rest {before after : Text} (split : text = before ++ after)
      (later : read ⟨ended,some before,.unquoted⟩ (after ++ (join ++ more)) = some final) : ∀ c ∈ after, Plain c := by
    induction after generalizing before with
    | nil => exact fun c member => absurd member List.not_mem_nil
    | cons c after ih =>
      have plain : Plain c := by
        rw [split] at follows expected
        exact @plain_of_read ended (some before) _ _ _ _ _ follows rfl later expected
      rw [List.cons_append,read_cons,step_bare plain] at later
      exact List.forall_mem_cons.mpr ⟨plain,ih (by rw [split,List.append_assoc]; rfl) later⟩
  cases text with
  | nil =>
    have unbegun : read ⟨ended ++ [] ++ [] ++ [],none,.unquoted⟩ more = some final := readAll
    rw [List.append_nil,List.append_nil,List.append_nil] at unbegun
    exact (none_stop follows rfl expected unbegun).elim
  | cons c text =>
    have plain : Plain c := @plain_of_read ended none _ _ _ _ _ follows rfl readAll expected
    have comment : c ≠ '#' := by
      rintro rfl
      have skipped := @read_comment ended (text ++ (join ++ more))
        (List.mem_append_right _ (List.mem_append_left more (by decide)))
      have later : read ⟨ended,none,.comment⟩ (text ++ (join ++ more)) = some final := readAll
      exact absurd (skipped.symm.trans later) (Option.some_ne_none final).symm
    have home : c ≠ '~' := by
      rintro rfl
      cases readAll
    rw [List.cons_append,read_cons,step_first plain comment home] at readAll
    refine ⟨List.cons_ne_nil _ _,List.forall_mem_cons.mpr ⟨plain,@rest [c] text rfl readAll⟩,?_,?_⟩
    · exact fun same => comment (Option.some.inj same)
    · exact fun same => home (Option.some.inj same)

end Bare

end Reader

/-- The rest of a command: options with an argument in double quotes each, and a last one in single quotes. -/
def arguments : List (Text × List Written) → Text → Text
  | [],last => '\'' :: (last ++ ['\''])
  | (option,items) :: rest,last => option ++ (' ' :: '"' :: (written items ++ '"' :: (Reader.join ++ arguments rest last)))

theorem mem_written {c : Char} (other : c ∉ ['\'','"','\\','\n',' ','n']) (items : List Written) :
    c ∈ written items ↔ c ∈ meant items := by
  simp only [List.mem_cons,List.not_mem_nil,or_false,not_or] at other
  induction items with
  | nil => rfl
  | cons item items ih =>
    have split : written (item :: items) = item.text ++ written items := rfl
    have value : meant (item :: items) = item.meant :: meant items := rfl
    rw [split,List.mem_append,ih,value,List.mem_cons]
    cases item <;> simp [Written.text,Written.meant,other]

theorem mem_arguments {c : Char} (other : c ∉ ['\'','"','\\','\n',' ','n']) (options : List (Text × List Written)) (last : Text) :
    c ∈ arguments options last ↔ (∃ o ∈ options, c ∈ o.1 ∨ c ∈ meant o.2) ∨ c ∈ last := by
  induction options with
  | nil =>
    simp only [List.mem_cons,List.not_mem_nil,or_false,not_or] at other
    simp [arguments,other]
  | cons o options ih =>
    have items := mem_written other o.2
    simp only [List.mem_cons,List.not_mem_nil,or_false,not_or] at other
    simp [arguments,Reader.join,ih,items,other,or_assoc]

def values (options : List (Text × List Written)) (last : Text) : List Text :=
  (options.flatMap fun o => [o.1,meant o.2]) ++ [last]

namespace Reader

variable {ended : List Text} {options : List (Text × List Written)} {word last : Text}

theorem read_arguments_iff (bare : ∀ o ∈ options, Bare o.1) :
    read ⟨ended,none,.unquoted⟩ (arguments options last) = some (ended ++ values options last) ↔
      (∀ o ∈ options, Clean o.2) ∧ '\'' ∉ last := by
  induction options generalizing ended with
  | nil =>
    have quoted : read ⟨ended,none,.unquoted⟩ (arguments [] last) = read ⟨ended,some [],.single⟩ (last ++ ['\'']) := rfl
    rw [quoted]
    constructor
    · intro readAll
      exact ⟨fun _ member => absurd member List.not_mem_nil,single_of_read readAll List.prefix_rfl⟩
    · rintro ⟨-,clear⟩
      rw [read_single clear]
      rfl
  | cons o options ih =>
    obtain ⟨option,items⟩ := o
    obtain ⟨here,others⟩ := List.forall_mem_cons.mp bare
    have final : ended ++ values ((option,items) :: options) last =
        ended ++ [option] ++ [meant items] ++ values options last := by simp [values]
    have opened (rest : Text) : read ⟨ended,some option,.unquoted⟩ (' ' :: '"' :: rest) =
        read ⟨ended ++ [option],some [],.double⟩ rest := rfl
    rw [arguments,read_bare here,opened,final,List.forall_mem_cons,and_assoc]
    have goes (clean : Clean items) :
        read ⟨ended ++ [option],some [],.double⟩ (written items ++ '"' :: (join ++ arguments options last)) =
          read ⟨ended ++ [option] ++ [meant items],none,.unquoted⟩ (arguments options last) := by
      have closed : read ⟨ended ++ [option],some (meant items),.double⟩ ('"' :: (join ++ arguments options last)) =
          read ⟨ended ++ [option] ++ [meant items] ++ [] ++ [],none,.unquoted⟩ (arguments options last) := rfl
      rw [read_clean clean,List.nil_append,closed,List.append_nil,List.append_nil]
    constructor
    · intro readAll
      have clean : Clean items := clean_of_read readAll (List.prefix_append _ _)
      rw [goes clean] at readAll
      exact ⟨clean,(ih others).mp readAll⟩
    · rintro ⟨clean,later⟩
      rw [goes clean]
      exact (ih others).mpr later

/-- **A bare word, options and a last argument come back exactly when each is written as it may be.** -/
theorem read_command_iff (bare : ∀ o ∈ options, Bare o.1 ∧ o.1.head? = some '-') :
    read ⟨ended,none,.unquoted⟩ (word ++ (join ++ arguments options last)) =
      some (ended ++ (word :: values options last)) ↔
      Bare word ∧ (∀ o ∈ options, Clean o.2) ∧ '\'' ∉ last := by
  have final : ended ++ (word :: values options last) = ended ++ [word] ++ values options last := by simp
  have follows : Follows ended word (arguments options last) (ended ++ [word] ++ values options last) := by
    cases options with
    | nil => exact .inr ⟨last,rfl,by simp [values]⟩
    | cons o options =>
      obtain ⟨first,more,same⟩ : ∃ c rest, o.1 = c :: rest :=
        List.exists_cons_of_ne_nil (bare o List.mem_cons_self).1.nonempty
      have dash := (bare o List.mem_cons_self).2
      rw [same] at dash
      obtain rfl := Option.some.inj dash
      exact .inl ⟨_,by rw [arguments,same,List.cons_append]⟩
  have goes (isBare : Bare word) : read ⟨ended,none,.unquoted⟩ (word ++ (join ++ arguments options last)) =
      read ⟨ended ++ [word],none,.unquoted⟩ (arguments options last) := by
    have blanks : read ⟨ended,some word,.unquoted⟩ (join ++ arguments options last) =
        read ⟨ended ++ [word] ++ [] ++ [],none,.unquoted⟩ (arguments options last) := rfl
    rw [read_bare isBare,blanks,List.append_nil,List.append_nil]
  rw [final]
  constructor
  · intro readAll
    have isBare := bare_of_read follows (List.prefix_append _ _) readAll
    rw [goes isBare] at readAll
    exact ⟨isBare,(read_arguments_iff fun o member => (bare o member).1).mp readAll⟩
  · rintro ⟨isBare,later⟩
    rw [goes isBare]
    exact (read_arguments_iff fun o member => (bare o member).1).mpr later

end Reader

end Shell
