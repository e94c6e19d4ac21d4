import ContainerRecipe.Proofs.Shell.Quoting

namespace ContainerRecipe.Shell

section

-- A text of parts one after the other. What it means is what its parts mean, one after the other.
inductive Parts (part : List Char → List Char → Prop) : List Char → List Char → Prop where
  | none : Parts part [] []
  | more (before : Parts part cs m) (last : part ds n) : Parts part (cs ++ ds) (m ++ n)

-- The characters that a backslash takes the meaning from between double quotes.
def special : List Char := ['"', '\\', '$', '\x60']

-- A part of the text between double quotes.
inductive Inner : List Char → List Char → Prop where
  | plain (quote : c ≠ '"') (backslash : c ≠ '\\') : Inner [c] [c]
  | escaped (among : c ∈ special) : Inner ['\\', c] [c]
  | continued : Inner ['\\', '\n'] []
  | kept (apart : c ∉ special) (feed : c ≠ '\n') : Inner ['\\', c] ['\\', c]

-- A part of a word.
inductive Piece : List Char → List Char → Prop where
  | plain (blank : Text.isBlank c = false) (single : c ≠ '\'') (double : c ≠ '"') (backslash : c ≠ '\\') :
      Piece [c] [c]
  | escaped (feed : c ≠ '\n') : Piece ['\\', c] [c]
  | continued : Piece ['\\', '\n'] []
  | single (unquoted : '\'' ∉ cs) : Piece ('\'' :: cs ++ ['\'']) cs
  | double (inside : Parts Inner cs m) : Piece ('"' :: cs ++ ['"']) m

-- A word has one piece or more.
inductive Word : List Char → List Char → Prop where
  | mk (before : Parts Piece cs m) (last : Piece ds n) : Word (cs ++ ds) (m ++ n)

-- Words with blanks between them, and blanks around them or none.
inductive Line : List Char → List (List Char) → Prop where
  | blank (blanks : ∀ c ∈ cs, Text.isBlank c) : Line cs []
  | last (blanks : ∀ c ∈ gap, Text.isBlank c) (word : Word cs m) : Line (gap ++ cs) [m]
  | more (blanks : ∀ c ∈ gap, Text.isBlank c) (word : Word cs m) (parted : Text.isBlank b)
      (rest : Line ds ms) : Line (gap ++ cs ++ b :: ds) (m :: ms)

-- The beginning of a piece that is without its end: a backslash at the very end, or an open quote.
inductive Opened : List Char → Prop where
  | backslash : Opened ['\\']
  | single (unquoted : '\'' ∉ cs) : Opened ('\'' :: cs)
  | double (inside : Parts Inner cs m) : Opened ('"' :: cs)
  | doubleBackslash (inside : Parts Inner cs m) : Opened ('"' :: cs ++ ['\\'])

-- A line of which everything can be read up to a piece that it does not end.
def Unfinished (cs : List Char) : Prop := ∃ before words es, Line before words ∧ Opened es ∧ cs = before ++ es

end

section

namespace Scan

theorem step_opens {s : Scan} (bare : s.quoting = .bare) :
    s.step '\'' = s.push .single [] ∧ s.step '"' = s.push .double [] ∧ s.step '\\' = s.push .escaped [] := by
  simp [step, enter, push, bare, Text.isBlank]

variable (s : Scan) (read : List Char)

theorem foldl_unquoted (unquoted : '\'' ∉ cs) :
    cs.foldl step (s.push .single read) = s.push .single (read ++ cs) := by
  have plain : quotedChars cs = cs := by
    unfold quotedChars
    rw [List.flatMap_congr fun c member => if_neg (ne_of_mem_of_not_mem member unquoted), List.flatMap_singleton']
  have quoted := foldl_quotedChars s read cs
  rwa [plain] at quoted

theorem foldl_inner (inner : Inner cs m) : cs.foldl step (s.push .double read) = s.push .double (read ++ m) := by
  cases inner with
  | plain quote backslash => simp [step, push, quote, backslash]
  | escaped among =>
    simp only [special, List.mem_cons, List.not_mem_nil, or_false] at among
    rcases among with rfl | rfl | rfl | rfl <;> simp [step, push, enter]
  | continued => simp [step, push, enter]
  | kept apart feed =>
    simp only [special, List.mem_cons, List.not_mem_nil, or_false, not_or] at apart
    obtain ⟨quote, backslash, dollar, backtick⟩ := apart
    simp [step, push, enter, feed, quote, backslash, dollar, backtick]

theorem foldl_inside (inside : Parts Inner cs m) :
    cs.foldl step (s.push .double read) = s.push .double (read ++ m) := by
  induction inside with
  | none => rw [List.append_nil, List.foldl_nil]
  | more _ last ih => rw [List.foldl_append, ih, foldl_inner s _ last, List.append_assoc]

end Scan

theorem spells_piece (piece : Piece cs m) : Spells cs m := by
  intro s bare
  obtain ⟨single, double, backslash⟩ := Scan.step_opens bare
  cases piece with
  | plain blank single double backslash => simp [Scan.step, bare, blank, single, double, backslash]
  | escaped feed =>
    rw [List.foldl_cons, backslash]
    simp [Scan.step, Scan.push, feed]
  | continued =>
    rw [List.foldl_cons, backslash]
    simp [Scan.step, Scan.enter, Scan.push]
  | single unquoted =>
    rw [List.cons_append, List.foldl_cons, single, List.foldl_append, Scan.foldl_unquoted s [] unquoted]
    simp [Scan.step, Scan.enter, Scan.push]
  | double inside =>
    rw [List.cons_append, List.foldl_cons, double, List.foldl_append, Scan.foldl_inside s [] inside]
    simp [Scan.step, Scan.enter, Scan.push]

-- Pieces leave a scan where it is or add to its word.
theorem spells_pieces (pieces : Parts Piece cs m) : cs = [] ∧ m = [] ∨ Spells cs m := by
  induction pieces with
  | none => exact .inl ⟨rfl, rfl⟩
  | more _ last ih =>
    right
    rcases ih with ⟨rfl, rfl⟩ | before
    · exact spells_piece last
    · exact before.append (spells_piece last)

theorem spells_word (word : Word cs m) : Spells cs m := by
  cases word with
  | mk before last =>
    rcases spells_pieces before with ⟨rfl, rfl⟩ | spells
    · exact spells_piece last
    · exact spells.append (spells_piece last)

theorem splitChars?_blanks_append (blanks : ∀ c ∈ gap, Text.isBlank c) (cs : List Char) :
    splitChars? (gap ++ cs) = splitChars? cs := by
  induction gap with
  | nil => rfl
  | cons b gap ih =>
    obtain ⟨blank, others⟩ := List.forall_mem_cons.mp blanks
    have skipped : ({} : Scan).step b = {} := Scan.step_blank rfl blank
    rw [← ih others]
    unfold splitChars?
    rw [List.cons_append, List.foldl_cons, skipped]

theorem splitChars?_line (line : Line cs words) : splitChars? cs = some words := by
  induction line with
  | blank blanks =>
    have skipped := splitChars?_blanks_append blanks []
    rwa [List.append_nil] at skipped
  | last blanks word => rw [splitChars?_blanks_append blanks, (spells_word word).splitChars?]
  | more blanks word parted _ ih =>
    rw [List.append_assoc, splitChars?_blanks_append blanks,
      splitChars?_append_blank (spells_word word).splitChars? parted, ih]
    rfl

-- A piece that is not ended leaves the scan inside quotes or behind a backslash.
theorem quoted_of_opened {s : Scan} (opened : Opened cs) (bare : s.quoting = .bare) :
    (cs.foldl Scan.step s).quoting ≠ .bare := by
  obtain ⟨single, double, backslash⟩ := Scan.step_opens bare
  cases opened with
  | backslash => simp [backslash, Scan.push]
  | single unquoted =>
    rw [List.foldl_cons, single, Scan.foldl_unquoted s [] unquoted]
    simp [Scan.push]
  | double inside =>
    rw [List.foldl_cons, double, Scan.foldl_inside s [] inside]
    simp [Scan.push]
  | doubleBackslash inside =>
    rw [List.cons_append, List.foldl_cons, double, List.foldl_append, Scan.foldl_inside s [] inside]
    simp [Scan.step, Scan.enter, Scan.push]

theorem splitChars?_unfinished (unfinished : Unfinished cs) : splitChars? cs = none := by
  obtain ⟨before, words, es, line, opened, rfl⟩ := unfinished
  have split := splitChars?_line line
  unfold splitChars? at split ⊢
  have quoted := quoted_of_opened opened (Scan.finish?_eq_some split).1
  rw [List.foldl_append, Scan.finish?, if_neg quoted]

end

section

-- Words that each have a blank behind them.
inductive Parted : List Char → List (List Char) → Prop where
  | start : Parted [] []
  | blank (before : Parted cs words) (blank : Text.isBlank b) : Parted (cs ++ [b]) words
  | word (before : Parted cs words) (word : Word ds m) (blank : Text.isBlank b) :
      Parted (cs ++ ds ++ [b]) (words ++ [m])

theorem Line.cons_blank (line : Line cs words) (blank : Text.isBlank b) : Line (b :: cs) words := by
  cases line with
  | blank blanks => exact .blank (List.forall_mem_cons.mpr ⟨blank, blanks⟩)
  | last blanks word => exact .last (List.forall_mem_cons.mpr ⟨blank, blanks⟩) word
  | more blanks word parted rest => exact .more (List.forall_mem_cons.mpr ⟨blank, blanks⟩) word parted rest

theorem Word.line (word : Word cs m) : Line cs [m] := by
  show Line ([] ++ cs) [m]
  exact .last (List.forall_mem_nil _) word

theorem Parted.line (before : Parted cs words) (rest : Line ds more) : Line (cs ++ ds) (words ++ more) := by
  induction before generalizing ds more with
  | start => exact rest
  | blank _ blank ih =>
    rw [List.append_assoc, List.singleton_append]
    exact ih (rest.cons_blank blank)
  | word _ word blank ih =>
    have here := ih (Line.more (List.forall_mem_nil _) word blank rest)
    simpa using here

-- The pieces of a word that has begun are all of it, or there are none.
theorem Parted.line_pieces (before : Parted cs words) (pieces : Parts Piece ds m) :
    ∃ found, Line (cs ++ ds) found := by
  cases pieces with
  | none => exact ⟨_, before.line (.blank (List.forall_mem_nil _))⟩
  | more pieces last => exact ⟨_, before.line (Word.mk pieces last).line⟩

-- How a scan stands after a text: outside of a word, in a word, or in a piece that is still open.
inductive Reads : List Char → Scan → Prop where
  | between (before : Parted cs words) : Reads cs ⟨.bare, none, words⟩
  | word (before : Parted cs words) (word : Word ds m) : Reads (cs ++ ds) ⟨.bare, some m, words⟩
  | single (before : Parted cs words) (pieces : Parts Piece ds m) (unquoted : '\'' ∉ es) :
      Reads (cs ++ ds ++ '\'' :: es) ⟨.single, some (m ++ es), words⟩
  | double (before : Parted cs words) (pieces : Parts Piece ds m) (inside : Parts Inner es n) :
      Reads (cs ++ ds ++ '"' :: es) ⟨.double, some (m ++ n), words⟩
  | escaped (before : Parted cs words) (pieces : Parts Piece ds m) :
      Reads (cs ++ ds ++ ['\\']) ⟨.escaped, some m, words⟩
  | doubleEscaped (before : Parted cs words) (pieces : Parts Piece ds m) (inside : Parts Inner es n) :
      Reads (cs ++ ds ++ ('"' :: es ++ ['\\'])) ⟨.doubleEscaped, some (m ++ n), words⟩

-- A piece ends and the word goes on outside of quotes.
theorem Reads.ended (before : Parted cs words) (pieces : Parts Piece ds m) (last : Piece es n) :
    Reads (cs ++ ds ++ es) ⟨.bare, some (m ++ n), words⟩ := by
  rw [List.append_assoc]
  exact .word before (.mk pieces last)

-- A character that is not blank begins a piece, in a word or at the beginning of one.
theorem Reads.begun (before : Parted cs words) (pieces : Parts Piece ds m) (word : Option (List Char))
    (read : word.getD [] = m) (blank : Text.isBlank c = false) :
    Reads (cs ++ ds ++ [c]) (Scan.step ⟨.bare, word, words⟩ c) := by
  simp only [Scan.step, blank, Bool.false_eq_true, if_false, Scan.enter, Scan.push, read]
  split
  · rename_i quote
    subst quote
    simpa using Reads.single before pieces (List.not_mem_nil (a := '\''))
  · split
    · rename_i quote
      subst quote
      simpa using Reads.double before pieces Parts.none
    · split
      · rename_i backslash
        subst backslash
        exact .escaped before pieces
      · rename_i single double backslash
        exact .ended before pieces (.plain blank single double backslash)

theorem Word.pieces (word : Word cs m) : Parts Piece cs m := by
  cases word with
  | mk before last => exact .more before last

-- One more character is read from wherever the scan stands.
theorem Reads.step (reads : Reads cs s) (c : Char) : Reads (cs ++ [c]) (s.step c) := by
  cases reads with
  | between before =>
    by_cases blank : Text.isBlank c = true
    · rw [Scan.step_blank rfl blank]
      simpa [Scan.close] using Reads.between (before.blank blank)
    · simpa using Reads.begun before Parts.none none rfl (eq_false_of_ne_true blank)
  | word before word =>
    by_cases blank : Text.isBlank c = true
    · rw [Scan.step_blank rfl blank]
      exact .between (before.word word blank)
    · exact .begun before word.pieces _ rfl (eq_false_of_ne_true blank)
  | @single cs words ds m es before pieces unquoted =>
    by_cases quote : c = '\''
    · subst quote
      simpa [Scan.step, Scan.enter] using Reads.ended before pieces (.single unquoted)
    · have apart : '\'' ∉ es ++ [c] := by simp [unquoted, Ne.symm quote]
      have longer := Reads.single before pieces apart
      simpa [Scan.step, Scan.push, quote] using longer
  | @double cs words ds m es n before pieces inside =>
    by_cases quote : c = '"'
    · subst quote
      simpa [Scan.step, Scan.enter] using Reads.ended before pieces (.double inside)
    · by_cases backslash : c = '\\'
      · subst backslash
        simpa [Scan.step, Scan.enter] using Reads.doubleEscaped before pieces inside
      · have longer := Reads.double before pieces (inside.more (.plain quote backslash))
        simpa [Scan.step, Scan.push, quote, backslash] using longer
  | escaped before pieces =>
    by_cases feed : c = '\n'
    · subst feed
      simpa [Scan.step, Scan.enter] using Reads.ended before pieces .continued
    · simpa [Scan.step, Scan.push, feed] using Reads.ended before pieces (.escaped feed)
  | doubleEscaped before pieces inside =>
    by_cases feed : c = '\n'
    · subst feed
      simpa [Scan.step, Scan.enter] using Reads.double before pieces (inside.more .continued)
    · have told : (c = '"' || c = '\\' || c = '$' || c = '\x60') = decide (c ∈ special) := by simp [special, Bool.or_assoc]
      simp only [Scan.step, Scan.push, feed, if_false, told, decide_eq_true_eq]
      split
      · rename_i among
        simpa using Reads.double before pieces (inside.more (.escaped among))
      · rename_i apart
        simpa using Reads.double before pieces (inside.more (.kept apart feed))

theorem Reads.run (reads : Reads before s) (cs : List Char) : Reads (before ++ cs) (cs.foldl Scan.step s) := by
  induction cs generalizing before s with
  | nil => rwa [List.append_nil]
  | cons c cs ih =>
    rw [List.append_cons]
    exact ih (reads.step c)

theorem Reads.parted (reads : Reads cs s) (closed : s.word = none) : Parted cs s.words := by
  cases reads with
  | between before => exact before
  | word | single | double | escaped | doubleEscaped => cases closed

theorem Reads.line (reads : Reads cs s) (finished : s.finish? = some words) : Line cs words := by
  obtain ⟨bare, rfl⟩ := Scan.finish?_eq_some finished
  cases reads with
  | between before => simpa using before.line (.blank (List.forall_mem_nil _))
  | word before word => exact before.line word.line
  | single | double | escaped | doubleEscaped => cases bare

theorem Reads.unfinished (reads : Reads cs s) (unsplit : s.finish? = none) : Unfinished cs := by
  cases reads with
  | between | word => cases unsplit
  | single before pieces unquoted =>
    obtain ⟨words, line⟩ := before.line_pieces pieces
    exact ⟨_, words, _, line, .single unquoted, rfl⟩
  | double before pieces inside =>
    obtain ⟨words, line⟩ := before.line_pieces pieces
    exact ⟨_, words, _, line, .double inside, rfl⟩
  | escaped before pieces =>
    obtain ⟨words, line⟩ := before.line_pieces pieces
    exact ⟨_, words, _, line, .backslash, rfl⟩
  | doubleEscaped before pieces inside =>
    obtain ⟨words, line⟩ := before.line_pieces pieces
    exact ⟨_, words, _, line, .doubleBackslash inside, rfl⟩

end

theorem splitChars?_eq_some_iff : splitChars? cs = some words ↔ Line cs words :=
  ⟨(Reads.run (.between .start) cs).line, splitChars?_line⟩

theorem splitChars?_eq_none_iff : splitChars? cs = none ↔ Unfinished cs :=
  ⟨(Reads.run (.between .start) cs).unfinished, splitChars?_unfinished⟩

theorem splitWords?_eq_some_iff {line : String} :
    splitWords? line = some words ↔ splitChars? line.toList = some (words.map String.toList) := by
  refine ⟨fun split => ?_, splitWords?_eq_some⟩
  obtain ⟨found, told, rfl⟩ := Option.map_eq_some_iff.mp split
  simpa using told

-- A line is split as the grammar reads it, and not at all if it ends inside quotes or behind a backslash.
theorem splitWords?_reads (line : String) :
    (∀ words, splitWords? line = some words ↔ Line line.toList (words.map String.toList)) ∧
      (splitWords? line = none ↔ Unfinished line.toList) := by
  constructor
  · intro words
    rw [splitWords?_eq_some_iff, splitChars?_eq_some_iff]
  · rw [splitWords?, Option.map_eq_none_iff, splitChars?_eq_none_iff]

end ContainerRecipe.Shell
