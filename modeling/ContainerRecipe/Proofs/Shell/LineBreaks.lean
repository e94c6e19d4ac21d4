import ContainerRecipe.Proofs.Shell.Grammar

namespace ContainerRecipe.Shell

-- A line that ends outside of its words: it is empty, or a blank is behind its last word.
def EndsApart (cs : List Char) : Prop :=
  cs = [] ∨ ∃ before words b, Line before words ∧ Text.isBlank b ∧ cs = before ++ [b]

-- A line that begins with a word.
def StartsWord (cs : List Char) : Prop := ∃ c rest, cs = c :: rest ∧ Text.isBlank c = false

theorem Parted.endsApart (parted : Parted cs words) : EndsApart cs := by
  have whole : ∀ {ds found}, Parted ds found → Line (ds ++ []) (found ++ []) :=
    fun before => before.line (.blank (List.forall_mem_nil _))
  simp only [List.append_nil] at whole
  cases parted with
  | start => exact .inl rfl
  | blank before blank => exact .inr ⟨_, _, _, whole before, blank, rfl⟩
  | word before word blank => exact .inr ⟨_, _, _, before.line word.line, blank, rfl⟩

theorem endsApart_iff (cs : List Char) : EndsApart cs ↔ (cs.foldl Scan.step {}).word = none := by
  constructor
  · rintro (rfl | ⟨before, words, b, line, blank, rfl⟩)
    · rfl
    · have split := splitChars?_line line
      rw [List.foldl_append, List.foldl_cons, Scan.step_blank (Scan.finish?_eq_some split).1 blank]
      rfl
  · intro closed
    exact ((Reads.run (.between .start) cs).parted closed).endsApart

-- A blank or the end of the line, where a line goes on, parts it from what was before.
theorem splitChars?_append_apart (accepted : splitChars? line = some words) (apart : ¬ StartsWord rest) :
    splitChars? (line ++ rest) = (splitChars? rest).map (words ++ ·) := by
  cases rest with
  | nil =>
    rw [List.append_nil, accepted]
    exact congrArg some (List.append_nil words).symm
  | cons b rest =>
    have blank : Text.isBlank b = true := by
      apply eq_true_of_ne_false
      intro starts
      exact apart ⟨b, rest, rfl, starts⟩
    have skipped := splitChars?_blanks_append (List.forall_mem_singleton.mpr blank) rest
    rw [splitChars?_append_blank accepted blank, ← skipped, List.singleton_append]

-- Behind a continued line the scan is at a word, an empty one if it was at none before.
theorem foldl_continued (bare : s.quoting = .bare) : ['\\', '\n'].foldl Scan.step s = s.push .bare [] :=
  spells_piece .continued s bare

section

variable {line : List Char} {words : List (List Char)} (accepted : splitChars? line = some words)
include accepted

theorem splitChars?_continued : EndsApart line → splitChars? (line ++ ['\\', '\n']) = some (words ++ [[]]) := by
  intro apart
  rw [endsApart_iff] at apart
  unfold splitChars? at accepted ⊢
  obtain ⟨bare, rfl⟩ := Scan.finish?_eq_some accepted
  rw [List.foldl_append, foldl_continued bare]
  simp [Scan.finish?, Scan.push, apart]

theorem splitChars?_continued_apart (apart : EndsApart line) (ends : ¬ StartsWord rest) :
    splitChars? (line ++ ['\\', '\n'] ++ rest) = (splitChars? rest).map (words ++ [] :: ·) := by
  rw [splitChars?_append_apart (splitChars?_continued accepted apart) ends]
  simp only [List.append_assoc, List.singleton_append]

theorem splitChars?_continued_inside (inside : ¬ EndsApart line ∨ StartsWord rest) :
    splitChars? (line ++ ['\\', '\n'] ++ rest) = splitChars? (line ++ rest) := by
  have bare : (line.foldl Scan.step {}).quoting = .bare := (Scan.finish?_eq_some accepted).1
  rw [endsApart_iff] at inside
  unfold splitChars?
  rw [List.foldl_append, List.foldl_append, foldl_continued bare, List.foldl_append]
  generalize line.foldl Scan.step {} = s at bare inside
  rcases inside with inside | ⟨c, rest, rfl, starts⟩
  · have same : s.push .bare [] = s := by
      obtain ⟨quoting, word, read⟩ := s
      obtain ⟨word, rfl⟩ := Option.ne_none_iff_exists'.mp inside
      simp only [Scan.push, Option.getD_some, List.append_nil, Scan.mk.injEq, and_true]
      exact bare.symm
    rw [same]
  · have same : (s.push .bare []).step c = s.step c := by
      simp [Scan.step, Scan.push, Scan.enter, bare, starts]
    rw [List.foldl_cons, List.foldl_cons, same]

theorem splitChars?_continued_iff (rest : List Char) :
    splitChars? (line ++ ['\\', '\n'] ++ rest) = splitChars? (line ++ rest) ↔
      ¬ EndsApart line ∨ StartsWord rest ∨ splitChars? rest = none := by
  by_cases inside : ¬ EndsApart line ∨ StartsWord rest
  · have same := splitChars?_continued_inside accepted inside
    rcases inside with inside | starts
    · simp only [same, inside, not_false_eq_true, true_or]
    · simp only [same, starts, true_or, or_true]
  · rw [not_or, not_not] at inside
    obtain ⟨apart, ends⟩ := inside
    rw [splitChars?_continued_apart accepted apart ends, splitChars?_append_apart accepted ends]
    cases splitChars? rest with
    | none => simp
    | some more =>
      -- There is one more word than without the break.
      have longer : words ++ [] :: more ≠ words ++ more := by
        intro same
        have lengths := congrArg List.length same
        simp at lengths
      simp [apart, ends, longer]

end

-- Where a line is continued between words, there is one more, and nowhere else.
theorem splitWords?_continued {line : String} (accepted : splitWords? line = some words) (rest : String) :
    (splitWords? (line ++ "\\\n" ++ rest) = splitWords? (line ++ rest) ↔
        ¬ EndsApart line.toList ∨ StartsWord rest.toList ∨ splitWords? rest = none) ∧
      (EndsApart line.toList → ¬ StartsWord rest.toList →
        splitWords? (line ++ "\\\n" ++ rest) = (splitWords? rest).map (words ++ "" :: ·)) := by
  have split := splitWords?_eq_some_iff.mp accepted
  have spelled : (line ++ "\\\n" ++ rest).toList = line.toList ++ ['\\', '\n'] ++ rest.toList := by simp
  have injective : Function.Injective (Option.map (List.map String.ofList)) :=
    Option.map_injective (List.map_injective_iff.mpr fun _ _ => String.ofList_injective)
  constructor
  · unfold splitWords?
    rw [injective.eq_iff, spelled, String.toList_append, Option.map_eq_none_iff]
    exact splitChars?_continued_iff split rest.toList
  · intro apart ends
    unfold splitWords?
    rw [spelled, splitChars?_continued_apart split apart ends, Option.map_map, Option.map_map]
    congr 1
    funext more
    simp

theorem splitWords?_continued_between :
    splitWords? "run " = some ["run"] ∧ EndsApart "run ".toList ∧ ¬ StartsWord " fast".toList ∧
      splitWords? ("run " ++ "\\\n" ++ " fast") = some ["run", "", "fast"] := by
  have accepted : splitWords? "run " = some ["run"] := by decide
  have apart : EndsApart "run ".toList := by
    rw [endsApart_iff]
    decide
  have ends : ¬ StartsWord " fast".toList := by
    rintro ⟨c, rest, same, starts⟩
    cases same
    revert starts
    decide
  have more : splitWords? " fast" = some ["fast"] := by decide
  have between := (splitWords?_continued accepted " fast").2 apart ends
  rw [more] at between
  exact ⟨accepted, apart, ends, between⟩

-- A continued line is not always read as if it went on on the same line.
theorem continued_line_differs : splitWords? "run " ≠ none ∧
    splitWords? ("run " ++ "\\\n" ++ " fast") ≠ splitWords? ("run " ++ " fast") := by
  decide

end ContainerRecipe.Shell
