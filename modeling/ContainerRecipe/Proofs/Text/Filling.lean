import ContainerRecipe.Text.Paragraph
import ContainerRecipe.Proofs.Text.Words
import Mathlib.Data.List.Chain

namespace ContainerRecipe.Text

-- The text of a line of words.
def lineOf (lead : String) (words : List String) : String := lead ++ " ".intercalate words

-- Lines of words as they are filled to a width, in bytes, behind a lead that is written on each of them.
structure Filled (width : Nat) (lead : String) (lines : List (List String)) : Prop where
  given : [] ∉ lines
  narrow : ∀ line ∈ lines, width < (lineOf lead line).utf8ByteSize → ∃ word, line = [word]
  -- The first word of a line has no room on the line before.
  full : lines.IsChain fun line next => ∀ word ∈ next.head?,
    width < (lineOf lead line).utf8ByteSize + 1 + word.utf8ByteSize

section

variable (lead : String) {line : List String}

theorem lineOf_single (word : String) : lineOf lead [word] = lead ++ word := by
  rw [lineOf, String.intercalate_singleton]

theorem lineOf_concat (given : line ≠ []) (word : String) :
    lineOf lead (line ++ [word]) = lineOf lead line ++ " " ++ word := by
  have joined : " ".intercalate (line ++ [word]) = " ".intercalate line ++ " " ++ word := by
    induction line with
    | nil => exact absurd rfl given
    | cons first rest ih =>
      cases rest with
      | nil => simp [String.intercalate_cons_cons]
      | cons next more =>
        have longer := ih (List.cons_ne_nil _ _)
        simp only [List.cons_append] at longer ⊢
        rw [String.intercalate_cons_cons, longer, String.intercalate_cons_cons]
        simp only [String.append_assoc]
  rw [lineOf, lineOf, joined]
  simp only [String.append_assoc]

theorem size_lineOf_concat (given : line ≠ []) (word : String) :
    (lineOf lead (line ++ [word])).utf8ByteSize = (lineOf lead line).utf8ByteSize + 1 + word.utf8ByteSize := by
  rw [lineOf_concat lead given, String.utf8ByteSize_append, String.utf8ByteSize_append]
  rfl

theorem size_lineOf_le_append (given : line ≠ []) (more : List String) :
    (lineOf lead line).utf8ByteSize ≤ (lineOf lead (line ++ more)).utf8ByteSize := by
  induction more generalizing line with
  | nil => rw [List.append_nil]
  | cons word more ih =>
    have longer := ih (List.append_ne_nil_of_left_ne_nil given [word])
    rw [size_lineOf_concat lead given, List.append_assoc, List.singleton_append] at longer
    omega

end

section

variable {width : Nat} {lead : String} {line : List String} {lines : List (List String)}

theorem filled_nil : Filled width lead [] := ⟨List.not_mem_nil, List.forall_mem_nil _, List.isChain_nil⟩

theorem filled_single (given : line ≠ [])
    (narrow : width < (lineOf lead line).utf8ByteSize → ∃ word, line = [word]) : Filled width lead [line] where
  given := by simpa using given.symm
  narrow := by simpa using narrow
  full := List.isChain_singleton _

theorem filled_cons_iff {word : String} {next : List String} :
    Filled width lead (line :: (word :: next) :: lines) ↔
      Filled width lead [line] ∧ width < (lineOf lead line).utf8ByteSize + 1 + word.utf8ByteSize ∧
        Filled width lead ((word :: next) :: lines) := by
  constructor
  · rintro ⟨given, narrow, full⟩
    obtain ⟨here, others⟩ := List.forall_mem_cons.mp narrow
    obtain ⟨apart, rest⟩ := List.isChain_cons_cons.mp full
    rw [List.mem_cons, not_or] at given
    exact ⟨filled_single (Ne.symm given.1) here, apart word rfl, given.2, others, rest⟩
  · rintro ⟨first, apart, given, narrow, full⟩
    refine ⟨?_, ?_, ?_⟩
    · rw [List.mem_cons, not_or]
      exact ⟨by simpa using first.given, given⟩
    · exact List.forall_mem_cons.mpr ⟨first.narrow line List.mem_cons_self, narrow⟩
    · refine List.isChain_cons_cons.mpr ⟨?_, full⟩
      rintro _ ⟨⟩
      exact apart

-- A line that is begun can be filled up and followed by others so that the words to come are all laid out.
theorem exists_filled_from (begun : line ≠ [])
    (narrow : width < (lineOf lead line).utf8ByteSize → ∃ word, line = [word]) (rest : List String) :
    ∃ more lines, rest = more ++ lines.flatten ∧ Filled width lead ((line ++ more) :: lines) := by
  induction rest generalizing line with
  | nil =>
    refine ⟨[], [], rfl, ?_⟩
    rw [List.append_nil]
    exact filled_single begun narrow
  | cons word rest ih =>
    by_cases fits : (lineOf lead line).utf8ByteSize + 1 + word.utf8ByteSize ≤ width
    · have longer : (lineOf lead (line ++ [word])).utf8ByteSize ≤ width :=
        (size_lineOf_concat lead begun word).trans_le fits
      obtain ⟨more, lines, rfl, filled⟩ :=
        ih (List.append_ne_nil_of_left_ne_nil begun [word]) fun wide => absurd longer (Nat.not_le_of_lt wide)
      rw [List.append_assoc] at filled
      exact ⟨word :: more, lines, rfl, filled⟩
    · obtain ⟨more, lines, rfl, filled⟩ := ih (List.cons_ne_nil word []) fun _ => ⟨word, rfl⟩
      refine ⟨[], (word :: more) :: lines, rfl, ?_⟩
      rw [List.append_nil]
      exact filled_cons_iff.mpr ⟨filled_single begun narrow, Nat.lt_of_not_le fits, filled⟩

theorem exists_filled (width : Nat) (lead : String) (words : List String) :
    ∃ lines, lines.flatten = words ∧ Filled width lead lines := by
  cases words with
  | nil => exact ⟨[], rfl, filled_nil⟩
  | cons word rest =>
    obtain ⟨more, lines, rfl, filled⟩ := exists_filled_from (List.cons_ne_nil word []) (fun _ => ⟨word, rfl⟩) rest
    exact ⟨(word :: more) :: lines, rfl, filled⟩

-- A word that is not the first of its line has room behind those before it.
theorem Filled.room {word : String} {more : List String} (begun : line ≠ [])
    (filled : Filled width lead ((line ++ word :: more) :: lines)) :
    (lineOf lead line).utf8ByteSize + 1 + word.utf8ByteSize ≤ width := by
  have several : (lineOf lead (line ++ word :: more)).utf8ByteSize ≤ width := by
    refine Nat.le_of_not_lt fun wide => ?_
    obtain ⟨single, alone⟩ := filled.narrow _ List.mem_cons_self wide
    have count := congrArg List.length alone
    have some := List.length_pos_iff.mpr begun
    simp only [List.length_append, List.length_cons, List.length_nil] at count
    omega
  have fewer := size_lineOf_le_append lead (List.append_ne_nil_of_left_ne_nil begun [word]) more
  rw [size_lineOf_concat lead begun, List.append_assoc, List.singleton_append] at fewer
  exact fewer.trans several

-- The words that are still to come on a line are all put on it.
theorem fillFrom_line {more : List String} (begun : line ≠ [])
    (filled : Filled width lead ((line ++ more) :: lines)) (rest : List String) :
    fillFrom width lead (lineOf lead line) (more ++ rest) = fillFrom width lead (lineOf lead (line ++ more)) rest := by
  induction more generalizing line with
  | nil => rw [List.nil_append, List.append_nil]
  | cons word more ih =>
    rw [List.cons_append, fillFrom, if_pos (filled.room begun), ← lineOf_concat lead begun]
    rw [List.append_cons line word more] at filled ⊢
    exact ih (by simp) filled

-- Where a line is full in a filling, a run through the words goes on to the next line.
theorem fillFrom_of_filled {word : String} {more : List String}
    (filled : Filled width lead ((word :: more) :: lines)) :
    fillFrom width lead (lead ++ word) (more ++ lines.flatten) =
      ((word :: more) :: lines).map (lineOf lead) := by
  induction lines generalizing word more with
  | nil =>
    rw [← lineOf_single, fillFrom_line (List.cons_ne_nil word []) filled]
    rfl
  | cons next lines ih =>
    cases next with
    | nil => exact absurd (List.mem_cons_of_mem _ List.mem_cons_self) filled.given
    | cons first others =>
      obtain ⟨-, full, rest⟩ := filled_cons_iff.mp filled
      rw [← lineOf_single, fillFrom_line (List.cons_ne_nil word []) filled]
      simp only [List.flatten_cons, List.cons_append, List.nil_append]
      rw [fillFrom, if_neg (Nat.not_le_of_lt full), ih rest]
      rfl

theorem wrap_of_filled {s : String} (filled : Filled width lead lines) (whole : words s = lines.flatten) :
    wrap s width lead = lines.map (lineOf lead) := by
  unfold wrap
  rw [whole]
  cases lines with
  | nil => rfl
  | cons line lines =>
    cases line with
    | nil => exact absurd List.mem_cons_self filled.given
    | cons word more => exact fillFrom_of_filled filled

-- The lines that a text is wrapped to are those of a filling of its words, the only one that they have.
theorem wrap_eq_iff (s : String) (width : Nat) (lead : String) (out : List String) :
    wrap s width lead = out ↔ ∃ lines, Worded s.toList (lines.flatten.map String.toList) ∧
      Filled width lead lines ∧ out = lines.map (lineOf lead) := by
  constructor
  · rintro rfl
    obtain ⟨lines, whole, filled⟩ := exists_filled width lead (words s)
    exact ⟨lines, words_eq_iff.mp whole.symm, filled, wrap_of_filled filled whole.symm⟩
  · rintro ⟨lines, worded, filled, rfl⟩
    exact wrap_of_filled filled (words_eq_iff.mpr worded)

-- A word that is wider than the line stands on a line of its own.
example : wrap "aa bb cccccc d" 7 "# " = ["# aa bb", "# cccccc", "# d"] := by decide

end

end ContainerRecipe.Text
