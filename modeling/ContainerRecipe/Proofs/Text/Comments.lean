import ContainerRecipe.Proofs.Text.Filling
import ContainerRecipe.Proofs.Text.Parts

namespace ContainerRecipe.Text

-- A line of a comment without its mark, to which a space behind it belongs unless it stands alone.
def unmarked : List Char → List Char
  | '#' :: ' ' :: rest => rest
  | ['#'] => []
  | line => line

-- A text that is parted into comment lines by its line feeds, with what these lines say.
structure Comments (text : String) (said : List (List Char)) : Prop where
  marked : ∀ line ∈ text.toList.splitOn '\n', ['#'] <+: line
  said : (text.toList.splitOn '\n').map unmarked = said

theorem Comments.nonempty (comments : Comments text ls) : text ≠ "" := by
  rintro rfl
  have nothing : ['#'] <+: [] := comments.marked [] (by simp)
  exact List.cons_ne_nil _ _ (List.prefix_nil.mp nothing)

-- Lines that are comments each are one comment when they are put together.
theorem comments_joined {α : Type} {xs : List α} (given : xs ≠ []) (write : α → String) (say : α → List Char)
    (single : ∀ x ∈ xs, '\n' ∉ (write x).toList)
    (each : ∀ x ∈ xs, ['#'] <+: (write x).toList ∧ unmarked (write x).toList = say x) :
    Comments ("\n".intercalate (xs.map write)) (xs.map say) := by
  have whole : ("\n".intercalate (xs.map write)).toList.splitOn '\n' = xs.map fun x => (write x).toList := by
    have joined : ("\n".intercalate (xs.map write)).toList = ['\n'].intercalate (xs.map fun x => (write x).toList) := by
      rw [String.toList_intercalate, List.map_map]
      rfl
    rw [joined, List.splitOn_intercalate]
    · exact List.forall_mem_map.mpr single
    · simpa using given
  refine ⟨?_, ?_⟩
  · rw [whole]
    exact List.forall_mem_map.mpr fun x member => (each x member).1
  · rw [whole, List.map_map]
    exact List.map_congr_left fun x member => (each x member).2

theorem marked_unmarked (line : String) :
    ['#'] <+: ("# " ++ line).toList ∧ unmarked ("# " ++ line).toList = line.toList := by
  have spelled : ("# " ++ line).toList = '#' :: ' ' :: line.toList := String.toList_append
  rw [spelled]
  exact ⟨List.prefix_append ['#'] _, rfl⟩

theorem marked_unmarked_commentLine (line : String) :
    ['#'] <+: (commentLine line).toList ∧ unmarked (commentLine line).toList = line.toList := by
  unfold commentLine
  split
  · rename_i empty
    rw [empty]
    decide
  · exact marked_unmarked line

theorem newline_not_mem_commentLine (single : '\n' ∉ line.toList) : '\n' ∉ (commentLine line).toList := by
  unfold commentLine
  split
  · decide
  · rw [String.toList_append, List.mem_append, not_or]
    exact ⟨by decide, single⟩

theorem newline_not_mem_lineOf (apart : '\n' ∉ lead.toList) (isWord : ∀ w ∈ line, IsWord w.toList) :
    '\n' ∉ (lineOf lead line).toList := by
  have free : '\n' ∉ (" ".intercalate line).toList := by
    refine not_mem_intercalate (by decide) fun w member inside => ?_
    have solid := (isWord w member).solid '\n' inside
    cases solid
  rw [lineOf, String.toList_append, List.mem_append, not_or]
  exact ⟨apart, free⟩

section

variable {s : String} (visible : isBlankText s = false)
include visible

theorem comment_lines : Comments (comment s false) (lineChars s.toList) := by
  have given : lines s ≠ [] := by
    apply lines_ne_nil
    rintro rfl
    cases visible
  have said : lineChars s.toList = (lines s).map String.toList := by simp [lines]
  have text : comment s false = "\n".intercalate ((lines s).map commentLine) := by simp [comment, visible]
  rw [text, said]
  refine comments_joined given commentLine String.toList ?_ fun line _ => marked_unmarked_commentLine line
  exact fun line member => newline_not_mem_commentLine (newline_not_mem_lines member)

theorem comment_words : ∃ said parts, Comments (comment s true) said ∧ List.Forall₂ Worded said parts ∧
    Worded s.toList parts.flatten := by
  obtain ⟨filling, whole, filled⟩ := exists_filled commentWidth "# " (words s)
  have isWord : ∀ line ∈ filling, ∀ w ∈ line, IsWord w.toList := by
    intro line member w among
    apply isWord_of_mem_words (s := s)
    rw [← whole]
    exact List.mem_flatten.mpr ⟨line, member, among⟩
  have worded : Worded s.toList (filling.map (·.map String.toList)).flatten := by
    rw [← List.map_flatten]
    exact words_eq_iff.mp whole.symm
  have given : filling ≠ [] := by
    rintro rfl
    have blanks := worded.eq_nil_iff.mp rfl
    rw [isBlankText, List.all_eq_true.mpr blanks] at visible
    cases visible
  have text : comment s true = "\n".intercalate (filling.map (lineOf "# ")) := by
    simp [comment, visible, wrap_of_filled filled whole.symm]
  refine ⟨filling.map fun line => (" ".intercalate line).toList, filling.map (·.map String.toList), ?_, ?_, worded⟩
  · rw [text]
    refine comments_joined given (lineOf "# ") _ ?_ fun line _ => marked_unmarked (" ".intercalate line)
    exact fun line member => newline_not_mem_lineOf (by decide) (isWord line member)
  · rw [List.forall₂_map_left_iff, List.forall₂_map_right_iff, List.forall₂_same]
    intro line member
    rw [String.toList_intercalate]
    exact worded_intercalate (List.forall_mem_map.mpr (isWord line member))

end

-- A comment is empty where its text is blank. Any other one consists of comment lines, and without their marks
-- they are the lines of the text, or when it is filled again have the words of the text.
theorem comment_says (s : String) :
    (∀ reformat, comment s reformat = "" ↔ ∀ c ∈ s.toList, isBlank c = true) ∧
      (comment s false = "" ∨ ∃ said, Comments (comment s false) said ∧ Lined s.toList said) ∧
      (comment s true = "" ∨ ∃ said parts, Comments (comment s true) said ∧ List.Forall₂ Worded said parts ∧
        Worded s.toList parts.flatten) := by
  have blanks : isBlankText s = true ↔ ∀ c ∈ s.toList, isBlank c = true := List.all_eq_true
  cases visible : isBlankText s with
  | true =>
    have empty : ∀ reformat, comment s reformat = "" := fun _ => by rw [comment, if_pos visible]
    exact ⟨fun reformat => iff_of_true (empty reformat) (blanks.mp visible), .inl (empty _), .inl (empty _)⟩
  | false =>
    obtain ⟨said, parts, filled, worded⟩ := comment_words visible
    refine ⟨?_, .inr ⟨_, comment_lines visible, lineChars_eq_iff.mp rfl⟩, .inr ⟨said, parts, filled, worded⟩⟩
    intro reformat
    have some : ¬ ∀ c ∈ s.toList, isBlank c = true := by
      rw [← blanks, visible]
      exact Bool.false_ne_true
    refine iff_of_false ?_ some
    cases reformat with
    | false => exact (comment_lines visible).nonempty
    | true => exact filled.nonempty

end ContainerRecipe.Text
