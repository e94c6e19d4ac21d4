import ContainerRecipe.Text.Blank
import Mathlib.Data.List.Basic

namespace ContainerRecipe.Text

structure IsWord (w : List Char) : Prop where
  given : w ≠ []
  solid : ∀ c ∈ w, isBlank c = false

-- A text read from its beginning, with the words that are in it.
inductive Worded : List Char → List (List Char) → Prop where
  | none : Worded [] []
  | blank (blank : isBlank c = true) (rest : Worded cs ws) : Worded (c :: cs) ws
  | word (word : IsWord w) (ends : ∀ c ∈ cs.head?, isBlank c = true) (rest : Worded cs ws) :
      Worded (w ++ cs) (w :: ws)

theorem Worded.isWord (worded : Worded cs ws) : ∀ w ∈ ws, IsWord w := by
  induction worded with
  | none => exact List.forall_mem_nil _
  | blank _ _ ih => exact ih
  | word word _ _ ih => exact List.forall_mem_cons.mpr ⟨word, ih⟩

theorem Worded.eq_nil_iff (worded : Worded cs ws) : ws = [] ↔ ∀ c ∈ cs, isBlank c = true := by
  induction worded with
  | none => simp
  | blank blank _ ih => rw [List.forall_mem_cons, ih, and_iff_right blank]
  | word word _ _ _ =>
    refine iff_of_false (List.cons_ne_nil _ _) fun blanks => ?_
    obtain ⟨c, rest, rfl⟩ := List.exists_cons_of_ne_nil word.given
    have solid := word.solid c List.mem_cons_self
    rw [blanks c (List.mem_append_left _ List.mem_cons_self)] at solid
    cases solid

-- A character in front is a blank, or begins the first word, or is a word of its own.
theorem exists_worded (cs : List Char) : ∃ ws, Worded cs ws := by
  induction cs with
  | nil => exact ⟨[], .none⟩
  | cons c cs ih =>
    obtain ⟨ws, rest⟩ := ih
    by_cases blank : isBlank c = true
    · exact ⟨ws, .blank blank rest⟩
    · have solid : isBlank c = false := eq_false_of_ne_true blank
      have single : IsWord [c] := ⟨List.cons_ne_nil _ _, List.forall_mem_singleton.mpr solid⟩
      cases rest with
      | none => exact ⟨_, .word single (by simp) .none⟩
      | blank next rest => exact ⟨_, .word single (by simpa using next) (.blank next rest)⟩
      | word word ends rest =>
        have longer : IsWord (c :: _) := ⟨List.cons_ne_nil _ _, List.forall_mem_cons.mpr ⟨solid, word.solid⟩⟩
        exact ⟨_, .word longer ends rest⟩

theorem wordChars_append_blank (blank : isBlank c = true) (front back : List Char) :
    wordChars (front ++ c :: back) = wordChars front ++ wordChars back := by
  unfold wordChars
  rw [List.splitOnP_append_cons _ _ blank, List.filter_append]

theorem wordChars_word (word : IsWord w) : wordChars w = [w] := by
  unfold wordChars
  rw [List.splitOnP_eq_singleton word.solid, List.filter_eq_self]
  simpa using word.given

theorem Worded.split (worded : Worded cs ws) : wordChars cs = ws := by
  induction worded with
  | none => simp [wordChars]
  | blank blank _ ih => exact (wordChars_append_blank blank [] _).trans ih
  | @word w cs ws word ends _ ih =>
    cases cs with
    | nil =>
      rw [List.append_nil, wordChars_word word, ← ih]
      simp [wordChars]
    | cons b cs =>
      have skipped := wordChars_append_blank (ends b rfl) [] cs
      rw [List.nil_append] at skipped
      rw [wordChars_append_blank (ends b rfl), wordChars_word word, ← ih, skipped]
      rfl

theorem wordChars_eq_iff : wordChars cs = ws ↔ Worded cs ws := by
  constructor
  · rintro rfl
    obtain ⟨ws, worded⟩ := exists_worded cs
    rwa [worded.split]
  · exact Worded.split

theorem words_eq_iff {s : String} {ws : List String} : words s = ws ↔ Worded s.toList (ws.map String.toList) := by
  rw [← wordChars_eq_iff, words]
  constructor
  · rintro rfl
    simp
  · intro same
    simp [same]

theorem isWord_of_mem_words {s w : String} (member : w ∈ words s) : IsWord w.toList :=
  (words_eq_iff.mp rfl).isWord _ (List.mem_map_of_mem member)

-- Words with single spaces between them.
theorem worded_intercalate (isWord : ∀ w ∈ ws, IsWord w) : Worded ([' '].intercalate ws) ws := by
  induction ws with
  | nil => exact .none
  | cons w rest ih =>
    obtain ⟨first, others⟩ := List.forall_mem_cons.mp isWord
    cases rest with
    | nil => simpa using Worded.word first (by simp) .none
    | cons next more =>
      rw [List.intercalate_cons_cons, List.append_assoc]
      exact .word first (by simp; decide) (.blank (by decide) (ih others))

end ContainerRecipe.Text
