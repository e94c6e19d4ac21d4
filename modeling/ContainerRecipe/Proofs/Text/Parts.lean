import ContainerRecipe.Text.Lines
import ContainerRecipe.Text.Parts
import Mathlib.Data.List.Infix
import Mathlib.Data.List.TakeWhile

namespace ContainerRecipe.Text

section

theorem not_mem_intercalate {c : Char} {separator : String} (apart : c ∉ separator.toList)
    {parts : List String} (free : ∀ part ∈ parts, c ∉ part.toList) :
    c ∉ (separator.intercalate parts).toList := by
  induction parts with
  | nil => exact List.not_mem_nil
  | cons first rest ih =>
    obtain ⟨here, others⟩ := List.forall_mem_cons.mp free
    cases rest with
    | nil => simpa using here
    | cons next more =>
      rw [String.intercalate_cons_cons, String.toList_append, String.toList_append]
      simp only [List.mem_append, not_or]
      exact ⟨⟨here, apart⟩, ih others⟩

theorem mem_dropTrailing {mark c : Char} (member : c ∈ (dropTrailing mark s).toList) : c ∈ s.toList := by
  unfold dropTrailing at member
  rw [String.toList_ofList, List.mem_reverse] at member
  exact List.mem_reverse.mp ((List.dropWhile_sublist _).subset member)

-- A text is what is left of it without the marks it ends in, and these marks.
theorem dropTrailing_append (mark : Char) (s : String) :
    ∃ n, s = dropTrailing mark s ++ String.ofList (List.replicate n mark) := by
  have whole := List.takeWhile_append_dropWhile (p := (· == mark)) (l := s.toList.reverse)
  have marks : ∀ c ∈ s.toList.reverse.takeWhile (· == mark), c = mark := fun c member =>
    eq_of_beq (List.all_eq_true.mp List.all_takeWhile c member)
  refine ⟨(s.toList.reverse.takeWhile (· == mark)).length, ?_⟩
  rw [← String.toList_inj, String.toList_append, dropTrailing, String.toList_ofList, String.toList_ofList,
    ← List.reverse_replicate, ← List.eq_replicate_iff.mpr ⟨rfl, marks⟩, ← List.reverse_append, whole,
    List.reverse_reverse]

theorem cutFirst?_of_parts {mark : Char} {before : List Char} (apart : mark ∉ before) (after : List Char) :
    cutFirst? mark (before ++ mark :: after) = some (before, after) := by
  have passed : ∀ c ∈ before, (c != mark) = true := fun c member =>
    bne_iff_ne.mpr fun same => apart (same ▸ member)
  unfold cutFirst?
  rw [List.span_eq_takeWhile_dropWhile, List.takeWhile_append_of_pos passed, List.dropWhile_append_of_pos passed]
  simp

theorem cutFirst?_eq_none_iff {mark : Char} {cs : List Char} : cutFirst? mark cs = none ↔ mark ∉ cs := by
  constructor
  · intro uncut present
    obtain ⟨before, after, rfl, apart⟩ := List.eq_append_cons_of_mem present
    rw [cutFirst?_of_parts apart] at uncut
    cases uncut
  · intro absent
    have passed : ∀ c ∈ cs, (c != mark) = true := fun c member =>
      bne_iff_ne.mpr fun same => absent (same ▸ member)
    unfold cutFirst?
    rw [List.span_eq_takeWhile_dropWhile, List.dropWhile_eq_nil_iff.mpr passed]

theorem cutFirst?_eq_some_iff {mark : Char} {cs before after : List Char} :
    cutFirst? mark cs = some (before, after) ↔ cs = before ++ mark :: after ∧ mark ∉ before := by
  constructor
  · intro cut
    by_cases present : mark ∈ cs
    · obtain ⟨front, back, rfl, apart⟩ := List.eq_append_cons_of_mem present
      rw [cutFirst?_of_parts apart] at cut
      cases cut
      exact ⟨rfl, apart⟩
    · rw [cutFirst?_eq_none_iff.mpr present] at cut
      cases cut
  · rintro ⟨rfl, apart⟩
    exact cutFirst?_of_parts apart after

theorem cutLast?_eq_none_iff {mark : Char} {cs : List Char} : cutLast? mark cs = none ↔ mark ∉ cs := by
  rw [cutLast?, Option.map_eq_none_iff, cutFirst?_eq_none_iff, List.mem_reverse]

theorem cutLast?_eq_some_iff {mark : Char} {cs before after : List Char} :
    cutLast? mark cs = some (before, after) ↔ cs = before ++ mark :: after ∧ mark ∉ after := by
  constructor
  · intro cut
    obtain ⟨⟨last, front⟩, first, parts⟩ := Option.map_eq_some_iff.mp cut
    cases parts
    obtain ⟨backwards, apart⟩ := cutFirst?_eq_some_iff.mp first
    rw [← List.reverse_reverse cs, backwards]
    simpa using apart
  · rintro ⟨rfl, apart⟩
    have backwards : (before ++ mark :: after).reverse = after.reverse ++ mark :: before.reverse := by simp
    rw [cutLast?, backwards, cutFirst?_of_parts (mt List.mem_reverse.mp apart)]
    simp

-- The part after the last mark, with what is before it.
theorem afterLast_cases (mark : Char) (s : String) : mark ∉ (afterLast mark s).toList ∧
    (afterLast mark s = s ∨ ∃ before, s.toList = before ++ mark :: (afterLast mark s).toList) := by
  unfold afterLast
  split
  · rename_i before after cut
    obtain ⟨whole, apart⟩ := cutLast?_eq_some_iff.mp cut
    rw [String.toList_ofList]
    exact ⟨apart, .inr ⟨before, whole⟩⟩
  · rename_i uncut
    exact ⟨cutLast?_eq_none_iff.mp uncut, .inl rfl⟩

theorem afterLast_of_parts {mark : Char} {before after : List Char} (whole : s.toList = before ++ mark :: after)
    (apart : mark ∉ after) : afterLast mark s = String.ofList after := by
  unfold afterLast
  rw [cutLast?_eq_some_iff.mpr ⟨whole, apart⟩]

theorem dropEnding?_eq_some_iff {ending s stem : String} : dropEnding? ending s = some stem ↔ s = stem ++ ending := by
  unfold dropEnding?
  rw [Option.map_eq_some_iff]
  constructor
  · rintro ⟨cs, cut, rfl⟩
    rw [← String.toList_inj, String.toList_append, String.toList_ofList]
    exact (List.isSuffixOf?_eq_some_iff_append_eq.mp cut).symm
  · rintro rfl
    exact ⟨stem.toList, List.isSuffixOf?_eq_some_iff_append_eq.mpr String.toList_append.symm, String.ofList_toList⟩

-- An ending without the mark is one of the whole text exactly if it is one of its last part.
theorem suffix_afterLast_iff {mark : Char} {ending : List Char} (apart : mark ∉ ending) (s : String) :
    ending <:+ (afterLast mark s).toList ↔ ending <:+ s.toList := by
  obtain ⟨-, same | ⟨before, whole⟩⟩ := afterLast_cases mark s
  · rw [same]
  · constructor
    · intro ends
      rw [whole]
      exact (ends.trans (List.suffix_cons _ _)).trans (List.suffix_append _ _)
    · intro ends
      have last : (afterLast mark s).toList <:+ s.toList :=
        whole ▸ (List.suffix_cons _ _).trans (List.suffix_append _ _)
      have marked : mark :: (afterLast mark s).toList <:+ s.toList := whole ▸ List.suffix_append _ _
      -- A longer ending would have the mark in it.
      refine List.suffix_of_suffix_length_le ends last (Nat.le_of_not_lt fun long => apart ?_)
      exact (List.suffix_of_suffix_length_le marked ends long).subset List.mem_cons_self

theorem splitOn_append_cons (mark : Char) (front back : List Char) :
    (front ++ mark :: back).splitOn mark = front.splitOn mark ++ back.splitOn mark := by
  simp only [List.splitOn_eq_splitOnP]
  exact List.splitOnP_append_cons _ _ (beq_self_eq_true _)

end

section

-- A text read line by line. A carriage return at the end of a line is part of the line break, and what is
-- behind the last line break is a line if there is anything.
inductive Lined : List Char → List (List Char) → Prop where
  | none : Lined [] []
  | last (single : '\n' ∉ line) (given : line ≠ []) : Lined line [line]
  | feed (single : '\n' ∉ line) (plain : line.getLast? ≠ some '\r') (rest : Lined cs ls) :
      Lined (line ++ '\n' :: cs) (line :: ls)
  | returned (single : '\n' ∉ line) (rest : Lined cs ls) : Lined (line ++ '\r' :: '\n' :: cs) (line :: ls)

theorem Lined.single (lined : Lined cs ls) : ∀ line ∈ ls, '\n' ∉ line := by
  induction lined with
  | none => exact List.forall_mem_nil _
  | last single => exact List.forall_mem_singleton.mpr single
  | feed single _ _ ih | returned single _ ih => exact List.forall_mem_cons.mpr ⟨single, ih⟩

theorem Lined.eq_nil_iff (lined : Lined cs ls) : ls = [] ↔ cs = [] := by
  cases lined with
  | none => simp
  | last single given => simp [given]
  | feed | returned => simp

-- What is before the first line feed is a line, whether there is a carriage return or not.
theorem exists_lined (cs : List Char) : ∃ ls, Lined cs ls := by
  by_cases feed : '\n' ∈ cs
  · obtain ⟨line, rest, whole, single⟩ := List.eq_append_cons_of_mem feed
    have shorter : rest.length < cs.length := by
      rw [whole, List.length_append, List.length_cons]
      omega
    obtain ⟨ls, lined⟩ := exists_lined rest
    rw [whole]
    by_cases returned : line.getLast? = some '\r'
    · obtain ⟨front, rfl⟩ := List.getLast?_eq_some_iff.mp returned
      rw [List.append_assoc]
      exact ⟨_, .returned (fun inside => single (List.mem_append_left _ inside)) lined⟩
    · exact ⟨_, .feed single returned lined⟩
  · by_cases given : cs = []
    · exact ⟨[], given ▸ .none⟩
    · exact ⟨_, .last feed given⟩
termination_by cs.length

theorem lineChars_feed (single : '\n' ∉ line) (cs : List Char) :
    lineChars (line ++ '\n' :: cs) = dropReturn line :: lineChars cs := by
  have some := List.splitOn_ne_nil '\n' cs
  unfold lineChars
  dsimp only
  rw [splitOn_append_cons, List.splitOn_eq_singleton single, List.singleton_append,
    List.dropLast_cons_of_ne_nil some, List.getLast?_cons_of_ne_nil some]
  rfl

theorem Lined.split (lined : Lined cs ls) : lineChars cs = ls := by
  induction lined with
  | none => rfl
  | last single given =>
    unfold lineChars
    rw [List.splitOn_eq_singleton single]
    simp [given]
  | feed single plain _ ih => rw [lineChars_feed single, ih, dropReturn, if_neg plain]
  | returned single _ ih =>
    rw [List.append_cons, lineChars_feed (by simpa using single), ih, dropReturn, if_pos (by simp),
      List.dropLast_concat]

theorem lineChars_eq_iff : lineChars cs = ls ↔ Lined cs ls := by
  constructor
  · rintro rfl
    obtain ⟨ls, lined⟩ := exists_lined cs
    rwa [lined.split]
  · exact Lined.split

theorem newline_not_mem_lines (member : line ∈ lines s) : '\n' ∉ line.toList := by
  obtain ⟨cs, given, rfl⟩ := List.mem_map.mp member
  rw [String.toList_ofList]
  exact (lineChars_eq_iff.mp rfl).single cs given

-- A text has a line unless it is empty.
theorem lines_ne_nil (given : s ≠ "") : lines s ≠ [] := by
  intro nothing
  have empty := (lineChars_eq_iff.mp rfl).eq_nil_iff.mp (List.map_eq_nil_iff.mp nothing)
  exact given (String.toList_eq_nil_iff.mp empty)

theorem lines_of_single (single : '\n' ∉ line.toList) (given : line ≠ "") : lines line = [line] := by
  have lined := Lined.last single (mt String.toList_eq_nil_iff.mp given)
  rw [lines, lined.split, List.map_singleton, String.ofList_toList]

end

end ContainerRecipe.Text
