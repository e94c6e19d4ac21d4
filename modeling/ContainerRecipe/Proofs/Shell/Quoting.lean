import ContainerRecipe.Toolchain
import Mathlib.Data.List.Forall2

namespace ContainerRecipe

namespace Shell

namespace Scan

-- Words that were read before have no say in how a scan goes on.
def after (earlier : List (List Char)) (s : Scan) : Scan := { s with words := earlier ++ s.words }

theorem step_after (earlier : List (List Char)) (s : Scan) (c : Char) :
    (s.after earlier).step c = (s.step c).after earlier := by
  obtain ⟨quoting, word, read⟩ := s
  cases quoting with
  | bare =>
    simp only [step, after]
    split
    · simp [close]
    · repeat' split
      all_goals rfl
  | single | double | escaped | doubleEscaped =>
    simp only [step, after]
    repeat' split
    all_goals rfl

theorem foldl_step_after (earlier : List (List Char)) (s : Scan) (cs : List Char) :
    cs.foldl step (s.after earlier) = (cs.foldl step s).after earlier := by
  induction cs generalizing s with
  | nil => rfl
  | cons c cs ih => rw [List.foldl_cons, List.foldl_cons, step_after, ih]

theorem finish?_after (earlier : List (List Char)) (s : Scan) :
    (s.after earlier).finish? = s.finish?.map (earlier ++ ·) := by
  simp only [finish?, after]
  split
  · rename_i bare
    simp [bare]
  · rename_i quoted
    simp [quoted]

theorem finish?_eq_some {s : Scan} (finished : s.finish? = some found) :
    s.quoting = .bare ∧ found = s.words ++ s.word.toList := by
  unfold finish? at finished
  split at finished
  · rename_i bare
    exact ⟨bare, (Option.some.inj finished).symm⟩
  · cases finished

theorem step_blank {s : Scan} (bare : s.quoting = .bare) (blank : Text.isBlank c = true) :
    s.step c = s.close := by
  simp only [step, bare, blank, if_true]

theorem push_push (s : Scan) (first second : Quoting) (u v : List Char) :
    (s.push first u).push second v = s.push second (u ++ v) := by
  simp [push]

end Scan

-- A blank outside quotes parts a line in two.
theorem splitChars?_append_blank {line : List Char} (accepted : splitChars? line = some words)
    (blank : Text.isBlank c = true) (rest : List Char) :
    splitChars? (line ++ c :: rest) = (splitChars? rest).map (words ++ ·) := by
  unfold splitChars? at accepted ⊢
  obtain ⟨bare, rfl⟩ := Scan.finish?_eq_some accepted
  have parted : (line.foldl Scan.step {}).step c =
      ({} : Scan).after ((line.foldl Scan.step {}).words ++ (line.foldl Scan.step {}).word.toList) := by
    rw [Scan.step_blank bare blank]
    simp [Scan.after, Scan.close, bare]
  rw [List.foldl_append, List.foldl_cons, parted, Scan.foldl_step_after, Scan.finish?_after]

-- Characters that a scanner outside quotes takes as those of a text.
def Spells (cs word : List Char) : Prop :=
  ∀ s : Scan, s.quoting = .bare → cs.foldl Scan.step s = s.push .bare word

theorem Spells.append (first : Spells cs u) (second : Spells ds v) : Spells (cs ++ ds) (u ++ v) := by
  intro s bare
  rw [List.foldl_append, first s bare, second _ rfl, Scan.push_push]

-- Such characters alone are one word.
theorem Spells.splitChars? (spells : Spells cs word) : Shell.splitChars? cs = some [word] := by
  unfold Shell.splitChars?
  rw [spells {} rfl]
  rfl

theorem splitChars?_intercalate (spelled : List.Forall₂ Spells parts words) :
    splitChars? ([' '].intercalate parts) = some words := by
  induction spelled with
  | nil => rfl
  | @cons cs word rest words here others ih =>
    cases rest with
    | nil =>
      cases others
      rw [List.intercalate_singleton]
      exact here.splitChars?
    | cons next rest =>
      rw [List.intercalate_cons_cons, List.append_assoc, List.singleton_append,
        splitChars?_append_blank here.splitChars? rfl, ih]
      rfl

-- A character that stands for itself outside of quotes.
def Bare (c : Char) : Prop := Text.isBlank c = false ∧ c ≠ '\'' ∧ c ≠ '"' ∧ c ≠ '\\'

instance : DecidablePred Bare := fun _ => inferInstanceAs (Decidable (_ ∧ _))

theorem bare_of_isLiteral (literal : isLiteral c = true) : Bare c := by
  rcases Bool.or_eq_true_iff.mp literal with letter | mark
  · have ranges : 48 ≤ c.toNat ∧ c.toNat ≤ 57 ∨ 65 ≤ c.toNat ∧ c.toNat ≤ 90 ∨
        97 ≤ c.toNat ∧ c.toNat ≤ 122 := by
      have shape : c.isAlphanum = ((decide (65 ≤ c.val ∧ c.val ≤ 90) || 97 ≤ c.val && c.val ≤ 122) ||
        48 ≤ c.val && c.val ≤ 57) := rfl
      rw [shape] at letter
      simp only [Bool.or_eq_true, Bool.and_eq_true, decide_eq_true_eq, UInt32.le_iff_toNat_le] at letter
      change ((65 ≤ c.toNat ∧ c.toNat ≤ 90) ∨ 97 ≤ c.toNat ∧ c.toNat ≤ 122) ∨
        48 ≤ c.toNat ∧ c.toNat ≤ 57 at letter
      omega
    refine ⟨?_, ?_, ?_, ?_⟩
    · simp only [Text.isBlank, Bool.or_eq_false_iff, Bool.and_eq_false_iff, decide_eq_false_iff_not,
        beq_eq_false_iff_ne]
      omega
    all_goals
      rintro rfl
      revert ranges
      decide
  · simp only [List.contains_eq_mem, List.mem_cons, List.not_mem_nil, or_false, decide_eq_true_eq] at mark
    rcases mark with rfl | rfl | rfl | rfl | rfl | rfl | rfl | rfl | rfl | rfl | rfl <;> decide

theorem spells_bare (bare : Bare c) : Spells [c] [c] := by
  intro s outside
  obtain ⟨blank, single, double, backslash⟩ := bare
  simp [Scan.step, outside, blank, single, double, backslash]

theorem spells_bares (nonempty : cs ≠ []) (bares : ∀ c ∈ cs, Bare c) : Spells cs cs := by
  induction cs with
  | nil => exact absurd rfl nonempty
  | cons c rest ih =>
    obtain ⟨first, others⟩ := List.forall_mem_cons.mp bares
    by_cases more : rest = []
    · rw [more]
      exact spells_bare first
    · exact (spells_bare first).append (ih more others)

-- A text that a shell takes as it is: letters, digits and a few marks.
def Plain (text : String) : Prop := ∀ c ∈ text.toList, isLiteral c = true

instance : DecidablePred Plain := fun text => decidable_of_iff (text.toList.all isLiteral = true) List.all_eq_true

theorem Plain.append (first : Plain a) (second : Plain b) : Plain (a ++ b) := by
  unfold Plain
  rw [String.toList_append]
  exact List.forall_mem_append.mpr ⟨first, second⟩

theorem spells_literals (nonempty : cs ≠ []) (literals : cs.all isLiteral = true) : Spells cs cs :=
  spells_bares nonempty fun c member => bare_of_isLiteral (List.all_eq_true.mp literals c member)

theorem quotedChars_cons (c : Char) (word : List Char) :
    quotedChars (c :: word) = quotedChars [c] ++ quotedChars word := by
  simp [quotedChars]

-- Inside single quotes, a quote is written as a way out of them and back with a quote between.
theorem foldl_quotedChars (s : Scan) (read word : List Char) :
    (quotedChars word).foldl Scan.step (s.push .single read) = s.push .single (read ++ word) := by
  induction word generalizing read with
  | nil => simp [quotedChars]
  | cons c word ih =>
    have here : (quotedChars [c]).foldl Scan.step (s.push .single read) = s.push .single (read ++ [c]) := by
      by_cases quote : c = '\''
      · simp [quotedChars, quote, Scan.step, Scan.push, Scan.enter, Text.isBlank]
      · simp [quotedChars, quote, Scan.step, Scan.push]
    rw [quotedChars_cons, List.foldl_append, here, ih, List.append_assoc, List.singleton_append]

theorem spells_quoteChars (word : List Char) : Spells (quoteChars word) word := by
  unfold quoteChars
  split
  · rename_i plain
    simp only [Bool.and_eq_true, Bool.not_eq_true', List.isEmpty_eq_false_iff] at plain
    exact spells_literals plain.1 plain.2
  · intro s bare
    have opened : s.step '\'' = s.push .single [] := by
      simp [Scan.step, Scan.enter, Scan.push, bare, Text.isBlank]
    have closed : (s.push .single word).step '\'' = s.push .bare word := by
      simp [Scan.step, Scan.enter, Scan.push]
    rw [List.cons_append, List.foldl_cons, opened, List.foldl_append, foldl_quotedChars,
      List.nil_append, List.foldl_cons, closed, List.foldl_nil]

theorem splitWords?_eq_some {line : String}
    (split : splitChars? line.toList = some (words.map String.toList)) : splitWords? line = some words := by
  rw [splitWords?, split]
  simp

-- Where a text can be split, what is behind it and a blank is split as it is by itself, whatever it is, and
-- its words are behind those before.
theorem splitWords?_append_blank {line : String} (accepted : splitWords? line = some words)
    (blank : Text.isBlank c = true) (rest : String) :
    splitWords? (line ++ String.singleton c ++ rest) = (splitWords? rest).map (words ++ ·) ∧
      (splitWords? (line ++ String.singleton c ++ rest) = none ↔ splitWords? rest = none) := by
  obtain ⟨found, split, rfl⟩ := Option.map_eq_some_iff.mp accepted
  have whole : (line ++ String.singleton c ++ rest).toList = line.toList ++ c :: rest.toList := by simp
  have parted : splitWords? (line ++ String.singleton c ++ rest) =
      (splitWords? rest).map (found.map String.ofList ++ ·) := by
    simp only [splitWords?, whole, splitChars?_append_blank split blank, Option.map_map, Function.comp_def,
      List.map_append]
  exact ⟨parted, by rw [parted, Option.map_eq_none_iff]⟩

theorem splitWords?_append_blank_unended :
    splitWords? "run ''" = some ["run", ""] ∧ Text.isBlank '\t' = true ∧
      splitWords? ("run ''" ++ String.singleton '\t' ++ "'a b' c") = some ["run", "", "a b", "c"] ∧
      splitWords? ("run ''" ++ String.singleton '\t' ++ "'a b c") = none := by
  have accepted : splitWords? "run ''" = some ["run", ""] := by decide
  have blank : Text.isBlank '\t' = true := by decide
  have rest : splitWords? "'a b' c" = some ["a b", "c"] := by decide
  have parted := (splitWords?_append_blank accepted blank "'a b' c").1
  rw [rest] at parted
  exact ⟨accepted, blank, parted, (splitWords?_append_blank accepted blank "'a b c").2.mpr (by decide)⟩

-- Texts that each spell a word are split into these words when single spaces stand between them.
theorem splitWords?_intercalate
    (spelled : List.Forall₂ (fun part word : String => Spells part.toList word.toList) parts words) :
    splitWords? (" ".intercalate parts) = some words := by
  apply splitWords?_eq_some
  rw [String.toList_intercalate]
  exact splitChars?_intercalate (List.forall₂_map_left_iff.mpr (List.forall₂_map_right_iff.mpr spelled))

theorem spells_quoteWord (word : String) : Spells (quoteWord word).toList word.toList := by
  rw [quoteWord, String.toList_ofList]
  exact spells_quoteChars word.toList

-- Every list of words is read back from its quoted form.
theorem splitWords?_quoted (words : List String) :
    splitWords? (" ".intercalate (words.map quoteWord)) = some words := by
  apply splitWords?_intercalate
  rw [List.forall₂_map_left_iff, List.forall₂_same]
  exact fun word _ => spells_quoteWord word

end Shell

namespace Toolchain

theorem literal_name (v : ToolVariable) : (v.text ++ "=").toList.all Shell.isLiteral = true := by
  cases v <;> rfl

-- An assignment is one word, of which only the value is quoted.
theorem spells_assignment (v : ToolVariable) (value : String) :
    Shell.Spells (v.text ++ "=" ++ Shell.quoteWord value).toList (v.text ++ "=" ++ value).toList := by
  have name : Shell.Spells (v.text ++ "=").toList (v.text ++ "=").toList :=
    Shell.spells_literals (by simp) (literal_name v)
  rw [String.toList_append, String.toList_append (s := v.text ++ "="), Shell.quoteWord, String.toList_ofList]
  exact name.append (Shell.spells_quoteChars value.toList)

-- The variables that are set, each with its value.
def given (t : Toolchain) : List (ToolVariable × String) :=
  ToolVariable.all.filterMap fun v => (t.get? v).map (v, ·)

theorem splitChars?_assignments (t : Toolchain) : Shell.splitChars? t.assignments.toList =
    some (t.given.map fun (v, value) => (v.text ++ "=" ++ value).toList) := by
  have written : t.assignments =
      " ".intercalate (t.given.map fun (v, value) => v.text ++ "=" ++ Shell.quoteWord value) := by
    simp only [assignments, settings, given, List.map_filterMap, Option.map_map]
    rfl
  rw [written, String.toList_intercalate, List.map_map]
  apply Shell.splitChars?_intercalate
  rw [List.forall₂_map_left_iff, List.forall₂_map_right_iff, List.forall₂_same]
  rintro ⟨v, value⟩ _
  exact spells_assignment v value

-- A toolchain in front of a command adds its assignments to the words of the command, whatever the
-- values are and whatever the command is.
theorem splitWords?_assignments (t : Toolchain) (command : String) :
    Shell.splitWords? (t.assignments ++ " " ++ command) =
      (Shell.splitWords? command).map
        ((ToolVariable.all.filterMap fun v => (t.get? v).map (v.text ++ "=" ++ ·)) ++ ·) := by
  have parted := Shell.splitChars?_append_blank t.splitChars?_assignments
    (show Text.isBlank ' ' = true by decide) command.toList
  have line : (t.assignments ++ " " ++ command).toList = t.assignments.toList ++ ' ' :: command.toList := by
    simp
  have words : (t.given.map fun (v, value) => (v.text ++ "=" ++ value).toList).map String.ofList =
      ToolVariable.all.filterMap fun v => (t.get? v).map (v.text ++ "=" ++ ·) := by
    simp only [given, List.map_filterMap, Option.map_map, Function.comp_def, String.ofList_toList]
  simp only [Shell.splitWords?, line, parted, Option.map_map, Function.comp_def, List.map_append, words]

end Toolchain

end ContainerRecipe
