import ContainerRecipe.Proofs.Shell.Grammar
import ContainerRecipe.Render.HostScript

namespace ContainerRecipe

namespace Shell

section

-- What is read as a meaning is shorter than the text, unless the text stands for itself.
def Shrinks (cs m : List Char) : Prop := m.length < cs.length ∨ m = cs ∧ ∀ c ∈ cs, Bare c

theorem Shrinks.length_le (shrinks : Shrinks cs m) : m.length ≤ cs.length := by
  rcases shrinks with shorter | ⟨rfl, _⟩
  · exact Nat.le_of_lt shorter
  · exact Nat.le_refl _

theorem Shrinks.append (first : Shrinks cs m) (second : Shrinks ds n) : Shrinks (cs ++ ds) (m ++ n) := by
  rcases first with shorter | ⟨rfl, bare⟩
  · left
    have short := second.length_le
    simp only [List.length_append]
    omega
  · rcases second with shorter | ⟨rfl, bare'⟩
    · left
      simp only [List.length_append]
      omega
    · exact .inr ⟨rfl, List.forall_mem_append.mpr ⟨bare, bare'⟩⟩

theorem length_le_of_inside (inside : Parts Inner cs m) : m.length ≤ cs.length := by
  induction inside with
  | none => exact Nat.le_refl _
  | more _ last ih =>
    simp only [List.length_append]
    cases last <;> simp <;> omega

theorem shrinks_piece (piece : Piece cs m) : Shrinks cs m := by
  cases piece with
  | plain blank single double backslash =>
    exact .inr ⟨rfl, List.forall_mem_singleton.mpr ⟨blank, single, double, backslash⟩⟩
  | escaped feed => exact .inl (by simp)
  | continued => exact .inl (by simp)
  | single unquoted =>
    left
    simp only [List.length_append, List.length_cons]
    omega
  | double inside =>
    have short := length_le_of_inside inside
    left
    simp only [List.length_append, List.length_cons]
    omega

theorem shrinks_pieces (pieces : Parts Piece cs m) : Shrinks cs m := by
  induction pieces with
  | none => exact .inr ⟨rfl, List.forall_mem_nil _⟩
  | more _ last ih => exact ih.append (shrinks_piece last)

theorem bare_of_line (line : Line cs words) (itself : words = [cs]) : ∀ c ∈ cs, Bare c := by
  cases line with
  | blank => cases itself
  | @last gap cs m _ word =>
    cases itself
    rcases shrinks_pieces word.pieces with shorter | ⟨whole, bare⟩
    · simp only [List.length_append] at shorter
      omega
    · rwa [whole]
  | @more gap cs m b ds ms _ word _ _ =>
    cases itself
    have short := (shrinks_pieces word.pieces).length_le
    simp only [List.length_append, List.length_cons] at short
    omega

theorem splitChars?_self_iff : splitChars? cs = some [cs] ↔ cs ≠ [] ∧ ∀ c ∈ cs, Bare c := by
  constructor
  · intro split
    refine ⟨?_, bare_of_line (splitChars?_eq_some_iff.mp split) rfl⟩
    rintro rfl
    cases split
  · rintro ⟨given, bares⟩
    exact (spells_bares given bares).splitChars?

-- A command's name adds a word in front of those that stand behind it.
theorem splitWords?_export (assignment : String) :
    splitWords? ("export " ++ assignment) = (splitWords? assignment).map ("export" :: ·) := by
  have command : splitChars? "export".toList = some ["export".toList] := by decide
  have parted := splitChars?_append_blank command (show Text.isBlank ' ' = true by decide) assignment.toList
  have spelled : ("export " ++ assignment).toList = "export".toList ++ ' ' :: assignment.toList := by simp
  unfold splitWords?
  rw [spelled, parted, Option.map_map, Option.map_map]
  rfl

theorem splitWords?_export_iff (assignment : String) :
    splitWords? ("export " ++ assignment) = some ["export", assignment] ↔
      assignment ≠ "" ∧ ∀ c ∈ assignment.toList, Bare c := by
  have alone : splitWords? ("export " ++ assignment) = some ["export", assignment] ↔
      splitWords? assignment = some [assignment] := by
    rw [splitWords?_export, Option.map_eq_some_iff]
    simp
  rw [alone, splitWords?_eq_some_iff, List.map_singleton, splitChars?_self_iff, ne_eq, String.toList_eq_nil_iff]

end

end Shell

namespace HostScript

-- A command that exports a variable, and the words that it is split into.
structure Exports (name value command : String) : Prop where
  written : command = "export " ++ (name ++ "=" ++ value)
  words : Shell.splitWords? command = (Shell.splitWords? (name ++ "=" ++ value)).map ("export" :: ·)
  survives : Shell.splitWords? command = some ["export", name ++ "=" ++ value] ↔
    ∀ c ∈ name.toList ++ value.toList, Shell.Bare c

theorem exports_command (name value : String) : Exports name value ("export " ++ (name ++ "=" ++ value)) where
  written := rfl
  words := Shell.splitWords?_export _
  survives := by
    have sign : Shell.Bare '=' := by decide
    have given : name ++ "=" ++ value ≠ "" := by simp
    simp [Shell.splitWords?_export_iff, given, sign, or_imp, forall_and]

-- A script exports one variable after the other, in the order of their names. A variable gets the value that it
-- was given exactly if the shell has nothing to read in this value and the name.
theorem exports_split (e : Environment) : ∃ commands, write (.environment e) = pure ("\n".intercalate commands) ∧
    List.Forall₂ (fun entry command => Exports entry.1 entry.2 command) e.bindings.entries commands ∧
    e.bindings.entries.Pairwise fun a b => a.1 < b.1 := by
  refine ⟨exports e.bindings, rfl, ?_, e.bindings.ordered⟩
  unfold exports Bindings.assignments
  rw [List.map_map, List.forall₂_map_right_iff, List.forall₂_same]
  exact fun entry _ => exports_command entry.1 entry.2

-- A value with a blank is cut there, and what is behind it is taken for something else to export.
theorem exports_split_apart :
    write (.environment { bindings := .ofList [("CFLAGS", "-O2 -g")] }) = pure "export CFLAGS=-O2 -g" ∧
      Shell.splitWords? "export CFLAGS=-O2 -g" = some ["export", "CFLAGS=-O2", "-g"] := by
  constructor
  · rfl
  · decide

end HostScript

end ContainerRecipe
