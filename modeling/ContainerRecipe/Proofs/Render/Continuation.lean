import ContainerRecipe.Proofs.Render.Dockerfile

namespace ContainerRecipe.Dockerfile

section

-- Every line break stands right behind a backslash.
def Unbroken (t : String) : Prop :=
  ∀ before after, t.toList = before ++ '\n' :: after → before.getLast? = some '\\'

theorem unbroken_of_single (single : '\n' ∉ t.toList) : Unbroken t := by
  intro before after cut
  rw [cut] at single
  exact absurd (List.mem_append_right before List.mem_cons_self) single

-- Two texts are joined in one piece, unless a backslash meets a line break where they are joined.
theorem unbroken_append {a b : String} (seam : a.toList.getLast? ≠ some '\\' ∨ b.toList.head? ≠ some '\n') :
    Unbroken (a ++ b) ↔ Unbroken a ∧ Unbroken b := by
  constructor
  · intro whole
    refine ⟨fun before after cut => whole before (after ++ b.toList) (by simp [cut]), fun before after cut => ?_⟩
    have found := whole (a.toList ++ before) after (by simp [cut])
    rw [List.getLast?_append] at found
    cases ends : before.getLast? with
    | some c =>
      rw [ends, Option.some_or] at found
      exact found
    | none =>
      rw [ends, Option.none_or] at found
      rw [List.getLast?_eq_none_iff.mp ends] at cut
      rcases seam with left | right
      · exact absurd found left
      · exact absurd (by simp [cut]) right
  · rintro ⟨first, second⟩ before after cut
    rw [String.toList_append] at cut
    rcases List.append_eq_append_iff.mp cut with ⟨middle, longer, later⟩ | ⟨middle, shorter, earlier⟩
    · have ends := second middle after later
      rw [longer, List.getLast?_append, ends, Option.some_or]
    · cases middle with
      | nil =>
        have ends := second [] after earlier.symm
        cases ends
      | cons c middle =>
        obtain ⟨rfl, rest⟩ := List.cons.inj earlier
        exact first before middle shorter

-- Parts are joined in one piece by a separator that is in one piece itself, between blanks.
theorem unbroken_intercalate {separator : String} (opened : separator.toList.head? = some ' ')
    (closed : separator.toList.getLast? = some ' ') (whole : Unbroken separator) (parts : List String) :
    Unbroken (separator.intercalate parts) ↔ ∀ part ∈ parts, Unbroken part := by
  induction parts with
  | nil => simpa using @unbroken_of_single "" (by simp)
  | cons part rest ih =>
    cases rest with
    | nil => simp
    | cons next rest =>
      have before : (part ++ separator).toList.getLast? ≠ some '\\' := by
        rw [String.toList_append, List.getLast?_append, closed, Option.some_or]
        decide
      have behind : separator.toList.head? ≠ some '\n' := by
        rw [opened]
        decide
      rw [String.intercalate_cons_cons, unbroken_append (.inl before), unbroken_append (.inr behind), ih,
        and_iff_left whole, List.forall_mem_cons (a := part)]

theorem unbroken_assignment (name value : String) :
    Unbroken (name ++ "=" ++ value) ↔ Unbroken name ∧ Unbroken value := by
  have before : (name ++ "=").toList.getLast? ≠ some '\\' := by simp
  have mark : Unbroken "=" := unbroken_of_single (by decide)
  rw [unbroken_append (.inl before), unbroken_append (.inr (by decide))]
  simp only [mark, and_true]

end

section

-- A line that is continued, and the margin of the next one.
theorem unbroken_continuation {line : String} (single : '\n' ∉ line.toList) : Unbroken (line ++ "\\\n" ++ "    ") := by
  have mark : Unbroken "\\\n" := by
    intro before after cut
    cases before with
    | nil => exact absurd (List.cons.inj cut).1 (by decide)
    | cons c rest =>
      obtain ⟨rfl, later⟩ := List.cons.inj cut
      cases rest with
      | nil => rfl
      | cons d more => simpa using congrArg List.length later
  have before : (line ++ "\\\n").toList.getLast? ≠ some '\\' := by simp
  have margin : Unbroken "    " := unbroken_of_single (by decide)
  rw [unbroken_append (.inl before), unbroken_append (.inr (by decide))]
  exact ⟨⟨unbroken_of_single single, mark⟩, margin⟩

theorem unbroken_continued (parts : List String) :
    Unbroken (continued parts) ↔ ∀ part ∈ parts, Unbroken part :=
  unbroken_intercalate rfl rfl (unbroken_continuation (by decide) : Unbroken (" " ++ "\\\n" ++ "    ")) parts

theorem unbroken_keyValues {keyword : String} (single : '\n' ∉ keyword.toList) (b : Bindings) :
    Unbroken (keyValues keyword b) ↔ ∀ entry ∈ b.entries, Unbroken entry.1 ∧ Unbroken entry.2 := by
  have assignments : (∀ part ∈ b.assignments, Unbroken part) ↔
      ∀ entry ∈ b.entries, Unbroken entry.1 ∧ Unbroken entry.2 := by
    simp only [Bindings.assignments, List.forall_mem_map, unbroken_assignment]
  unfold keyValues
  split
  · rename_i nothing
    rw [← assignments, Bindings.assignments, List.isEmpty_iff.mp nothing]
    simpa using @unbroken_of_single "" (by simp)
  · have before : (keyword ++ " ").toList.getLast? ≠ some '\\' := by simp
    have space : Unbroken " " := unbroken_of_single (by decide)
    rw [unbroken_append (.inl before), unbroken_append (.inr (by decide)), unbroken_continued, assignments,
      and_iff_right ⟨unbroken_of_single single, space⟩]

-- A command that is left out is empty, and so in one piece.
theorem unbroken_shell (s : Shell) : Unbroken (shell s) ↔ ∀ command ∈ s.commands, Unbroken command := by
  have empty : Unbroken "" := unbroken_of_single (by simp)
  have commands : (∀ command ∈ s.effective, Unbroken command) ↔ ∀ command ∈ s.commands, Unbroken command := by
    refine ⟨fun whole command member => ?_, fun whole command member => whole command (List.mem_of_mem_filter member)⟩
    by_cases nothing : command = ""
    · rw [nothing]
      exact empty
    · exact whole command (List.mem_filter.mpr ⟨member, by simpa using nothing⟩)
  unfold shell
  split
  · rename_i nothing
    rw [← commands, List.isEmpty_iff.mp nothing]
    simpa using empty
  · have run : Unbroken "RUN " := unbroken_of_single (by decide)
    rw [unbroken_append (.inl (by decide)), and_iff_right run, ← commands]
    exact unbroken_intercalate rfl rfl (unbroken_continuation (by decide) : Unbroken (" && " ++ "\\\n" ++ "    ")) _

theorem unbroken_runscript {r : Runscript} (written : (runscript r).result = .ok t) : Unbroken t := by
  rcases runscript_written written with ⟨-, rfl⟩ | ⟨command, rest, -, starts⟩
  · exact unbroken_of_single (by simp)
  · exact unbroken_of_single starts.single

end

-- The texts of an instruction that are written as they are given, where it has parts on lines of their own.
def given : Instruction → List String
  | .shell s => s.commands
  | .environment e => e.bindings.entries.flatMap fun (name, value) => [name, value]
  | .labels l => l.bindings.entries.flatMap fun (name, value) => [name, value]
  | _ => []

theorem forall_mem_bindings {P : String → Prop} (b : Bindings) :
    (∀ part ∈ b.entries.flatMap fun (name, value) => [name, value], P part) ↔
      ∀ entry ∈ b.entries, P entry.1 ∧ P entry.2 := by
  simp only [List.forall_mem_flatMap, List.forall_mem_cons, List.not_mem_nil, false_implies, implies_true, and_true]

-- The instructions whose parts are put on lines of their own, and the one that is spelled as an array.
def Composed : Instruction → Prop
  | .shell _ | .environment _ | .labels _ | .runscript _ => True
  | _ => False

-- The text of such an instruction is one instruction exactly if each text that is written as it is given is
-- in one piece. The text of a runscript always is.
theorem unbroken_iff_given (composed : Composed p) (written : (write p).result = .ok t) :
    Unbroken t ↔ ∀ part ∈ given p, Unbroken part := by
  unfold write at written
  cases p with
  | shell s =>
    rw [result_after_ignoreApp] at written
    cases written
    exact unbroken_shell s
  | environment e =>
    rw [result_after_ignoreApp] at written
    cases written
    exact (unbroken_keyValues (by decide) e.bindings).trans (forall_mem_bindings e.bindings).symm
  | labels l =>
    rw [result_after_ignoreApp] at written
    cases written
    exact (unbroken_keyValues (by decide) l.bindings).trans (forall_mem_bindings l.bindings).symm
  | runscript r =>
    rw [result_after_ignoreApp] at written
    exact iff_of_true (unbroken_runscript written) (List.forall_mem_nil _)
  | baseImage | copy | comment | verbatim | workdir | user | arguments | fragment => cases composed

-- A command over two lines that is continued by itself, between two others.
theorem unbroken_iff_given_continued :
    let s : Shell := { commands := ["make clean", "make -j \\\n    all", "make install"] }
    let text := "RUN make clean && \\\n    make -j \\\n    all && \\\n    make install"
    (write (.shell s)).result = .ok text ∧ Unbroken text := by
  intro s text
  have written : (write (.shell s)).result = .ok text := by decide +kernel
  have composed : Composed (.shell s) := trivial
  have clean : Unbroken "make clean" := unbroken_of_single (by decide)
  have install : Unbroken "make install" := unbroken_of_single (by decide)
  have target : Unbroken "all" := unbroken_of_single (by decide)
  have lead : Unbroken ("make -j " ++ "\\\n" ++ "    ") := unbroken_continuation (by decide)
  have all : Unbroken ("make -j \\\n    " ++ "all") := (unbroken_append (.inr (by decide))).mpr ⟨lead, target⟩
  refine ⟨written, (unbroken_iff_given composed written).mpr fun part member => ?_⟩
  rcases List.mem_cons.mp member with rfl | member
  · exact clean
  · rcases List.mem_cons.mp member with rfl | member
    · exact all
    · rcases List.mem_singleton.mp member with rfl
      exact install

-- The second line of a command, or of the value of a variable, stands as an instruction of its own.
theorem line_stands_alone :
    let s : Shell := { commands := ["echo a\nUSER root"] }
    let e : Environment := { bindings := .ofList [("A", "1\nUSER root")] }
    ((write (.shell s)).result = .ok "RUN echo a\nUSER root" ∧ ¬ Unbroken "RUN echo a\nUSER root" ∧
      textLines "RUN echo a\nUSER root" = ["RUN echo a", "USER root"]) ∧
    ((write (.environment e)).result = .ok "ENV A=1\nUSER root" ∧ ¬ Unbroken "ENV A=1\nUSER root" ∧
      textLines "ENV A=1\nUSER root" = ["ENV A=1", "USER root"]) ∧
    (write (.user ⟨"root"⟩)).result = .ok "USER root" := by
  intro s e
  have command : ¬ Unbroken "RUN echo a\nUSER root" := fun whole =>
    absurd (whole "RUN echo a".toList "USER root".toList (by decide)) (by decide)
  have value : ¬ Unbroken "ENV A=1\nUSER root" := fun whole =>
    absurd (whole "ENV A=1".toList "USER root".toList (by decide)) (by decide)
  exact ⟨⟨by decide +kernel, command, by decide +kernel⟩, ⟨by decide +kernel, value, by decide +kernel⟩,
    by decide +kernel⟩

end ContainerRecipe.Dockerfile
