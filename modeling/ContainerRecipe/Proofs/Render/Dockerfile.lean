import ContainerRecipe.Proofs.Datum.Json
import ContainerRecipe.Proofs.Render.Failure
import ContainerRecipe.Proofs.Text.Parts

namespace ContainerRecipe

section

def Text.Begins (keyword t : String) : Prop := keyword.toList <+: t.toList

instance (keyword t : String) : Decidable (Text.Begins keyword t) :=
  inferInstanceAs (Decidable (keyword.toList <+: t.toList))

theorem Text.Begins.append (begins : Begins keyword a) (b : String) : Begins keyword (a ++ b) := by
  rw [Begins, String.toList_append]
  exact begins.trans (List.prefix_append _ _)

theorem Text.begins_self_append (keyword b : String) : Begins keyword (keyword ++ b) :=
  Begins.append (List.prefix_refl _) b

theorem Text.Begins.intercalate (begins : Begins keyword a) (separator : String) (rest : List String) :
    Begins keyword (separator.intercalate (a :: rest)) := by
  cases rest with
  | nil =>
    rw [String.intercalate_singleton]
    exact begins
  | cons b more =>
    rw [String.intercalate_cons_cons]
    exact (begins.append _).append _

-- A text begins with two words only if one of them begins with the other.
theorem Text.Begins.nested (first : Begins a t) (second : Begins b t) : Begins a b ∨ Begins b a :=
  List.prefix_or_prefix_of_prefix first second

theorem Text.begins_fillFrom (width : Nat) (lead : String) {line : String} (begins : Begins keyword line)
    (words : List String) :
    ∃ first rest, fillFrom width lead line words = first :: rest ∧ Begins keyword first := by
  induction words generalizing line with
  | nil => exact ⟨line, [], rfl, begins⟩
  | cons word rest ih =>
    unfold fillFrom
    split
    · exact ih ((begins.append _).append _)
    · exact ⟨line, _, rfl, begins⟩

-- A comment is empty or begins with its mark.
theorem Text.comment_begins (s : String) (reformat : Bool) :
    comment s reformat = "" ∨ Begins "#" (comment s reformat) := by
  unfold comment
  split
  · exact .inl rfl
  · split
    · unfold wrap
      cases words s with
      | nil => exact .inl rfl
      | cons word rest =>
        obtain ⟨first, others, filled, begins⟩ :=
          begins_fillFrom commentWidth "# " (Begins.append (by decide) word : Begins "#" ("# " ++ word)) rest
        dsimp only
        rw [filled]
        exact .inr (begins.intercalate _ _)
    · cases lines s with
      | nil => exact .inl rfl
      | cons line rest =>
        have marked : Begins "#" (commentLine line) := by
          unfold commentLine
          split
          · exact List.prefix_refl _
          · exact Begins.append (by decide) line
        exact .inr (marked.intercalate _ _)

end

-- Text that is inserted as it is.
def Instruction.Inserted : Instruction → Prop
  | .verbatim _ | .fragment _ => True
  | _ => False

-- The command that an instruction starts the container with.
def Instruction.started? : Instruction → Option String
  | .runscript r => r.commands.head?
  | _ => none

namespace Dockerfile

open Text

-- What the text of an instruction begins with; text that is inserted may begin with anything.
def keyword : Instruction → String
  | .baseImage _ => "FROM"
  | .shell _ => "RUN"
  | .copy _ => "COPY"
  | .environment _ => "ENV"
  | .labels _ => "LABEL"
  | .comment _ => "#"
  | .workdir _ => "WORKDIR"
  | .user _ => "USER"
  | .arguments _ => "ARG"
  | .runscript _ => "ENTRYPOINT"
  | .verbatim _ | .fragment _ => ""

-- How many instructions of a Dockerfile are written for an instruction of a stage. Neither comments nor
-- text that is inserted are counted.
def layers : Instruction → Nat
  | .baseImage _ | .workdir _ | .user _ => 1
  | .shell s => if s.effective.isEmpty then 0 else 1
  | .environment e => if e.bindings.isEmpty then 0 else 1
  | .labels l => if l.bindings.isEmpty then 0 else 1
  | .runscript r => if r.commands.isEmpty then 0 else 1
  | .copy c => c.effective.length
  | .arguments a => a.bindings.entries.length
  | .comment _ | .verbatim _ | .fragment _ => 0

-- Texts that each begin with a keyword, on lines of their own.
def Instructs (keyword : String) (count : Nat) (t : String) : Prop :=
  ∃ parts : List String, parts.length = count ∧ (∀ part ∈ parts, Begins keyword part) ∧
    t = "\n".intercalate parts

theorem instructs_none (keyword : String) : Instructs keyword 0 "" := ⟨[], rfl, by simp, rfl⟩

theorem instructs_one {keyword t : String} (begins : Begins keyword t) : Instructs keyword 1 t :=
  ⟨[t], rfl, by simpa using begins, by simp⟩

theorem instructs_each {α : Type} {keyword : String} {f : α → String}
    (begins : ∀ a, Begins keyword (f a)) (as : List α) :
    Instructs keyword as.length ("\n".intercalate (as.map f)) := by
  refine ⟨as.map f, List.length_map _, fun part member => ?_, rfl⟩
  obtain ⟨a, -, rfl⟩ := List.mem_map.mp member
  exact begins a

-- The first of the texts is what the whole begins with.
theorem Instructs.begins {keyword : String} (instructs : Instructs keyword count t) :
    t = "" ∨ Begins keyword t := by
  obtain ⟨parts, -, begin, rfl⟩ := instructs
  cases parts with
  | nil => exact .inl rfl
  | cons first rest => exact .inr ((begin first List.mem_cons_self).intercalate _ _)

theorem keyValues_instructs (keyword : String) (b : Bindings) :
    Instructs keyword (if b.isEmpty then 0 else 1) (keyValues keyword b) := by
  unfold keyValues
  split
  · exact instructs_none keyword
  · exact instructs_one ((begins_self_append keyword " ").append _)

theorem argument_begins (name value : String) :
    Begins "ARG" (if value = "" then "ARG " ++ name else "ARG " ++ name ++ "=" ++ value) := by
  have word : Begins "ARG" "ARG " := by decide
  split
  · exact word.append _
  · exact ((word.append _).append _).append _

theorem copyEntry_begins (c : Copy) (e : CopyEntry) : Begins "COPY" (copyEntry c e) := by
  have words : ∀ more, Begins "COPY" (" ".intercalate (copyWords c ++ more)) := by
    intro more
    unfold copyWords
    simp only [List.append_assoc, List.singleton_append]
    exact Begins.intercalate (List.prefix_refl _) _ _
  unfold copyEntry
  split
  · exact words _
  · have common := words []
    rw [List.append_nil] at common
    exact ((common.append _).append _).intercalate _ _

-- A text that starts the container with the words of a command.
def Starts (command t : String) : Prop :=
  ∃ words, Shell.splitWords? command = some words ∧ t = entrypoint words

theorem runscript_written {r : Runscript} (written : (runscript r).result = .ok t) :
    r.commands = [] ∧ t = "" ∨ ∃ command rest, r.commands = command :: rest ∧ Starts command t := by
  unfold runscript at written
  cases given : r.commands with
  | nil =>
    rw [given] at written
    cases written
    exact .inl ⟨rfl, rfl⟩
  | cons command rest =>
    rw [given] at written
    have ends := Outcome.ok_of_guarded written
    cases told : Shell.splitWords? command with
    | none =>
      rw [told] at ends
      cases ends
    | some words =>
      rw [told] at ends
      cases ends
      exact .inr ⟨command, rest, rfl, words, told, rfl⟩

theorem Starts.begins (starts : Starts command t) : Begins "ENTRYPOINT" t := by
  obtain ⟨words, -, rfl⟩ := starts
  have word : Begins "ENTRYPOINT" "ENTRYPOINT [" := by decide
  exact (word.append _).append _

-- What is counted for an instruction is what its text is made of.
theorem write_instructs {p : Instruction} (composed : ¬ p.Inserted) (other : p.kind ≠ "comment")
    (written : (write p).result = .ok t) : Instructs (keyword p) (layers p) t := by
  unfold write at written
  cases p with
  | baseImage b =>
    cases written
    have word : Begins "FROM" "FROM " := by decide
    exact instructs_one ((word.append _).append _)
  | shell s =>
    rw [result_after_ignoreApp] at written
    cases written
    simp only [layers, shell]
    split
    · exact instructs_none _
    · have word : Begins "RUN" "RUN " := by decide
      exact instructs_one (word.append _)
  | copy c =>
    rw [result_after_ignoreApp] at written
    cases written
    exact instructs_each (copyEntry_begins c) c.effective
  | environment e =>
    rw [result_after_ignoreApp] at written
    cases written
    exact keyValues_instructs "ENV" e.bindings
  | labels l =>
    rw [result_after_ignoreApp] at written
    cases written
    exact keyValues_instructs "LABEL" l.bindings
  | workdir w =>
    rw [result_after_ignoreApp] at written
    cases written
    have word : Begins "WORKDIR" "WORKDIR " := by decide
    exact instructs_one (word.append _)
  | user u =>
    cases written
    have word : Begins "USER" "USER " := by decide
    exact instructs_one (word.append _)
  | arguments a =>
    cases written
    refine instructs_each ?_ a.bindings.entries
    rintro ⟨name, value⟩
    exact argument_begins name value
  | runscript r =>
    rw [result_after_ignoreApp] at written
    simp only [layers]
    rcases runscript_written written with ⟨none, rfl⟩ | ⟨command, rest, given, starts⟩
    · rw [none]
      exact instructs_none _
    · rw [given]
      exact instructs_one starts.begins
  | comment c => exact absurd rfl other
  | verbatim v | fragment f => exact absurd trivial composed

theorem write_begins (written : (write p).result = .ok t) : t = "" ∨ Begins (keyword p) t := by
  by_cases inserted : p.Inserted
  · cases p with
    | verbatim | fragment => exact .inr List.nil_prefix
    | _ => cases inserted
  · by_cases comment : p.kind = "comment"
    · cases p with
      | comment c =>
        cases written
        exact comment_begins c.text c.reformat
      | _ => simp [Instruction.kind] at comment
    · exact (write_instructs inserted comment written).begins

section

-- The texts of instructions, or the lines of a text, that tell what the container starts with.
def entrypoints (texts : List String) : List String := texts.filter fun t => Begins "ENTRYPOINT" t

theorem toList_entrypoint (words : List String) :
    (entrypoint words).toList = "ENTRYPOINT ".toList ++ (Json.array words).toList := by
  simp [entrypoint, Json.array]

theorem entrypoint_injective : Function.Injective entrypoint := by
  intro a b same
  have spelled := congrArg String.toList same
  rw [toList_entrypoint, toList_entrypoint, List.append_cancel_left_eq, String.toList_inj] at spelled
  exact Json.array_injective spelled

theorem starts_same_iff (first : Starts a t) (second : Starts b u) :
    t = u ↔ Shell.splitWords? a = Shell.splitWords? b := by
  obtain ⟨words, told, rfl⟩ := first
  obtain ⟨others, splits, rfl⟩ := second
  rw [told, splits, Option.some.injEq, entrypoint_injective.eq_iff]

theorem not_begins_of_apart (written : (write p).result = .ok t)
    (apart : ¬ Begins (keyword p) "ENTRYPOINT" ∧ ¬ Begins "ENTRYPOINT" (keyword p)) :
    ¬ Begins "ENTRYPOINT" t := by
  intro entrypoint
  rcases write_begins written with rfl | begins
  · revert entrypoint
    decide
  · rcases begins.nested entrypoint with shorter | longer
    · exact apart.1 shorter
    · exact apart.2 longer

-- The entrypoints of a document are those of the commands that its runscripts start with.
theorem entrypoints_written {ps : List Instruction} {texts : List String}
    (written : List.Forall₂ (fun p t => (write p).result = .ok t) ps texts)
    (composed : ∀ p ∈ ps, ¬ p.Inserted) :
    List.Forall₂ Starts (ps.filterMap Instruction.started?) (entrypoints texts) := by
  induction written with
  | nil => exact .nil
  | @cons p t ps texts here _ ih =>
    obtain ⟨first, others⟩ := List.forall_mem_cons.mp composed
    have rest := ih others
    cases p with
    | runscript r =>
      unfold write at here
      rw [result_after_ignoreApp] at here
      rcases runscript_written here with ⟨none, rfl⟩ | ⟨command, more, given, starts⟩
      · have silent : ¬ Begins "ENTRYPOINT" "" := by decide
        simpa [entrypoints, Instruction.started?, none, silent] using rest
      · have first : (Instruction.runscript r).started? = some command := by
          simp [Instruction.started?, given]
        rw [List.filterMap_cons_some first, entrypoints, List.filter_cons_of_pos (by simpa using starts.begins)]
        exact .cons starts rest
    | verbatim v | fragment f => exact absurd trivial first
    | baseImage | shell | copy | environment | labels | comment | workdir | user | arguments =>
      have silent := not_begins_of_apart here (by simp only [keyword]; decide)
      rw [List.filterMap_cons_none rfl]
      simpa [entrypoints, silent] using rest

end

section

-- The lines of a text.
def textLines (t : String) : List String := (t.toList.splitOn '\n').map String.ofList

theorem lines_append_break (a b : String) : textLines (a ++ "\n" ++ b) = textLines a ++ textLines b := by
  have spelled : (a ++ "\n" ++ b).toList = a.toList ++ '\n' :: b.toList := by simp
  rw [textLines, spelled, Text.splitOn_append_cons, List.map_append]
  rfl

theorem lines_intercalate {texts : List String} (given : texts ≠ []) :
    textLines ("\n".intercalate texts) = texts.flatMap textLines := by
  induction texts with
  | nil => exact absurd rfl given
  | cons t rest ih =>
    cases rest with
    | nil => simp
    | cons next rest =>
      have later := ih (List.cons_ne_nil _ _)
      rw [String.intercalate_cons_cons, lines_append_break, later]
      rfl

-- A text of one line.
theorem lines_of_single (single : '\n' ∉ t.toList) : textLines t = [t] := by
  rw [textLines, List.splitOn_eq_singleton single]
  simp

theorem Starts.single (starts : Starts command t) : '\n' ∉ t.toList := by
  obtain ⟨words, -, rfl⟩ := starts
  rw [toList_entrypoint, List.mem_append, not_or]
  exact ⟨by decide, Json.newline_not_mem_array words⟩

-- No text but those of entrypoints has a line that reads like one.
def Legible (texts : List String) : Prop :=
  ∀ t ∈ texts, ¬ Begins "ENTRYPOINT" t → entrypoints (textLines t) = []

theorem entrypoints_flatMap_lines {texts : List String} (single : ∀ t ∈ entrypoints texts, '\n' ∉ t.toList)
    (legible : Legible texts) :
    entrypoints (texts.flatMap textLines) = entrypoints texts := by
  induction texts with
  | nil => rfl
  | cons t rest ih =>
    obtain ⟨here, others⟩ := List.forall_mem_cons.mp legible
    rw [List.flatMap_cons]
    by_cases begins : Begins "ENTRYPOINT" t
    · have shape : ∀ more, entrypoints (t :: more) = t :: entrypoints more :=
        fun more => List.filter_cons_of_pos (by simpa using begins)
      rw [shape] at single ⊢
      obtain ⟨line, lasting⟩ := List.forall_mem_cons.mp single
      rw [lines_of_single line, List.singleton_append, shape, ih lasting others]
    · have shape : entrypoints (t :: rest) = entrypoints rest := List.filter_cons_of_neg (by simpa using begins)
      have silent := here begins
      rw [shape] at single ⊢
      rw [← ih single others]
      unfold entrypoints at silent ⊢
      rw [List.filter_append, silent, List.nil_append]

-- What is read line by line is what the instructions say.
theorem entrypoints_lines {texts : List String} (single : ∀ t ∈ entrypoints texts, '\n' ∉ t.toList)
    (legible : Legible texts) :
    entrypoints (textLines ("\n".intercalate (texts.filter (· ≠ "")))) = entrypoints texts := by
  have kept : entrypoints (texts.filter (· ≠ "")) = entrypoints texts := by
    unfold entrypoints
    rw [List.filter_filter]
    refine List.filter_congr fun t _ => ?_
    by_cases empty : t = ""
    · subst empty
      decide
    · simp [empty]
  by_cases nothing : texts.filter (· ≠ "") = []
  · rw [nothing] at kept ⊢
    rw [← kept]
    decide
  · rw [lines_intercalate nothing, ← kept]
    refine entrypoints_flatMap_lines (by rwa [kept]) fun t member => ?_
    exact legible t (List.mem_of_mem_filter member)

end

end Dockerfile

end ContainerRecipe
