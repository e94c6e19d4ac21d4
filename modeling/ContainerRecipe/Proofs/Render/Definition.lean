import ContainerRecipe.Proofs.Render.Dockerfile
import ContainerRecipe.Proofs.Text.Parts

namespace ContainerRecipe

open Dockerfile (textLines lines_intercalate lines_append_break lines_of_single)

-- The instructions that are written in sections.
def Instruction.Sectioned : Instruction → Prop
  | .shell _ | .copy _ | .environment _ | .labels _ | .workdir _ | .runscript _ => True
  | _ => False

namespace Definition

-- What the lines of a body are written as. An empty text leaves an empty line.
def bodyLines (line : String) : List String :=
  if line = "" then [""] else (Text.lines line).map (margin ++ ·)

-- A section as it stands in a definition: its header, and the lines below it.
structure Passage where
  header : String
  lines : List String

def Passage.text (p : Passage) : String := "\n".intercalate (p.header :: p.lines)

def Section.passage (s : Section) : Passage := ⟨s.header, s.body.flatMap bodyLines⟩

theorem join_breaks (header : String) (lines : List String) :
    header ++ String.join (lines.map ("\n" ++ ·)) = "\n".intercalate (header :: lines) := by
  induction lines generalizing header with
  | nil => simp
  | cons line rest ih =>
    rw [String.intercalate_cons_cons, ← ih line, List.map_cons, String.join_cons]
    simp only [String.append_assoc]

theorem break_indent (line : String) :
    "\n" ++ Text.indent line margin = String.join ((bodyLines line).map ("\n" ++ ·)) := by
  unfold bodyLines
  split
  · rename_i empty
    subst empty
    decide
  · rename_i given
    obtain ⟨first, others, parts⟩ := List.exists_cons_of_ne_nil (Text.lines_ne_nil given)
    unfold Text.indent
    rw [parts, List.map_cons, ← join_breaks, List.map_cons, String.join_cons]
    simp only [String.append_assoc]

theorem Section.text_eq (s : Section) : s.text = s.passage.text := by
  unfold Section.text Passage.text Section.passage
  rw [← join_breaks]
  congr 1
  induction s.body with
  | nil => rfl
  | cons line rest ih =>
    rw [List.map_cons, String.join_cons, ih, break_indent, List.flatMap_cons, List.map_append, String.join_append]

section

-- A single line that is empty or indented, and so opens no section.
structure Indented (line : String) : Prop where
  single : '\n' ∉ line.toList
  margin : line = "" ∨ Text.Begins margin line

theorem bodyLines_indented (line : String) {below : String} (member : below ∈ bodyLines line) :
    Indented below := by
  unfold bodyLines at member
  split at member
  · cases List.mem_singleton.mp member
    exact ⟨List.not_mem_nil, .inl rfl⟩
  · obtain ⟨part, cut, rfl⟩ := List.mem_map.mp member
    refine ⟨?_, .inr (Text.begins_self_append margin part)⟩
    rw [String.toList_append, List.mem_append, not_or]
    exact ⟨by decide, Text.newline_not_mem_lines cut⟩

theorem passage_indented (s : Section) (member : line ∈ s.passage.lines) : Indented line := by
  obtain ⟨written, -, cut⟩ := List.mem_flatMap.mp member
  exact bodyLines_indented written cut

theorem flatMap_textLines {lines : List String} (single : ∀ line ∈ lines, '\n' ∉ line.toList) :
    lines.flatMap textLines = lines := by
  induction lines with
  | nil => rfl
  | cons line rest ih =>
    obtain ⟨here, others⟩ := List.forall_mem_cons.mp single
    rw [List.flatMap_cons, lines_of_single here, ih others, List.singleton_append]

theorem textLines_passage {p : Passage} (indented : ∀ line ∈ p.lines, Indented line) :
    textLines p.text = textLines p.header ++ p.lines := by
  unfold Passage.text
  rw [lines_intercalate (List.cons_ne_nil _ _), List.flatMap_cons,
    flatMap_textLines fun line below => (indented line below).single]

-- A line of a definition is indented or empty, if it is not one of a header.
theorem indented_or_header {passages : List Passage} (indented : ∀ p ∈ passages, ∀ line ∈ p.lines, Indented line)
    (member : line ∈ textLines ("\n".intercalate (passages.map Passage.text))) :
    line = "" ∨ Text.Begins margin line ∨ ∃ p ∈ passages, line ∈ textLines p.header := by
  by_cases nothing : passages = []
  · subst nothing
    left
    simpa [textLines] using member
  · rw [lines_intercalate (mt List.map_eq_nil_iff.mp nothing)] at member
    obtain ⟨text, given, cut⟩ := List.mem_flatMap.mp member
    obtain ⟨q, inside, rfl⟩ := List.mem_map.mp given
    rw [textLines_passage (indented q inside), List.mem_append] at cut
    rcases cut with opening | below
    · exact .inr (.inr ⟨q, inside, opening⟩)
    · rcases (indented q inside line below).margin with empty | begins
      · exact .inl empty
      · exact .inr (.inl begins)

end

section

def sections (t : Target) : Instruction → List Section
  | .shell s => shellSections s
  | .copy c => copySections t c
  | .environment e => environmentSections e
  | .labels l => labelSections l
  | .workdir w => workdirSections w
  | .runscript r => runscriptSections r
  | _ => []

-- The headers that an instruction can have sections of, in their order. No other field has a part in them
-- than the application and the stage to copy from.
def headers : Instruction → List String
  | .shell s => [header "%post" "%appinstall" s.app]
  | .copy c => ["%setup", filesHeader c]
  | .environment e => [header "%environment" "%appenv" e.app, "%post"]
  | .labels l => [header "%labels" "%applabels" l.app]
  | .workdir w => [header "%post" "%appinstall" w.app]
  | .runscript r => [header "%runscript" "%apprun" r.app]
  | _ => []

theorem write_sections (sectioned : p.Sectioned) (written : (write t p).result = .ok text) :
    text = textOf (sections t p) := by
  cases p with
  | copy c =>
    obtain ⟨_, -, made⟩ := Outcome.bind_ok_iff.mp written
    cases made
    rfl
  | shell | environment | labels | workdir | runscript =>
    cases written
    rfl
  | baseImage | comment | verbatim | user | arguments | fragment => cases sectioned

theorem textOf_passages (parts : List Section) :
    textOf parts = "\n".intercalate ((parts.map Section.passage).map Passage.text) := by
  unfold textOf
  rw [List.map_map]
  congr 1
  exact List.map_congr_left fun s _ => s.text_eq

-- Texts that are joined of lines each, and of one at least, join to the lines of all.
theorem intercalate_passages (passages : List Passage) :
    "\n".intercalate (passages.map Passage.text) =
      "\n".intercalate (passages.flatMap fun p => p.header :: p.lines) := by
  induction passages with
  | nil => rfl
  | cons p rest ih =>
    cases rest with
    | nil => simp [Passage.text]
    | cons q more =>
      rw [List.flatMap_cons, String.intercalate_append_of_ne_nil (List.cons_ne_nil _ _) (by simp), ← ih,
        List.map_cons, List.map_cons, String.intercalate_cons_cons]
      rfl

theorem textOf_lines (parts : List Section) :
    textOf parts = "\n".intercalate (parts.flatMap fun s => s.header :: s.body.flatMap bodyLines) := by
  rw [textOf_passages, intercalate_passages, List.flatMap_map]
  rfl

-- One section, or none.
theorem optional_headers {c : Prop} [Decidable c] (s : Section) :
    ((if c then [] else [s]).map Section.header).Sublist [s.header] := by
  split
  · exact List.nil_sublist _
  · exact List.Sublist.refl _

theorem sections_headers (t : Target) (p : Instruction) :
    ((sections t p).map Section.header).Sublist (headers p) := by
  cases p with
  | shell s => exact optional_headers _
  | copy c =>
    simp only [sections, copySections, List.map_append]
    exact (optional_headers _).append (optional_headers _)
  | environment e =>
    simp only [sections, environmentSections]
    split
    · exact List.nil_sublist _
    · refine List.Sublist.cons_cons _ ?_
      split
      · exact List.Sublist.refl _
      · exact List.nil_sublist _
  | labels l => exact optional_headers _
  | workdir w => exact List.Sublist.refl _
  | runscript r =>
    simp only [sections, runscriptSections]
    split
    · exact List.nil_sublist _
    · exact List.Sublist.refl _
    · exact List.Sublist.refl _
  | baseImage | comment | verbatim | user | arguments | fragment => exact List.Sublist.refl _

-- The lines of the commands of a shell.
def commandLines (s : Shell) : List String :=
  ((if s.fromRoot then ["cd /"] else []) ++ s.effective).flatMap Text.lines

theorem flatMap_bodyLines {body : List String} (given : ∀ line ∈ body, line ≠ "") :
    body.flatMap bodyLines = (body.flatMap Text.lines).map (margin ++ ·) := by
  rw [List.map_flatMap]
  refine List.flatMap_congr fun line member => ?_
  exact if_neg (given line member)

theorem shell_lines {s : Shell} (commands : s.effective ≠ []) :
    ((shellSections s).map Section.passage).flatMap Passage.lines = (commandLines s).map (margin ++ ·) := by
  have some : ¬ s.effective.isEmpty = true := mt List.isEmpty_iff.mp commands
  unfold shellSections commandLines
  rw [if_neg some, List.map_singleton, List.flatMap_singleton]
  refine flatMap_bodyLines fun line member => ?_
  rcases List.mem_append.mp member with first | command
  · split at first
    · rw [List.mem_singleton.mp first]
      decide
    · cases first
  · exact of_decide_eq_true (List.mem_filter.mp command).2

end

-- Whatever the texts of an instruction are, what is written has sections with headers of its kind,
-- application and source, and each line below them is empty or indented. So a line that opens a section
-- stands in a header. A shell that has commands is written with their lines in order, and with nothing else;
-- one that has none is not written at all.
theorem sections_of_fields (sectioned : p.Sectioned) (written : (write t p).result = .ok text) :
    ∃ passages : List Passage, text = "\n".intercalate (passages.map Passage.text) ∧
      (passages.map Passage.header).Sublist (headers p) ∧
      (∀ passage ∈ passages, ∀ line ∈ passage.lines, Indented line) ∧
      (∀ line ∈ textLines text,
        line = "" ∨ Text.Begins margin line ∨ ∃ header ∈ headers p, line ∈ textLines header) ∧
      ∀ s, p = .shell s →
        if s.effective = [] then passages = []
        else passages.flatMap Passage.lines = (commandLines s).map (margin ++ ·) := by
  have shape := (write_sections sectioned written).trans (textOf_passages _)
  have opened : ((sections t p).map Section.passage).map Passage.header = (sections t p).map Section.header := by
    rw [List.map_map]
    rfl
  have headed := opened ▸ sections_headers t p
  have indented : ∀ passage ∈ (sections t p).map Section.passage, ∀ line ∈ passage.lines, Indented line := by
    intro passage member line below
    obtain ⟨s, -, rfl⟩ := List.mem_map.mp member
    exact passage_indented s below
  refine ⟨(sections t p).map Section.passage, shape, headed, indented, ?lines, ?shell⟩
  case lines =>
    intro line member
    rw [shape] at member
    rcases indented_or_header indented member with empty | begins | ⟨passage, inside, here⟩
    · exact .inl empty
    · exact .inr (.inl begins)
    · exact .inr (.inr ⟨passage.header, headed.subset (List.mem_map_of_mem inside), here⟩)
  case shell =>
    rintro s rfl
    split
    · rename_i none
      simp [sections, shellSections, none]
    · rename_i commands
      exact shell_lines commands

-- A command whose second line reads like a header, in an application.
theorem sections_of_fields_command :
    let s : Shell := { commands := ["a\r\n%post", ""], fromRoot := true, app := some "x" }
    let text := "%appinstall x\n    cd /\n    a\n    %post"
    (write (Target.ofFormat .singularity) (.shell s)).result = .ok text ∧
      ∃ passages : List Passage, text = "\n".intercalate (passages.map Passage.text) ∧
        (passages.map Passage.header).Sublist ["%appinstall x"] ∧
        passages.flatMap Passage.lines = ["    cd /", "    a", "    %post"] := by
  intro s text
  have written : (write (Target.ofFormat .singularity) (.shell s)).result = .ok text := by decide +kernel
  have sectioned : (Instruction.shell s).Sectioned := trivial
  obtain ⟨passages, shape, headed, -, -, lines⟩ := sections_of_fields sectioned written
  have commands : s.effective ≠ [] := by decide
  have told : (commandLines s).map (margin ++ ·) = ["    cd /", "    a", "    %post"] := by decide +kernel
  have below := lines s rfl
  rw [if_neg commands, told] at below
  exact ⟨written, passages, shape, headed, below⟩

-- A shell without commands is not written, though it starts from the root, so no sections of its text have
-- the line that leads there. And a header is made with the text of an application as it is, so that a line
-- of this text can open a section.
theorem sections_unlike_fields :
    let idle : Shell := { commands := [""], fromRoot := true }
    let applied : Shell := { commands := ["make"], app := some "a\n%setup" }
    let t := Target.ofFormat .singularity
    ((write t (.shell idle)).result = .ok "" ∧ commandLines idle = ["cd /"] ∧
      ∀ passages : List Passage, (∀ passage ∈ passages, ∀ line ∈ passage.lines, Indented line) →
        "\n".intercalate (passages.map Passage.text) = "" →
        passages.flatMap Passage.lines ≠ (commandLines idle).map (margin ++ ·)) ∧
    ∃ text, (write t (.shell applied)).result = .ok text ∧ "%setup" ∈ textLines text ∧
      ∃ app, applied.app = some app ∧ "%setup" ∈ textLines app := by
  intro idle applied t
  have led : commandLines idle = ["cd /"] := by decide +kernel
  refine ⟨⟨by decide +kernel, led, fun passages indented empty below => ?_⟩, ?_⟩
  · rw [led] at below
    have line : "    cd /" ∈ passages.flatMap Passage.lines := by
      rw [below]
      decide
    obtain ⟨passage, inside, here⟩ := List.mem_flatMap.mp line
    have given : passages.map Passage.text ≠ [] := by
      intro none
      rw [List.map_eq_nil_iff.mp none] at inside
      cases inside
    have read : "    cd /" ∈ textLines ("\n".intercalate (passages.map Passage.text)) := by
      rw [lines_intercalate given, List.mem_flatMap]
      refine ⟨passage.text, List.mem_map_of_mem inside, ?_⟩
      rw [textLines_passage (indented passage inside)]
      exact List.mem_append_right _ here
    rw [empty] at read
    revert read
    decide +kernel
  · exact ⟨"%appinstall a\n%setup\n    make", by decide +kernel, by decide +kernel, "a\n%setup", rfl,
      by decide +kernel⟩

end Definition

end ContainerRecipe
