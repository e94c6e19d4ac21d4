import ContainerRecipe.Proofs.Render.Definition
import Mathlib.Data.List.Perm.Basic

namespace ContainerRecipe

instance : DecidablePred IsTemporaryPath := fun path => decidable_of_iff _ (isTemporary_iff path)

-- No path and no pattern of a copy has a line break in it.
structure Copy.Unbroken (c : Copy) : Prop where
  sources : ∀ e ∈ c.entries, ∀ source ∈ e.sources, '\n' ∉ source.toList
  destinations : ∀ e ∈ c.entries, '\n' ∉ e.destination.toList
  patterns : ∀ pattern ∈ c.exclude, '\n' ∉ pattern.toList

namespace Definition

-- An entry that has to be copied before the build: `%files` can leave nothing out, and since version 3.6 it
-- does not reach the directories for temporary files.
def Staged (v : Version) (c : Copy) (e : CopyEntry) : Prop :=
  e.sources ≠ [] ∧ (c.exclude ≠ [] ∨ (⟨3, 6⟩ : Version) ≤ v ∧ IsTemporaryPath e.destination)

instance (v : Version) (c : Copy) : DecidablePred (Staged v c) :=
  fun e => inferInstanceAs
    (Decidable (e.sources ≠ [] ∧ (c.exclude ≠ [] ∨ (⟨3, 6⟩ : Version) ≤ v ∧ IsTemporaryPath e.destination)))

-- The two commands for an entry that is staged: one that makes a directory in the image, and one that
-- copies all the sources to the destination.
inductive Stages (exclude : List String) (e : CopyEntry) : List String → Prop where
  | copied (directory : String) (whole : exclude = []) :
      Stages exclude e
        ["mkdir -p " ++ imageRoot ++ directory,
          "cp -a " ++ " ".intercalate e.sources ++ " " ++ imageRoot ++ e.destination]
  | synced (directory : String) (part : exclude ≠ []) :
      Stages exclude e
        ["mkdir -p " ++ imageRoot ++ directory,
          "rsync -a " ++ " ".intercalate (exclude.map ("--exclude=" ++ ·)) ++ " " ++
            " ".intercalate e.sources ++ " " ++ imageRoot ++ e.destination]

theorem setupLines_stages (exclude : List String) (e : CopyEntry) :
    Stages exclude e (setupLines exclude e) := by
  simp only [setupLines]
  split
  · rename_i whole
    exact .copied (placement e) (List.isEmpty_iff.mp whole)
  · rename_i part
    exact .synced (placement e) (mt List.isEmpty_iff.mpr part)

def filesTitle : Option String → String
  | none => "%files"
  | some app => "%appfiles " ++ app

-- The lines of a section, which is left out if there is nothing to stand in it: its title, and the lines of each
-- text below it behind a margin of four blanks.
def sectionLines (title : String) (body : List String) : List String :=
  if body = [] then []
  else title :: body.flatMap fun line => if line = "" then [""] else (Text.lines line).map ("    " ++ ·)

theorem flatMap_sections (parts : List Section) :
    (parts.filter (·.body ≠ [])).flatMap (fun s => s.header :: s.body.flatMap bodyLines) =
      parts.flatMap fun s => sectionLines s.header s.body := by
  induction parts with
  | nil => rfl
  | cons s rest ih =>
    rw [List.flatMap_cons, ← ih]
    by_cases empty : s.body = []
    · have here : sectionLines s.header s.body = [] := if_pos empty
      rw [List.filter_cons_of_neg (by simpa using empty), here, List.nil_append]
    · have here : sectionLines s.header s.body = s.header :: s.body.flatMap bodyLines := if_neg empty
      rw [List.filter_cons_of_pos (by simpa using empty), here, List.flatMap_cons]

section

variable {c : Copy} (fromHost : c.source = none) (t : Target)

include fromHost

theorem stagedOnHost_eq (given : e.sources ≠ []) :
    stagedOnHost t c e = decide (Staged t.singularityVersion c e) := by
  unfold stagedOnHost refusedByFiles temporaryFilesVersion
  rw [Bool.eq_iff_iff, decide_eq_true_iff, fromHost, Bool.and_eq_true, Bool.or_eq_true, Bool.and_eq_true,
    decide_eq_true_iff, isTemporary_iff]
  simp [given, Staged]

theorem effective_staged :
    c.effective.filter (stagedOnHost t c) = c.entries.filter (Staged t.singularityVersion c) := by
  unfold Copy.effective
  rw [List.filter_filter]
  refine List.filter_congr fun e _ => ?_
  by_cases given : e.sources = []
  · simp [given, Staged]
  · simp [given, stagedOnHost_eq fromHost t given]

-- Entries without a source are among those that are not staged, but they are listed by no line.
theorem effective_listed :
    (c.effective.filter fun e => !stagedOnHost t c e).flatMap filesLines =
      (c.entries.filter fun e => ¬ Staged t.singularityVersion c e).flatMap filesLines := by
  unfold Copy.effective
  rw [List.filter_filter]
  induction c.entries with
  | nil => rfl
  | cons e rest ih =>
    by_cases given : e.sources = []
    · have idle : ¬ Staged t.singularityVersion c e := fun staged => staged.1 given
      simp [given, idle, ih, filesLines]
    · have told := stagedOnHost_eq fromHost t given
      by_cases staged : Staged t.singularityVersion c e <;> simp [given, told, staged, ih]

-- A section without lines is left out.
omit fromHost in
theorem optional_section (title : String) {entries : List CopyEntry} {f : CopyEntry → List String}
    (given : ∀ e ∈ entries, f e ≠ []) :
    (if entries.isEmpty then [] else [⟨title, entries.flatMap f⟩]) =
      [(⟨title, entries.flatMap f⟩ : Section)].filter (·.body ≠ []) := by
  cases entries with
  | nil => rfl
  | cons e rest => simp [given e List.mem_cons_self]

theorem copySections_eq :
    copySections t c =
      [(⟨"%setup", (c.entries.filter (Staged t.singularityVersion c)).flatMap (setupLines c.exclude)⟩ : Section),
        ⟨filesTitle c.app, (c.entries.filter fun e => ¬ Staged t.singularityVersion c e).flatMap filesLines⟩].filter
        (·.body ≠ []) := by
  have commands : ∀ e : CopyEntry, setupLines c.exclude e ≠ [] := fun e => List.cons_ne_nil _ _
  have lines : ∀ e ∈ c.effective.filter (fun e => !stagedOnHost t c e), filesLines e ≠ [] := by
    intro e member
    have effective := (List.mem_filter.mp (List.mem_of_mem_filter member)).2
    simpa [filesLines] using effective
  have titled : filesHeader c = filesTitle c.app := by
    unfold filesHeader
    rw [fromHost]
    cases c.app <;> rfl
  unfold copySections
  simp only
  rw [optional_section _ fun e _ => commands e, optional_section _ lines, ← List.filter_append,
    effective_staged fromHost, effective_listed fromHost, titled, List.singleton_append]

theorem write_fromHost : write t (.copy c) = pure ("\n".intercalate
    (sectionLines "%setup" ((c.entries.filter (Staged t.singularityVersion c)).flatMap (setupLines c.exclude)) ++
      sectionLines (filesTitle c.app)
        ((c.entries.filter fun e => ¬ Staged t.singularityVersion c e).flatMap filesLines))) := by
  have checked : checkSource t c = pure () := by
    unfold checkSource
    rw [fromHost]
  change (do checkSource t c; return textOf (copySections t c)) = _
  rw [checked, copySections_eq fromHost, textOf_lines, flatMap_sections]
  simp only [List.flatMap_cons, List.flatMap_nil, List.append_nil]
  rfl

end

section

-- A line with something on it, and no break.
structure Plain (line : String) : Prop where
  single : '\n' ∉ line.toList
  given : line ≠ ""

theorem Plain.append (plain : Plain line) (single : '\n' ∉ rest.toList) : Plain (line ++ rest) := by
  constructor
  · rw [String.toList_append, List.mem_append, not_or]
    exact ⟨plain.single, single⟩
  · exact fun empty => plain.given (String.append_eq_empty_iff.mp empty).1

theorem Plain.sectionLines_eq {body : List String} (plain : ∀ line ∈ body, Plain line) (title : String) :
    sectionLines title body = if body = [] then [] else title :: body.map ("    " ++ ·) := by
  have lines : body.flatMap bodyLines = body.map (margin ++ ·) := by
    rw [flatMap_bodyLines fun line member => (plain line member).given]
    congr 1
    rw [List.flatMap_congr fun line member =>
      Text.lines_of_single (plain line member).single (plain line member).given, List.flatMap_singleton']
  exact congrArg (fun lines => if body = [] then [] else title :: lines) lines

theorem placement_single {e : CopyEntry} (single : '\n' ∉ e.destination.toList) :
    '\n' ∉ (placement e).toList := by
  unfold placement
  split
  · exact fun inside => single (Text.mem_dropTrailing inside)
  · split
    · rename_i cut
      split
      · decide
      · rw [String.toList_ofList]
        rw [(Text.cutLast?_eq_some_iff.mp cut).1] at single
        exact fun inside => single (List.mem_append_left _ inside)
    · decide

variable {c : Copy} (unbroken : c.Unbroken)

include unbroken

theorem setupLines_plain (member : e ∈ c.entries) : ∀ line ∈ setupLines c.exclude e, Plain line := by
  have space : '\n' ∉ " ".toList := by decide
  have root : '\n' ∉ imageRoot.toList := by decide
  have sources := Text.not_mem_intercalate space (unbroken.sources e member)
  have destination := unbroken.destinations e member
  have patterns : '\n' ∉ (" ".intercalate (c.exclude.map ("--exclude=" ++ ·))).toList := by
    refine Text.not_mem_intercalate space fun option given => ?_
    obtain ⟨pattern, member, rfl⟩ := List.mem_map.mp given
    simpa using unbroken.patterns pattern member
  have directory : Plain ("mkdir -p " ++ imageRoot ++ placement e) :=
    (Plain.append ⟨by decide, by decide⟩ root).append (placement_single destination)
  intro line written
  simp only [setupLines, List.mem_cons, List.not_mem_nil, or_false] at written
  rcases written with rfl | rfl
  · exact directory
  · refine ((Plain.append ?_ space).append root).append destination
    split
    · exact Plain.append ⟨by decide, by decide⟩ sources
    · exact ((Plain.append ⟨by decide, by decide⟩ patterns).append space).append sources

theorem filesLines_plain (member : e ∈ c.entries) : ∀ line ∈ filesLines e, Plain line := by
  intro line written
  obtain ⟨source, given, rfl⟩ := List.mem_map.mp written
  have first := unbroken.sources e member source given
  have second := unbroken.destinations e member
  constructor
  · simp [first, second]
  · intro empty
    simpa using congrArg String.length empty

end

-- The entries of a copy from the build host are written in two sections, each of which is left out if it
-- has no line: commands for the staged entries, and then a line for each source of the others. What is
-- staged and what is not make up the entries, and in a release that refuses temporary destinations none of
-- them is listed. Unless a path or a pattern is itself broken into lines, each command and each row is a line.
theorem copy_partitioned (t : Target) {c : Copy} (fromHost : c.source = none) :
    let staged := c.entries.filter (Staged t.singularityVersion c)
    let listed := c.entries.filter fun e => ¬ Staged t.singularityVersion c e
    let rows := listed.flatMap fun e => e.sources.map fun source => source ++ " " ++ e.destination
    ∃ commands, List.Forall₂ (Stages c.exclude) staged commands ∧
      write t (.copy c) = pure ("\n".intercalate
        (sectionLines "%setup" commands.flatten ++ sectionLines (filesTitle c.app) rows)) ∧
      (staged ++ listed).Perm c.entries ∧
      ((⟨3, 6⟩ : Version) ≤ t.singularityVersion →
        ∀ e ∈ listed, e.sources ≠ [] → ¬ IsTemporaryPath e.destination) ∧
      (c.Unbroken → (∀ line ∈ commands.flatten ++ rows, '\n' ∉ line.toList) ∧
        write t (.copy c) = pure ("\n".intercalate
          ((if commands.flatten = [] then [] else "%setup" :: commands.flatten.map ("    " ++ ·)) ++
            (if rows = [] then [] else filesTitle c.app :: rows.map ("    " ++ ·))))) := by
  intro staged listed rows
  have written : write t (.copy c) = pure ("\n".intercalate
      (sectionLines "%setup" (staged.map (setupLines c.exclude)).flatten ++
        sectionLines (filesTitle c.app) rows)) := by
    rw [write_fromHost fromHost, List.flatMap_def]
    rfl
  refine ⟨staged.map (setupLines c.exclude), ?staging, written, ?parted, ?refused, ?plain⟩
  case staging =>
    rw [List.forall₂_map_right_iff, List.forall₂_same]
    exact fun e _ => setupLines_stages c.exclude e
  case parted =>
    have parts := List.filter_append_perm (fun e => decide (Staged t.singularityVersion c e)) c.entries
    simpa [staged, listed] using parts
  case refused =>
    intro recent e member given temporary
    have other := of_decide_eq_true (List.mem_filter.mp member).2
    exact other ⟨given, .inr ⟨recent, temporary⟩⟩
  case plain =>
    intro unbroken
    have commands : ∀ line ∈ (staged.map (setupLines c.exclude)).flatten, Plain line := by
      rw [← List.flatMap_def]
      intro line written
      obtain ⟨e, staging, command⟩ := List.mem_flatMap.mp written
      exact setupLines_plain unbroken (List.mem_of_mem_filter staging) line command
    have plain : ∀ line ∈ rows, Plain line := by
      intro line written
      obtain ⟨e, listing, row⟩ := List.mem_flatMap.mp written
      exact filesLines_plain unbroken (List.mem_of_mem_filter listing) line row
    refine ⟨List.forall_mem_append.mpr ⟨fun line member => (commands line member).single,
      fun line member => (plain line member).single⟩, ?_⟩
    rw [written, Plain.sectionLines_eq commands, Plain.sectionLines_eq plain]

-- Two sources for a temporary directory, one source for another place, and an entry that copies nothing.
theorem copy_partitioned_temporary :
    let t := Target.ofFormat .singularity
    let c : Copy := {
      entries := [⟨["a", "b"], "/tmp/x/"⟩, ⟨["c"], "/opt/c"⟩, ⟨[], "/opt/none"⟩]
      app := some "web" }
    c.source = none ∧ ∃ directory, write t (.copy c) = pure ("\n".intercalate
      (sectionLines "%setup" ["mkdir -p " ++ imageRoot ++ directory, "cp -a a b " ++ imageRoot ++ "/tmp/x/"] ++
        ["%appfiles web", "    c /opt/c"])) := by
  intro t c
  obtain ⟨commands, staging, written, -⟩ := copy_partitioned t (c := c) rfl
  have staged : c.entries.filter (Staged t.singularityVersion c) = [⟨["a", "b"], "/tmp/x/"⟩] := by
    decide +kernel
  have listed : (c.entries.filter fun e => ¬ Staged t.singularityVersion c e) =
      [⟨["c"], "/opt/c"⟩, ⟨[], "/opt/none"⟩] := by
    decide +kernel
  have row : sectionLines (filesTitle (some "web")) ["c /opt/c"] = ["%appfiles web", "    c /opt/c"] := by
    decide +kernel
  rw [staged] at staging
  rw [listed] at written
  cases staging with
  | cons stages rest =>
    cases rest
    cases stages with
    | copied directory whole =>
      refine ⟨rfl, directory, ?_⟩
      rw [← row]
      exact written
    | synced directory part => exact absurd rfl part

end Definition

end ContainerRecipe
