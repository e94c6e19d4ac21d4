import ContainerRecipe.Proofs.Instruction.Unions
import ContainerRecipe.Proofs.Render.Dockerfile
import ContainerRecipe.Proofs.Render.Merging

namespace ContainerRecipe

namespace Instruction

-- A run starts what the first of its members that starts something does.
theorem started?_of_merged (merged : Merged run p) : p.started? = (run.filterMap started?).head? := by
  rw [List.head?_filterMap]
  cases merged with
  | alone => cases told : p.started? <;> simp [told]
  | @runscripts rs r several options commands =>
    have kinds : (rs.map Instruction.runscript).findSome? started? =
        rs.findSome? fun r => r.commands.head? := by
      rw [List.findSome?_map]
      rfl
    have first : (Instruction.runscript r).started? = r.commands.head? := rfl
    rw [first, commands, head?_eraseDups, List.head?_flatMap, kinds]
  | shells | copies | environments | labels | comments | arguments =>
    refine (List.findSome?_eq_none_iff.mpr fun q member => ?_).symm
    obtain ⟨_, -, rfl⟩ := List.mem_map.mp member
    rfl

theorem filterMap_started?_of_merged (merged : List.Forall₂ Merged parts outputs) :
    outputs.filterMap started? = parts.filterMap fun run => (run.filterMap started?).head? := by
  induction merged with
  | nil => rfl
  | cons here _ ih => rw [List.filterMap_cons, List.filterMap_cons, started?_of_merged here, ih]

section

variable {items outputs : List Instruction} (merged : List.Forall₂ Merged (runs items) outputs)
include merged

theorem composed_of_merged (composed : ∀ p ∈ items, ¬ p.Inserted) : ∀ p ∈ outputs, ¬ p.Inserted := by
  intro p member inserted
  have back : ∃ q ∈ items, q.Inserted := by
    refine exists_of_merged merged (fun run q becomes holds => ?_) ⟨p, member, inserted⟩
    cases becomes with
    | alone => exact ⟨q, List.mem_singleton_self q, holds⟩
    | shells | copies | environments | labels | comments | arguments | runscripts => cases holds
  obtain ⟨q, among, holds⟩ := back
  exact composed q among holds

-- The command that counts stands last in the last run that starts something; merged, it is the first one
-- of that run.
theorem last_started (last : (items.filterMap started?).getLast? = some command) :
    ∃ earlier run later first, runs items = earlier ++ run :: later ∧
      (∀ p ∈ later.flatten, p.started? = none) ∧ (run.filterMap started?).head? = some first ∧
      (run.filterMap started?).getLast? = some command ∧
      (outputs.filterMap started?).getLast? = some first := by
  have searched : ((runs items).filterMap fun run => (run.filterMap started?).getLast?).getLast? =
      some command := by
    rw [← runs_flatten items, List.filterMap_flatten, List.getLast?_flatten, ← List.map_reverse,
      List.findSome?_map] at last
    exact List.getLast?_filterMap.trans last
  obtain ⟨earlier, run, later, order, found, none⟩ := getLast?_filterMap_eq_some_iff.mp searched
  have silent : ∀ quiet ∈ later, quiet.filterMap started? = [] := by
    intro quiet member
    exact List.getLast?_eq_none_iff.mp (none quiet member)
  obtain ⟨first, starts⟩ : ∃ first, (run.filterMap started?).head? = some first := by
    cases commands : run.filterMap started? with
    | nil =>
      rw [commands] at found
      cases found
    | cons first rest => exact ⟨first, rfl⟩
  refine ⟨earlier, run, later, first, order, ?_, starts, found, ?_⟩
  · intro p member
    obtain ⟨quiet, among, inside⟩ := List.mem_flatten.mp member
    exact List.filterMap_eq_nil_iff.mp (silent quiet among) p inside
  · rw [filterMap_started?_of_merged merged]
    refine getLast?_filterMap_eq_some_iff.mpr ⟨earlier, run, later, order, starts, fun quiet member => ?_⟩
    rw [silent quiet member, List.head?_nil]

-- Without a command before merging there is none after it.
theorem none_started (none : items.filterMap started? = []) : outputs.filterMap started? = [] := by
  rw [filterMap_started?_of_merged merged, List.filterMap_eq_nil_iff]
  intro run member
  rw [List.head?_eq_none_iff, List.filterMap_eq_nil_iff]
  intro p inside
  exact List.filterMap_eq_nil_iff.mp none p (mem_runs.mpr ⟨run, member, inside⟩)

end

end Instruction

namespace Stage

open Instruction Dockerfile

-- Texts stand for the commands they start, so the last text is that of the last command.
theorem last_of_starts (starts : List.Forall₂ Starts commands texts)
    (last : commands.getLast? = some command) : ∃ t, texts.getLast? = some t ∧ Starts command t := by
  have reversed := List.forall₂_reverse_iff.mpr starts
  rw [← List.head?_reverse] at last ⊢
  generalize commands.reverse = backward at last reversed
  generalize texts.reverse = lines at reversed ⊢
  cases reversed with
  | nil => cases last
  | cons here _ =>
    cases last
    exact ⟨_, rfl, here⟩

theorem Written.starts {s : Stage} (written : s.Written merged texts text) (docker : s.target.format = .docker)
    (made : s.document merged = pure ps) (composed : ∀ p ∈ ps, ¬ p.Inserted) :
    List.Forall₂ Starts (ps.filterMap started?) (entrypoints texts) := by
  obtain ⟨others, again, each⟩ := written.each
  have same : others = ps := by
    rw [made] at again
    cases congrArg Outcome.result again
    rfl
  subst same
  refine entrypoints_written (each.imp fun p t accepted => ?_) composed
  rw [Instruction.render, docker] at accepted
  exact accepted

theorem Written.lines {s : Stage} (written : s.Written merged texts text)
    (starts : List.Forall₂ Starts commands (entrypoints texts)) (legible : Legible texts) :
    entrypoints (textLines text) = entrypoints texts := by
  rw [written.joined]
  refine entrypoints_lines (fun t member => ?_) legible
  obtain ⟨command, -, here⟩ := exists_related starts.flip t member
  exact Starts.single here

-- What merging does to the entrypoint of a Docker image, which is told by its last instruction for it.
-- Where no other instruction writes a line that looks the same, reading the text line by line finds it.
theorem merged_entrypoints (s : Stage) (docker : s.target.format = .docker)
    (composed : ∀ p ∈ s.instructions, ¬ p.Inserted) (plain : (s.render false).result = .ok text)
    (joined : (s.render true).result = .ok mergedText) :
    ∃ texts mergedTexts, s.Written false texts text ∧ s.Written true mergedTexts mergedText ∧
      (entrypoints texts = [] ∧ entrypoints mergedTexts = [] ∨
        ∃ earlier run later first last e e', runs s.instructions = earlier ++ run :: later ∧
          (∀ p ∈ later.flatten, p.started? = none) ∧
          (run.filterMap started?).head? = some first ∧ (run.filterMap started?).getLast? = some last ∧
          (entrypoints texts).getLast? = some e ∧ (entrypoints mergedTexts).getLast? = some e' ∧
          (e = e' ↔ Shell.splitWords? last = Shell.splitWords? first)) ∧
      (Legible texts → entrypoints (textLines text) = entrypoints texts) ∧
      (Legible mergedTexts → entrypoints (textLines mergedText) = entrypoints mergedTexts) := by
  obtain ⟨texts, written⟩ := exists_written plain
  obtain ⟨mergedTexts, rewritten⟩ := exists_written joined
  obtain ⟨outputs, made, merged⟩ := s.document_merged
  have starts := written.starts docker rfl composed
  have mergedStarts := rewritten.starts docker made (composed_of_merged merged composed)
  refine ⟨texts, mergedTexts, written, rewritten, ?_, written.lines starts, rewritten.lines mergedStarts⟩
  cases commands : (s.instructions.filterMap started?).getLast? with
  | none =>
    left
    rw [List.getLast?_eq_none_iff] at commands
    rw [commands] at starts
    rw [none_started merged commands] at mergedStarts
    exact ⟨List.forall₂_nil_left_iff.mp starts, List.forall₂_nil_left_iff.mp mergedStarts⟩
  | some last =>
    right
    obtain ⟨earlier, run, later, first, order, silent, begins, ends, counts⟩ := last_started merged commands
    obtain ⟨e, final, here⟩ := last_of_starts starts commands
    obtain ⟨e', mergedFinal, there⟩ := last_of_starts mergedStarts counts
    exact ⟨earlier, run, later, first, last, e, e', order, silent, begins, ends, final, mergedFinal,
      starts_same_iff here there⟩

-- Two runscripts that spell the same words in two ways.
theorem merged_entrypoints_spelled :
    let runscript (command : String) : Instruction := .runscript { commands := [command] }
    let stage : Stage :=
      { name := none
        base := { image := "alpine" }
        target := Target.ofFormat .docker
        layers := [.instruction (runscript "serve all"), .instruction (runscript "serve 'all'")] }
    let text := "FROM alpine\nENTRYPOINT [\"serve\", \"all\"]\nENTRYPOINT [\"serve\", \"all\"]"
    let mergedText := "FROM alpine\nENTRYPOINT [\"serve\", \"all\"]"
    ∃ texts mergedTexts e, stage.Written false texts text ∧ stage.Written true mergedTexts mergedText ∧
      (entrypoints texts).getLast? = some e ∧ (entrypoints mergedTexts).getLast? = some e := by
  intro runscript stage text mergedText
  have composed : ∀ p ∈ stage.instructions, ¬ p.Inserted := by
    simp [stage, runscript, Stage.instructions, Layer.instructions, Inserted]
  have plain : (stage.render false).result = .ok text := by decide +kernel
  have joined : (stage.render true).result = .ok mergedText := by decide +kernel
  have cut : runs stage.instructions =
      [[.baseImage { image := "alpine" }], [runscript "serve all", runscript "serve 'all'"]] := by
    decide +kernel
  have spelled : Shell.splitWords? "serve 'all'" = Shell.splitWords? "serve all" := by decide +kernel
  obtain ⟨texts, mergedTexts, written, rewritten, entrypoints, -⟩ :=
    merged_entrypoints stage rfl composed plain joined
  rcases entrypoints with ⟨none, -⟩ | ⟨earlier, run, later, first, last, e, e', order, silent, begins, ends,
    final, mergedFinal, same⟩
  · have starts := written.starts rfl rfl composed
    rw [none] at starts
    cases starts
  · rw [cut] at order
    rcases earlier with _ | ⟨base, _ | ⟨other, more⟩⟩
    · obtain ⟨-, rfl⟩ := List.cons.inj order
      cases silent (runscript "serve all") (by simp)
    · obtain ⟨rfl, -⟩ := List.cons.inj (List.cons.inj order).2
      cases begins
      cases ends
      rw [← same.mpr spelled] at mergedFinal
      exact ⟨texts, mergedTexts, e, written, rewritten, final, mergedFinal⟩
    · simp at order

-- Of two commands that are not the same, the last one counts, and merged the first one.
theorem merged_entrypoints_differ :
    let runscript (command : String) : Layer := .instruction (.runscript { commands := [command] })
    let stage : Stage :=
      { name := none
        base := { image := "ubuntu:22.04" }
        target := Target.ofFormat .docker
        layers := [runscript "a", runscript "b"] }
    let text := "FROM ubuntu:22.04\nENTRYPOINT [\"a\"]\nENTRYPOINT [\"b\"]"
    let mergedText := "FROM ubuntu:22.04\nENTRYPOINT [\"a\"]"
    (∀ p ∈ stage.instructions, ¬ p.Inserted) ∧ (stage.render false).result = .ok text ∧
      (stage.render true).result = .ok mergedText ∧
      (entrypoints (textLines text)).getLast? = some "ENTRYPOINT [\"b\"]" ∧
      (entrypoints (textLines mergedText)).getLast? = some "ENTRYPOINT [\"a\"]" := by
  intro runscript stage text mergedText
  have composed : ∀ p ∈ stage.instructions, ¬ p.Inserted := by
    simp [stage, runscript, Stage.instructions, Layer.instructions, Inserted]
  exact ⟨composed, by decide +kernel, by decide +kernel, by decide +kernel, by decide +kernel⟩

end Stage

end ContainerRecipe
