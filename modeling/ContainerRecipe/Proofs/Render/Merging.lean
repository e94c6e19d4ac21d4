import ContainerRecipe.Proofs.Instruction.Merged
import ContainerRecipe.Proofs.Render.Failure

namespace ContainerRecipe

section

open Instruction

-- The first command of a merged runscript is the first one of a runscript of the run.
theorem Dockerfile.refused_of_merged (merged : Merged run p) (refused : Refuses p) :
    ∃ q ∈ run, Refuses q := by
  cases merged with
  | alone => exact ⟨p, List.mem_singleton_self _, refused⟩
  | @runscripts rs r several options commands =>
    obtain ⟨command, rest, starts, unsplit⟩ := refused
    have first : (rs.flatMap (·.commands)).head? = some command := by
      rw [← head?_eraseDups, ← commands, starts, List.head?_cons]
    rw [List.head?_flatMap] at first
    obtain ⟨r', member, begins⟩ := List.exists_of_findSome?_eq_some first
    obtain ⟨more, shape⟩ := List.head?_eq_some_iff.mp begins
    exact ⟨.runscript r', List.mem_map_of_mem member, command, more, shape, unsplit⟩
  | shells | copies | environments | labels | comments | arguments => cases refused

-- A merged copy has the entries of all copies of the run, and their options are the same.
theorem Definition.refuses_iff_of_merged (v : Version) (merged : Merged run p) :
    Refuses v p ↔ ∃ q ∈ run, Refuses v q := by
  cases merged with
  | alone => simp
  | @copies cs c several options entries =>
    have member_entries : ∀ e, e ∈ c.entries ↔ ∃ x ∈ cs, e ∈ x.entries := by
      intro e
      rw [entries, List.mem_eraseDups, List.mem_flatMap]
    simp only [List.mem_map, exists_exists_and_eq_and, Refuses]
    constructor
    · rintro ⟨source, cause⟩
      have told : ∀ x ∈ cs, x.source.isSome = true ∧ (x.app.isSome = true ↔ c.app.isSome = true) := by
        intro x member
        obtain ⟨app, origin, -, -⟩ := options x member
        exact ⟨origin ▸ source, by rw [app]⟩
      obtain ⟨first, member⟩ := List.exists_mem_of_length_pos (Nat.lt_trans Nat.zero_lt_one several)
      rcases cause with app | old | ⟨recent, e, inside, sources, temporary⟩
      · exact ⟨first, member, (told first member).1, .inl ((told first member).2.mpr app)⟩
      · exact ⟨first, member, (told first member).1, .inr (.inl old)⟩
      · obtain ⟨x, among, there⟩ := (member_entries e).mp inside
        exact ⟨x, among, (told x among).1, .inr (.inr ⟨recent, e, there, sources, temporary⟩)⟩
    · rintro ⟨x, member, source, cause⟩
      obtain ⟨app, origin, -, -⟩ := options x member
      rw [app, origin]
      refine ⟨source, cause.imp_right (Or.imp_right ?_)⟩
      rintro ⟨recent, e, inside, sources, temporary⟩
      exact ⟨recent, e, (member_entries e).mpr ⟨x, member, inside⟩, sources, temporary⟩
  | shells | environments | labels | comments | arguments | runscripts => simp [Refuses]

-- Merging does not change whether something is refused; in a Dockerfile it can only become less.
theorem Format.refused_of_merged (format : Format) (v : Version) (merged : Merged run p)
    (refused : format.Refuses v p) : ∃ q ∈ run, format.Refuses v q := by
  cases format with
  | docker => exact Dockerfile.refused_of_merged merged refused
  | singularity => exact (Definition.refuses_iff_of_merged v merged).mp refused
  | bash => cases refused

theorem Format.merged_of_refused {format : Format} (other : format ≠ .docker) (v : Version)
    (merged : Merged run p) (refused : ∃ q ∈ run, format.Refuses v q) : format.Refuses v p := by
  cases format with
  | docker => exact absurd rfl other
  | singularity => exact (Definition.refuses_iff_of_merged v merged).mpr refused
  | bash =>
    obtain ⟨q, -, never⟩ := refused
    cases never

end

namespace Stage

-- The instructions of a stage are merged without an error, whatever they are.
theorem document_merged (s : Stage) : ∃ outputs, s.document true = pure outputs ∧
    List.Forall₂ Instruction.Merged (Instruction.runs s.instructions) outputs := by
  obtain ⟨outputs, made, merged⟩ := Instruction.mergeRuns_merged s.instructions
  refine ⟨outputs, ?_, merged⟩
  simp only [document, made]
  rfl

theorem document_total (s : Stage) (merged : Bool) : ∃ ps, s.document merged = pure ps := by
  cases merged with
  | false => exact ⟨s.instructions, rfl⟩
  | true =>
    obtain ⟨outputs, made, -⟩ := s.document_merged
    exact ⟨outputs, made⟩

-- The texts of the instructions of a document, and the text that is made of them.
structure Written (s : Stage) (merged : Bool) (texts : List String) (text : String) : Prop where
  each : ∃ ps, s.document merged = pure ps ∧
    List.Forall₂ (fun p t => (p.render s.target).result = .ok t) ps texts
  joined : text = "\n".intercalate (texts.filter (· ≠ ""))

theorem exists_written {s : Stage} (rendered : (s.render merged).result = .ok text) :
    ∃ texts, s.Written merged texts text := by
  obtain ⟨ps, made⟩ := s.document_total merged
  unfold render at rendered
  rw [made, pure_bind] at rendered
  obtain ⟨texts, written, joined⟩ := Outcome.bind_ok_iff.mp rendered
  cases joined
  have each := (Outcome.forall₂_of_mapM written).imp fun _ _ => Outcome.mapError_ok_iff.mp
  exact ⟨texts, ⟨ps, made, each⟩, rfl⟩

theorem render_ne_mergeError (s : Stage) (merged : Bool) (e : MergeError) :
    (s.render merged).result ≠ .error (.merge e) := by
  intro failed
  obtain ⟨ps, written⟩ := s.document_total merged
  unfold render at failed
  rw [written, pure_bind, Outcome.bind_error_iff] at failed
  rcases failed with writing | ⟨_, -, never⟩
  · obtain ⟨p, -, told⟩ := Outcome.error_of_mapM writing
    -- Writing one instruction fails for reasons of the format only.
    unfold Outcome.mapError at told
    cases result : (p.render s.target).result <;> simp [result, Except.mapError] at told
  · cases never

theorem render_fails_of_merged (s : Stage) (failed : (s.render true).Fails) : (s.render false).Fails := by
  obtain ⟨outputs, made, merged⟩ := s.document_merged
  rw [render_fails_iff_of_document made] at failed
  rw [render_fails_iff]
  exact Instruction.exists_of_merged merged (fun _ _ => Format.refused_of_merged _ _) failed

theorem render_fails_merged (s : Stage) (other : s.target.format ≠ .docker)
    (failed : (s.render false).Fails) : (s.render true).Fails := by
  obtain ⟨outputs, made, merged⟩ := s.document_merged
  rw [render_fails_iff_of_document made]
  rw [render_fails_iff] at failed
  exact Instruction.exists_merged merged (fun _ _ => Format.merged_of_refused other _) failed

end Stage

namespace Instruction

-- Cutting and merging loses nothing, whatever the list, and no stage fails because of it.
theorem mergeRuns_lossless (items : List Instruction) :
    (∃ parts outputs, mergeRuns items = pure outputs ∧ parts.flatten = items ∧
      List.Forall₂ Merged parts outputs ∧
      (∀ run ∈ parts, run ≠ [] ∧ run.Pairwise fun p q => joins p q = true ∧ joins q p = true) ∧
      parts.IsChain Apart) ∧
    ∀ (s : Stage) (merged : Bool) (e : MergeError), (s.render merged).result ≠ .error (.merge e) := by
  obtain ⟨outputs, made, merged⟩ := mergeRuns_merged items
  have joined : ∀ run ∈ runs items,
      run ≠ [] ∧ run.Pairwise fun p q => joins p q = true ∧ joins q p = true := by
    intro run member
    have isRun := runs_isRun items run member
    exact ⟨isRun.ne_nil, isRun.pairwise⟩
  exact ⟨⟨runs items, outputs, made, runs_flatten items, merged, joined, runs_apart items⟩,
    Stage.render_ne_mergeError⟩

end Instruction

namespace Recipe

theorem render_fails_iff (r : Recipe) (merged : Bool) : (r.render merged).Fails ↔
    r.checkStages.Fails ∨ ∃ stage ∈ r.stages, (stage.render merged).Fails := by
  unfold render
  rw [Outcome.bind_unit_fails_iff, Outcome.bind_fails_iff_left fun _ => Outcome.pure_not_fails _,
    Outcome.mapM_fails_iff]

-- A document that can be written as it stands can be written merged, and outside of Dockerfiles a
-- document that can be written merged can be written as it stands.
theorem merging_keeps_writable (r : Recipe) :
    ((∃ text, (r.render false).result = .ok text) → ∃ text, (r.render true).result = .ok text) ∧
      ((∀ stage ∈ r.stages, stage.target.format ≠ .docker) →
        (∃ text, (r.render true).result = .ok text) → ∃ text, (r.render false).result = .ok text) := by
  simp only [Outcome.ok_iff_not_fails, render_fails_iff]
  constructor
  · refine mt (Or.imp_right ?_)
    rintro ⟨stage, member, failed⟩
    exact ⟨stage, member, stage.render_fails_of_merged failed⟩
  · refine fun other => mt (Or.imp_right ?_)
    rintro ⟨stage, member, failed⟩
    exact ⟨stage, member, stage.render_fails_merged (other stage member) failed⟩

-- Two copies from another stage, which become one.
theorem merging_keeps_writable_copies :
    let copy (path : String) : Layer :=
      .instruction (.copy { entries := [⟨[path], path⟩], source := some "devel" })
    let stage : Stage :=
      { name := none
        base := { image := "alpine" }
        target := Target.ofFormat .singularity
        layers := [copy "/opt/a", copy "/opt/b"] }
    (∃ text, ((⟨[stage]⟩ : Recipe).render true).result = .ok text) ∧
      ∃ text, ((⟨[stage]⟩ : Recipe).render false).result = .ok text := by
  intro copy stage
  have plain : ∃ text, ((⟨[stage]⟩ : Recipe).render false).result = .ok text := ⟨_, rfl⟩
  have merged := (merging_keeps_writable ⟨[stage]⟩).1 plain
  refine ⟨merged, (merging_keeps_writable ⟨[stage]⟩).2 ?_ merged⟩
  intro other member
  have same : other = stage := by simpa using member
  subst same
  decide

end Recipe

end ContainerRecipe
