import ContainerRecipe.Proofs.Outcome
import ContainerRecipe.Recipe

namespace ContainerRecipe

-- A path is one of the two directories for temporary files, or leads into it.
def IsTemporaryPath (path : String) : Prop :=
  ∃ directory, (directory = "/tmp" ∨ directory = "/var/tmp") ∧
    (path = directory ∨ ∃ rest, path = directory ++ "/" ++ rest)

theorem isTemporary_iff (path : String) : isTemporary path = true ↔ IsTemporaryPath path := by
  have below : ∀ directory : String, (directory ++ "/").toList.isPrefixOf path.toList = true ↔
      ∃ rest, path = directory ++ "/" ++ rest := by
    intro directory
    rw [List.isPrefixOf_iff_prefix]
    constructor
    · rintro ⟨rest, same⟩
      refine ⟨String.ofList rest, String.toList_inj.mp ?_⟩
      rw [String.toList_append, String.toList_ofList, same]
    · rintro ⟨rest, rfl⟩
      exact ⟨rest.toList, String.toList_append.symm⟩
  unfold isTemporary IsTemporaryPath
  simp only [List.any_cons, List.any_nil, Bool.or_false, Bool.or_eq_true, beq_iff_eq, below,
    or_and_right, exists_or, exists_eq_left]

-- The first command of a runscript has quotes that do not match.
def Dockerfile.Refuses : Instruction → Prop
  | .runscript r => ∃ command rest, r.commands = command :: rest ∧ Shell.splitWords? command = none
  | _ => False

-- What Singularity `v` has no form for: a stage name before 3.2, and copies from another stage into an
-- application, before 3.2, or into a directory for temporary files since 3.6.
def Definition.Refuses (v : Version) : Instruction → Prop
  | .baseImage b => b.stage.isSome ∧ v < ⟨3, 2⟩
  | .copy c => c.source.isSome ∧ (c.app.isSome ∨ v < ⟨3, 2⟩ ∨ (⟨3, 6⟩ : Version) ≤ v ∧
      ∃ e ∈ c.entries, e.sources ≠ [] ∧ IsTemporaryPath e.destination)
  | _ => False

namespace Dockerfile

theorem result_ignoreApp (p : Instruction) : (ignoreApp p).result = .ok () := by
  unfold ignoreApp
  cases p.app with
  | none => rfl
  | some app => rfl

theorem ignoreApp_not_fails (p : Instruction) : ¬ (ignoreApp p).Fails :=
  Outcome.not_fails_of_ok (result_ignoreApp p)

theorem result_after_ignoreApp (p : Instruction) (x : Outcome RenderError α) :
    (do ignoreApp p; x).result = x.result := by
  rw [Outcome.bind_of_ok (result_ignoreApp p)]

theorem runscript_fails_iff (r : Runscript) : (runscript r).Fails ↔ Refuses (.runscript r) := by
  unfold runscript
  simp only [Refuses]
  cases r.commands with
  | nil => simp
  | cons command rest =>
    simp only [Outcome.guarded_fails_iff, Outcome.warn_not_fails, and_false, false_or, List.cons.injEq]
    cases told : Shell.splitWords? command with
    | none => exact ⟨fun _ => ⟨command, rest, ⟨rfl, rfl⟩, told⟩, fun _ => Outcome.throw_fails _⟩
    | some words =>
      constructor
      · intro failed
        exact absurd failed (Outcome.pure_not_fails _)
      · rintro ⟨_, _, ⟨rfl, rfl⟩, unsplit⟩
        rw [told] at unsplit
        cases unsplit

theorem write_fails_iff (p : Instruction) : (write p).Fails ↔ Refuses p := by
  cases p with
  | runscript r =>
    unfold write
    rw [Outcome.bind_unit_fails_iff, runscript_fails_iff]
    simp only [ignoreApp_not_fails, false_or]
  | shell s | copy c | environment e | labels l | workdir w =>
    unfold write
    rw [Outcome.bind_unit_fails_iff]
    simp [ignoreApp_not_fails, Refuses]
  | baseImage b | comment c | verbatim v | user u | arguments a | fragment f =>
    simp [write, Refuses]

end Dockerfile

namespace Definition

theorem requireSingularity_fails_iff (t : Target) (feature : String) (required : Version) :
    (t.requireSingularity feature required).Fails ↔ t.singularityVersion < required := by
  unfold Target.requireSingularity
  split
  · simp [*]
  · simp [*]

theorem baseImage_fails_iff (t : Target) (b : BaseImage) :
    (baseImage t b).Fails ↔ Refuses t.singularityVersion (.baseImage b) := by
  unfold baseImage
  simp only [Refuses, Outcome.guarded_fails_iff, requireSingularity_fails_iff, multiStageVersion,
    Outcome.pure_not_fails, or_false]

theorem refusedByFiles_iff (t : Target) (c : Copy) :
    (∃ e ∈ c.effective, refusedByFiles t e = true) ↔ (⟨3, 6⟩ : Version) ≤ t.singularityVersion ∧
      ∃ e ∈ c.entries, e.sources ≠ [] ∧ IsTemporaryPath e.destination := by
  simp only [Copy.effective, refusedByFiles, temporaryFilesVersion, List.mem_filter, Bool.and_eq_true,
    isTemporary_iff, Bool.not_eq_true', List.isEmpty_eq_false_iff]
  constructor
  · rintro ⟨e, ⟨member, sources⟩, recent, temporary⟩
    exact ⟨of_decide_eq_true recent, e, member, sources, temporary⟩
  · rintro ⟨recent, e, member, sources, temporary⟩
    exact ⟨e, ⟨member, sources⟩, decide_eq_true recent, temporary⟩

theorem checkSource_fails_iff (t : Target) (c : Copy) :
    (checkSource t c).Fails ↔ Refuses t.singularityVersion (.copy c) := by
  unfold checkSource
  simp only [Refuses, ← refusedByFiles_iff]
  cases c.source with
  | none => simp
  | some stage =>
    cases c.app with
    | some app => simp
    | none =>
      simp only [Outcome.bind_unit_fails_iff, Outcome.guarded_fails_iff, requireSingularity_fails_iff,
        multiStageVersion, Outcome.warn_not_fails, and_false, false_or, Option.isSome_some, true_and,
        Option.isSome_none, Bool.false_eq_true]
      cases found : c.effective.find? (refusedByFiles t) with
      | none =>
        have free : ¬ ∃ e ∈ c.effective, refusedByFiles t e = true := by
          rintro ⟨e, member, refused⟩
          exact List.find?_eq_none.mp found e member refused
        simp only [free, Outcome.pure_not_fails, or_false]
      | some e =>
        have refused : ∃ e ∈ c.effective, refusedByFiles t e = true :=
          ⟨e, List.mem_of_find?_eq_some found, List.find?_some found⟩
        simp only [refused, Outcome.throw_fails, or_true]

theorem write_fails_iff (t : Target) (p : Instruction) :
    (write t p).Fails ↔ Refuses t.singularityVersion p := by
  cases p with
  | baseImage b => exact baseImage_fails_iff t b
  | copy c =>
    unfold write
    rw [Outcome.bind_fails_iff_left fun _ => Outcome.pure_not_fails _, checkSource_fails_iff]
  | _ => simp [write, Refuses]

end Definition

theorem HostScript.write_not_fails (p : Instruction) : ¬ (HostScript.write p).Fails := by
  cases p with
  | copy c | workdir w | runscript r =>
    unfold HostScript.write HostScript.skip
    rw [Outcome.bind_unit_fails_iff]
    simp
  | _ => exact Outcome.pure_not_fails _

-- What a format has no form for.
def Format.Refuses (format : Format) (v : Version) (p : Instruction) : Prop :=
  match format with
  | .docker => Dockerfile.Refuses p
  | .singularity => Definition.Refuses v p
  | .bash => False

theorem Instruction.render_fails_iff (t : Target) (p : Instruction) :
    (p.render t).Fails ↔ t.format.Refuses t.singularityVersion p := by
  unfold render Format.Refuses
  cases t.format with
  | docker => exact Dockerfile.write_fails_iff p
  | singularity => exact Definition.write_fails_iff t p
  | bash => simp only [HostScript.write_not_fails]

-- A stage is not written exactly if an instruction of its document is refused.
theorem Stage.render_fails_iff_of_document {s : Stage} (written : s.document merged = pure ps) :
    (s.render merged).Fails ↔ ∃ p ∈ ps, s.target.format.Refuses s.target.singularityVersion p := by
  unfold render
  rw [written, pure_bind, Outcome.bind_fails_iff_left fun _ => Outcome.pure_not_fails _,
    Outcome.mapM_fails_iff]
  simp only [Outcome.mapError_fails_iff, Instruction.render_fails_iff]

theorem Stage.render_fails_iff (s : Stage) : (s.render false).Fails ↔
    ∃ p ∈ s.instructions, s.target.format.Refuses s.target.singularityVersion p :=
  render_fails_iff_of_document rfl

namespace Recipe

theorem checkStages_fails_iff {r : Recipe}
    (uniform : ∀ stage ∈ r.stages, stage.target.format = format ∧ stage.target.singularityVersion = v) :
    r.checkStages.Fails ↔ format = .singularity ∧ 2 ≤ r.stages.length ∧ v < ⟨3, 2⟩ := by
  unfold checkStages
  match told : r.stages with
  | [] => simp
  | [stage] => simp
  | first :: second :: rest =>
    obtain ⟨sameFormat, sameVersion⟩ := uniform first (by rw [told]; exact List.mem_cons_self)
    simp only [sameFormat]
    split
    · rename_i singularity
      simp [Definition.requireSingularity_fails_iff, sameVersion, Definition.multiStageVersion, singularity]
    · rename_i other
      simp [other]

-- A recipe whose stages have one format and one Singularity version fails to be written only where that
-- is documented.
theorem unwritable_iff (r : Recipe) (format : Format) (v : Version)
    (uniform : ∀ stage ∈ r.stages, stage.target.format = format ∧ stage.target.singularityVersion = v) :
    (∃ e, (r.render false).result = .error e) ↔ match format with
      | .bash => False
      | .docker => ∃ stage ∈ r.stages, ∃ p ∈ stage.instructions, Dockerfile.Refuses p
      | .singularity => 2 ≤ r.stages.length ∧ v < ⟨3, 2⟩ ∨
          ∃ stage ∈ r.stages, ∃ p ∈ stage.instructions, Definition.Refuses v p := by
  have parts : (r.render false).Fails ↔ r.checkStages.Fails ∨ ∃ stage ∈ r.stages, (stage.render false).Fails := by
    unfold render
    rw [Outcome.bind_unit_fails_iff, Outcome.bind_fails_iff_left fun _ => Outcome.pure_not_fails _,
      Outcome.mapM_fails_iff]
  have stages : (∃ stage ∈ r.stages, (stage.render false).Fails) ↔
      ∃ stage ∈ r.stages, ∃ p ∈ stage.instructions, format.Refuses v p := by
    refine exists_congr fun stage => and_congr_right fun member => ?_
    obtain ⟨sameFormat, sameVersion⟩ := uniform stage member
    rw [Stage.render_fails_iff, sameFormat, sameVersion]
  show (r.render false).Fails ↔ _
  rw [parts, stages, checkStages_fails_iff uniform]
  cases format with
  | docker => simp [Format.Refuses]
  | singularity => simp [Format.Refuses]
  | bash => simp [Format.Refuses]

-- Two stages are too many for Singularity 3.1.
theorem unwritable_two_stages :
    let t : Target := { Target.ofFormat .singularity with singularityVersion := ⟨3, 1⟩ }
    let stage : Stage := { name := none, base := { image := "alpine" }, target := t }
    ∃ e, ((⟨[stage, stage]⟩ : Recipe).render false).result = .error e := by
  intro t stage
  refine (unwritable_iff ⟨[stage, stage]⟩ .singularity ⟨3, 1⟩ ?_).mpr (.inl ⟨by decide, by decide⟩)
  intro other member
  have same : other = stage := by simpa using member
  subst same
  exact ⟨rfl, rfl⟩

end Recipe

end ContainerRecipe
