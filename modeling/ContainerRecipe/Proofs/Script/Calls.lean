import ContainerRecipe.Proofs.Script.Steps
import Mathlib.Data.List.Forall2

namespace ContainerRecipe

-- The later form of a stage that has had something put on it, or nothing.
structure Stage.Extends (before after : Stage) : Prop where
  name : after.name = before.name
  base : after.base = before.base
  target : after.target = before.target
  instructions : before.instructions <+: after.instructions
  blocks : before.blocks <+: after.blocks

theorem Stage.Extends.refl (s : Stage) : s.Extends s := ⟨rfl, rfl, rfl, List.prefix_rfl, List.prefix_rfl⟩

theorem Stage.Extends.trans {a b c : Stage} (first : a.Extends b) (rest : b.Extends c) : a.Extends c where
  name := rest.name.trans first.name
  base := rest.base.trans first.base
  target := rest.target.trans first.target
  instructions := first.instructions.trans rest.instructions
  blocks := first.blocks.trans rest.blocks

theorem Stage.append_extends (s : Stage) (layers : List Layer) : s.Extends (s.append layers) where
  name := rfl
  base := rfl
  target := rfl
  instructions := ⟨layers.flatMap Layer.instructions, by simp [Stage.instructions, append]⟩
  blocks := ⟨layers.filterMap Layer.block?, by simp [Stage.blocks, append]⟩

theorem Recipe.append_stages {r : Recipe} (present : r.stage? index = some stage) (layers : List Layer) :
    (r.append index layers).stages = r.stages.set index (stage.append layers) := by
  have found : r.stages[index]? = some stage := present
  have inhabited : Inhabited Stage := ⟨stage⟩
  unfold append
  rw [List.modify_eq_set, found]
  rfl

-- What holds of each stage and what it belongs to, and is kept when layers are put on the stage.
theorem Recipe.forall₂_append {R : α → Stage → Prop} {r : Recipe} (related : List.Forall₂ R items r.stages)
    (kept : ∀ item stage layers, R item stage → R item (stage.append layers)) (index : Nat)
    (layers : List Layer) : List.Forall₂ R items (r.append index layers).stages := by
  unfold Recipe.append
  generalize r.stages = stages at related ⊢
  induction related generalizing index with
  | nil =>
    rw [List.modify_nil]
    exact .nil
  | cons head tail ih =>
    cases index with
    | zero => exact .cons (kept _ _ layers head) tail
    | succ index => exact .cons head (ih index)

namespace Script

open Session ContainerRecipe.Script.Action

variable (setting : Setting) (s : Session)

def settingFields (t : Toolchain) : List (String × Value) := t.settings.map fun (name, value) => (name, .text value)

def toolchainTable (t : Toolchain) : Table := .ofFields (settingFields t)

-- The table of a toolchain at a place, followed by the one that it is handed back in.
def toolchainTables (place : Nat) (t : Toolchain) : List Table :=
  [toolchainTable t, .ofFields [("toolchain", .table place)]]

theorem step_newToolchain (t : Toolchain) : s.step setting (newToolchain t) =
    (.ok (.table (s.tables.length + 1)), { s with tables := s.tables ++ toolchainTables s.tables.length t }) := by
  unfold newToolchain
  rw [step_bind_of_ok _ _ (step_newTable ..), step_newTable]
  simp only [List.append_assoc, List.length_append, List.length_singleton]
  rfl

theorem step_stageAt {index : Nat} (present : s.recipe.stage? index = some stage) :
    s.step setting (ofOutcome (.ofExcept (s.stageAt index))) = (.ok stage, s) := by
  rw [step_ofExcept, stageAt, present]

theorem step_stageAt_missing {index : Nat} (missing : s.recipe.stage? index = none) :
    s.step setting (ofOutcome (.ofExcept (s.stageAt index))) =
      (.error (.refusal (.noSuchStage index)), s) := by
  rw [step_ofExcept, stageAt, missing]

-- A call for a stage settles the stage before it adds it.
theorem step_callStage (arguments : List Value) : s.step setting (callStage arguments) =
    match s.declared setting.options.template arguments with
    | ⟨.ok stage, warnings⟩ => (.ok (.stage s.recipe.stages.length),
        { s with recipe := s.recipe.push stage, warnings := s.warnings ++ warnings })
    | ⟨.error fault, warnings⟩ => (.error fault, { s with warnings := s.warnings ++ warnings }) := by
  unfold callStage
  rw [step_bind_of_ok _ _ (step_read ..), step_bind_of_ok _ _ (step_get ..)]
  cases settled : s.declared setting.options.template arguments with
  | mk result warnings =>
    cases result with
    | error fault => exact step_bind_of_error _ _ (step_ofOutcome ..) _
    | ok stage => rw [step_bind_of_ok _ _ (step_ofOutcome ..), step_declare]

theorem callStage_cases (arguments : List Value) :
    (∃ fault warnings, s.step setting (callStage arguments) =
      (.error fault, { s with warnings := s.warnings ++ warnings })) ∨
    ∃ stage warnings, s.declared setting.options.template arguments = ⟨.ok stage, warnings⟩ ∧
      s.step setting (callStage arguments) = (.ok (.stage s.recipe.stages.length),
        { s with recipe := s.recipe.push stage, warnings := s.warnings ++ warnings }) := by
  rw [step_callStage]
  cases settled : s.declared setting.options.template arguments with
  | mk result warnings =>
    cases result with
    | error fault => exact .inl ⟨fault, warnings, rfl⟩
    | ok stage => exact .inr ⟨stage, warnings, rfl, rfl⟩

theorem callFunction_stage (load : Task → Action (List Value)) (arguments : List Value) :
    callFunction load .stage arguments = callStage arguments >>= fun v => pure [v] := rfl

theorem step_stage (load : Task → Action (List Value)) (arguments : List Value) :
    (∃ fault warnings, s.step setting (callFunction load .stage arguments) =
      (.error fault, { s with warnings := s.warnings ++ warnings })) ∨
    ∃ stage warnings, s.declared setting.options.template arguments = ⟨.ok stage, warnings⟩ ∧
      s.step setting (callFunction load .stage arguments) = (.ok [.stage s.recipe.stages.length],
        { s with recipe := s.recipe.push stage, warnings := s.warnings ++ warnings }) := by
  rw [callFunction_stage]
  rcases callStage_cases setting s arguments with ⟨fault, warnings, failed⟩ | ⟨stage, warnings, settled, done⟩
  · exact .inl ⟨fault, warnings, step_bind_of_error _ _ failed _⟩
  · exact .inr ⟨stage, warnings, settled, step_bind_of_ok _ _ done _⟩

-- Hands back the toolchain of an effect, if it has one.
def handBack : Option Toolchain → Action (List Value)
  | some t => do return [← newToolchain t]
  | none => return []

theorem step_handBack_some (t : Toolchain) : s.step setting (handBack (some t)) =
    (.ok [.table (s.tables.length + 1)], { s with tables := s.tables ++ toolchainTables s.tables.length t }) := by
  unfold handBack
  rw [step_bind_of_ok _ _ (step_newToolchain ..)]
  rfl

theorem step_handBack (toolchain : Option Toolchain) : ∃ values tables,
    s.step setting (handBack toolchain) = (.ok values, { s with tables := s.tables ++ tables }) := by
  cases toolchain with
  | none =>
    refine ⟨[], [], ?_⟩
    rw [List.append_nil]
    rfl
  | some t => exact ⟨_, _, step_handBack_some setting s t⟩

-- A call to a stage settles its effect before it puts anything on the stage.
theorem step_callMethod {s : Session} {index : Nat} (present : s.recipe.stage? index = some stage)
    (m : Method) (arguments : List Value) : s.step setting (callMethod index m arguments) =
    match s.effect setting index stage m arguments with
    | ⟨.ok effect, warnings⟩ =>
      { s with
        recipe := s.recipe.append index effect.layers
        warnings := s.warnings ++ warnings }.step setting (handBack effect.toolchain)
    | ⟨.error fault, warnings⟩ => (.error fault, { s with warnings := s.warnings ++ warnings }) := by
  unfold callMethod
  rw [step_bind_of_ok _ _ (step_get ..), step_bind_of_ok _ _ (step_stageAt setting s present),
    step_bind_of_ok _ _ (step_read ..)]
  cases settled : s.effect setting index stage m arguments with
  | mk result warnings =>
    cases result with
    | error fault => exact step_bind_of_error _ _ (step_ofOutcome ..) _
    | ok effect =>
      rw [step_bind_of_ok _ _ (step_ofOutcome ..), step_bind_of_ok _ _ (step_extend ..)]
      dsimp only
      cases effect.toolchain with
      | none => rfl
      | some t => rfl

theorem step_callMethod_missing {s : Session} {index : Nat} (missing : s.recipe.stage? index = none)
    (m : Method) (arguments : List Value) : s.step setting (callMethod index m arguments) =
    (.error (.refusal (.noSuchStage index)), s) := by
  unfold callMethod
  rw [step_bind_of_ok _ _ (step_get ..)]
  exact step_bind_of_error _ _ (step_stageAt_missing setting s missing) _

theorem callMethod_cases (index : Nat) (m : Method) (arguments : List Value) :
    (∃ fault warnings, s.step setting (callMethod index m arguments) =
      (.error fault, { s with warnings := s.warnings ++ warnings })) ∨
    ∃ stage effect warnings values tables, s.recipe.stage? index = some stage ∧
      s.effect setting index stage m arguments = ⟨.ok effect, warnings⟩ ∧
      s.step setting (callMethod index m arguments) = (.ok values,
        { s with
          recipe := s.recipe.append index effect.layers
          tables := s.tables ++ tables
          warnings := s.warnings ++ warnings }) := by
  cases found : s.recipe.stage? index with
  | none =>
    left
    refine ⟨.refusal (.noSuchStage index), [], ?_⟩
    rw [step_callMethod_missing setting found, List.append_nil]
  | some stage =>
    rw [step_callMethod setting found]
    cases settled : s.effect setting index stage m arguments with
    | mk result warnings =>
      cases result with
      | error fault => exact .inl ⟨fault, warnings, rfl⟩
      | ok effect =>
        obtain ⟨values, tables, handed⟩ := step_handBack setting
          { s with
            recipe := s.recipe.append index effect.layers
            warnings := s.warnings ++ warnings } effect.toolchain
        exact .inr ⟨stage, effect, warnings, values, tables, rfl, settled, handed⟩

theorem callMethod_ok {s : Session} {index : Nat} {m : Method} {arguments values : List Value}
    (done : s.step setting (callMethod index m arguments) = (.ok values, next)) :
    ∃ stage effect, s.recipe.stage? index = some stage ∧
      (s.effect setting index stage m arguments).result = .ok effect ∧
      next.recipe = s.recipe.append index effect.layers := by
  rcases callMethod_cases setting s index m arguments with
    ⟨fault, warnings, failed⟩ | ⟨stage, effect, warnings, values, tables, present, settled, told⟩
  · rw [failed] at done
    cases done
  · rw [told] at done
    cases done
    exact ⟨stage, effect, present, congrArg Outcome.result settled, rfl⟩

-- A method takes the stage as its first argument.
theorem callFunction_method_cases (load : Task → Action (List Value)) (m : Method) (arguments : List Value) :
    (∃ index, argument arguments 0 = .stage index ∧
      callFunction load (.method m) arguments = callMethod index m (arguments.drop 1)) ∨
    callFunction load (.method m) arguments = throw .conversion := by
  cases subject : argument arguments 0 with
  | stage index => exact .inl ⟨index, rfl, by simp only [callFunction, subject]⟩
  | _ => exact .inr (by simp only [callFunction, subject])

theorem step_method (load : Task → Action (List Value)) (m : Method) (arguments : List Value) :
    (∃ fault warnings, s.step setting (callFunction load (.method m) arguments) =
      (.error fault, { s with warnings := s.warnings ++ warnings })) ∨
    ∃ index stage effect warnings values tables, argument arguments 0 = .stage index ∧
      s.recipe.stage? index = some stage ∧
      s.effect setting index stage m (arguments.drop 1) = ⟨.ok effect, warnings⟩ ∧
      s.step setting (callFunction load (.method m) arguments) = (.ok values,
        { s with
          recipe := s.recipe.append index effect.layers
          tables := s.tables ++ tables
          warnings := s.warnings ++ warnings }) := by
  rcases callFunction_method_cases load m arguments with ⟨index, subject, called⟩ | called
  · rw [called]
    rcases callMethod_cases setting s index m (arguments.drop 1) with
      failed | ⟨stage, effect, warnings, values, tables, done⟩
    · exact .inl failed
    · exact .inr ⟨index, stage, effect, warnings, values, tables, subject, done⟩
  · refine .inl ⟨.conversion, [], ?_⟩
    rw [called, step_throw, List.append_nil]

-- A call to a stage tells what settling its effect tells, whether the effect is settled or not.
theorem callMethod_warnings {s : Session} {index : Nat} (present : s.recipe.stage? index = some stage)
    (m : Method) (arguments : List Value) : (s.step setting (callMethod index m arguments)).2.warnings =
      s.warnings ++ (s.effect setting index stage m arguments).warnings := by
  rw [step_callMethod setting present]
  cases settled : s.effect setting index stage m arguments with
  | mk result warnings =>
    cases result with
    | error fault => rfl
    | ok effect =>
      obtain ⟨values, tables, handed⟩ := step_handBack setting
        { s with
          recipe := s.recipe.append index effect.layers
          warnings := s.warnings ++ warnings } effect.toolchain
      dsimp only
      rw [handed]

-- A stage call and a method call are all or nothing: either the recipe is as it was before, or there is
-- one more stage, or the stage that was called has more on it than before and nothing else has changed.
theorem call_atomic (load : Task → Action (List Value)) (f : Function) (arguments : List Value)
    (binding : f = .stage ∨ ∃ m, f = .method m) :
    match s.step setting (callFunction load f arguments) with
    | (.error _, after) => after.recipe = s.recipe
    | (.ok values, after) =>
      (f = .stage ∧ values = [.stage s.recipe.stages.length] ∧
        ∃ stage, after.recipe.stages = s.recipe.stages ++ [stage]) ∨
      ∃ m index before stage, f = .method m ∧ argument arguments 0 = .stage index ∧
        s.recipe.stages[index]? = some before ∧ before.Extends stage ∧
        after.recipe.stages = s.recipe.stages.set index stage := by
  rcases binding with rfl | ⟨m, rfl⟩
  · have called : callFunction load .stage arguments = callStage arguments >>= fun v => pure [v] := rfl
    rw [called]
    rcases callStage_cases setting s arguments with
      ⟨fault, warnings, failed⟩ | ⟨stage, warnings, settled, done⟩
    · rw [step_bind_of_error _ _ failed]
    · rw [step_bind_of_ok _ _ done, step_pure]
      exact .inl ⟨rfl, rfl, stage, rfl⟩
  · cases subject : argument arguments 0 with
    | stage index =>
      have called : callFunction load (.method m) arguments = callMethod index m (arguments.drop 1) := by
        simp only [callFunction, subject]
      rw [called]
      rcases callMethod_cases setting s index m (arguments.drop 1) with
        ⟨fault, warnings, failed⟩ | ⟨stage, effect, warnings, values, tables, present, settled, done⟩
      · rw [failed]
      · rw [done]
        right
        exact ⟨m, index, stage, stage.append effect.layers, rfl, rfl, present,
          stage.append_extends effect.layers, Recipe.append_stages present effect.layers⟩
    | _ =>
      have called : callFunction load (.method m) arguments = throw .conversion := by
        simp only [callFunction, subject]
      rw [called, step_throw]

-- Variables that are set on the only stage of a recipe.
theorem call_atomic_environment :
    let stage : Stage := { name := none, base := { image := "alpine" }, target := ({} : Options).template }
    let s : Session := { recipe := ⟨[stage]⟩, tables := [∅] }
    ∃ grown, stage.Extends grown ∧
      (s.step {} (callFunction load (.method .environment) [.stage 0, .table 0])).2.recipe.stages = [grown] := by
  intro stage s
  have atomic := call_atomic {} s load (.method .environment) [.stage 0, .table 0] (.inr ⟨_, rfl⟩)
  cases result : s.step {} (callFunction load (.method .environment) [.stage 0, .table 0]) with
  | mk values after =>
    have accepted : values = .ok [] := by
      rw [show values = (s.step {} (callFunction load (.method .environment) [.stage 0, .table 0])).1 by
        rw [result]]
      rfl
    subst accepted
    rw [result] at atomic
    rcases atomic with ⟨other, -⟩ | ⟨m, index, before, grown, -, subject, present, extended, changed⟩
    · cases other
    · cases subject
      cases present
      exact ⟨grown, extended, changed⟩

end Script

end ContainerRecipe
