import ContainerRecipe.Proofs.Script.Effects
import ContainerRecipe.Proofs.Script.Parallel

namespace ContainerRecipe.Script

-- The table about the recipe itself.
def Value.isRecipe : Value → Bool
  | .table place => place == Session.recipePlace
  | _ => false

-- Whether a call that takes a table of texts, with options beside it, comes upon the table about the recipe.
def Session.readsBindings (s : Session) (l : Layout σ) (arguments : List Value) : Bool :=
  (s.asTable (argument arguments 0)).isOk && (s.leadsToRecipe (argument arguments 1) ||
    (s.options l (argument arguments 1)).isOk && (argument arguments 0).isRecipe)

-- Whether a call to the stage at `index` comes upon the table about the recipe in what it decodes.
def Method.reads (s : Session) (index : Nat) (arguments : List Value) : Method → Bool
  | .shell | .runscript => s.leadsToRecipe (argument arguments 1)
  | .environment => s.readsBindings (Environment.layout.without "variables") arguments
  | .label => s.readsBindings (Labels.layout.without "labels") arguments
  | .arg => (argument arguments 0).isRecipe
  | .comment | .workdir => (argument arguments 0).asText.isOk && s.leadsToRecipe (argument arguments 1)
  | .user => false
  | .copy | .raw | .blob | .gnu | .nvhpc | .autotools => s.leadsToRecipe (argument arguments 0)
  | .packages =>
    match argument arguments 0 with
    | .table place => (s.table place).length == 0 && s.leadsToRecipe (.table place)
    | _ => false
  | .runtime =>
    (Session.otherStage index (argument arguments 0)).isOk && s.leadsToRecipe (argument arguments 1)

-- Whether a call asks for the runtime of a stage without a name.
def Session.unnamedSource (s : Session) (v : Value) : Bool :=
  match v with
  | .stage other => (s.recipe.stage? other).any fun source => source.name.isNone
  | _ => false

def Setting.inFormat (setting : Setting) (g : Format) : Setting :=
  { setting with options := setting.options.inFormat g }

-- What is decoded after something else is only read if that is accepted.
theorem unread_of_ok {x : Decoded α} {later : Bool} (accepted : x = .ok a)
    (unread : (x.isOk && later) = false) : later = false := by
  rw [accepted] at unread
  exact unread

namespace Session.Parallel

variable {f g : Format} {s t : Session} (parallel : Parallel f g s t)
include parallel

section

theorem stageRequest (apart : s.leadsToRecipe v = false) : t.stageRequest v = s.stageRequest v := by
  cases v with
  | bytes => rfl
  | _ => exact parallel.record StageRequest.layout apart

theorem declared (template : Target) (apart : s.leadsToRecipe (argument arguments 0) = false) :
    t.declared (template.inFormat g) arguments = (·.inFormat g) <$> s.declared template arguments := by
  unfold Session.declared
  rw [parallel.stageRequest apart]
  simp only [parallel.checkName, map_bind]
  rfl

end

section

theorem bindings (l : Layout σ) (make : σ → Bindings → Effect) (unread : s.readsBindings l arguments = false) :
    (do
      let u ← t.asTable (argument arguments 0)
      let options ← t.options l (argument arguments 1)
      return make options (← u.asBindings) : Decoded Effect) = do
      let u ← s.asTable (argument arguments 0)
      let options ← s.options l (argument arguments 1)
      return make options (← u.asBindings) := by
  unfold readsBindings at unread
  cases given : argument arguments 0 with
  | table place =>
    rw [given] at unread
    obtain ⟨apart, other⟩ : s.leadsToRecipe (argument arguments 1) = false ∧
        ((s.options l (argument arguments 1)).isOk = true → place ≠ recipePlace) := by
      simpa [asTable, Except.isOk, Except.toBool, Value.isRecipe] using unread
    rw [parallel.options l apart]
    cases told : s.options l (argument arguments 1) with
    | error fault => rfl
    | ok options =>
      rw [told] at other
      simp only [asTable, parallel.table_of_ne (other rfl)]
  | _ => rfl

theorem captioned (l : Layout σ) (make : String → σ → Effect)
    (unread : ((argument arguments 0).asText.isOk && s.leadsToRecipe (argument arguments 1)) = false) :
    (do
      let text ← (argument arguments 0).asText
      return make text (← t.options l (argument arguments 1)) : Decoded Effect) = do
      let text ← (argument arguments 0).asText
      return make text (← s.options l (argument arguments 1)) := by
  cases told : (argument arguments 0).asText with
  | error fault => rfl
  | ok text => rw [parallel.options l (unread_of_ok told unread)]

theorem packageRequest (unread : Method.packages.reads s index arguments = false) :
    t.packageRequest (argument arguments 0) = s.packageRequest (argument arguments 0) := by
  unfold Method.reads at unread
  unfold Session.packageRequest
  cases given : argument arguments 0 with
  | table place =>
    rw [given] at unread
    dsimp only
    rw [parallel.length, parallel.commands]
    by_cases empty : (s.table place).length = 0
    · have apart : s.leadsToRecipe (.table place) = false := by simpa [empty] using unread
      rw [if_pos empty, if_pos empty, parallel.record _ apart]
    · rw [if_neg empty, if_neg empty]
  | _ => exact parallel.record _ (s.leadsToRecipe_of_ne nofun)

omit parallel in
theorem blockEffect_inFormat (stage : Stage) (b : Block) (toolchain : Option Toolchain) :
    blockEffect (stage.inFormat g) b toolchain = blockEffect stage b toolchain := by
  unfold blockEffect
  rw [Stage.expand_inFormat]

omit parallel in
theorem reference_inFormat {stage source : Stage} (made : stage.target.format = f)
    (called : source.name = none → f ≠ .singularity ∧ g ≠ .singularity) (other : Nat) :
    reference g other (source.inFormat g) = reference stage.target.format other source := by
  have same : (source.inFormat g).name = source.name := rfl
  unfold reference
  rw [same, made]
  cases named : source.name with
  | some name => rfl
  | none =>
    obtain ⟨here, there⟩ := called named
    dsimp only
    rw [if_neg here, if_neg there]

theorem made_stage (present : s.recipe.stage? index = some stage) : stage.target.format = f := by
  have same : (s.recipe.stage? index).map (·.inFormat f) = s.recipe.stage? index := by
    rw [← Recipe.stage?_inFormat, parallel.made]
  rw [present] at same
  exact congrArg (·.target.format) (Option.some.inj same).symm

theorem runtimeEffect (present : s.recipe.stage? index = some stage)
    (unread : Method.runtime.reads s index arguments = false)
    (named : f = .singularity ∨ g = .singularity → s.unnamedSource (argument arguments 0) = false) :
    t.runtimeEffect index (stage.inFormat g) arguments = s.runtimeEffect index stage arguments := by
  unfold Method.reads at unread
  unfold Session.runtimeEffect
  cases chosen : otherStage index (argument arguments 0) with
  | error fault => rfl
  | ok other =>
    have apart : s.leadsToRecipe (argument arguments 1) = false := unread_of_ok chosen unread
    rw [otherStage_ok chosen] at named
    have moved := parallel.stage? other
    have target : t.recipe.stage? index = some (stage.inFormat g) := by
      rw [parallel.stage?, present]
      rfl
    unfold stageAt sourceStage
    rw [Outcome.ofExcept_ok_bind, Outcome.ofExcept_ok_bind, parallel.options _ apart, moved, target, present]
    cases there : s.recipe.stage? other with
    | none => rfl
    | some source =>
      have called : source.name = none → f ≠ .singularity ∧ g ≠ .singularity := by
        intro unnamed
        have found : s.unnamedSource (.stage other) = true := by simp [unnamedSource, there, unnamed]
        simpa [found] using named
      have referred := reference_inFormat (parallel.made_stage present) called other
      have carried (name : String) (exclude : List String) :
          (source.inFormat g).runtime (stage.inFormat g).target name exclude =
            source.runtime stage.target name exclude :=
        Stage.runtime_inFormat g source stage.target name exclude
      dsimp only [Option.map_some]
      simp only [Outcome.ofExcept_ok_bind, carried]
      rw [show (stage.inFormat g).target.format = g from rfl, referred]

theorem effect (setting : Setting) (present : s.recipe.stage? index = some stage)
    (unread : m.reads s index arguments = false)
    (named : m = .runtime → f = .singularity ∨ g = .singularity →
      s.unnamedSource (argument arguments 0) = false) :
    t.effect (setting.inFormat g) index (stage.inFormat g) m arguments =
      s.effect setting index stage m arguments := by
  cases m with
  | shell =>
    refine congrArg Outcome.ofExcept ?_
    unfold shellEffect
    rw [parallel.options _ unread, parallel.commands]
  | runscript =>
    refine congrArg Outcome.ofExcept ?_
    unfold runscriptEffect
    rw [parallel.options _ unread, parallel.commands]
  | environment =>
    exact congrArg Outcome.ofExcept (parallel.bindings _
      (fun (options : Environment) bindings => .ofInstruction (.environment { options with bindings })) unread)
  | label =>
    exact congrArg Outcome.ofExcept (parallel.bindings _
      (fun (options : Labels) bindings => .ofInstruction (.labels { options with bindings })) unread)
  | arg =>
    refine congrArg Outcome.ofExcept ?_
    unfold argEffect asTable
    unfold Method.reads at unread
    cases given : argument arguments 0 with
    | table place =>
      rw [given] at unread
      dsimp only
      rw [parallel.table_of_ne (by simpa [Value.isRecipe] using unread)]
    | _ => rfl
  | comment =>
    exact congrArg Outcome.ofExcept (parallel.captioned _
      (fun text (options : Comment) => .ofInstruction (.comment { options with text })) unread)
  | workdir =>
    exact congrArg Outcome.ofExcept (parallel.captioned _
      (fun directory (options : Workdir) => .ofInstruction (.workdir { options with directory })) unread)
  | user => rfl
  | copy =>
    refine congrArg Outcome.ofExcept ?_
    unfold copyEffect
    rw [parallel.record _ unread]
  | raw =>
    refine congrArg Outcome.ofExcept ?_
    unfold rawEffect
    rw [parallel.record _ unread]
  | blob =>
    have told (path : Option String) : readFragment (setting.inFormat g) t path = readFragment setting s path := by
      unfold readFragment
      simp only [parallel.pathFrom, parallel.files]
      rfl
    refine congrArg Outcome.ofExcept ?_
    unfold blobEffect
    rw [parallel.record _ unread]
    simp only [told]
  | packages =>
    show t.packagesEffect _ _ = s.packagesEffect _ _
    unfold packagesEffect
    simp only [parallel.packageRequest unread, blockEffect_inFormat]
  | gnu =>
    show t.gnuEffect _ _ = s.gnuEffect _ _
    unfold gnuEffect
    simp only [parallel.options _ unread, blockEffect_inFormat]
  | nvhpc =>
    show t.nvhpcEffect _ _ = s.nvhpcEffect _ _
    unfold nvhpcEffect
    simp only [parallel.options _ unread, blockEffect_inFormat]
    rfl
  | autotools =>
    show t.autotoolsEffect _ _ = s.autotoolsEffect _ _
    unfold autotoolsEffect
    simp only [parallel.record _ unread, blockEffect_inFormat]
  | runtime => exact parallel.runtimeEffect present unread (named rfl)

end

end Session.Parallel

end ContainerRecipe.Script
