import ContainerRecipe.Proofs.Outcome
import ContainerRecipe.Proofs.Script.Calls

namespace ContainerRecipe.Script

-- Whatever is decoded has a property.
def Yields (P : α → Prop) (x : Decoded α) : Prop := ∀ a, x = .ok a → P a

theorem yields_bind {P : α → Prop} {x : Decoded β} {f : β → Decoded α} (rest : ∀ b, Yields P (f b)) :
    Yields P (x >>= f) := by
  intro a accepted
  cases told : x with
  | error fault =>
    rw [told] at accepted
    cases accepted
  | ok b =>
    rw [told] at accepted
    exact rest b a accepted

-- What a call to a stage puts on it.
inductive Puts (r : Recipe) (stage : Stage) : Method → List Layer → Prop where
  | instruction (own : m ≠ .runtime) (p : Instruction) : Puts r stage m [.instruction p]
  | block (own : m ≠ .runtime) (b : Block) (expansion : List Instruction)
      (installed : (b.install stage.target).result = .ok expansion) : Puts r stage m [.block b expansion]
  | projection (other : Nat) (source : Stage) (name : String) (exclude : List String)
      (ps : List Instruction) (present : r.stage? other = some source)
      (projected : (source.runtime stage.target name exclude).result = .ok ps) :
      Puts r stage .runtime (ps.map .instruction)

namespace Session

def Instructs (change : Effect) : Prop := ∃ p, change.layers = [.instruction p]

theorem instructs_pure (p : Instruction) : Yields Instructs (pure (Effect.ofInstruction p)) := by
  rintro _ ⟨⟩
  exact ⟨p, rfl⟩

variable {stage : Stage} {change : Effect}

theorem declared_cases {s : Session} {template : Target} {arguments : List Value}
    (settled : (s.declared template arguments).result = .ok stage) :
    ∃ request, s.stageRequest (argument arguments 0) = .ok request ∧
      (∀ name, request.name = some name → s.recipe.hasStage name = false) ∧
      stage = (Stage.ofBase template request.name request.base).value.withPackageFamily
        request.packageFamily := by
  unfold declared at settled
  obtain ⟨request, decoded, settled⟩ := Outcome.bind_ok_iff.mp settled
  obtain ⟨_, free, settled⟩ := Outcome.bind_ok_iff.mp settled
  obtain ⟨plain, based, made⟩ := Outcome.bind_ok_iff.mp settled
  cases based
  cases made
  refine ⟨request, decoded, ?_, rfl⟩
  intro name named
  rw [named] at free
  unfold Outcome.ofExcept checkName at free
  cases taken : s.recipe.hasStage name with
  | false => rfl
  | true =>
    simp only [taken] at free
    cases free

theorem blockEffect_ok {b : Block} {toolchain : Option Toolchain}
    (settled : (blockEffect stage b toolchain).result = .ok change) : ∃ expansion,
      (b.install stage.target).result = .ok expansion ∧ change = { layers := [.block b expansion], toolchain } := by
  unfold blockEffect at settled
  obtain ⟨layer, expanded, made⟩ := Outcome.bind_ok_iff.mp settled
  cases made
  rw [Outcome.mapError_ok_iff] at expanded
  unfold Stage.expand at expanded
  obtain ⟨expansion, installed, shaped⟩ := Outcome.bind_ok_iff.mp expanded
  cases shaped
  exact ⟨expansion, installed, rfl⟩

theorem blockEffect_puts (r : Recipe) (own : m ≠ .runtime) {b : Block} {toolchain : Option Toolchain}
    (settled : (blockEffect stage b toolchain).result = .ok change) : Puts r stage m change.layers := by
  obtain ⟨expansion, installed, rfl⟩ := blockEffect_ok settled
  exact .block own b expansion installed

theorem stageAt_ok {s : Session} {index : Nat} (found : s.stageAt index = .ok stage) :
    s.recipe.stage? index = some stage := by
  unfold stageAt at found
  split at found
  · rename_i there
    cases found
    exact there
  · cases found

theorem otherStage_ok {v : Value} (chosen : otherStage index v = .ok other) : v = .stage other := by
  unfold otherStage at chosen
  split at chosen
  · split at chosen
    · cases chosen
    · cases chosen
      rfl
  · cases chosen

-- A call that carries over the runtime of a stage names another stage of the recipe, and takes what the
-- blocks of that one leave to it under the text that it is called by.
theorem runtimeEffect_cases {s : Session} {index : Nat} {arguments : List Value}
    (settled : (s.runtimeEffect index stage arguments).result = .ok change) :
    ∃ other source name exclude ps, argument arguments 0 = .stage other ∧
      s.recipe.stage? other = some source ∧ reference stage.target.format other source = .ok name ∧
      (source.runtime stage.target name exclude).result = .ok ps ∧ change.layers = ps.map .instruction := by
  unfold runtimeEffect at settled
  obtain ⟨other, chosen, settled⟩ := Outcome.bind_ok_iff.mp settled
  obtain ⟨exclude, -, settled⟩ := Outcome.bind_ok_iff.mp settled
  obtain ⟨called, found, settled⟩ := Outcome.bind_ok_iff.mp settled
  obtain ⟨name, referred, settled⟩ := Outcome.bind_ok_iff.mp settled
  obtain ⟨source, shared, settled⟩ := Outcome.bind_ok_iff.mp settled
  obtain ⟨ps, projected, made⟩ := Outcome.bind_ok_iff.mp settled
  cases made
  rw [Outcome.mapError_ok_iff] at projected
  have present : s.recipe.stage? other = some called := stageAt_ok found
  have same : called = source := by
    unfold Outcome.ofExcept sourceStage at shared
    dsimp only at shared
    split at shared
    · rename_i there _
      cases shared
      exact Option.some.inj (present.symm.trans there)
    · cases shared
  subst same
  exact ⟨other, called, name, exclude, ps, otherStage_ok chosen, present, referred, projected, rfl⟩

theorem runtimeEffect_puts {s : Session} {index : Nat} {arguments : List Value}
    (settled : (s.runtimeEffect index stage arguments).result = .ok change) :
    Puts s.recipe stage .runtime change.layers := by
  obtain ⟨other, source, name, exclude, ps, -, present, -, projected, layers⟩ := runtimeEffect_cases settled
  rw [layers]
  exact .projection other source name exclude ps present projected

-- The forms of a call to a stage: it is one for an instruction, for a block, or for the runtime of another stage.
inductive Forms (s : Session) (index : Nat) (stage : Stage) (arguments : List Value) :
    Method → Outcome Fault Effect → Prop where
  | instruction (own : m ≠ .runtime) (yields : Yields Instructs x) : Forms s index stage arguments m (.ofExcept x)
  | block {α : Type} (own : m ≠ .runtime) (asked : Decoded α) (b : α → Block) (toolchain : α → Option Toolchain) :
    Forms s index stage arguments m
      (Outcome.ofExcept asked >>= fun options => blockEffect stage (b options) (toolchain options))
  | runtime : Forms s index stage arguments .runtime (s.runtimeEffect index stage arguments)

theorem effect_forms (setting : Setting) (s : Session) (index : Nat) (stage : Stage) (m : Method)
    (arguments : List Value) : Forms s index stage arguments m (s.effect setting index stage m arguments) := by
  cases m with
  | shell | runscript =>
    exact .instruction nofun (yields_bind fun _ => yields_bind fun _ => instructs_pure _)
  | environment | label =>
    exact .instruction nofun (yields_bind fun _ => yields_bind fun _ => yields_bind fun _ => instructs_pure _)
  | copy | arg | comment | workdir =>
    exact .instruction nofun (yields_bind fun _ => yields_bind fun _ => instructs_pure _)
  | raw | user => exact .instruction nofun (yields_bind fun _ => instructs_pure _)
  | blob =>
    exact .instruction nofun (yields_bind fun _ => yields_bind fun _ => yields_bind fun _ => instructs_pure _)
  | packages => exact .block (by decide) (s.packageRequest (argument arguments 0)) .packages fun _ => none
  | gnu => exact .block (by decide) (s.options Gnu.layout (argument arguments 0)) .gnu fun g => some g.toolchain
  | nvhpc =>
    exact .block (by decide) (s.options Nvhpc.layout (argument arguments 0)) .nvhpc fun n =>
      some (n.toolchain stage.target)
  | autotools =>
    exact .block (by decide) (s.record Autotools.layout (argument arguments 0)) .autotools fun _ => none
  | runtime => exact .runtime

theorem effect_puts {setting : Setting} {s : Session} {index : Nat} {m : Method} {arguments : List Value}
    (settled : (s.effect setting index stage m arguments).result = .ok change) :
    Puts s.recipe stage m change.layers := by
  have forms := effect_forms setting s index stage m arguments
  generalize s.effect setting index stage m arguments = effect at forms settled
  cases forms with
  | instruction own yields =>
    obtain ⟨p, layers⟩ := yields change settled
    rw [layers]
    exact .instruction own p
  | block own =>
    obtain ⟨_, -, placed⟩ := Outcome.bind_ok_iff.mp settled
    exact blockEffect_puts _ own placed
  | runtime => exact runtimeEffect_puts settled

end Session

end ContainerRecipe.Script
