import ContainerRecipe.Proofs.Script.Effects
import ContainerRecipe.Proofs.Script.Parts

namespace ContainerRecipe.Script

open Session ContainerRecipe.Script.Action

-- Whether a fault tells that a stage is not there.
def Fault.dangles : Fault → Bool
  | .refusal (.noSuchStage _) | .refusal .foreignStages => true
  | _ => false

-- Whatever an operation fails with, it is not that a stage is missing.
def Grounded (x : Except Fault α) : Prop := ∀ fault, x = .error fault → fault.dangles = false

section

theorem grounded_ok (a : α) : Grounded (.ok a) := nofun

theorem grounded_error {fault : Fault} (other : fault.dangles = false) :
    Grounded (.error fault : Except Fault α) := by
  rintro _ ⟨⟩
  exact other

theorem grounded_bind {x : Decoded β} {f : β → Decoded α} (first : Grounded x) (rest : ∀ b, Grounded (f b)) :
    Grounded (x >>= f) := by
  intro fault failed
  cases told : x with
  | error cause =>
    rw [told] at failed
    cases failed
    exact first fault told
  | ok b =>
    rw [told] at failed
    exact rest b fault failed

theorem grounded_mapM {f : β → Decoded α} (each : ∀ b, Grounded (f b)) (items : List β) :
    Grounded (items.mapM f) := by
  induction items with
  | nil => exact grounded_ok _
  | cons item rest ih =>
    rw [List.mapM_cons]
    exact grounded_bind (each item) fun _ => grounded_bind ih fun _ => grounded_ok _

theorem grounded_mapError {f : ε → Fault} (other : ∀ cause, (f cause).dangles = false) (x : Except ε α) :
    Grounded (x.mapError f) := by
  cases x with
  | ok a => exact grounded_ok a
  | error cause => exact grounded_error (other cause)

theorem grounded_result_bind {x : Outcome Fault β} {f : β → Outcome Fault α} (first : Grounded x.result)
    (rest : ∀ b, x.result = .ok b → Grounded (f b).result) : Grounded (x >>= f).result := by
  intro fault failed
  rcases Outcome.bind_error_iff.mp failed with here | ⟨b, told, later⟩
  · exact first fault here
  · exact rest b told fault later

end

namespace Session

section

variable (s : Session)

theorem grounded_asText (v : Value) : Grounded v.asText := by
  unfold Value.asText
  split
  · exact grounded_ok _
  · exact grounded_error rfl

theorem grounded_asBindings (t : Table) : Grounded t.asBindings := by
  have each (entry : Key × Value) : Grounded (do return (← entry.1.toValue.asText, ← entry.2.asText)) :=
    grounded_bind (grounded_asText _) fun _ => grounded_bind (grounded_asText _) fun _ => grounded_ok _
  exact grounded_bind (grounded_mapM each _) fun _ => grounded_ok _

theorem grounded_record (l : Layout σ) (v : Value) : Grounded (s.record l v) :=
  grounded_mapError (fun _ => rfl) _

theorem grounded_options (l : Layout σ) (v : Value) : Grounded (s.options l v) := by
  unfold options
  split
  · exact grounded_ok _
  · exact s.grounded_record l v

theorem grounded_commands (v : Value) : Grounded (s.commands v) := by
  cases v with
  | bytes => exact grounded_bind (grounded_asText _) fun _ => grounded_ok _
  | table place => exact grounded_mapM grounded_asText _
  | nil | flag | number | stage | function => exact grounded_error rfl

theorem grounded_asTable (v : Value) : Grounded (s.asTable v) := by
  cases v with
  | table place => exact grounded_ok _
  | nil | flag | number | bytes | stage | function => exact grounded_error rfl

end

section

variable {s : Session} {index : Nat} {stage : Stage}

theorem grounded_copyEntries (r : CopyRequest) : Grounded (copyEntries r) := by
  unfold copyEntries
  split
  · exact grounded_ok _
  · exact grounded_error rfl
  · split
    · exact grounded_error rfl
    · exact grounded_ok _

theorem grounded_readFragment (setting : Setting) (path : Option String) :
    Grounded (readFragment setting s path) := by
  unfold readFragment
  split
  · split
    · exact grounded_ok _
    · exact grounded_error rfl
  · exact grounded_ok _

theorem grounded_packageRequest (v : Value) : Grounded (s.packageRequest v) := by
  unfold packageRequest
  split
  · split
    · exact s.grounded_record _ _
    · exact grounded_bind (s.grounded_commands _) fun _ => grounded_ok _
  · exact s.grounded_record _ _

theorem grounded_blockEffect (b : Block) (toolchain : Option Toolchain) :
    Grounded (blockEffect stage b toolchain).result :=
  grounded_result_bind (grounded_mapError (fun _ => rfl) _) fun _ _ => grounded_ok _

theorem grounded_otherStage (v : Value) : Grounded (otherStage index v) := by
  unfold otherStage
  split
  · split
    · exact grounded_error rfl
    · exact grounded_ok _
  · exact grounded_error rfl

theorem grounded_reference (format : Format) : Grounded (reference format index stage) := by
  unfold reference
  split
  · exact grounded_ok _
  · split
    · exact grounded_error rfl
    · exact grounded_ok _

-- The stage whose runtime is asked for is there if all stages that are given are.
theorem grounded_runtimeEffect {arguments : List Value} (present : s.recipe.stage? index = some stage)
    (given : ∀ other, argument arguments 0 = .stage other → ∃ source, s.recipe.stage? other = some source) :
    Grounded (s.runtimeEffect index stage arguments).result := by
  unfold runtimeEffect
  refine grounded_result_bind (grounded_otherStage _) fun other chosen => ?_
  obtain ⟨source, there⟩ := given other (otherStage_ok chosen)
  have found : s.stageAt other = .ok source := by rw [stageAt, there]
  have shared : s.sourceStage index other = .ok source := by rw [sourceStage, there, present]
  refine grounded_result_bind (s.grounded_options _ _) fun exclude _ => ?_
  rw [found, shared]
  refine grounded_result_bind (grounded_ok _) fun called _ => ?_
  refine grounded_result_bind (grounded_reference _) fun name _ => ?_
  refine grounded_result_bind (grounded_ok _) fun source _ => ?_
  exact grounded_result_bind (grounded_mapError (fun _ => rfl) _) fun _ _ => grounded_ok _

theorem grounded_effect (setting : Setting) (present : s.recipe.stage? index = some stage) (m : Method)
    {arguments : List Value}
    (given : ∀ other, argument arguments 0 = .stage other → ∃ source, s.recipe.stage? other = some source) :
    Grounded (s.effect setting index stage m arguments).result := by
  cases m with
  | shell | runscript =>
    exact grounded_bind (s.grounded_options _ _) fun _ =>
      grounded_bind (s.grounded_commands _) fun _ => grounded_ok _
  | environment | label =>
    exact grounded_bind (s.grounded_asTable _) fun _ => grounded_bind (s.grounded_options _ _) fun _ =>
      grounded_bind (grounded_asBindings _) fun _ => grounded_ok _
  | arg =>
    exact grounded_bind (s.grounded_asTable _) fun _ =>
      grounded_bind (grounded_asBindings _) fun _ => grounded_ok _
  | comment | workdir =>
    exact grounded_bind (grounded_asText _) fun _ =>
      grounded_bind (s.grounded_options _ _) fun _ => grounded_ok _
  | user => exact grounded_bind (grounded_asText _) fun _ => grounded_ok _
  | raw => exact grounded_bind (s.grounded_record _ _) fun _ => grounded_ok _
  | copy =>
    exact grounded_bind (s.grounded_record _ _) fun _ =>
      grounded_bind (grounded_copyEntries _) fun _ => grounded_ok _
  | blob =>
    exact grounded_bind (s.grounded_record _ _) fun _ =>
      grounded_bind (grounded_readFragment setting _) fun _ =>
        grounded_bind (grounded_readFragment setting _) fun _ => grounded_ok _
  | packages => exact grounded_result_bind (grounded_packageRequest _) fun _ _ => grounded_blockEffect _ _
  | gnu | nvhpc => exact grounded_result_bind (s.grounded_options _ _) fun _ _ => grounded_blockEffect _ _
  | autotools => exact grounded_result_bind (s.grounded_record _ _) fun _ _ => grounded_blockEffect _ _
  | runtime => exact grounded_runtimeEffect present given

end

end Session

variable {s : Session} {index : Nat} {stage : Stage}

theorem mem_of_argument {arguments : List Value} (given : argument arguments place = .stage index) :
    .stage index ∈ arguments := by
  unfold argument at given
  rw [List.getD_eq_getElem?_getD] at given
  cases found : arguments[place]? with
  | none =>
    rw [found] at given
    cases given
  | some v =>
    rw [found] at given
    cases given
    exact List.mem_of_getElem? found

-- A call of a method, as long as all stages that are given to it are there.
theorem grounded_method (setting : Setting) (load : Task → Action (List Value)) (m : Method) {arguments : List Value}
    (given : ∀ index, .stage index ∈ arguments → ∃ stage, s.recipe.stage? index = some stage) :
    Grounded (s.step setting (callFunction load (.method m) arguments)).1 := by
  rcases callFunction_method_cases load m arguments with ⟨index, subject, called⟩ | called
  · obtain ⟨stage, present⟩ := given index (mem_of_argument subject)
    have grounded : Grounded (s.effect setting index stage m (arguments.drop 1)).result :=
      grounded_effect setting present m fun other chosen =>
        given other (List.mem_of_mem_drop (mem_of_argument chosen))
    rw [called, step_callMethod setting present]
    cases settled : s.effect setting index stage m (arguments.drop 1) with
    | mk result warnings =>
      rw [settled] at grounded
      cases result with
      | error fault => exact grounded_error (grounded fault rfl)
      | ok effect =>
        obtain ⟨values, tables, handed⟩ := step_handBack setting
          { s with
            recipe := s.recipe.append index effect.layers
            warnings := s.warnings ++ warnings } effect.toolchain
        dsimp only
        rw [handed]
        exact grounded_ok _
  · rw [called, step_throw]
    exact grounded_error rfl

-- What a stage that is there is asked for is told, and it is no stage.
theorem step_index_stage (setting : Setting) (present : s.recipe.stage? index = some stage) (key : Value) :
    ∃ v, v.isStage = false ∧ s.step setting (Action.index (.stage index) key) = (.ok v, s) := by
  unfold Action.index
  dsimp only
  rw [step_bind_of_ok _ _ (step_get ..), step_bind_of_ok _ _ (step_stageAt _ _ present)]
  split
  · rename_i field _
    refine ⟨stageField stage field, ?_, rfl⟩
    cases field with
    | name => cases told : stage.name <;> simp [stageField, told, Value.ofText?, Value.text, Value.isStage]
    | distribution | version | architecture | packageFamily | format | platform => rfl
  · exact ⟨_, rfl, rfl⟩
  · exact ⟨_, rfl, rfl⟩

end ContainerRecipe.Script
