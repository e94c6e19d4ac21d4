import ContainerRecipe.Proofs.Script.Effects
import ContainerRecipe.Proofs.Stage.Runtime

namespace ContainerRecipe.Script

-- A projected stage is called by the text that is given, or else as scripts call it.
inductive StageOperation where
  | push (p : Instruction)
  | addBlock (b : Block)
  | project (source : Nat) (called : Option String) (exclude : List String)

namespace StageOperation

variable {r : Recipe} {a b target : Nat} {stage grown : Stage} {op first second : StageOperation}

def stageAt (r : Recipe) (index : Nat) : Decoded Stage := ({ recipe := r } : Session).stageAt index

theorem stageAt_of_present (present : r.stage? index = some stage) : stageAt r index = .ok stage := by
  unfold stageAt Session.stageAt
  rw [present]

-- A script cannot project a stage onto itself.
def sourceText (target : Nat) (stage : Stage) (source : Nat) (origin : Stage) : Option String → Decoded String
  | some text => .ok text
  | none =>
    if source = target then .error (.refusal .ownRuntime)
    else Session.reference stage.target.format source origin

-- The stage after an operation on it.
def grow (r : Recipe) (target : Nat) (stage : Stage) : StageOperation → Outcome Fault Stage
  | push p => pure (stage.push p)
  | addBlock b => (stage.addBlock b).mapError .block
  | project source called exclude => do
    let origin ← Outcome.ofExcept (stageAt r source)
    let text ← Outcome.ofExcept (sourceText target stage source origin called)
    let ps ← (origin.runtime stage.target text exclude).mapError .block
    return ps.foldl Stage.push stage

def outcome (op : StageOperation) (target : Nat) (r : Recipe) : Outcome Fault Stage := do
  op.grow r target (← Outcome.ofExcept (stageAt r target))

-- What is told of a stage that was to grow, and the recipe after it.
def settle (r : Recipe) (target : Nat) (grown : Outcome Fault Stage) : Outcome Fault Unit × Recipe :=
  match grown.result with
  | .ok stage => (⟨.ok (), grown.warnings⟩, ⟨r.stages.set target stage⟩)
  | .error fault => (⟨.error fault, grown.warnings⟩, r)

-- Performs an operation on the stage `target`. One that fails leaves the recipe as it is.
def perform (op : StageOperation) (target : Nat) (r : Recipe) : Outcome Fault Unit × Recipe :=
  settle r target (op.outcome target r)

def source? : StageOperation → Option Nat
  | project source _ _ => some source
  | _ => none

def isBlock : StageOperation → Bool
  | addBlock _ => true
  | _ => false

-- One operation puts a block on the stage that the other one projects.
def Feeds (first : StageOperation) (target : Nat) (second : StageOperation) : Prop :=
  first.isBlock ∧ second.source? = some target

section

-- What a projection takes from a stage, besides what it asks for.
def projected (s : Stage) : Option String × List Block := (s.name, s.blocks)

theorem runtime_eq {s t : Stage} (same : projected s = projected t) (target : Target) (text : String)
    (exclude : List String) : s.runtime target text exclude = t.runtime target text exclude := by
  have blocks : s.blocks = t.blocks := congrArg Prod.snd same
  unfold Stage.runtime
  rw [blocks]

theorem sourceText_eq {s t : Stage} (same : projected s = projected t) (target : Nat) (stage : Stage) (source : Nat)
    (called : Option String) :
    sourceText target stage source s called = sourceText target stage source t called := by
  have named : s.name = t.name := congrArg Prod.fst same
  unfold sourceText Session.reference
  rw [named]

variable {q : Recipe} (read : ∀ source, op.source? = some source →
  (r.stage? source).map projected = (q.stage? source).map projected)
include read

theorem grow_eq (stage : Stage) : op.grow r target stage = op.grow q target stage := by
  cases op with
  | push p => rfl
  | addBlock b => rfl
  | project source called exclude =>
    have alike := read source rfl
    unfold grow stageAt Session.stageAt
    dsimp only
    cases one : r.stage? source with
    | none =>
      cases two : q.stage? source with
      | none => rfl
      | some t => simp [one, two] at alike
    | some s =>
      cases two : q.stage? source with
      | none => simp [one, two] at alike
      | some t =>
        have like : projected s = projected t := by simpa [one, two] using alike
        simp only [Outcome.ofExcept_ok_bind, sourceText_eq like, runtime_eq like]

-- The outcome is settled by the stage itself and by what is projected.
theorem outcome_eq (own : r.stage? target = q.stage? target) : op.outcome target r = op.outcome target q := by
  have start : stageAt r target = stageAt q target := by
    unfold stageAt Session.stageAt
    rw [own]
  unfold outcome
  rw [start]
  exact congrArg (Outcome.ofExcept (stageAt q target) >>= ·) (funext (grow_eq read))

end

section

theorem settle_fst (r q : Recipe) (target : Nat) (grown : Outcome Fault Stage) :
    (settle r target grown).1 = (settle q target grown).1 := by
  unfold settle
  cases grown.result <;> rfl

theorem settle_comm (r : Recipe) (apart : a ≠ b) (x y : Outcome Fault Stage) :
    (settle (settle r a x).2 b y).2 = (settle (settle r b y).2 a x).2 := by
  unfold settle
  cases x.result with
  | error fault => cases y.result <;> rfl
  | ok s =>
    cases y.result with
    | error fault => rfl
    | ok t => exact congrArg Recipe.mk (List.set_comm s t apart)

theorem perform_stage?_of_ne (op : StageOperation) (r : Recipe) (other : b ≠ target) :
    (op.perform target r).2.stage? b = r.stage? b := by
  unfold perform settle
  cases (op.outcome target r).result with
  | error fault => rfl
  | ok stage => exact List.getElem?_set_ne other.symm

theorem projected_push (stage : Stage) (ps : List Instruction) :
    projected (ps.foldl Stage.push stage) = projected stage := by
  rw [Stage.foldl_push]
  exact Prod.ext rfl (stage.append_instructions_blocks ps)

theorem projected_grow (plain : op.isBlock = false) (accepted : (op.grow r target stage).result = .ok grown) :
    projected grown = projected stage := by
  cases op with
  | push p =>
    cases accepted
    exact projected_push stage [p]
  | addBlock b => cases plain
  | project source called exclude =>
    obtain ⟨_, -, accepted⟩ := Outcome.bind_ok_iff.mp accepted
    obtain ⟨_, -, accepted⟩ := Outcome.bind_ok_iff.mp accepted
    obtain ⟨ps, -, made⟩ := Outcome.bind_ok_iff.mp accepted
    cases made
    exact projected_push stage ps

theorem outcome_ok (accepted : (op.outcome target r).result = .ok grown) :
    ∃ stage, r.stage? target = some stage ∧ (op.grow r target stage).result = .ok grown := by
  obtain ⟨stage, found, accepted⟩ := Outcome.bind_ok_iff.mp accepted
  exact ⟨stage, Session.stageAt_ok found, accepted⟩

-- Nothing but a block changes what is projected of a stage.
theorem perform_projected (plain : op.isBlock = false) (r : Recipe) (target index : Nat) :
    ((op.perform target r).2.stage? index).map projected = (r.stage? index).map projected := by
  by_cases other : index = target
  · subst other
    unfold perform settle
    cases accepted : (op.outcome index r).result with
    | error fault => rfl
    | ok grown =>
      obtain ⟨stage, present, accepted⟩ := outcome_ok accepted
      have there : index < r.stages.length := (List.getElem?_eq_some_iff.mp present).1
      show ((r.stages.set index grown)[index]?).map projected = _
      rw [List.getElem?_set_self there, present]
      exact congrArg some (projected_grow plain accepted)
  · rw [perform_stage?_of_ne op r other]

theorem outcome_after (apart : a ≠ b) (free : ¬ first.Feeds a second) (r : Recipe) :
    second.outcome b (first.perform a r).2 = second.outcome b r := by
  refine outcome_eq (fun source projects => ?_) (perform_stage?_of_ne first r apart.symm)
  cases block : first.isBlock with
  | false => exact perform_projected block r a source
  | true =>
    have other : source ≠ a := fun same => free ⟨block, same ▸ projects⟩
    rw [perform_stage?_of_ne first r other]

theorem perform_after (apart : a ≠ b) (free : ¬ first.Feeds a second) (r : Recipe) :
    second.perform b (first.perform a r).2 = settle (first.perform a r).2 b (second.outcome b r) := by
  rw [perform, outcome_after apart free]

theorem perform_told_after (apart : a ≠ b) (free : ¬ first.Feeds a second) (r : Recipe) :
    (second.perform b (first.perform a r).2).1 = (second.perform b r).1 := by
  rw [perform_after apart free]
  exact settle_fst ..

theorem perform_comm (apart : a ≠ b) (there : ¬ first.Feeds a second) (back : ¬ second.Feeds b first) (r : Recipe) :
    (second.perform b (first.perform a r).2).2 = (first.perform a (second.perform b r).2).2 := by
  rw [perform_after apart there, perform_after apart.symm back]
  exact settle_comm r apart (first.outcome a r) (second.outcome b r)

end

section

-- What is told of each operation of a run, and the recipe after the last one.
def run : List (Nat × StageOperation) → Recipe → List (Outcome Fault Unit) × Recipe
  | [], r => ([], r)
  | (target, op) :: rest, r =>
    let (told, next) := op.perform target r
    let (later, last) := run rest next
    (told :: later, last)

-- An operation that is independent of each one of a run can be performed before the run or after it.
theorem run_comm {steps : List (Nat × StageOperation)}
    (free : ∀ step ∈ steps, a ≠ step.1 ∧ ¬ op.Feeds a step.2 ∧ ¬ step.2.Feeds step.1 op) (r : Recipe) :
    (run steps (op.perform a r).2).1 = (run steps r).1 ∧
      (op.perform a (run steps r).2).1 = (op.perform a r).1 ∧
      (run steps (op.perform a r).2).2 = (op.perform a (run steps r).2).2 := by
  induction steps generalizing r with
  | nil => exact ⟨rfl, rfl, rfl⟩
  | cons step rest ih =>
    obtain ⟨target, first⟩ := step
    obtain ⟨⟨apart, there, back⟩, free⟩ := List.forall_mem_cons.mp free
    obtain ⟨told, same, reached⟩ := ih free (first.perform target r).2
    simp only [run]
    rw [perform_comm apart there back, told, same, reached, perform_told_after apart there,
      perform_told_after (Ne.symm apart) back]
    exact ⟨rfl, rfl, rfl⟩

end

section

variable {setting : Setting} {s : Session} {index : Nat} {m : Method} {arguments : List Value}

-- What a call does to its stage is what an operation does.
def Shows (stage : Stage) (effect : Outcome Fault Effect) (op : StageOperation) (r : Recipe)
    (target : Nat) : Prop :=
  op.grow r target stage = (stage.append ·.layers) <$> effect

theorem shows_block (stage : Stage) (b : Block) (toolchain : Option Toolchain) (r : Recipe) (target : Nat) :
    Shows stage (Session.blockEffect stage b toolchain) (addBlock b) r target := by
  cases expanded : stage.expand b with
  | mk result warnings =>
    cases result <;>
      simp [Shows, grow, Stage.addBlock, Session.blockEffect, expanded, bind, Outcome.andThen, Functor.map,
        Outcome.mapError, Except.mapError]

theorem shows_runtime (present : s.recipe.stage? index = some stage) (subject : argument arguments 0 = .stage other)
    (decoded : s.options excludeLayout (argument arguments 1) = .ok exclude) :
    Shows stage (s.runtimeEffect index stage arguments) (project other none exclude) s.recipe index := by
  unfold Shows Session.runtimeEffect
  rw [subject, decoded]
  by_cases own : other = index
  · have found : stageAt s.recipe other = .ok stage := stageAt_of_present (own ▸ present)
    simp only [grow, found, Session.otherStage, sourceText, if_pos own, Outcome.ofExcept_ok_bind]
    rfl
  · simp only [grow, Session.otherStage, sourceText, if_neg own, Outcome.ofExcept_ok_bind]
    show (Outcome.ofExcept (s.stageAt other) >>= fun origin => _) = _
    cases found : s.stageAt other with
    | error fault => rfl
    | ok origin =>
      have there : s.sourceStage index other = .ok origin := by
        unfold Session.sourceStage
        rw [Session.stageAt_ok found, present]
      simp only [Outcome.ofExcept_ok_bind]
      cases Session.reference stage.target.format other origin with
      | error fault => rfl
      | ok text =>
        simp only [Outcome.ofExcept_ok_bind, there, map_bind, map_pure, Stage.foldl_push]

-- Whatever a call does to its stage once its arguments are read is done by an operation, with the same error
-- or the same warnings.
theorem effect_shows (present : s.recipe.stage? index = some stage) :
    (∃ fault, s.effect setting index stage m arguments = ⟨.error fault, []⟩) ∨
      ∃ op, Shows stage (s.effect setting index stage m arguments) op s.recipe index := by
  have forms := Session.effect_forms setting s index stage m arguments
  generalize s.effect setting index stage m arguments = effect at forms
  cases forms with
  | @instruction _ x own yields =>
    cases decoded : x with
    | error fault => exact .inl ⟨fault, rfl⟩
    | ok change =>
      obtain ⟨p, layers⟩ := yields change decoded
      refine .inr ⟨push p, ?_⟩
      show _ = pure (stage.append change.layers)
      rw [layers]
      rfl
  | block own asked b =>
    cases asked with
    | error fault => exact .inl ⟨fault, rfl⟩
    | ok options => exact .inr ⟨addBlock (b options), shows_block ..⟩
  | runtime =>
    cases chosen : Session.otherStage index (argument arguments 0) with
    | error fault =>
      refine .inl ⟨fault, ?_⟩
      unfold Session.runtimeEffect
      rw [chosen]
      rfl
    | ok other =>
      cases decoded : s.options excludeLayout (argument arguments 1) with
      | error fault =>
        refine .inl ⟨fault, ?_⟩
        unfold Session.runtimeEffect
        rw [chosen, decoded]
        rfl
      | ok exclude =>
        exact .inr ⟨project other none exclude, shows_runtime present (Session.otherStage_ok chosen) decoded⟩

-- A call to a stage fails before it does anything, or else performs an operation: the recipe is the one after
-- it, the same warnings are given, and it fails with the same error.
theorem callMethod_performs (present : s.recipe.stage? index = some stage) :
    (∃ fault, s.step setting (Action.callMethod index m arguments) = (.error fault, s)) ∨
      ∃ op : StageOperation,
        let done := s.step setting (Action.callMethod index m arguments)
        let performed := op.perform index s.recipe
        done.2.recipe = performed.2 ∧ done.2.warnings = s.warnings ++ performed.1.warnings ∧
          done.1.map (fun _ => ()) = performed.1.result := by
  rw [step_callMethod setting present]
  rcases effect_shows present with ⟨fault, refused⟩ | ⟨op, shows⟩
  · refine .inl ⟨fault, ?_⟩
    rw [refused]
    simp
  · refine .inr ⟨op, ?_⟩
    have outcome : op.outcome index s.recipe = op.grow s.recipe index stage := by
      unfold StageOperation.outcome
      rw [stageAt_of_present present, Outcome.ofExcept_ok_bind]
    unfold perform
    rw [outcome, shows]
    cases settled : s.effect setting index stage m arguments with
    | mk result warnings =>
      cases result with
      | error fault => exact ⟨rfl, rfl, rfl⟩
      | ok change =>
        obtain ⟨values, tables, handed⟩ := step_handBack setting
          { s with
            recipe := s.recipe.append index change.layers
            warnings := s.warnings ++ warnings } change.toolchain
        have grown : (stage.append ·.layers) <$> (⟨.ok change, warnings⟩ : Outcome Fault Effect) =
            ⟨.ok (stage.append change.layers), warnings⟩ := by simp [Functor.map, Outcome.andThen]
        dsimp only
        rw [handed, grown]
        exact ⟨congrArg Recipe.mk (Recipe.append_stages present change.layers), rfl, rfl⟩

end

end StageOperation

-- Operations on different stages tell the same in either order and lead to the same recipe.
theorem operations_independent (r : Recipe) (a b : Nat) (first second : StageOperation) (apart : a ≠ b)
    (there : ¬ first.Feeds a second) (back : ¬ second.Feeds b first) :
    (second.perform b (first.perform a r).2).1 = (second.perform b r).1 ∧
      (first.perform a (second.perform b r).2).1 = (first.perform a r).1 ∧
      (second.perform b (first.perform a r).2).2 = (first.perform a (second.perform b r).2).2 :=
  ⟨StageOperation.perform_told_after apart there r, StageOperation.perform_told_after apart.symm back r,
    StageOperation.perform_comm apart there back r⟩

-- Two stages with compilers that are projected onto each other.
theorem operations_independent_mutual :
    let stage : Stage :=
      { name := none
        base := { image := "alpine" }
        target := ({} : Options).template
        layers := [.block (.gnu {}) []] }
    let r : Recipe := ⟨[stage, stage]⟩
    let there := StageOperation.project 0 none []
    let back := StageOperation.project 1 none []
    (there.perform 1 (back.perform 0 r).2).1 = ⟨.ok (), []⟩ ∧
      (back.perform 0 (there.perform 1 r).2).1 = ⟨.ok (), []⟩ ∧
      (there.perform 1 (back.perform 0 r).2).2 = (back.perform 0 (there.perform 1 r).2).2 := by
  intro stage r there back
  obtain ⟨one, two, same⟩ := operations_independent r 0 1 back there (by decide) nofun nofun
  exact ⟨one.trans rfl, two.trans rfl, same⟩

end ContainerRecipe.Script
