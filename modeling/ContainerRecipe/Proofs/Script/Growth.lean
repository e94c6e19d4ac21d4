import ContainerRecipe.Proofs.Script.Runs

namespace ContainerRecipe

-- The later form of a recipe: each of its stages is where it was, with more on it or the same.
def Recipe.Grows (before after : Recipe) : Prop :=
  ∀ index stage, before.stage? index = some stage → ∃ later, after.stage? index = some later ∧
    later.name = stage.name ∧ later.base = stage.base ∧ later.target = stage.target ∧
    stage.instructions <+: later.instructions ∧ stage.blockNames <+: later.blockNames

namespace Recipe.Grows

theorem refl (r : Recipe) : r.Grows r := fun _ stage present =>
  ⟨stage, present, rfl, rfl, rfl, List.prefix_rfl, List.prefix_rfl⟩

theorem trans {a b c : Recipe} (first : a.Grows b) (second : b.Grows c) : a.Grows c := by
  intro index stage present
  obtain ⟨next, there, name, base, target, instructions, blocks⟩ := first index stage present
  obtain ⟨last, found, name', base', target', instructions', blocks'⟩ := second index next there
  exact ⟨last, found, name'.trans name, base'.trans base, target'.trans target,
    instructions.trans instructions', blocks.trans blocks'⟩

theorem push (r : Recipe) (fresh : Stage) : r.Grows (r.push fresh) := by
  intro index stage present
  have inside : index < r.stages.length := (List.getElem?_eq_some_iff.mp present).1
  have kept : (r.push fresh).stage? index = some stage := by
    unfold stage? Recipe.push
    rw [List.getElem?_append_left inside]
    exact present
  exact ⟨stage, kept, rfl, rfl, rfl, List.prefix_rfl, List.prefix_rfl⟩

theorem append {r : Recipe} (called : r.stage? place = some onto) (layers : List Layer) :
    r.Grows (r.append place layers) := by
  intro index stage present
  unfold stage?
  rw [Recipe.append_stages called]
  by_cases here : place = index
  · subst here
    have inside : place < r.stages.length := (List.getElem?_eq_some_iff.mp present).1
    have same : onto = stage := Option.some.inj (called.symm.trans present)
    subst same
    have extended := onto.append_extends layers
    exact ⟨onto.append layers, List.getElem?_set_self inside, extended.name, extended.base, extended.target,
      extended.instructions, extended.blocks.map Block.name⟩
  · rw [List.getElem?_set_ne here]
    exact ⟨stage, present, rfl, rfl, rfl, List.prefix_rfl, List.prefix_rfl⟩

end Recipe.Grows

namespace Script

open ContainerRecipe.Script.Action

theorem grows_keptByCalls (o : Options) : KeptByCalls o Recipe.Grows where
  refl := Recipe.Grows.refl
  trans := Recipe.Grows.trans
  declare _ := Recipe.Grows.push _ _
  extend present _ := Recipe.Grows.append present _

-- A statement of a file and one of an interactive session, in any setting and any session: so also a
-- statement that another one runs, in a branch, in an attempt or in a file, and one that fails.
theorem recipe_grows (setting : Setting) (s : Session) (bound : Nat) (statement : Statement) :
    s.recipe.Grows (s.step setting (run (runTask bound) statement)).2.recipe ∧
    s.recipe.Grows (s.step setting (interact statement)).2.recipe := by
  have calls := grows_keptByCalls setting.options
  exact ⟨calls.holdsOfParts.run_runTask bound statement setting s rfl,
    calls.holdsOfParts.interact statement setting s rfl⟩

end Script

end ContainerRecipe
