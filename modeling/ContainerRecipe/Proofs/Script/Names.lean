import ContainerRecipe.Proofs.Script.Effects
import ContainerRecipe.Proofs.Script.Runs

namespace ContainerRecipe

-- The names of the stages that have one are pairwise different.
def Recipe.Distinct (r : Recipe) : Prop := (r.stages.filterMap Stage.name).Nodup

theorem Recipe.append_names (r : Recipe) (index : Nat) (layers : List Layer) :
    (r.append index layers).stages.map Stage.name = r.stages.map Stage.name := by
  unfold append
  refine List.ext_getElem? fun place => ?_
  rw [List.getElem?_map, List.getElem?_map, List.getElem?_modify]
  split
  · cases r.stages[place]? with
    | none => rfl
    | some stage => rfl
  · cases r.stages[place]? with
    | none => rfl
    | some stage => rfl

theorem Recipe.append_distinct {r : Recipe} (before : r.Distinct) (index : Nat) (layers : List Layer) :
    (r.append index layers).Distinct := by
  have names (stages : List Stage) : stages.filterMap Stage.name = (stages.map Stage.name).filterMap id := by
    rw [List.filterMap_map]
    rfl
  unfold Distinct
  rw [names, append_names, ← names]
  exact before

theorem Recipe.push_distinct {r : Recipe} (before : r.Distinct)
    (free : ∀ name, fresh.name = some name → r.hasStage name = false) : (r.push fresh).Distinct := by
  unfold Distinct push
  rw [List.filterMap_append]
  cases named : fresh.name with
  | none =>
    rw [List.filterMap_cons_none named, List.filterMap_nil, List.append_nil]
    exact before
  | some name =>
    have absent : ∀ stage ∈ r.stages, stage.name ≠ some name := by
      simpa [hasStage] using free name named
    refine List.nodup_append.mpr ⟨before, by simp [named], ?_⟩
    intro a member b single same
    obtain ⟨stage, inside, called⟩ := List.mem_filterMap.mp member
    have other : b = name := by simpa [named] using single
    exact absent stage inside (by rw [called, same, other])

-- A name is at one place only.
theorem Recipe.Distinct.place_unique {r : Recipe} (distinct : r.Distinct) (first : r.stage? a = some x)
    (second : r.stage? b = some y) (named : x.name = some name) (same : y.name = some name) : a = b := by
  have apart := List.pairwise_iff_getElem.mp (List.pairwise_filterMap.mp distinct)
  obtain ⟨inside, found⟩ := List.getElem?_eq_some_iff.mp first
  obtain ⟨inside', found'⟩ := List.getElem?_eq_some_iff.mp second
  subst found found'
  rcases Nat.lt_trichotomy a b with before | here | behind
  · exact absurd rfl (apart a b inside inside' before name named name same)
  · exact here
  · exact absurd rfl (apart b a inside' inside behind name same name named)

namespace Script

theorem distinct_keptByCalls (o : Options) : KeptByCalls o fun a b => a.Distinct → b.Distinct where
  refl _ before := before
  trans first second before := second (first before)
  declare settled before := by
    obtain ⟨request, -, free, shaped⟩ := Session.declared_cases (congrArg Outcome.result settled)
    subst shaped
    exact Recipe.push_distinct before free
  extend _ _ before := Recipe.append_distinct before _ _

theorem Reachable.distinct (reachable : Reachable o s) : s.recipe.Distinct :=
  (distinct_keptByCalls o).of_reachable reachable List.nodup_nil

end Script

end ContainerRecipe
