import ContainerRecipe.Proofs.Block.Refusal
import ContainerRecipe.Proofs.Script.Effects
import ContainerRecipe.Proofs.Script.Runs

namespace ContainerRecipe

section

theorem Nvhpc.accepted_of_install {t : Target} (policy : t.licensePolicy = .fatal) {n : Nvhpc}
    (installed : (n.install t).result = .ok ps) : n.eula = true := by
  have accepted := Block.install_ok_iff (b := .nvhpc n).mp ⟨ps, installed⟩
  by_contra declined
  exact accepted _ (.license n (Bool.eq_false_iff.mpr declined) policy)

theorem Outcome.not_mem_warnings_bind {x : Outcome ε α} {f : α → Outcome ε β} (first : w ∉ x.warnings)
    (rest : ∀ a, w ∉ (f a).warnings) : w ∉ (x >>= f).warnings := by
  cases told : x.result with
  | error e =>
    rw [bind_of_error told]
    exact first
  | ok a =>
    rw [bind_of_ok told, List.mem_append, not_or]
    exact ⟨first, rest a⟩

theorem Outcome.warnings_bind_pure (x : Outcome ε α) (f : α → β) :
    (x >>= fun a => pure (f a)).warnings = x.warnings := by
  cases told : x.result with
  | error e => rw [bind_of_error told]
  | ok a => simp [bind_of_ok told]

-- A package manager tells about its repositories only.
theorem PackageRequest.license_not_mem_install (r : PackageRequest) (t : Target) (block : String) :
    .licenseNotAccepted block ∉ (r.install t).warnings := by
  have steps : .licenseNotAccepted block ∉ (Yum.powertoolsSteps t r).warnings := by
    unfold Yum.powertoolsSteps
    split
    · simp
    · split
      · simp
      · simp [Logged.warn]
  unfold install commands
  cases t.packageFamily with
  | deb => simp
  | rpm => simpa [Yum.commands, Yum.steps] using steps

-- Where the license is not accepted, expanding the block tells so, and once only.
theorem Nvhpc.count_install {t : Target} (policy : t.licensePolicy = .warn) {n : Nvhpc}
    (refused : n.eula = false) : (n.install t).warnings.count (.licenseNotAccepted Nvhpc.name) = 1 := by
  have told : t.licensePolicy.check Nvhpc.name n.eula = .warn (.licenseNotAccepted Nvhpc.name) := by
    rw [policy, refused]
    rfl
  unfold install
  rw [told, Outcome.bind_of_ok (Outcome.result_warn _), List.count_append]
  have rest : ∀ x : Outcome BlockError (List Instruction), .licenseNotAccepted Nvhpc.name ∉ x.warnings →
      x.warnings.count (.licenseNotAccepted Nvhpc.name) = 0 := fun _ => List.count_eq_zero_of_not_mem
  rw [rest]
  · simp
  · refine Outcome.not_mem_warnings_bind (by simp [Outcome.ofExcept]) fun url => ?_
    refine Outcome.not_mem_warnings_bind (by simp [Outcome.ofExcept]) fun archive => ?_
    refine Outcome.not_mem_warnings_bind ?_ fun packages => ?_
    · exact PackageRequest.license_not_mem_install _ t Nvhpc.name
    · simp

end

-- The license of every SDK on a stage is accepted.
def Stage.Licensed (s : Stage) : Prop := ∀ n, Block.nvhpc n ∈ s.blocks → n.eula = true

-- The stages of a recipe follow the policy of its options, and under the policy that refuses an SDK without
-- its license they hold none.
structure Recipe.Licensed (o : Options) (r : Recipe) : Prop where
  policy : ∀ stage ∈ r.stages, stage.target.licensePolicy = o.licensePolicy
  licensed : o.licensePolicy = .fatal → ∀ stage ∈ r.stages, stage.Licensed

theorem Recipe.empty_licensed (o : Options) : Recipe.Licensed o ∅ where
  policy _ member := absurd member List.not_mem_nil
  licensed _ _ member := absurd member List.not_mem_nil

theorem Recipe.push_licensed {r : Recipe} (before : r.Licensed o)
    (policy : stage.target.licensePolicy = o.licensePolicy) (fresh : stage.layers = []) :
    (r.push stage).Licensed o where
  policy s member := by
    rcases List.mem_append.mp member with old | new
    · exact before.policy s old
    · rw [List.mem_singleton.mp new]
      exact policy
  licensed fatal s member := by
    rcases List.mem_append.mp member with old | new
    · exact before.licensed fatal s old
    · rw [List.mem_singleton.mp new]
      intro n inside
      simp [Stage.blocks, fresh] at inside

theorem Stage.append_licensed {s : Stage} (before : s.Licensed)
    (accepted : ∀ n ps, Layer.block (.nvhpc n) ps ∈ further → n.eula = true) : (s.append further).Licensed := by
  intro n member
  simp only [blocks, append, List.filterMap_append, List.mem_append] at member
  rcases member with old | new
  · exact before n old
  · obtain ⟨layer, inside, told⟩ := List.mem_filterMap.mp new
    cases layer with
    | instruction p => cases told
    | block b ps =>
      cases told
      exact accepted n ps inside

theorem Recipe.append_licensed {r : Recipe} (before : r.Licensed o) (present : r.stage? index = some stage)
    (accepted : o.licensePolicy = .fatal → ∀ n ps, Layer.block (.nvhpc n) ps ∈ further → n.eula = true) :
    (r.append index further).Licensed o := by
  have called : stage ∈ r.stages := List.mem_of_getElem? present
  constructor
  · rw [append_stages present]
    intro s member
    rcases List.mem_or_eq_of_mem_set member with old | rfl
    · exact before.policy s old
    · exact before.policy stage called
  · intro fatal
    rw [append_stages present]
    intro s member
    rcases List.mem_or_eq_of_mem_set member with old | rfl
    · exact before.licensed fatal s old
    · exact Stage.append_licensed (before.licensed fatal stage called) (accepted fatal)

namespace Script

open ContainerRecipe.Script.Action

-- A stage that is declared has the policy of the template, and nothing on it.
theorem Session.declared_fresh {s : Session} {template : Target} {arguments : List Value}
    (settled : (s.declared template arguments).result = .ok stage) :
    stage.target.licensePolicy = template.licensePolicy ∧ stage.layers = [] := by
  obtain ⟨request, -, -, shaped⟩ := declared_cases settled
  rw [shaped]
  exact ⟨rfl, rfl⟩

theorem Puts.accepted {r : Recipe} (puts : Puts r stage m layers) (policy : stage.target.licensePolicy = .fatal) :
    ∀ n ps, Layer.block (.nvhpc n) ps ∈ layers → n.eula = true := by
  intro n ps member
  cases puts with
  | instruction own p => simp at member
  | block own b expansion installed =>
    cases List.mem_singleton.mp member
    exact Nvhpc.accepted_of_install policy installed
  | projection => simp at member

theorem licensed_keptByCalls (o : Options) : KeptByCalls o fun a b => a.Licensed o → b.Licensed o where
  refl _ before := before
  trans first second before := second (first before)
  declare settled before := by
    obtain ⟨policy, fresh⟩ := Session.declared_fresh (congrArg Outcome.result settled)
    exact Recipe.push_licensed before policy fresh
  extend {setting s index stage m arguments effect warnings} present settled before := by
    refine Recipe.append_licensed before present fun fatal => ?_
    have policy := before.policy stage (List.mem_of_getElem? present)
    exact (Session.effect_puts (congrArg Outcome.result settled)).accepted (policy.trans fatal)

theorem Reachable.licensed (reachable : Reachable o s) : s.recipe.Licensed o :=
  (licensed_keptByCalls o).of_reachable reachable (Recipe.empty_licensed o)

-- A call that puts the SDK on a stage, with what is decoded from its arguments.
theorem Session.nvhpcEffect_warnings {s : Session} {stage : Stage}
    (decoded : s.options Nvhpc.layout (argument arguments 0) = .ok n) :
    (s.nvhpcEffect stage arguments).warnings = (n.install stage.target).warnings := by
  have placed : (s.nvhpcEffect stage arguments).warnings =
      (blockEffect stage (.nvhpc n) (some (n.toolchain stage.target))).warnings := by
    have read : (Outcome.ofExcept (s.options Nvhpc.layout (argument arguments 0))).result = .ok n := decoded
    unfold nvhpcEffect
    rw [Outcome.bind_of_ok read]
    exact List.nil_append _
  have expanded : (stage.expand (.nvhpc n)).warnings = (n.install stage.target).warnings := by
    unfold Stage.expand
    exact Outcome.warnings_bind_pure _ _
  rw [placed, ← expanded]
  exact Outcome.warnings_bind_pure _ _

-- Whatever a script has done, under the policy that refuses an SDK without its license no stage holds one,
-- no call puts one on a stage, and a runtime stage takes over from stages without one. Under the other
-- policy a call for such an SDK tells so once, whether it goes through or fails.
theorem licenses_respected (reachable : Reachable o s) :
    (o.licensePolicy = .fatal →
      (∀ stage ∈ s.recipe.stages, stage.Licensed) ∧
      ∀ setting index stage m arguments change, s.recipe.stage? index = some stage →
        (s.effect setting index stage m arguments).result = .ok change →
        (∀ n expansion, Layer.block (.nvhpc n) expansion ∈ change.layers → n.eula = true) ∧
        (m = .runtime → ∃ source ∈ s.recipe.stages, source.Licensed ∧ ∃ name exclude ps,
          (source.runtime stage.target name exclude).result = .ok ps ∧
          change.layers = ps.map .instruction)) ∧
    (o.licensePolicy = .warn →
      ∀ setting load index stage arguments n, s.recipe.stage? index = some stage →
        s.options Nvhpc.layout (argument arguments 0) = .ok n → n.eula = false →
        (s.step setting (callFunction load (.method .nvhpc) (.stage index :: arguments))).2.warnings.count
            (.licenseNotAccepted Nvhpc.name) =
          s.warnings.count (.licenseNotAccepted Nvhpc.name) + 1) := by
  have state := reachable.licensed
  constructor
  · intro fatal
    refine ⟨state.licensed fatal, fun setting index stage m arguments change present settled => ?_⟩
    have policy := state.policy stage (List.mem_of_getElem? present)
    have puts := Session.effect_puts settled
    refine ⟨puts.accepted (policy.trans fatal), ?_⟩
    rintro rfl
    generalize change.layers = layers at puts
    cases puts with
    | instruction own | block own => exact absurd rfl own
    | projection other source name exclude ps there projected =>
      have held : source ∈ s.recipe.stages := List.mem_of_getElem? there
      exact ⟨source, held, state.licensed fatal source held, name, exclude, ps, projected, rfl⟩
  · intro warn setting load index stage arguments n present decoded refused
    have policy := state.policy stage (List.mem_of_getElem? present)
    have called : callFunction load (.method .nvhpc) (.stage index :: arguments) =
        callMethod index .nvhpc arguments := rfl
    have effect : s.effect setting index stage .nvhpc arguments = s.nvhpcEffect stage arguments := rfl
    rw [called, callMethod_warnings setting present, effect, Session.nvhpcEffect_warnings decoded,
      List.count_append, Nvhpc.count_install (policy.trans warn) refused]

-- A script that starts a stage and puts the SDK on it, with its license accepted; and one that calls for it
-- without the license where that is only told.
theorem licenses_respected_either :
    let accepted : Options := {}
    let told : Options := { licensePolicy := .warn }
    let begun (o : Options) : Session := ((Session.start o none).step { options := o }
      (evaluate load (.call (.constant (.function .stage)) [.text "alpine"]))).2
    let placed : Session := ((begun accepted).step { options := accepted }
      (evaluate load (.call (.constant (.function (.method .nvhpc)))
        [.constant (.stage 0), .table [] [("eula", .constant (.flag true))]]))).2
    (placed.recipe.stages.map Stage.blockNames = [[Nvhpc.name]] ∧
      ∀ stage ∈ placed.recipe.stages, stage.Licensed) ∧
    ((begun told).step { options := told } (callFunction load (.method .nvhpc) [.stage 0])).2.warnings.count
      (.licenseNotAccepted Nvhpc.name) = 1 := by
  intro accepted told begun placed
  have started (o : Options) : Reachable o (begun o) :=
    .evaluate { options := o } rfl callLimit _ (.start none)
  have reachable : Reachable accepted placed :=
    .evaluate { options := accepted } rfl callLimit _ (started accepted)
  constructor
  · exact ⟨by decide +kernel, ((licenses_respected reachable).1 rfl).1⟩
  · have quiet : (begun told).warnings.count (.licenseNotAccepted Nvhpc.name) = 0 := by decide +kernel
    have once := (licenses_respected (started told)).2 rfl { options := told } load 0 _ [] {} rfl rfl rfl
    rw [once, quiet]

end Script

end ContainerRecipe
