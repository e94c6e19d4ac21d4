import ContainerRecipe.Proofs.Script.Names

namespace ContainerRecipe.Script

open Session ContainerRecipe.Script.Action

-- The request of an event that adds a stage.
def Event.granted? (e : Event) : Option StageRequest :=
  match e.operation with
  | .call (.function .stage) arguments =>
    match (e.session.declared e.setting.options.template arguments).result with
    | .ok _ => (e.session.stageRequest (argument arguments 0)).toOption
    | .error _ => none
  | _ => none

def granted (events : List Event) : List StageRequest := events.filterMap Event.granted?

theorem granted_append (first rest : List Event) : granted (first ++ rest) = granted first ++ granted rest :=
  List.filterMap_append

section

-- A stage that is made as it was asked for, whatever was put on it since.
structure StageRequest.Answered (o : Options) (request : StageRequest) (stage : Stage) : Prop where
  name : stage.name = request.name
  base : stage.base = { request.base with stage := request.name }
  target : stage.target = (o.template.settle stage.base).value.withPackageFamily request.packageFamily

namespace StageRequest.Answered

theorem append (answered : StageRequest.Answered o request stage) (layers : List Layer) :
    request.Answered o (stage.append layers) where
  name := answered.name
  base := answered.base
  target := answered.target

theorem of_declared {s : Session} {o : Options} {arguments : List Value}
    (settled : (s.declared o.template arguments).result = .ok stage) :
    ∃ request, s.stageRequest (argument arguments 0) = .ok request ∧ request.Answered o stage := by
  obtain ⟨request, decoded, -, shaped⟩ := Session.declared_cases settled
  subst shaped
  have named : request.name.or request.base.stage = request.name := Option.or_none
  refine ⟨request, decoded, rfl, ?_, rfl⟩
  show { request.base with stage := request.name.or request.base.stage } = _
  rw [named]

-- All of the target but the platform and its packages is what the options say.
theorem options (answered : StageRequest.Answered o request stage) :
    stage.target.format = o.format ∧ stage.target.singularityVersion = o.singularityVersion ∧
      stage.target.workingDirectory = o.workingDirectory ∧ stage.target.licensePolicy = o.licensePolicy := by
  rw [answered.target]
  exact ⟨rfl, rfl, rfl, rfl⟩

theorem packageFamily (answered : StageRequest.Answered o request stage) : stage.target.packageFamily =
    request.packageFamily.getD stage.target.distribution.packageFamily := by
  rw [answered.target]
  rfl

theorem base_stage (answered : StageRequest.Answered o request stage) : stage.base.stage = stage.name := by
  rw [answered.base, answered.name]

end StageRequest.Answered

end

section

-- If each stage answers a request, they do so with the requests that are granted on the way.
def Answering (o : Options) (events : List Event) (before after : Recipe) : Prop :=
  ∀ requests, List.Forall₂ (StageRequest.Answered o) requests before.stages →
    List.Forall₂ (StageRequest.Answered o) (requests ++ granted events) after.stages

theorem answering_refl (o : Options) (nothing : granted events = []) (r : Recipe) : Answering o events r r := by
  intro requests answered
  rw [nothing, List.append_nil]
  exact answered

theorem Answering.trans (first : Answering o events a b) (rest : Answering o more b c) :
    Answering o (events ++ more) a c := by
  intro requests answered
  rw [granted_append, ← List.append_assoc]
  exact rest _ (first requests answered)

theorem granted_of_other {e : Event} (other : e.operation.isBinding = false) : granted [e] = [] := by
  have nothing : e.granted? = none := by
    unfold Event.granted?
    split
    · rename_i called
      rw [called] at other
      cases other
    · rfl
  exact List.filterMap_cons_none nothing

-- A call for a stage is granted exactly if it adds a stage, and this one answers it.
theorem answering_stage (load : Task → Action (List Value)) (arguments : List Value) :
    (callFunction load .stage arguments).Keeps o (Answering o)
      (.mark (.call (.function .stage) arguments) .none) := by
  intro setting s same requests answered
  rw [callFunction_stage, step_bind, step_callStage]
  subst same
  cases settled : s.declared setting.options.template arguments with
  | mk result warnings =>
    cases result with
    | error fault => simpa [granted, Trace.mark, Trace.none, Event.granted?, settled] using answered
    | ok stage =>
      obtain ⟨request, decoded, made⟩ :=
        StageRequest.Answered.of_declared (congrArg Outcome.result settled)
      have asked : granted (Trace.mark (.call (.function .stage) arguments) .none setting s) = [request] := by
        simp [granted, Trace.mark, Trace.none, Event.granted?, settled, decoded, Except.toOption]
      rw [asked]
      exact List.rel_append answered (.cons made .nil)

theorem answering_method (load : Task → Action (List Value)) (m : Method) (arguments : List Value) :
    (callFunction load (.method m) arguments).Keeps o (Answering o)
      (.mark (.call (.function (.method m)) arguments) .none) := by
  intro setting s same requests answered
  have asked : granted (Trace.mark (.call (.function (.method m)) arguments) .none setting s) = [] := rfl
  rw [asked, List.append_nil]
  rcases step_method setting s load m arguments with
    ⟨fault, warnings, failed⟩ | ⟨index, stage, effect, warnings, values, tables, -, present, settled, done⟩
  · rw [failed]
    exact answered
  · rw [done]
    exact Recipe.forall₂_append answered (fun _ _ layers made => made.append layers) index effect.layers

-- So every program keeps the stages as they were asked for, and each stage that it adds was asked for.
theorem answering_keptByEvents (o : Options) : KeptByEvents o (Answering o) where
  refl := answering_refl o rfl
  trans := Answering.trans
  other r other := answering_refl o (granted_of_other other) r
  binding load f arguments binding := by
    cases f with
    | stage => exact answering_stage load arguments
    | method m => exact answering_method load m arguments
    | dofile | require | loadfile | library | made => cases binding

end

-- What scripts with some options have done up to a session, from the start on.
inductive History (o : Options) : List Event → Session → Prop where
  | start (beside : Option String) : History o [] (Session.start o beside)
  | evaluate (setting : Setting) (same : setting.options = o) (bound : Nat) (e : Expression)
      (before : History o events s) :
      History o (events ++ Trace.evaluate (runTask bound) (.runTask bound) e setting s)
        (s.step setting (evaluate (runTask bound) e)).2
  | run (setting : Setting) (same : setting.options = o) (bound : Nat) (statement : Statement)
      (before : History o events s) :
      History o (events ++ Trace.run (runTask bound) (.runTask bound) statement setting s)
        (s.step setting (run (runTask bound) statement)).2
  | file (setting : Setting) (same : setting.options = o) (bound : Nat) (path : String)
      (before : History o events s) :
      History o (events ++ Trace.runTask bound (.file path) setting s) (s.step setting (runTask bound (.file path))).2
  | interact (setting : Setting) (same : setting.options = o) (statement : Statement)
      (before : History o events s) :
      History o (events ++ Trace.interact statement setting s) (s.step setting (interact statement)).2
  | enter (directory : Option String) (before : History o events s) : History o events { s with directory }
  | call (c : Closure) (arguments : List Value) (before : History o events s) :
      History o events { s with cells := s.cells ++ c.given arguments }

theorem History.reachable (history : History o events s) : Reachable o s := by
  induction history with
  | start beside => exact .start beside
  | evaluate setting same bound e _ ih => exact .evaluate setting same bound e ih
  | run setting same bound statement _ ih => exact .run setting same bound statement ih
  | file setting same bound path _ ih => exact .file setting same bound path ih
  | interact setting same statement _ ih => exact .interact setting same statement ih
  | enter directory _ ih => exact .enter directory ih
  | call c arguments _ ih => exact .call c arguments ih

-- The sessions that have a history are those that scripts can be in.
theorem reachable_iff_history : Reachable o s ↔ ∃ events, History o events s := by
  refine ⟨fun reachable => ?_, fun ⟨_, history⟩ => history.reachable⟩
  induction reachable with
  | start beside => exact ⟨_, .start beside⟩
  | evaluate setting same bound e _ ih =>
    obtain ⟨_, history⟩ := ih
    exact ⟨_, .evaluate setting same bound e history⟩
  | run setting same bound statement _ ih =>
    obtain ⟨_, history⟩ := ih
    exact ⟨_, .run setting same bound statement history⟩
  | file setting same bound path _ ih =>
    obtain ⟨_, history⟩ := ih
    exact ⟨_, .file setting same bound path history⟩
  | interact setting same statement _ ih =>
    obtain ⟨_, history⟩ := ih
    exact ⟨_, .interact setting same statement history⟩
  | enter directory _ ih =>
    obtain ⟨_, history⟩ := ih
    exact ⟨_, .enter directory history⟩
  | call c arguments _ ih =>
    obtain ⟨_, history⟩ := ih
    exact ⟨_, .call c arguments history⟩

theorem History.answered (history : History o events s) :
    List.Forall₂ (StageRequest.Answered o) (granted events) s.recipe.stages := by
  have parts := (answering_keptByEvents o).holdsOfParts
  induction history with
  | start beside => exact .nil
  | evaluate setting same bound e _ ih =>
    rw [granted_append]
    exact parts.evaluate_runTask bound e setting _ same _ ih
  | run setting same bound statement _ ih =>
    rw [granted_append]
    exact parts.run_runTask bound statement setting _ same _ ih
  | file setting same bound path _ ih =>
    rw [granted_append]
    exact parts.runTask bound (.file path) setting _ same _ ih
  | interact setting same statement _ ih =>
    rw [granted_append]
    exact parts.interact statement setting _ same _ ih
  | enter | call => assumption

-- Stages with a name have different names, all of them are made with the options, whatever scripts have
-- stored in the table that tells of them, and are called in their base image as they are. There is one for
-- each request that was granted, with the package family of this request, or else of its distribution.
theorem recipe_wellFormed (history : History o events s) :
    (s.recipe.stages.filterMap Stage.name).Nodup ∧
      (∀ stage ∈ s.recipe.stages, stage.target.format = o.format ∧
        stage.target.singularityVersion = o.singularityVersion ∧
        stage.target.workingDirectory = o.workingDirectory ∧
        stage.target.licensePolicy = o.licensePolicy ∧ stage.base.stage = stage.name) ∧
      List.Forall₂ (fun request stage => stage.target.packageFamily =
        request.packageFamily.getD stage.target.distribution.packageFamily)
        (granted events) s.recipe.stages := by
  have answered := history.answered
  refine ⟨history.reachable.distinct, ?_, answered.imp fun _ _ made => made.packageFamily⟩
  intro stage member
  obtain ⟨place, inside, rfl⟩ := List.mem_iff_getElem.mp member
  have made := answered.get (answered.length_eq ▸ inside) inside
  obtain ⟨format, version, directory, policy⟩ := made.options
  exact ⟨format, version, directory, policy, made.base_stage⟩

-- A stage of other packages, after the script has given its table another format.
theorem recipe_wellFormed_forced :
    let format : Statement := .store (.global "recipe") (.text "format") (.text "bash")
    let stage : Statement := .evaluate (.call (.constant (.function .stage))
      [.table [] [("image", .text "ubuntu"), ("package_type", .text "rpm")]])
    let changed := ((Session.start {} none).step {} (interact format)).2
    let s := (changed.step {} (interact stage)).2
    let events := Trace.interact format {} (.start {} none) ++ Trace.interact stage {} changed
    ((changed.table recipePlace).get (.ofText "format")).text? = some "bash" ∧ History {} events s ∧
      (granted events).map StageRequest.packageFamily = [some .rpm] ∧
      ∃ stage, s.recipe.stages = [stage] ∧ stage.target.distribution.packageFamily = .deb ∧
        stage.target.format = .docker ∧ stage.target.packageFamily = .rpm := by
  intro format stage changed s events
  have stored : ((changed.table recipePlace).get (.ofText "format")).text? = some "bash" := by decide +kernel
  have history : History {} events s := .interact {} rfl stage (.interact {} rfl format (.start none))
  obtain ⟨-, made, families⟩ := recipe_wellFormed history
  have asked : (granted events).map StageRequest.packageFamily = [some .rpm] := by decide +kernel
  have platforms : s.recipe.stages.map (·.target.distribution) = [.ubuntu] := by decide +kernel
  obtain ⟨only, stages, ubuntu⟩ := List.map_eq_singleton_iff.mp platforms
  obtain ⟨request, requests, rpm⟩ := List.map_eq_singleton_iff.mp asked
  rw [requests, stages, List.forall₂_cons] at families
  refine ⟨stored, history, asked, only, stages, ?_, ?_, ?_⟩
  · rw [ubuntu]
    rfl
  · exact (made only (stages ▸ List.mem_singleton_self only)).1
  · rw [families.1, rpm]
    rfl

end ContainerRecipe.Script
