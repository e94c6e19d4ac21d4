import ContainerRecipe.Proofs.Script.Constants
import ContainerRecipe.Proofs.Script.Faults
import ContainerRecipe.Proofs.Script.Holdings
import ContainerRecipe.Proofs.Script.Requests

namespace ContainerRecipe.Script

open Session ContainerRecipe.Script.Action

-- The handle that a call for a stage gives back, and the stage that is there at its place by then.
def Event.created? (e : Event) : Option (Nat × Stage) :=
  match e.operation with
  | .call (.function .stage) arguments =>
    match e.session.step e.setting (callStage arguments) with
    | (.ok (.stage index), next) => (next.recipe.stage? index).map (index, ·)
    | _ => none
  | _ => none

-- The handles that scripts were given, with their stages as they were then.
def created (events : List Event) : List (Nat × Stage) := events.filterMap Event.created?

theorem created_append (first rest : List Event) : created (first ++ rest) = created first ++ created rest :=
  List.filterMap_append

theorem created_single (e : Event) : created [e] = e.created?.toList := by
  unfold created
  cases told : e.created? <;> simp [told]

theorem created_of_other {e : Event}
    (other : ∀ arguments, e.operation ≠ .call (.function .stage) arguments) : created [e] = [] := by
  rw [created_single]
  unfold Event.created?
  split
  · rename_i called
    exact absurd called (other _)
  · rfl

-- A handle at a place below a number.
def Value.Below (count : Nat) : Value → Prop
  | .stage index => index < count
  | _ => True

theorem Value.Below.grows (le : n ≤ m) {v : Value} (below : v.Below n) : v.Below m := by
  cases v with
  | stage index => exact Nat.lt_of_lt_of_le below le
  | _ => trivial

theorem Value.below_of_plain {v : Value} (plain : v.isStage = false) : v.Below n := by
  cases v with
  | stage index => cases plain
  | _ => trivial

-- A handle leads to the stage that it was given for, with what was put on it since.
def Session.LeadsTo (s : Session) (made : List (Nat × Stage)) (index : Nat) : Prop :=
  ∃ first stage, (index, first) ∈ made ∧ s.recipe.stage? index = some stage ∧ first.Extends stage

section

variable {made : List (Nat × Stage)}

-- The handles that were given are the places of the recipe in order, each stage is the one that its handle
-- was given for, and no other handle is held.
structure Session.Stands (s : Session) (made : List (Nat × Stage)) : Prop where
  places : made.map Prod.fst = List.range made.length
  stages : List.Forall₂ (fun entry stage => entry.2.Extends stage) made s.recipe.stages
  held : s.Holds (Value.Below made.length)

structure Event.Stands (e : Event) (made : List (Nat × Stage)) : Prop where
  session : e.session.Stands made
  operands : ∀ v ∈ e.operation.values, v.Below made.length

-- Each event stands with the handles that were given before it.
def Follow (made : List (Nat × Stage)) : List Event → Prop
  | [] => True
  | e :: rest => e.Stands made ∧ Follow (made ++ created [e]) rest

theorem follow_append {first rest : List Event} :
    Follow made (first ++ rest) ↔ Follow made first ∧ Follow (made ++ created first) rest := by
  induction first generalizing made with
  | nil => simp [Follow, created]
  | cons e first ih =>
    have step : created (e :: first) = created [e] ++ created first := created_append [e] first
    rw [List.cons_append, Follow, Follow, ih, step, and_assoc, List.append_assoc]

theorem Follow.stands {before after : List Event} {e : Event} (follow : Follow made (before ++ e :: after)) :
    e.Stands (made ++ created before) :=
  (follow_append.mp follow).2.1

namespace Session.Stands

variable {s : Session} (stands : s.Stands made)
include stands

theorem length_eq : s.recipe.stages.length = made.length := stands.stages.length_eq.symm

theorem leadsTo {index : Nat} (below : index < made.length) : s.LeadsTo made index := by
  have inside : index < s.recipe.stages.length := stands.length_eq ▸ below
  have place : made[index].1 = index := by
    have same := congrArg (·[index]?) stands.places
    simpa [below] using same
  refine ⟨made[index].2, s.recipe.stages[index], ?_, List.getElem?_eq_getElem inside, ?_⟩
  · have entry : made[index] = (index, made[index].2) := Prod.ext place rfl
    rw [← entry]
    exact List.getElem_mem below
  · exact stands.stages.get below inside

theorem warn (warnings : List Warning) : Stands { s with warnings := s.warnings ++ warnings } made :=
  ⟨stands.places, stands.stages, stands.held⟩

theorem enter (directory : Option String) : Stands { s with directory } made :=
  ⟨stands.places, stands.stages, stands.held⟩

theorem call (c : Closure) {arguments : List Value} (given : ∀ v ∈ arguments, v.Below made.length) :
    Stands { s with cells := s.cells ++ c.given arguments } made :=
  ⟨stands.places, stands.stages, holds_call Value.below_of_plain stands.held c given⟩

theorem push {stage : Stage} :
    Stands { s with recipe := s.recipe.push stage } (made ++ [(made.length, stage)]) where
  places := by
    rw [List.map_append, stands.places, List.length_append, List.length_singleton, List.range_succ]
    rfl
  stages := List.rel_append stands.stages (.cons (.refl stage) .nil)
  held v member := (stands.held v member).grows (by simp)

theorem append (index : Nat) (layers : List Layer) :
    Stands { s with recipe := s.recipe.append index layers } made where
  places := stands.places
  stages := Recipe.forall₂_append stands.stages
    (fun _ stage layers extended => extended.trans (stage.append_extends layers)) index layers
  held := stands.held

end Session.Stands

theorem stands_start (o : Options) (beside : Option String) : (Session.start o beside).Stands [] where
  places := rfl
  stages := .nil
  held := holds_start Value.below_of_plain o beside

end

-- From any session that stands with at least `count` handles on, each event stands and so does the session in
-- the end, and a result holds no handles but those that were given by then.
def Action.Sound (count : Nat) (x : Action α) (trace : Trace) (values : α → List Value) : Prop :=
  ∀ (setting : Setting) (s : Session) (made : List (Nat × Stage)), count ≤ made.length → s.Stands made →
    Follow made (trace setting s) ∧
    (s.step setting x).2.Stands (made ++ created (trace setting s)) ∧
    ∀ a, (s.step setting x).1 = .ok a →
      ∀ v ∈ values a, v.Below (made ++ created (trace setting s)).length

section

variable {count : Nat}

theorem sound_silent {x : Action α} {values : α → List Value}
    (done : ∀ setting (s : Session) made, count ≤ made.length → s.Stands made →
      (s.step setting x).2.Stands made ∧
      ∀ a, (s.step setting x).1 = .ok a → ∀ v ∈ values a, v.Below made.length) :
    x.Sound count .none values := by
  intro setting s made le stands
  have same : made ++ created (Trace.none setting s) = made := List.append_nil made
  rw [same]
  exact ⟨trivial, done setting s made le stands⟩

theorem Action.Still.sound {x : Action α} {values : α → List Value} (still : x.Still)
    (valid : ∀ setting (s : Session) made a, count ≤ made.length → s.Stands made →
      (s.step setting x).1 = .ok a → ∀ v ∈ values a, v.Below made.length) : x.Sound count .none values := by
  refine sound_silent fun setting s made le stands => ⟨?_, fun a => valid setting s made a le stands⟩
  rw [still]
  exact stands

namespace Action.Sound

theorem bind {x : Action α} {f : α → Action β} {part : Trace} {rest : α → Trace} {values : α → List Value}
    {values' : β → List Value} (first : x.Sound count part values)
    (more : ∀ m a, count ≤ m → (∀ v ∈ values a, v.Below m) → (f a).Sound m (rest a) values') :
    (x >>= f).Sound count (part.andThen x rest) values' := by
  intro setting s made le stands
  obtain ⟨follow, standing, valid⟩ := first setting s made le stands
  unfold Trace.andThen
  rw [step_bind]
  cases result : s.step setting x with
  | mk told next =>
    rw [result] at standing valid
    cases told with
    | ok a =>
      have later : count ≤ (made ++ created (part setting s)).length := by
        rw [List.length_append]
        omega
      obtain ⟨follow', standing', valid'⟩ :=
        more _ a later (valid a rfl) setting next _ (Nat.le_refl _) standing
      dsimp only
      rw [created_append, ← List.append_assoc]
      exact ⟨follow_append.mpr ⟨follow, follow'⟩, standing', valid'⟩
    | error fault =>
      dsimp only
      rw [List.append_nil]
      exact ⟨follow, standing, nofun⟩

-- An action behind some events that stand.
theorem behind {x : Action α} {trace : Trace} {values : α → List Value} {events : List Event} {s : Session}
    (sound : x.Sound 0 trace values) (before : Follow [] events ∧ s.Stands (created events)) :
    Follow [] (events ++ trace setting s) ∧
      (s.step setting x).2.Stands (created (events ++ trace setting s)) := by
  obtain ⟨follow, standing, -⟩ := sound setting s _ (Nat.zero_le _) before.2
  rw [created_append]
  exact ⟨follow_append.mpr ⟨before.1, follow⟩, standing⟩

theorem followed {x : Action α} {f : α → Action β} {values : α → List Value} {values' : β → List Value}
    (first : x.Sound count .none values)
    (more : ∀ m a, count ≤ m → (∀ v ∈ values a, v.Below m) → (f a).Sound m .none values') :
    (x >>= f).Sound count .none values' := by
  rw [← Trace.none.andThen_none x]
  exact first.bind more

theorem succeeds {x : Action α} {inside : Trace} {values : α → List Value} (sound : x.Sound count inside values) :
    (succeeds x).Sound count inside fun _ => [] := by
  intro setting s made le stands
  obtain ⟨follow, standing, -⟩ := sound setting s made le stands
  rw [step_succeeds_session]
  exact ⟨follow, standing, fun _ _ => List.forall_mem_nil _⟩

theorem deeper (nesting : Nat) {x : Action α} {inside : Trace} {values : α → List Value}
    (sound : x.Sound count inside values) : (deeper nesting x).Sound count (inside.deeper nesting) values := by
  intro setting s made le stands
  rw [Trace.deeper_eq, step_deeper]
  split
  · have same : made ++ created [] = made := List.append_nil made
    rw [same]
    exact ⟨trivial, stands, nofun⟩
  · exact sound { setting with level := setting.level + 1 } s made le stands

theorem within (p : Path) {x : Action α} {inside : Trace} {values : α → List Value}
    (sound : x.Sound count inside values) : (within p x).Sound count (inside.within p) values := by
  intro setting s made le stands
  obtain ⟨follow, standing, valid⟩ :=
    sound { setting with file := some p, locals := [] } _ made le (stands.enter (some p.directory))
  rw [Trace.within_eq, step_within]
  exact ⟨follow, standing.enter s.directory, valid⟩

theorem applying (c : Closure) (arguments : List Value) {x : Action α} {inside : Trace} {values : α → List Value}
    (given : ∀ v ∈ arguments, v.Below count) (sound : x.Sound count inside values) :
    (applying c arguments x).Sound count (inside.applying c arguments) values := by
  intro setting s made le stands
  rw [Trace.applying_eq, step_applying]
  exact sound _ _ made le (stands.call c fun v member => (given v member).grows le)

theorem mark {x : Action α} {rest : Trace} {values : α → List Value} {operation : Operation}
    (other : operation.isBinding = false) (operands : ∀ v ∈ operation.values, v.Below count)
    (sound : x.Sound count rest values) : x.Sound count (.mark operation rest) values := by
  intro setting s made le stands
  have nothing : created [⟨setting, s, operation⟩] = [] := by
    refine created_of_other fun arguments called => ?_
    dsimp only at called
    rw [called] at other
    cases other
  have same : created (Trace.mark operation rest setting s) = created (rest setting s) := by
    rw [← List.nil_append (created (rest setting s)), ← nothing]
    exact created_append [_] _
  obtain ⟨follow, standing, valid⟩ := sound setting s made le stands
  have event : Event.Stands ⟨setting, s, operation⟩ made :=
    ⟨stands, fun v member => (operands v member).grows le⟩
  rw [same]
  refine ⟨⟨event, ?_⟩, standing, valid⟩
  rw [nothing, List.append_nil]
  exact follow

end Action.Sound

end

section

variable {count : Nat}

theorem sound_pure {values : α → List Value} (a : α) (valid : ∀ v ∈ values a, v.Below count) :
    (pure a : Action α).Sound count .none values := by
  refine (still_pure a).sound fun _ _ _ _ le _ told => ?_
  cases told
  exact fun v member => (valid v member).grows le

theorem sound_told {g : Session → Value} (held : ∀ (s : Session) made, s.Stands made → (g s).Below made.length) :
    (do return g (← get) : Action Value).Sound count .none fun v => [v] := by
  refine (still_get.bind fun _ => still_pure _).sound fun setting s made a _ stands told => ?_
  cases told
  exact List.forall_mem_singleton.mpr (held s made stands)

theorem sound_newTable {t : Table} (held : t.Holds (Value.Below count)) :
    (newTable t).Sound count .none fun v => [v] := by
  refine sound_silent fun setting s made le stands => ?_
  rw [step_newTable]
  have later : t.Holds (Value.Below made.length) := fun v member => (held v member).grows le
  refine ⟨⟨stands.places, stands.stages, holds_newTable stands.held later⟩, ?_⟩
  rintro _ ⟨⟩
  exact List.forall_mem_singleton.mpr trivial

-- An operation that changes the recipe, by what it does alone.
theorem sound_call {x : Action α} {values : α → List Value} {operation : Operation}
    (operands : ∀ v ∈ operation.values, v.Below count)
    (done : ∀ setting (s : Session) made, count ≤ made.length → s.Stands made →
      let given := made ++ created [⟨setting, s, operation⟩]
      (s.step setting x).2.Stands given ∧
        ∀ a, (s.step setting x).1 = .ok a → ∀ v ∈ values a, v.Below given.length) :
    x.Sound count (.mark operation .none) values := by
  intro setting s made le stands
  have event : Event.Stands ⟨setting, s, operation⟩ made :=
    ⟨stands, fun v member => (operands v member).grows le⟩
  exact ⟨⟨event, trivial⟩, done setting s made le stands⟩

theorem sound_index_value (subject key : Value) (below : subject.Below count) :
    (Action.index subject key).Sound count .none fun v => [v] := by
  have field {s : Session} {made : List (Nat × Stage)} (stands : s.Stands made) (place : Nat) :
      ((key.key?.map (s.table place).get).getD .nil).Below made.length := by
    refine holds_getD Value.below_of_plain fun v found => ?_
    obtain ⟨k, -, rfl⟩ := Option.map_eq_some_iff.mp found
    exact Table.holds_get Value.below_of_plain (holds_table stands.held place) k
  refine (still_index subject key).sound fun setting s made a le stands told => ?_
  refine List.forall_mem_singleton.mpr ?_
  cases subject with
  | table place =>
    cases told
    exact field stands place
  | bytes content =>
    cases told
    exact field stands textLibraryPlace
  | stage index =>
    obtain ⟨first, stage, -, present, -⟩ := stands.leadsTo (Nat.lt_of_lt_of_le below le)
    obtain ⟨v, plain, done⟩ := step_index_stage setting present key
    rw [done] at told
    cases told
    exact Value.below_of_plain plain
  | nil | flag | number | function => cases told

-- A call for a stage gives back the handle of the stage that it adds.
theorem sound_stage (load : Task → Action (List Value)) {arguments : List Value}
    (given : ∀ v ∈ arguments, v.Below count) : (callFunction load .stage arguments).Sound count
      (.mark (.call (.function .stage) arguments) .none) id := by
  refine sound_call (List.forall_mem_cons.mpr ⟨trivial, given⟩) fun setting s made _ stands => ?_
  rw [callFunction_stage, created_single]
  unfold Event.created?
  dsimp only
  rcases callStage_cases setting s arguments with ⟨fault, warnings, failed⟩ | ⟨stage, warnings, -, done⟩
  · rw [step_bind_of_error _ _ failed, failed]
    dsimp only
    rw [Option.toList_none, List.append_nil]
    exact ⟨stands.warn warnings, nofun⟩
  · have there : (s.recipe.push stage).stage? s.recipe.stages.length = some stage :=
      List.getElem?_concat_length
    rw [step_bind_of_ok _ _ done, step_pure, done]
    dsimp only
    rw [there, Option.map_some, Option.toList_some, stands.length_eq]
    refine ⟨stands.push.warn warnings, ?_⟩
    rintro _ ⟨⟩
    exact List.forall_mem_singleton.mpr (by simp [Value.Below])

theorem sound_handBack (toolchain : Option Toolchain) : (handBack toolchain).Sound count .none id := by
  have ofFields (n : Nat) {fields : List (String × Value)} (held : ∀ field ∈ fields, field.2.Below n) :
      (newTable (.ofFields fields)).Sound n .none fun v => [v] :=
    sound_newTable (Table.holds_ofParts Value.below_of_plain (List.forall_mem_nil _) held)
  cases toolchain with
  | none => exact sound_pure [] (List.forall_mem_nil _)
  | some t =>
    have made : (newToolchain t).Sound count .none fun v => [v] := by
      refine Action.Sound.followed (ofFields count ?_) fun m settings _ held => ofFields m ?_
      · exact List.forall_mem_map.mpr fun _ _ => trivial
      · exact List.forall_mem_singleton.mpr (held settings List.mem_cons_self)
    exact made.followed fun m v _ held => sound_pure [v] held

-- A call of a method puts layers on a stage, and gives back no stage.
theorem sound_method (load : Task → Action (List Value)) (m : Method) {arguments : List Value}
    (given : ∀ v ∈ arguments, v.Below count) : (callFunction load (.method m) arguments).Sound count
      (.mark (.call (.function (.method m)) arguments) .none) id := by
  refine sound_call (List.forall_mem_cons.mpr ⟨trivial, given⟩) fun setting s made _ stands => ?_
  have nothing : created [⟨setting, s, .call (.function (.method m)) arguments⟩] = [] :=
    created_of_other fun _ called => by cases called
  rw [nothing, List.append_nil]
  rcases callFunction_method_cases load m arguments with ⟨index, -, called⟩ | called
  · rw [called]
    cases found : s.recipe.stage? index with
    | none =>
      rw [step_callMethod_missing setting found]
      exact ⟨stands, nofun⟩
    | some stage =>
      rw [step_callMethod setting found]
      cases settled : s.effect setting index stage m (arguments.drop 1) with
      | mk result warnings =>
        cases result with
        | error fault => exact ⟨stands.warn warnings, nofun⟩
        | ok effect =>
          have extended := (stands.append index effect.layers).warn warnings
          have handed := (sound_handBack effect.toolchain setting _ made (Nat.le_refl _) extended).2
          have silent (s : Session) : made ++ created (Trace.none setting s) = made := List.append_nil made
          rw [silent] at handed
          exact handed
  · rw [called, step_throw]
    exact ⟨stands, nofun⟩

theorem sound_holdsOfFiles : HoldsOfFiles Value.Below Action.Sound where
  grows le below := below.grows le
  plain _ _ plain := Value.below_of_plain plain
  program read v member _ := Value.below_of_plain (Program.stageless_read? read v member)
  pure := sound_pure
  throw fault := (still_throw fault).sound fun _ _ _ _ _ _ told => by cases told
  bind := Action.Sound.bind
  succeeds := Action.Sound.succeeds
  deeper nesting _ _ _ sound := sound.deeper nesting
  within p _ _ _ sound := sound.within p
  applying c arguments _ _ _ given sound := sound.applying c arguments given
  mark other operands sound := sound.mark other operands
  variableValue _ name := (still_variableValue name).sound fun setting s made a _ stands told => by
    cases told
    exact List.forall_mem_singleton.mpr (holds_variableValue Value.below_of_plain stands.held setting.locals name)
  global _ name := sound_told fun s made stands =>
    Table.holds_get Value.below_of_plain (holds_table stands.held globalsPlace) _
  moduleValue _ name := sound_told fun s made stands =>
    Table.holds_get Value.below_of_plain (holds_table stands.held modulesPlace) _
  directory _ := (still_read.bind fun _ => still_pure _).sound fun _ _ _ _ _ _ _ => List.forall_mem_nil _
  newFunction _ parameters body written := sound_silent fun setting s made le stands =>
    ⟨⟨stands.places, stands.stages, holds_newFunction stands.held _ fun v member => (written v member).grows le⟩,
      fun a told => by
        cases told
        exact List.forall_mem_singleton.mpr trivial⟩
  closureAt _ number := (still_closureAt number).sound fun setting s made a _ stands told => by
    cases told
    exact holds_closureAt stands.held number
  newTable _ items fields held named := sound_newTable
    (Table.holds_ofParts Value.below_of_plain held (List.forall_mem_map.mp named))
  assign _ name v valid := sound_silent fun setting s made le stands => by
    refine ⟨?_, fun _ _ => List.forall_mem_nil _⟩
    rw [step_assign]
    cases setting.locals.lookup name with
    | none => exact ⟨stands.places, stands.stages, holds_assign stands.held name (valid.grows le)⟩
    | some place => exact ⟨stands.places, stands.stages, holds_assignCell stands.held place (valid.grows le)⟩
  store _ place k v named valid := sound_silent fun setting s made le stands =>
    ⟨⟨stands.places, stands.stages,
      holds_store Value.below_of_plain stands.held place (named.grows le) (valid.grows le)⟩,
      fun _ _ => List.forall_mem_nil _⟩
  filePath _ v := (still_filePath v).sound fun _ _ _ _ _ _ _ => List.forall_mem_nil _
  findModule _ name := (still_findModule name).sound fun _ _ _ _ _ _ _ => List.forall_mem_nil _
  readFile _ path := (still_readFile path).sound fun _ _ _ _ _ _ _ => List.forall_mem_nil _
  index _ subject key below named := (sound_index_value subject key below).mark rfl
    (List.forall_mem_cons.mpr ⟨below, List.forall_mem_singleton.mpr named⟩)
  askLibrary _ name arguments given :=
    Action.Sound.mark rfl (List.forall_mem_cons.mpr ⟨trivial, given⟩) <| sound_silent fun setting s made _ stands => by
      rw [step_askLibrary]
      exact ⟨⟨stands.places, stands.stages, stands.held⟩, fun _ _ => List.forall_mem_nil _⟩
  binding _ load f arguments binding given := by
    cases f with
    | stage => exact sound_stage load given
    | method m => exact sound_method load m given
    | dofile | require | loadfile | library | made => cases binding

end

section

-- What scripts with some options have done up to a session. Their programs are such as can be read.
inductive Written (o : Options) : List Event → Session → Prop where
  | start (beside : Option String) : Written o [] (Session.start o beside)
  | evaluate (setting : Setting) (same : setting.options = o) (bound : Nat) (e : Expression)
      (plain : Stageless e.constants) (before : Written o events s) :
      Written o (events ++ Trace.evaluate (runTask bound) (.runTask bound) e setting s)
        (s.step setting (evaluate (runTask bound) e)).2
  | run (setting : Setting) (same : setting.options = o) (bound : Nat) (statement : Statement)
      (plain : Stageless statement.constants) (before : Written o events s) :
      Written o (events ++ Trace.run (runTask bound) (.runTask bound) statement setting s)
        (s.step setting (run (runTask bound) statement)).2
  | file (setting : Setting) (same : setting.options = o) (bound : Nat) (path : String)
      (before : Written o events s) :
      Written o (events ++ Trace.runTask bound (.file path) setting s) (s.step setting (runTask bound (.file path))).2
  | interact (setting : Setting) (same : setting.options = o) (statement : Statement)
      (plain : Stageless statement.constants) (before : Written o events s) :
      Written o (events ++ Trace.interact statement setting s) (s.step setting (interact statement)).2

namespace Written

theorem history (written : Written o events s) : History o events s := by
  induction written with
  | start beside => exact .start beside
  | evaluate setting same bound e _ _ ih => exact .evaluate setting same bound e ih
  | run setting same bound statement _ _ ih => exact .run setting same bound statement ih
  | file setting same bound path _ ih => exact .file setting same bound path ih
  | interact setting same statement _ _ ih => exact .interact setting same statement ih

theorem stands (written : Written o events s) : Follow [] events ∧ s.Stands (created events) := by
  have below {vs : List Value} (plain : Stageless vs) : ∀ v ∈ vs, v.Below 0 :=
    fun v member => Value.below_of_plain (plain v member)
  induction written with
  | start beside => exact ⟨trivial, stands_start _ beside⟩
  | evaluate setting _ bound e plain _ ih =>
    exact (sound_holdsOfFiles.evaluate_runTask bound 0 e (below plain)).behind ih
  | run setting _ bound statement plain _ ih =>
    exact (sound_holdsOfFiles.run_runTask bound 0 statement (below plain)).behind ih
  | file setting _ bound path _ ih => exact (sound_holdsOfFiles.runTask bound 0 (.file path) (List.forall_mem_nil _)).behind ih
  | interact setting _ statement plain _ ih =>
    exact (sound_holdsOfFiles.interact 0 statement (below plain)).behind ih

end Written

-- Handles are the places of the recipe, and each is given once. Wherever a handle is held, be it in a
-- variable, a table or a module, in the end or when something is asked or called on the way, it leads to the
-- stage that it was given for; so does each one that is asked or handed over. So what a handle is asked for
-- is told, and no call of a method tells that a stage is not there.
theorem handles_lead_to_stages (written : Written o events s) :
    (created events).map Prod.fst = List.range s.recipe.stages.length ∧
      (∀ index, .stage index ∈ s.held → s.LeadsTo (created events) index) ∧
      ∀ before e after, events = before ++ e :: after →
        (∀ index, .stage index ∈ e.session.held ++ e.operation.values →
          e.session.LeadsTo (created before) index) ∧
        (∀ index key, e.operation = .index (.stage index) key →
          ∃ v, e.session.step e.setting (Action.index (.stage index) key) = (.ok v, e.session)) ∧
        ∀ load m arguments fault, e.operation = .call (.function (.method m)) arguments →
          (e.session.step e.setting (callFunction load (.method m) arguments)).1 = .error fault →
          fault ≠ .refusal .foreignStages ∧ ∀ index, fault ≠ .refusal (.noSuchStage index) := by
  obtain ⟨follow, stands⟩ := written.stands
  refine ⟨?_, fun index member => stands.leadsTo (stands.held _ member), ?_⟩
  · rw [stands.places, stands.length_eq]
  rintro before e after rfl
  have event : e.Stands (created before) := follow.stands
  have below (index : Nat) (member : .stage index ∈ e.session.held ++ e.operation.values) :
      e.session.LeadsTo (created before) index := by
    rcases List.mem_append.mp member with held | operand
    · exact event.session.leadsTo (event.session.held _ held)
    · exact event.session.leadsTo (event.operands _ operand)
  refine ⟨below, fun index key asked => ?_, fun load m arguments fault called failed => ?_⟩
  · obtain ⟨first, stage, -, present, -⟩ := below index (List.mem_append_right _ (asked ▸ List.mem_cons_self))
    obtain ⟨v, -, done⟩ := step_index_stage e.setting present key
    exact ⟨v, done⟩
  · have given (index : Nat) (member : .stage index ∈ arguments) :
        ∃ stage, e.session.recipe.stage? index = some stage := by
      obtain ⟨first, stage, -, present, -⟩ :=
        below index (List.mem_append_right _ (called ▸ List.mem_cons_of_mem _ member))
      exact ⟨stage, present⟩
    have other := grounded_method e.setting load m given fault failed
    constructor
    · rintro rfl
      cases other
    · rintro index rfl
      cases other

-- A stage that is kept in a table and handed over from there, for its runtime in a stage that came later.
theorem handles_lead_to_stages_kept :
    let stage (image : String) : Expression := .call (.recipe "stage") [.text image]
    let devel : Statement := .assign "devel" (stage "alpine")
    let kept : Statement := .assign "kept" (.table [] [("stage", .variable "devel")])
    let final : Statement := .assign "final" (stage "ubuntu")
    let runtime : Statement :=
      .evaluate (.method (.variable "final") "runtime" [.index (.variable "kept") (.text "stage")])
    let first := ((Session.start {} none).step {} (interact devel)).2
    let second := (first.step {} (interact kept)).2
    let third := (second.step {} (interact final)).2
    let s := (third.step {} (interact runtime)).2
    let events := Trace.interact devel {} (.start {} none) ++ Trace.interact kept {} first ++
      Trace.interact final {} second ++ Trace.interact runtime {} third
    Written {} events s ∧ (s.held.filter Value.isStage).length = 3 ∧ (created events).map Prod.fst = [0, 1] ∧
      ∀ index, .stage index ∈ s.held → s.LeadsTo (created events) index := by
  intro stage devel kept final runtime first second third s events
  have plain (image : String) : Stageless (stage image).constants := by
    simp [stage, Expression.constants, Expression.constantsOfAll]
  have begun : Written {} (Trace.interact devel {} (.start {} none)) first := by
    have written := Written.interact {} rfl devel (plain "alpine") (.start none)
    rwa [List.nil_append] at written
  have keeping : Stageless kept.constants := by
    simp [kept, Statement.constants, Expression.constants, Expression.constantsOfAll, Expression.constantsOfFields]
  have handing : Stageless runtime.constants := by
    simp [runtime, Statement.constants, Expression.constants, Expression.constantsOfAll]
  have written : Written {} events s :=
    .interact {} rfl runtime handing (.interact {} rfl final (plain "ubuntu") (.interact {} rfl kept keeping begun))
  have handles : (s.held.filter Value.isStage).length = 3 := by decide +kernel
  have given : (created events).map Prod.fst = [0, 1] := by decide +kernel
  exact ⟨written, handles, given, (handles_lead_to_stages written).2.1⟩

end

end ContainerRecipe.Script
