import ContainerRecipe.Proofs.Script.Parts
import ContainerRecipe.Proofs.Script.Readings

namespace ContainerRecipe.Script

open Session ContainerRecipe.Script.Action

section

-- Whether the format is asked for, by its key or in a table that is decoded or given to the library.
def Event.readsFormat (e : Event) : Bool :=
  match e.operation with
  | .index (.table place) key => place == recipePlace && key.key? == some formatKey
  | .index (.stage _) (.bytes content) => String.fromUTF8? content == some "format"
  | .call (.function .stage) arguments => e.session.leadsToRecipe (argument arguments 0)
  | .call (.function (.method m)) arguments =>
    match argument arguments 0 with
    | .stage index => (e.session.recipe.stage? index).isSome && m.reads e.session index (arguments.drop 1)
    | _ => false
  | .call (.function (.library _)) arguments => arguments.any e.session.leadsToRecipe
  | _ => false

-- Whether the runtime of a stage without a name is asked for.
def Event.unnamedSource (e : Event) : Bool :=
  match e.operation with
  | .call (.function (.method .runtime)) arguments =>
    e.session.unnamedSource (argument (arguments.drop 1) 0)
  | _ => false

-- An event that is the same in the formats `f` and `g`.
structure Event.Apart (f g : Format) (e : Event) : Prop where
  unread : e.readsFormat = false
  named : f = .singularity ∨ g = .singularity → e.unnamedSource = false

end

-- In parallel sessions an action gives the same result and leaves parallel sessions behind, as long as the
-- events on its way are the same.
def Action.Alike (o : Options) (g : Format) (x : Action α) (trace : Trace) : Prop :=
  ∀ (setting : Setting) (s t : Session), setting.options = o → Parallel o.format g s t →
    (∀ e ∈ trace setting s, e.Apart o.format g) →
    (t.step (setting.inFormat g) x).1 = (s.step setting x).1 ∧
      Parallel o.format g (s.step setting x).2 (t.step (setting.inFormat g) x).2

variable {o : Options} {g : Format}

section

theorem Action.Alike.bind {x : Action α} {f : α → Action β} {part : Trace} {rest : α → Trace}
    (first : x.Alike o g part) (more : ∀ a, (f a).Alike o g (rest a)) :
    (x >>= f).Alike o g (part.andThen x rest) := by
  intro setting s t same parallel apart
  unfold Trace.andThen at apart
  have before := first setting s t same parallel fun e member => apart e (List.mem_append_left _ member)
  rw [step_bind, step_bind]
  cases here : s.step setting x with
  | mk told next =>
    cases there : t.step (setting.inFormat g) x with
    | mk told' next' =>
      rw [here, there] at before
      obtain ⟨equal, parallel⟩ := before
      obtain rfl : told = told' := equal.symm
      cases told with
      | ok a =>
        refine more a setting next next' same parallel fun e member => apart e (List.mem_append_right _ ?_)
        rw [here]
        exact member
      | error fault => exact ⟨rfl, parallel⟩

theorem Action.Alike.succeeds {x : Action α} {inside : Trace} (alike : x.Alike o g inside) :
    (succeeds x).Alike o g inside := by
  intro setting s t same parallel apart
  have before := alike setting s t same parallel apart
  rw [step_succeeds, step_succeeds]
  cases here : s.step setting x with
  | mk told next =>
    cases there : t.step (setting.inFormat g) x with
    | mk told' next' =>
      rw [here, there] at before
      obtain ⟨equal, parallel⟩ := before
      obtain rfl : told = told' := equal.symm
      cases told with
      | ok a => exact ⟨rfl, parallel⟩
      | error fault => exact ⟨rfl, parallel⟩

theorem Action.Alike.deeper (nesting : Nat) {x : Action α} {inside : Trace} (alike : x.Alike o g inside) :
    (deeper nesting x).Alike o g (inside.deeper nesting) := by
  intro setting s t same parallel apart
  have level : (setting.inFormat g).level = setting.level := rfl
  rw [Trace.deeper_eq] at apart
  rw [step_deeper, step_deeper, level]
  split
  · exact ⟨rfl, parallel⟩
  · rename_i room
    rw [if_neg room] at apart
    exact alike { setting with level := setting.level + 1 } s t same parallel apart

theorem Action.Alike.within (p : Path) {x : Action α} {inside : Trace} (alike : x.Alike o g inside) :
    (within p x).Alike o g (inside.within p) := by
  intro setting s t same parallel apart
  rw [Trace.within_eq] at apart
  obtain ⟨result, next⟩ := alike { setting with file := some p, locals := [] } _ _ same
    (parallel.enter (some p.directory)) apart
  rw [step_within, step_within, parallel.directory]
  exact ⟨result, next.enter s.directory⟩

theorem Action.Alike.applying (c : Closure) (arguments : List Value) {x : Action α} {inside : Trace}
    (alike : x.Alike o g inside) : (applying c arguments x).Alike o g (inside.applying c arguments) := by
  intro setting s t same parallel apart
  rw [Trace.applying_eq] at apart
  rw [step_applying, step_applying, parallel.cells]
  exact alike (c.setting s.cells.length setting) _ _ same (parallel.enterCall c arguments) apart

theorem Action.Alike.mark {x : Action α} {rest : Trace} (operation : Operation) (alike : x.Alike o g rest) :
    x.Alike o g (.mark operation rest) :=
  fun setting s t same parallel apart =>
    alike setting s t same parallel fun e member => apart e (List.mem_cons_of_mem _ member)

end

section

theorem alike_pure (a : α) : Action.Alike o g (pure a) .none := fun _ _ _ _ parallel _ => ⟨rfl, parallel⟩

theorem alike_throw (fault : Fault) : Action.Alike o g (throw fault : Action α) .none :=
  fun _ _ _ _ parallel _ => ⟨rfl, parallel⟩

theorem alike_ofOutcome (x : Outcome Fault α) : Action.Alike o g (ofOutcome x) .none := by
  intro setting s t _ parallel _
  rw [step_ofOutcome, step_ofOutcome]
  exact ⟨rfl, parallel.warn x.warnings⟩

theorem Action.Alike.followed {x : Action α} {f : α → Action β} (first : x.Alike o g .none)
    (more : ∀ a, (f a).Alike o g .none) : (x >>= f).Alike o g .none := by
  rw [← Trace.none.andThen_none x]
  exact first.bind more

-- What goes on with a part of the setting that is no option.
theorem alike_read {f : Setting → Action α} (same : ∀ setting, f (setting.inFormat g) = f setting)
    (more : ∀ setting, (f setting).Alike o g .none) : Action.Alike o g (read >>= f) .none := by
  intro setting s t options parallel apart
  rw [step_bind_of_ok _ _ (step_read ..), step_bind_of_ok _ _ (step_read ..), same]
  exact more setting setting s t options parallel apart

-- What goes on with a part of the session that is the same in parallel sessions.
theorem alike_get {f : Session → Action α} (same : ∀ s t, Parallel o.format g s t → f t = f s)
    (more : ∀ s, (f s).Alike o g .none) : Action.Alike o g (get >>= f) .none := by
  intro setting s t options parallel apart
  rw [step_bind_of_ok _ _ (step_get ..), step_bind_of_ok _ _ (step_get ..), same s t parallel]
  exact more s setting s t options parallel apart

theorem alike_files : Action.Alike o g Action.files .none := by
  intro setting s t _ parallel _
  rw [step_files, step_files]
  exact ⟨congrArg Except.ok (parallel.files setting), parallel⟩

theorem alike_variableValue (name : String) : Action.Alike o g (Action.variableValue name) .none := by
  intro setting s t _ parallel _
  rw [step_variableValue, step_variableValue]
  exact ⟨congrArg Except.ok (parallel.variableValue setting.locals name), parallel⟩

theorem alike_assign (name : String) (v : Value) : Action.Alike o g (Action.assign name v) .none := by
  intro setting s t _ parallel _
  rw [step_assign, step_assign, show (setting.inFormat g).locals = setting.locals from rfl]
  cases setting.locals.lookup name with
  | none => exact ⟨rfl, parallel.assign name v⟩
  | some place => exact ⟨rfl, parallel.assignCell place v⟩

theorem alike_closureAt (number : Nat) : Action.Alike o g (closureAt number) .none := by
  refine alike_get (fun s t parallel => ?_) fun s => alike_pure _
  rw [parallel.closures]

theorem alike_global (name : String) : Action.Alike o g (do return (← get).global name) .none := by
  refine alike_get (fun s t parallel => ?_) fun s => alike_pure _
  unfold global
  rw [parallel.table_of_ne (by decide : globalsPlace ≠ recipePlace)]

theorem alike_moduleValue (name : ByteArray) :
    Action.Alike o g (do return (← get).moduleValue name) .none := by
  refine alike_get (fun s t parallel => ?_) fun s => alike_pure _
  unfold moduleValue
  rw [parallel.table_of_ne (by decide : modulesPlace ≠ recipePlace)]

theorem alike_newFunction (parameters : List String) (body : Program) :
    Action.Alike o g (newFunction parameters body) .none := by
  intro setting s t _ parallel _
  rw [step_newFunction, step_newFunction, parallel.closures]
  exact ⟨rfl, parallel.newFunction _⟩

theorem alike_askLibrary (name : String) (arguments : List Value) : Action.Alike o g (askLibrary name arguments)
    (.mark (.call (.function (.library name)) arguments) .none) := by
  intro setting s t _ parallel apart
  have unread : ∀ v ∈ arguments, s.leadsToRecipe v = false := by
    simpa [Event.readsFormat] using (apart _ List.mem_cons_self).unread
  have told : arguments.map t.datum = arguments.map s.datum :=
    List.map_congr_left fun v member => parallel.datum (unread v member)
  rw [step_askLibrary, step_askLibrary, told, parallel.files, parallel.calls]
  exact ⟨rfl, parallel.askLibrary _⟩

theorem alike_newTable (table : Table) : Action.Alike o g (newTable table) .none := by
  intro setting s t _ parallel _
  rw [step_newTable, step_newTable, parallel.tables_length]
  exact ⟨rfl, parallel.newTable table⟩

theorem alike_filePath (v : Value) : Action.Alike o g (filePath v) .none := by
  unfold filePath
  have told : Action.Alike o g
      (do return (← get).pathFrom (← ofOutcome (.ofExcept v.asText))) .none := by
    refine alike_get (fun s t parallel => ?_) fun s => (alike_ofOutcome _).followed fun path => alike_pure _
    simp only [parallel.pathFrom]
  dsimp only
  split
  · exact (alike_throw _).followed fun _ => told
  · exact told

theorem alike_findModule (name : ByteArray) : Action.Alike o g (findModule name) .none := by
  unfold findModule
  refine alike_files.followed fun tree => (alike_ofOutcome _).followed fun name => ?_
  refine alike_get (fun s t parallel => ?_) fun s => (alike_ofOutcome _).followed fun templates => ?_
  · unfold modulePath
    rw [parallel.table_of_ne (by decide : packagePlace ≠ recipePlace)]
  · split
    · exact alike_pure _
    · exact alike_throw _

theorem alike_readFile (path : String) : Action.Alike o g (readFile path) .none := by
  unfold readFile
  refine alike_files.followed fun tree => ?_
  split
  · exact alike_throw _
  · split
    · exact alike_throw _
    · exact alike_pure _

end

section

omit o in
theorem stageField_inFormat (stage : Stage) {field : StageField} (other : field ≠ .format) :
    stageField (stage.inFormat g) field = stageField stage field := by
  cases field with
  | format => exact absurd rfl other
  | name | distribution | version | architecture | packageFamily | platform => rfl

theorem alike_index_table (place : Nat) (key : Value) :
    Action.Alike o g (Action.index (.table place) key) (.mark (.index (.table place) key) .none) := by
  intro setting s t _ parallel apart
  have unread := (apart _ List.mem_cons_self).unread
  have here (s : Session) (setting : Setting) : s.step setting (Action.index (.table place) key) =
      (.ok ((key.key?.map (s.table place).get).getD .nil), s) := rfl
  rw [here, here]
  refine ⟨?_, parallel⟩
  cases held : key.key? with
  | none => rfl
  | some k =>
    by_cases about : place = recipePlace
    · have other : k ≠ formatKey := by simpa [Event.readsFormat, about, held] using unread
      exact congrArg Except.ok (parallel.get_of_ne place other)
    · rw [parallel.table_of_ne about]

theorem alike_index_stage (index : Nat) (key : Value) :
    Action.Alike o g (Action.index (.stage index) key) (.mark (.index (.stage index) key) .none) := by
  intro setting s t _ parallel apart
  have unread := (apart _ List.mem_cons_self).unread
  unfold Action.index
  dsimp only
  rw [step_bind_of_ok _ _ (step_get ..), step_bind_of_ok _ _ (step_get ..)]
  cases found : s.recipe.stage? index with
  | none =>
    have moved : t.recipe.stage? index = none := by rw [parallel.stage?, found, Option.map_none]
    rw [step_bind_of_error _ _ (step_stageAt_missing _ _ found),
      step_bind_of_error _ _ (step_stageAt_missing _ _ moved)]
    exact ⟨rfl, parallel⟩
  | some stage =>
    have moved : t.recipe.stage? index = some (stage.inFormat g) := by
      rw [parallel.stage?, found, Option.map_some]
    rw [step_bind_of_ok _ _ (step_stageAt _ _ found), step_bind_of_ok _ _ (step_stageAt _ _ moved)]
    split
    · rename_i _ _ field asked
      have other : field ≠ .format := by
        rintro rfl
        have called := List.find?_some asked
        cases key with
        | bytes content =>
          have decoded : String.fromUTF8? content = some "format" := by
            cases text : String.fromUTF8? content with
            | none => simp [text, StageField.text] at called
            | some name => simpa [text, StageField.text, eq_comm] using called
          simp [Event.readsFormat, decoded] at unread
        | _ => simp [StageField.text] at called
      rw [step_pure, step_pure, stageField_inFormat stage other]
      exact ⟨rfl, parallel⟩
    · exact ⟨rfl, parallel⟩
    · exact ⟨rfl, parallel⟩

theorem alike_index (subject key : Value) :
    Action.Alike o g (Action.index subject key) (.mark (.index subject key) .none) := by
  cases subject with
  | table place => exact alike_index_table place key
  | stage index => exact alike_index_stage index key
  | bytes =>
    refine Action.Alike.mark _ (alike_get (fun s t parallel => ?_) fun s => alike_pure _)
    rw [parallel.table_of_ne (by decide : textLibraryPlace ≠ recipePlace)]
  | nil | flag | number | function => exact (alike_throw _).mark _

theorem alike_handBack (toolchain : Option Toolchain) : Action.Alike o g (handBack toolchain) .none := by
  cases toolchain with
  | none => exact alike_pure _
  | some t =>
    have made : Action.Alike o g (newToolchain t) .none :=
      (alike_newTable _).followed fun settings => alike_newTable _
    exact made.followed fun v => alike_pure _

theorem alike_stage (load : Task → Action (List Value)) (arguments : List Value) :
    Action.Alike o g (callFunction load .stage arguments)
      (.mark (.call (.function .stage) arguments) .none) := by
  intro setting s t same parallel apart
  have unread : s.leadsToRecipe (argument arguments 0) = false := (apart _ List.mem_cons_self).unread
  have template : (setting.inFormat g).options.template = setting.options.template.inFormat g := rfl
  subst same
  rw [callFunction_stage, step_bind, step_bind, step_callStage, step_callStage, template, parallel.declared _ unread]
  cases settled : s.declared setting.options.template arguments with
  | mk result warnings =>
    cases result with
    | error fault => exact ⟨rfl, parallel.warn warnings⟩
    | ok stage =>
      obtain ⟨request, -, -, shaped⟩ := Session.declared_cases (congrArg Outcome.result settled)
      have made : stage.inFormat setting.options.format = stage := by
        subst shaped
        rfl
      have count : t.recipe.stages.length = s.recipe.stages.length := by
        rw [parallel.recipe]
        exact List.length_map _
      rw [Outcome.map_ok]
      dsimp only
      rw [count]
      exact ⟨rfl, (parallel.push made).warn warnings⟩

theorem alike_method (load : Task → Action (List Value)) (m : Method) (arguments : List Value) :
    Action.Alike o g (callFunction load (.method m) arguments)
      (.mark (.call (.function (.method m)) arguments) .none) := by
  intro setting s t same parallel apart
  have neutral := apart _ List.mem_cons_self
  rcases callFunction_method_cases load m arguments with ⟨index, subject, called⟩ | called
  · have moved := parallel.stage? index
    rw [called]
    cases found : s.recipe.stage? index with
    | none =>
      rw [found] at moved
      rw [step_callMethod_missing _ found, step_callMethod_missing _ moved]
      exact ⟨rfl, parallel⟩
    | some stage =>
      rw [found] at moved
      have unread : m.reads s index (arguments.drop 1) = false := by
        simpa [Event.readsFormat, subject, found] using neutral.unread
      have named : m = .runtime → o.format = .singularity ∨ g = .singularity →
          s.unnamedSource (argument (arguments.drop 1) 0) = false := by
        rintro rfl singularity
        exact neutral.named singularity
      rw [step_callMethod _ found, step_callMethod _ moved, parallel.effect setting found unread named]
      cases settled : s.effect setting index stage m (arguments.drop 1) with
      | mk result warnings =>
        cases result with
        | error fault => exact ⟨rfl, parallel.warn warnings⟩
        | ok effect =>
          have extended := (parallel.append index effect.layers).warn warnings
          exact alike_handBack effect.toolchain setting _ _ same extended fun _ member =>
            absurd member List.not_mem_nil
  · rw [called, step_throw, step_throw]
    exact ⟨rfl, parallel⟩

end

theorem alike_holdsOfParts (o : Options) (g : Format) : HoldsOfParts (Action.Alike o g) where
  grows _ _ := trivial
  plain _ _ _ := trivial
  program _ _ _ _ := trivial
  pure a _ := alike_pure a
  throw := alike_throw
  bind first more := first.bind fun a => more _ a (Nat.le_refl _) fun _ _ => trivial
  succeeds := Action.Alike.succeeds
  deeper nesting _ _ _ alike := alike.deeper nesting
  within p _ _ _ alike := alike.within p
  applying c arguments _ _ _ _ alike := alike.applying c arguments
  mark _ _ alike := alike.mark _
  variableValue _ := alike_variableValue
  global _ := alike_global
  moduleValue _ := alike_moduleValue
  directory _ := alike_read (fun _ => rfl) fun setting => alike_pure _
  newFunction _ parameters body _ := alike_newFunction parameters body
  closureAt _ := alike_closureAt
  newTable _ items fields _ _ := alike_newTable (.ofParts items fields)
  assign _ name v _ := alike_assign name v
  store _ place k v _ _ _ _ _ _ parallel _ := ⟨rfl, parallel.store place k v⟩
  filePath _ := alike_filePath
  findModule _ := alike_findModule
  readFile _ := alike_readFile
  index _ subject key _ _ := alike_index subject key
  askLibrary _ name arguments _ := alike_askLibrary name arguments
  binding _ load f arguments binding _ := by
    cases f with
    | stage => exact alike_stage load arguments
    | method m => exact alike_method load m arguments
    | dofile | require | loadfile | library | made => cases binding

section

-- What is done in a session at a time: an interactive statement, or a file.
inductive Turn where
  | statement (statement : Statement)
  | file (path : String)

namespace Turn

def action : Turn → Action Value
  | statement st => interact st
  | file path => first <$> load (.file path)

def trace : Turn → Trace
  | statement st => .interact st
  | file path => .load (.file path)

end Turn

-- The result of each turn, and the session after the last one.
def Session.play (setting : Setting) : List Turn → Session → List (Except Fault Value) × Session
  | [], s => ([], s)
  | turn :: rest, s =>
    let (result, next) := s.step setting turn.action
    let (results, last) := next.play setting rest
    (result :: results, last)

def Session.played (setting : Setting) : List Turn → Session → List Event
  | [], _ => []
  | turn :: rest, s => turn.trace setting s ++ (s.step setting turn.action).2.played setting rest

theorem alike_turn (turn : Turn) : turn.action.Alike o g turn.trace := by
  cases turn with
  | statement st => exact (alike_holdsOfParts o g).interact st
  | file path =>
    change Action.Alike o g (first <$> load (.file path)) (.load (.file path))
    rw [map_eq_pure_bind, ← Trace.andThen_none (.load (.file path)) (load (.file path))]
    exact ((alike_holdsOfParts o g).runTask callLimit (.file path)).bind fun _ => alike_pure _

theorem Session.Parallel.play {setting : Setting} {s t : Session} (same : setting.options = o)
    (parallel : Parallel o.format g s t) (turns : List Turn)
    (apart : ∀ e ∈ s.played setting turns, e.Apart o.format g) :
    (t.play (setting.inFormat g) turns).1 = (s.play setting turns).1 ∧
      Parallel o.format g (s.play setting turns).2 (t.play (setting.inFormat g) turns).2 := by
  induction turns generalizing s t with
  | nil => exact ⟨rfl, parallel⟩
  | cons turn rest ih =>
    obtain ⟨result, next⟩ := alike_turn turn setting s t same parallel fun e member =>
      apart e (List.mem_append_left _ member)
    obtain ⟨results, last⟩ := ih next fun e member => apart e (List.mem_append_right _ member)
    exact ⟨congrArg₂ List.cons result results, last⟩

-- Without asking for the format a script gives the same results in all formats, and ends with stages of the
-- same name, the same instructions and the same blocks, whose targets differ in the format alone. Where one
-- of the formats is Singularity, all stages whose runtime is asked for have to have a name.
theorem recipe_same_in_formats (setting : Setting) (g : Format) (beside : Option String) (turns : List Turn)
    (unread : ∀ e ∈ (Session.start setting.options beside).played setting turns, e.readsFormat = false)
    (named : setting.options.format = .singularity ∨ g = .singularity →
      ∀ e ∈ (Session.start setting.options beside).played setting turns, e.unnamedSource = false) :
    let here := (Session.start setting.options beside).play setting turns
    let there := (Session.start (setting.options.inFormat g) beside).play (setting.inFormat g) turns
    there.1 = here.1 ∧ there.2.warnings = here.2.warnings ∧
      List.Forall₂ (fun stage other => other.name = stage.name ∧ other.instructions = stage.instructions ∧
        other.blockNames = stage.blockNames ∧ other.target = stage.target.inFormat g)
        here.2.recipe.stages there.2.recipe.stages := by
  intro here there
  obtain ⟨results, parallel⟩ := (Parallel.start setting.options g beside).play rfl turns fun e member =>
    { unread := unread e member, named := fun singularity => named singularity e member }
  refine ⟨results, parallel.warnings, ?_⟩
  have moved : there.2.recipe.stages = here.2.recipe.stages.map (·.inFormat g) :=
    congrArg Recipe.stages parallel.recipe
  rw [moved, List.forall₂_map_right_iff]
  exact List.forall₂_same.mpr fun stage _ => ⟨rfl, rfl, rfl, rfl⟩

-- The runtime of a stage with a name, in a Singularity definition as in a Dockerfile.
theorem recipe_same_in_formats_runtime :
    let stage (fields : List (String × Expression)) : Expression :=
      .call (.recipe "stage") [.table [] (("image", .text "ubuntu:22.04") :: fields)]
    let turns : List Turn :=
      [.statement (.assign "devel" (stage [("name", .text "devel")])),
        .statement (.evaluate (.method (.variable "devel") "generic_autotools"
          [.table [] [("url", .text "https://example.com/zlib-1.3.tar.gz")]])),
        .statement (.assign "final" (stage [])),
        .statement (.evaluate (.method (.variable "final") "runtime" [.variable "devel"]))]
    let setting : Setting := {}
    let here := (Session.start setting.options none).play setting turns
    let there := (Session.start (setting.options.inFormat .singularity) none).play
      (setting.inFormat .singularity) turns
    here.1.all Except.isOk = true ∧ here.2.recipe.stages.map (·.instructions.length) = [3, 3] ∧
      there.1 = here.1 ∧ List.Forall₂ (fun stage other => other.name = stage.name ∧
        other.instructions = stage.instructions ∧ other.blockNames = stage.blockNames ∧
        other.target = stage.target.inFormat .singularity)
        here.2.recipe.stages there.2.recipe.stages := by
  intro stage turns setting here there
  have unread : ∀ e ∈ (Session.start setting.options none).played setting turns, e.readsFormat = false := by
    decide +kernel
  have named : ∀ e ∈ (Session.start setting.options none).played setting turns, e.unnamedSource = false := by
    decide +kernel
  have accepted : here.1.all Except.isOk = true := by decide +kernel
  have lengths : here.2.recipe.stages.map (·.instructions.length) = [3, 3] := by decide +kernel
  -- What is said of the turns from here on does not depend on which they are.
  clear_value turns
  obtain ⟨results, -, stages⟩ :=
    recipe_same_in_formats setting .singularity none turns unread fun _ => named
  exact ⟨accepted, lengths, results, stages⟩

end

end ContainerRecipe.Script
