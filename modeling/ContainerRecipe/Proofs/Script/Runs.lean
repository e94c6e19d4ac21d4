import ContainerRecipe.Proofs.Script.Calls
import ContainerRecipe.Proofs.Script.Parts

namespace ContainerRecipe.Script

open Session ContainerRecipe.Script.Action

section

def Action.Still (x : Action α) : Prop := ∀ (setting : Setting) (s : Session), (s.step setting x).2 = s

theorem still_pure (a : α) : Action.Still (pure a) := fun _ _ => rfl

theorem still_throw (fault : Fault) : Action.Still (throw fault : Action α) := fun _ _ => rfl

theorem still_get : Action.Still get := fun _ _ => rfl

theorem still_read : Action.Still read := fun _ _ => rfl

theorem still_ofExcept (x : Except Fault α) : (ofOutcome (.ofExcept x)).Still := fun setting s => by
  rw [step_ofExcept]

theorem Action.Still.bind {x : Action α} {f : α → Action β} (first : x.Still) (rest : ∀ a, (f a).Still) :
    (x >>= f).Still := by
  intro setting s
  have before := first setting s
  rw [step_bind]
  cases result : s.step setting x with
  | mk told next =>
    rw [result] at before
    cases told with
    | ok a => exact (rest a setting next).trans before
    | error fault => exact before

theorem still_files : Action.files.Still := fun _ _ => rfl

theorem still_variableValue (name : String) : (Action.variableValue name).Still := fun _ _ => rfl

theorem still_closureAt (number : Nat) : (Action.closureAt number).Still := fun _ _ => rfl

theorem still_index (subject key : Value) : (Action.index subject key).Still := by
  unfold Action.index
  cases subject with
  | table | bytes => exact still_get.bind fun s => still_pure _
  | stage index =>
    refine still_get.bind fun s => (still_ofExcept _).bind fun stage => ?_
    dsimp only
    split
    · exact still_pure _
    · exact still_pure _
    · exact still_pure _
  | nil | flag | number | function => exact still_throw _

theorem still_filePath (v : Value) : (filePath v).Still := by
  have told : Action.Still (do return (← get).pathFrom (← ofOutcome (.ofExcept v.asText))) :=
    still_get.bind fun _ => (still_ofExcept _).bind fun _ => still_pure _
  unfold filePath
  dsimp only
  split
  · exact (still_throw _).bind fun _ => told
  · exact told

theorem still_findModule (name : ByteArray) : (findModule name).Still := by
  unfold findModule
  refine still_files.bind fun tree => (still_ofExcept _).bind fun name => ?_
  refine still_get.bind fun s => (still_ofExcept _).bind fun templates => ?_
  split
  · exact still_pure _
  · exact still_throw _

theorem still_readFile (path : String) : (readFile path).Still := by
  unfold readFile
  refine still_files.bind fun tree => ?_
  split
  · exact still_throw _
  · split
    · exact still_throw _
    · exact still_pure _

end

-- An action relates the recipe before it to the one after it by its events, in all settings with some options.
def Action.Keeps (o : Options) (R : List Event → Recipe → Recipe → Prop) (x : Action α) (trace : Trace) : Prop :=
  ∀ (setting : Setting) (s : Session), setting.options = o →
    R (trace setting s) s.recipe (s.step setting x).2.recipe

-- What holds between the recipes before and after a call that changes the recipe, and of any recipes that
-- such calls lie between.
structure KeptByEvents (o : Options) (R : List Event → Recipe → Recipe → Prop) : Prop where
  refl : ∀ r, R [] r r
  trans : ∀ {first rest a b c}, R first a b → R rest b c → R (first ++ rest) a c
  other : ∀ {e : Event} (r : Recipe), e.operation.isBinding = false → R [e] r r
  binding : ∀ load {f : Function} arguments, f.isBinding = true →
    (callFunction load f arguments).Keeps o R (.mark (.call (.function f) arguments) .none)

namespace KeptByEvents

variable {o : Options} {R : List Event → Recipe → Recipe → Prop} (events : KeptByEvents o R)
include events

theorem of_same {x : Action α} (same : ∀ setting (s : Session), (s.step setting x).2.recipe = s.recipe) :
    x.Keeps o R .none := by
  intro setting s _
  rw [same]
  exact events.refl s.recipe

theorem of_still {x : Action α} (still : x.Still) : x.Keeps o R .none :=
  events.of_same fun setting s => by rw [still]

theorem of_bind {x : Action α} {f : α → Action β} {part : Trace} {rest : α → Trace}
    (first : x.Keeps o R part) (more : ∀ a, (f a).Keeps o R (rest a)) :
    (x >>= f).Keeps o R (part.andThen x rest) := by
  intro setting s same
  have before := first setting s same
  unfold Trace.andThen
  rw [step_bind]
  cases result : s.step setting x with
  | mk told next =>
    rw [result] at before
    cases told with
    | ok a => exact events.trans before (more a setting next same)
    | error fault =>
      dsimp only
      rw [List.append_nil]
      exact before

omit events in
theorem of_succeeds {x : Action α} {inside : Trace} (kept : x.Keeps o R inside) :
    (succeeds x).Keeps o R inside := by
  intro setting s same
  rw [step_succeeds_session]
  exact kept setting s same

theorem of_deeper (nesting : Nat) {x : Action α} {inside : Trace} (kept : x.Keeps o R inside) :
    (deeper nesting x).Keeps o R (inside.deeper nesting) := by
  intro setting s same
  rw [Trace.deeper_eq, step_deeper]
  split
  · exact events.refl s.recipe
  · exact kept _ s same

omit events in
theorem of_within (p : Path) {x : Action α} {inside : Trace} (kept : x.Keeps o R inside) :
    (within p x).Keeps o R (inside.within p) := by
  intro setting s same
  rw [Trace.within_eq, step_within]
  exact kept { setting with file := some p, locals := [] } { s with directory := some p.directory } same

omit events in
theorem of_applying (c : Closure) (arguments : List Value) {x : Action α} {inside : Trace}
    (kept : x.Keeps o R inside) : (applying c arguments x).Keeps o R (inside.applying c arguments) := by
  intro setting s same
  rw [Trace.applying_eq, step_applying]
  exact kept (c.setting s.cells.length setting) { s with cells := s.cells ++ c.given arguments } same

theorem of_mark {x : Action α} {rest : Trace} {operation : Operation} (other : operation.isBinding = false)
    (kept : x.Keeps o R rest) : x.Keeps o R (.mark operation rest) := fun setting s same =>
  events.trans (events.other s.recipe other) (kept setting s same)

-- The recipe can only change where a part is a call, so whole programs keep what those calls keep.
theorem holdsOfParts : HoldsOfParts (Action.Keeps o R) where
  grows _ _ := trivial
  plain _ _ _ := trivial
  program _ _ _ _ := trivial
  pure a _ := events.of_still (still_pure a)
  throw fault := events.of_still (still_throw fault)
  bind first more := events.of_bind first fun a => more _ a (Nat.le_refl _) fun _ _ => trivial
  succeeds := of_succeeds
  deeper nesting _ _ _ kept := events.of_deeper nesting kept
  within p _ _ _ kept := of_within p kept
  applying c arguments _ _ _ _ kept := of_applying c arguments kept
  mark other _ kept := events.of_mark other kept
  variableValue _ name := events.of_still (still_variableValue name)
  global _ _ := events.of_still (still_get.bind fun _ => still_pure _)
  moduleValue _ _ := events.of_still (still_get.bind fun _ => still_pure _)
  directory _ := events.of_still (still_read.bind fun _ => still_pure _)
  newFunction _ _ _ _ := events.of_same fun _ _ => rfl
  closureAt _ number := events.of_still (still_closureAt number)
  newTable _ _ _ _ _ := events.of_same fun _ _ => rfl
  assign _ name v _ := events.of_same fun setting s => by
    rw [step_assign]
    cases setting.locals.lookup name <;> rfl
  store _ _ _ _ _ _ := events.of_same fun _ _ => rfl
  filePath _ v := events.of_still (still_filePath v)
  findModule _ name := events.of_still (still_findModule name)
  readFile _ path := events.of_still (still_readFile path)
  index _ subject key _ _ := events.of_mark rfl (events.of_still (still_index subject key))
  askLibrary _ name arguments _ := events.of_mark rfl (events.of_same fun setting s => by rw [step_askLibrary])
  binding _ load _ arguments binding _ := events.binding load arguments binding

end KeptByEvents

-- What holds of the recipe before and the one after a call, and of any recipes that such calls lie between.
structure KeptByCalls (o : Options) (R : Recipe → Recipe → Prop) : Prop where
  refl : ∀ r, R r r
  trans : ∀ {a b c}, R a b → R b c → R a c
  declare : ∀ {s : Session} {arguments stage warnings},
    s.declared o.template arguments = ⟨.ok stage, warnings⟩ → R s.recipe (s.recipe.push stage)
  extend : ∀ {setting} {s : Session} {index stage m arguments effect warnings},
    s.recipe.stage? index = some stage → s.effect setting index stage m arguments = ⟨.ok effect, warnings⟩ →
    R s.recipe (s.recipe.append index effect.layers)

namespace KeptByCalls

variable {o : Options} {R : Recipe → Recipe → Prop} (calls : KeptByCalls o R)
include calls

theorem of_stage (load : Task → Action (List Value)) (arguments : List Value) (same : setting.options = o)
    (s : Session) : R s.recipe (s.step setting (callFunction load .stage arguments)).2.recipe := by
  rcases step_stage setting s load arguments with ⟨fault, warnings, failed⟩ | ⟨stage, warnings, settled, done⟩
  · rw [failed]
    exact calls.refl s.recipe
  · rw [done]
    exact calls.declare (same ▸ settled)

theorem of_method (load : Task → Action (List Value)) (m : Method) (arguments : List Value) (setting : Setting)
    (s : Session) : R s.recipe (s.step setting (callFunction load (.method m) arguments)).2.recipe := by
  rcases step_method setting s load m arguments with
    ⟨fault, warnings, failed⟩ | ⟨index, stage, effect, warnings, values, tables, -, present, settled, done⟩
  · rw [failed]
    exact calls.refl s.recipe
  · rw [done]
    exact calls.extend present settled

-- Programs keep what calls keep, whatever their events are.
theorem holdsOfParts : HoldsOfParts (Action.Keeps o fun _ => R) := by
  refine KeptByEvents.holdsOfParts { refl := calls.refl, trans := calls.trans, other := ?other, binding := ?binding }
  case other => exact fun r _ => calls.refl r
  case binding =>
    intro load f arguments binding setting s same
    cases f with
    | stage => exact calls.of_stage load arguments same s
    | method m => exact calls.of_method load m arguments setting s
    | dofile | require | loadfile | library | made => cases binding

end KeptByCalls

-- The sessions that scripts with some options can be in. What a statement or a file has done so far is a
-- session as well: it is there after each of its expressions, statements and files, at every depth, in the
-- directory of a file and with the arguments of a function.
inductive Reachable (o : Options) : Session → Prop where
  | start (beside : Option String) : Reachable o (Session.start o beside)
  | evaluate (setting : Setting) (same : setting.options = o) (bound : Nat) (e : Expression)
      (before : Reachable o s) : Reachable o (s.step setting (evaluate (runTask bound) e)).2
  | run (setting : Setting) (same : setting.options = o) (bound : Nat) (statement : Statement)
      (before : Reachable o s) : Reachable o (s.step setting (run (runTask bound) statement)).2
  | file (setting : Setting) (same : setting.options = o) (bound : Nat) (path : String)
      (before : Reachable o s) : Reachable o (s.step setting (runTask bound (.file path))).2
  | interact (setting : Setting) (same : setting.options = o) (statement : Statement)
      (before : Reachable o s) : Reachable o (s.step setting (interact statement)).2
  | enter (directory : Option String) (before : Reachable o s) : Reachable o { s with directory }
  | call (c : Closure) (arguments : List Value) (before : Reachable o s) :
      Reachable o { s with cells := s.cells ++ c.given arguments }

-- What calls keep lies between the empty recipe and that of every session.
theorem KeptByCalls.of_reachable (calls : KeptByCalls o R) (reachable : Reachable o s) : R ∅ s.recipe := by
  induction reachable with
  | start beside => exact calls.refl ∅
  | evaluate setting same bound e before ih =>
    exact calls.trans ih (calls.holdsOfParts.evaluate_runTask bound e setting _ same)
  | run setting same bound statement before ih =>
    exact calls.trans ih (calls.holdsOfParts.run_runTask bound statement setting _ same)
  | file setting same bound path before ih =>
    exact calls.trans ih (calls.holdsOfParts.runTask bound (.file path) setting _ same)
  | interact setting same statement before ih =>
    exact calls.trans ih (calls.holdsOfParts.interact statement setting _ same)
  | enter | call => assumption

end ContainerRecipe.Script
