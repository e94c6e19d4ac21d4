import ContainerRecipe.Proofs.Script.Trace

namespace ContainerRecipe.Script

open ContainerRecipe.Script.Action

-- The functions that a recipe is made with.
def Function.isBinding : Function → Bool
  | .stage | .method _ => true
  | _ => false

-- An operation that is a call of such a function.
def Operation.isBinding : Operation → Bool
  | .call (.function f) _ => f.isBinding
  | _ => false

def Operation.values : Operation → List Value
  | .index subject key => [subject, key]
  | .call f arguments => f :: arguments

def Value.isStage : Value → Bool
  | .stage _ => true
  | _ => false

-- The value of a key is the one that it is the key of, as far as stages go.
theorem Value.key?_toValue (v : Value) (held : v.key? = some k) : k.toValue = v ∨ k.toValue.isStage = false := by
  cases v with
  | nil => cases held
  | stage index =>
    cases held
    exact .inl rfl
  | number n =>
    right
    cases n with
    | integer n =>
      cases held
      rfl
    | real x =>
      simp only [key?] at held
      split at held
      · cases held
        rfl
      · split at held
        · cases held
        · cases held
          rfl
  | flag | bytes | table | function =>
    cases held
    exact .inr rfl

mutual

def Expression.constants : Expression → List Value
  | .constant v => [v]
  | .variable _ | .global _ | .directory => []
  | .function _ body => Program.constants body
  | .index left right | .concat left right | .either left right | .same left right =>
    left.constants ++ right.constants
  | .call f arguments => f.constants ++ Expression.constantsOfAll arguments
  | .method subject _ arguments => subject.constants ++ Expression.constantsOfAll arguments
  | .table items fields => Expression.constantsOfAll items ++ Expression.constantsOfFields fields

def Expression.constantsOfAll : List Expression → List Value
  | [] => []
  | e :: rest => e.constants ++ Expression.constantsOfAll rest

def Expression.constantsOfFields : List (String × Expression) → List Value
  | [] => []
  | (_, e) :: rest => e.constants ++ Expression.constantsOfFields rest

def Statement.constants : Statement → List Value
  | .assign _ e | .evaluate e | .giveBack e => e.constants
  | .store subject key e => subject.constants ++ (key.constants ++ e.constants)
  | .attempt body => Program.constants body
  | .branch condition whenTrue whenFalse =>
    condition.constants ++ (Program.constants whenTrue ++ Program.constants whenFalse)

def Program.constants : List Statement → List Value
  | [] => []
  | statement :: rest => statement.constants ++ Program.constants rest

end

-- What a function that may have been found holds.
def Closure.constants : Option Closure → List Value
  | some c => Program.constants c.body
  | none => []

-- What a task is given by the script that sets it.
def Task.values : Task → List Value
  | .file _ => []
  | .call c arguments => arguments ++ Program.constants c.body

-- The value that a module has now, and the path that it was found at.
def foundModule (name : ByteArray) (path : String) : Action (List Value) := do
  return [(← get).moduleValue name, .text path]

-- What is done for a module that has no value yet.
def loadModule (load : Task → Action (List Value)) (name : ByteArray) : Action (List Value) := do
  let path ← findModule name
  let v := first (← deeper 1 (load (.file path)))
  if !v.isNil then keepModule name v
  if ((← get).moduleValue name).isNil then keepModule name (.flag true)
  foundModule name path

theorem requireModule_eq (load : Task → Action (List Value)) (name : ByteArray) : requireModule load name =
    ((do return (← get).moduleValue name) >>= fun known =>
      if known.truthy then pure [known] else loadModule load name) := rfl

-- What holds of the parts of programs, from sessions with at least `n` stages on. `V n v` is to hold of the
-- values that such a session has at hand, and `values` tells those that a result holds.
structure HoldsOfSteps (V : Nat → Value → Prop)
    (P : {α : Type} → Nat → Action α → Trace → (α → List Value) → Prop) : Prop where
  grows : ∀ {n m : Nat} {v : Value}, n ≤ m → V n v → V m v
  plain : ∀ n {v : Value}, v.isStage = false → V n v
  pure : ∀ {α : Type} {n : Nat} {values : α → List Value} (a : α), (∀ v ∈ values a, V n v) →
    P n (pure a) .none values
  throw : ∀ {α : Type} {n : Nat} {values : α → List Value} (fault : Fault),
    P n (throw fault : Action α) .none values
  bind : ∀ {α β : Type} {n : Nat} {x : Action α} {f : α → Action β} {part : Trace} {rest : α → Trace}
    {values : α → List Value} {values' : β → List Value}, P n x part values →
    (∀ m a, n ≤ m → (∀ v ∈ values a, V m v) → P m (f a) (rest a) values') →
    P n (x >>= f) (part.andThen x rest) values'
  succeeds : ∀ {α : Type} {n : Nat} {x : Action α} {inside : Trace} {values : α → List Value},
    P n x inside values → P n (succeeds x) inside fun _ => []
  deeper : ∀ {α : Type} {n : Nat} (nesting : Nat) {x : Action α} {inside : Trace} {values : α → List Value},
    P n x inside values → P n (deeper nesting x) (inside.deeper nesting) values
  mark : ∀ {α : Type} {n : Nat} {x : Action α} {rest : Trace} {values : α → List Value} {operation : Operation},
    operation.isBinding = false → (∀ v ∈ operation.values, V n v) → P n x rest values →
    P n x (.mark operation rest) values
  variableValue : ∀ n name, P n (variableValue name) .none fun v => [v]
  global : ∀ n name, P n (do return (← get).global name) .none fun v => [v]
  moduleValue : ∀ n name, P n (do return (← get).moduleValue name) .none fun v => [v]
  directory : ∀ n, P n (do return (← read).directory) .none fun _ => []
  newFunction : ∀ n parameters body, (∀ v ∈ Program.constants body, V n v) →
    P n (newFunction parameters body) .none fun v => [v]
  closureAt : ∀ n number, P n (closureAt number) .none Closure.constants
  newTable : ∀ n items fields, (∀ v ∈ items, V n v) → (∀ v ∈ fields.map Prod.snd, V n v) →
    P n (newTable (.ofParts items fields)) .none fun v => [v]
  assign : ∀ n name v, V n v → P n (assign name v) .none fun _ => []
  store : ∀ n place k v, V n k.toValue → V n v → P n (store place k v) .none fun _ => []
  filePath : ∀ n v, P n (filePath v) .none fun _ => []
  findModule : ∀ n name, P n (findModule name) .none fun _ => []
  index : ∀ n subject key, V n subject → V n key →
    P n (index subject key) (.mark (.index subject key) .none) fun v => [v]
  askLibrary : ∀ n name arguments, (∀ v ∈ arguments, V n v) →
    P n (askLibrary name arguments) (.mark (.call (.function (.library name)) arguments) .none) fun _ => []
  binding : ∀ n load {f : Function} arguments, f.isBinding = true → (∀ v ∈ arguments, V n v) →
    P n (callFunction load f arguments) (.mark (.call (.function f) arguments) .none) id

-- What holds of files as well, with the programs that they hold, and of functions.
structure HoldsOfFiles (V : Nat → Value → Prop)
    (P : {α : Type} → Nat → Action α → Trace → (α → List Value) → Prop) : Prop extends HoldsOfSteps V P where
  within : ∀ {α : Type} {n : Nat} (p : Path) {x : Action α} {inside : Trace} {values : α → List Value},
    P n x inside values → P n (within p x) (inside.within p) values
  applying : ∀ {α : Type} {n : Nat} (c : Closure) (arguments : List Value) {x : Action α} {inside : Trace}
    {values : α → List Value}, (∀ v ∈ arguments, V n v) → P n x inside values →
    P n (applying c arguments x) (inside.applying c arguments) values
  readFile : ∀ n path, P n (readFile path) .none fun _ => []
  program : ∀ {text : String} {program : Program}, Program.read? text = some program →
    ∀ v ∈ Program.constants program, ∀ n, V n v

-- What holds of files with their traces, whatever the values are.
abbrev HoldsOfParts (P : {α : Type} → Action α → Trace → Prop) : Prop :=
  HoldsOfFiles (fun _ _ => True) fun _ x trace _ => P x trace

namespace HoldsOfSteps

variable {V : Nat → Value → Prop} {P : {α : Type} → Nat → Action α → Trace → (α → List Value) → Prop}
variable {n : Nat} (parts : HoldsOfSteps V P)
include parts

section

theorem of_first {vs : List Value} (valid : ∀ v ∈ vs, V n v) : V n (first vs) := by
  cases vs with
  | nil => exact parts.plain n rfl
  | cons v vs => exact valid v List.mem_cons_self

theorem later {vs : List Value} (le : n ≤ m) (valid : ∀ v ∈ vs, V n v) : ∀ v ∈ vs, V m v :=
  fun v member => parts.grows le (valid v member)

theorem map {x : Action α} {part : Trace} {values : α → List Value} {values' : β → List Value} (f : α → β)
    (holds : P n x part values)
    (valid : ∀ m a, n ≤ m → (∀ v ∈ values a, V m v) → ∀ v ∈ values' (f a), V m v) :
    P n (f <$> x) part values' := by
  rw [map_eq_pure_bind, ← part.andThen_none x]
  exact parts.bind holds fun m a le held => parts.pure (f a) (valid m a le held)

omit parts in
theorem ite {c : Prop} [Decidable c] {x y : Action α} {whenTrue whenFalse : Trace} {values : α → List Value}
    (first : P n x whenTrue values) (second : P n y whenFalse values) :
    P n (if c then x else y) (if c then whenTrue else whenFalse) values := by
  split
  · exact first
  · exact second

-- A part that asks nothing and is done in some cases only.
theorem guarded {c : Prop} [Decidable c] {x : Action Unit} {f : Unit → Action α} {values : Unit → List Value}
    {values' : α → List Value} (first : P n x .none values) (rest : ∀ m, n ≤ m → P m (f ()) .none values') :
    P n (if c then x >>= f else f ()) .none values' := by
  split
  · rw [← Trace.none.andThen_none x]
    exact parts.bind first fun m _ le _ => rest m le
  · exact rest n (Nat.le_refl n)

-- What goes on with something that the session tells.
theorem told {g : Session → α} {f : α → Action β} {values : α → List Value} {values' : β → List Value}
    (telling : P n (do return g (← get)) .none values)
    (rest : ∀ m a, n ≤ m → (∀ v ∈ values a, V m v) → P m (f a) .none values') :
    P n (do f (g (← get))) .none values' := by
  have same : (do f (g (← get)) : Action β) = (do return g (← get)) >>= f := by
    simp only [bind_assoc, pure_bind]
  rw [same, ← Trace.none.andThen_none (do return g (← get))]
  exact parts.bind telling rest

-- A value that the session tells, alone or with a plain one behind it.
theorem toldValue {g : Session → Value} (telling : P n (do return g (← get)) .none fun v => [v])
    {others : List Value} (plain : ∀ v ∈ others, v.isStage = false) :
    P n (do return g (← get) :: others) .none id := by
  refine parts.told (f := fun v => Pure.pure (v :: others)) telling fun m v _ valid => parts.pure _ ?_
  exact List.forall_mem_cons.mpr ⟨valid v List.mem_cons_self, fun w member => parts.plain m (plain w member)⟩

theorem concat (left right : Value) : P n (concat left right) .none fun v => [v] := by
  unfold Action.concat
  split
  · exact parts.pure _ (List.forall_mem_singleton.mpr (parts.plain n rfl))
  · exact parts.throw _
  · exact parts.throw _

theorem storeValue (subject : Value) {key v : Value} (named : V n key) (valid : V n v) :
    P n (storeValue subject key v) .none fun _ => [] := by
  unfold Action.storeValue
  split
  · split
    · rename_i k held
      refine parts.store n _ k v ?_ valid
      rcases key.key?_toValue held with same | plain
      · rw [same]
        exact named
      · exact parts.plain n plain
    · exact parts.throw _
  · exact parts.throw _

mutual

theorem takeReply (n : Nat) : (reply : Reply) → P n (takeReply reply) .none fun v => [v]
  | .nil | .flag _ | .number _ | .bytes _ | .function _ => by
    simp only [Action.takeReply]
    exact parts.pure _ (List.forall_mem_singleton.mpr (parts.plain n rfl))
  | .table fields => by
    simp only [Action.takeReply]
    rw [← Trace.none.andThen_none (Action.takeFields fields)]
    exact parts.bind (takeFields n fields) fun m named _ valid =>
      parts.newTable m [] named (List.forall_mem_nil _) valid

theorem takeFields (n : Nat) : (fields : List (String × Reply)) →
    P n (takeFields fields) .none (List.map Prod.snd)
  | [] => by
    simp only [Action.takeFields]
    exact parts.pure _ (List.forall_mem_nil _)
  | (name, reply) :: rest => by
    simp only [Action.takeFields]
    rw [← Trace.none.andThen_none (Action.takeReply reply)]
    refine parts.bind (takeReply n reply) fun m v _ held => ?_
    exact parts.map (fun named => (name, v) :: named) (takeFields m rest) fun k _ le valid =>
      List.forall_mem_cons.mpr ⟨parts.grows le (held v List.mem_cons_self), valid⟩

end

theorem takeReplies (n : Nat) (replies : List Reply) : P n (takeReplies replies) .none id := by
  induction replies generalizing n with
  | nil => exact parts.pure _ (List.forall_mem_nil _)
  | cons reply rest ih =>
    unfold Action.takeReplies
    rw [← Trace.none.andThen_none (Action.takeReply reply)]
    refine parts.bind (parts.takeReply n reply) fun m v _ held => ?_
    exact parts.map (fun vs => v :: vs) (ih m) fun k _ le valid =>
      List.forall_mem_cons.mpr ⟨parts.grows le (held v List.mem_cons_self), valid⟩

theorem moduleName (v : Value) : P n (moduleName v) .none fun _ => [] := by
  unfold Action.moduleName
  split
  · exact parts.pure _ (List.forall_mem_nil _)
  · exact parts.throw _

end

section

variable {load : Task → Action (List Value)} {tasks : Task → Trace}
variable (loads : ∀ n task, (∀ v ∈ task.values, V n v) → P n (load task) (tasks task) id)
include loads

theorem loadModule (n : Nat) (name : ByteArray) : P n (loadModule load name)
    (Trace.none.andThen (Action.findModule name) fun path => (tasks (.file path)).deeper 1) id := by
  have kept (n : Nat) {v : Value} (valid : V n v) : P n (keepModule name v) .none fun _ => [] :=
    parts.store n _ (.bytes name) v (parts.plain n rfl) valid
  unfold Script.loadModule
  refine parts.bind (parts.findModule n name) fun m path _ _ => ?_
  rw [← Trace.andThen_none ((tasks (.file path)).deeper 1) (Action.deeper 1 (load (.file path)))]
  refine parts.bind (parts.deeper 1 (loads m (.file path) (List.forall_mem_nil _))) fun k vs _ valid => ?_
  have given (n : Nat) : P n (foundModule name path) .none id :=
    parts.toldValue (parts.moduleValue n name) (List.forall_mem_singleton.mpr rfl)
  have settled (n : Nat) : P n (do
      if ((← get).moduleValue name).isNil then keepModule name (.flag true)
      foundModule name path) .none id :=
    parts.told (g := fun s => s.moduleValue name)
      (f := fun v => do
        if v.isNil then keepModule name (.flag true)
        foundModule name path)
      (parts.moduleValue n name) fun m v _ _ => parts.guarded (kept m (parts.plain m rfl)) fun k _ => given k
  exact parts.guarded (kept k (parts.of_first valid)) fun m _ => settled m

theorem requireModule (n : Nat) (name : ByteArray) :
    P n (requireModule load name) (.requireModule tasks name) id := by
  rw [requireModule_eq]
  refine parts.bind (parts.moduleValue n name) fun m known _ valid => ?_
  exact ite (parts.pure _ valid) (parts.loadModule loads m name)

theorem call (n : Nat) {f : Value} {arguments : List Value} (called : V n f)
    (given : ∀ v ∈ arguments, V n v) : P n (call load f arguments) (.call tasks f arguments) id := by
  have operands : ∀ v ∈ (Operation.call f arguments).values, V n v := List.forall_mem_cons.mpr ⟨called, given⟩
  unfold Action.call Trace.call
  cases f with
  | function f =>
    cases f with
    | stage => exact parts.binding n load arguments rfl given
    | method m => exact parts.binding n load arguments rfl given
    | dofile =>
      refine parts.mark rfl operands (parts.bind (parts.filePath n _) fun m path _ _ => ?_)
      exact loads m (.file path) (List.forall_mem_nil _)
    | require =>
      refine parts.mark rfl operands (parts.bind (parts.moduleName _) fun m name _ _ => ?_)
      exact parts.requireModule loads m name
    | loadfile => exact parts.mark rfl operands (parts.throw _)
    | library name =>
      dsimp only
      rw [← Trace.andThen_none (.mark (.call (.function (.library name)) arguments) .none)
        (Action.askLibrary name arguments)]
      exact parts.bind (parts.askLibrary n name arguments given) fun m replies _ _ => parts.takeReplies m replies
    | made number =>
      refine parts.mark rfl operands (parts.bind (parts.closureAt n number) fun m found le held => ?_)
      cases found with
      | some c => exact loads m (.call c arguments) (List.forall_mem_append.mpr ⟨parts.later le given, held⟩)
      | none => exact parts.pure _ (List.forall_mem_nil _)
  | _ => exact parts.mark rfl operands (parts.throw _)

-- Each of them uses what is assumed, if only through the others.
set_option linter.unusedSectionVars false

mutual

theorem evaluate (n : Nat) : (e : Expression) → (∀ v ∈ e.constants, V n v) →
    P n (evaluate load e) (.evaluate load tasks e) id
  | .constant v, written => by
    simp only [Script.evaluate, Trace.evaluate]
    exact parts.pure _ written
  | .variable name, _ => by
    simp only [Script.evaluate, Trace.evaluate]
    exact parts.map (fun v => [v]) (parts.variableValue n name) fun _ _ _ valid => valid
  | .global name, _ => by
    simp only [Script.evaluate, Trace.evaluate]
    exact parts.toldValue (parts.global n name) (List.forall_mem_nil _)
  | .directory, _ => by
    simp only [Script.evaluate, Trace.evaluate]
    have same : (do return [Value.ofText? (← read).directory] : Action (List Value)) =
        (fun directory => [Value.ofText? directory]) <$> (do return (← read).directory) := by
      simp only [map_eq_pure_bind, bind_assoc, pure_bind]
    rw [same]
    refine parts.map _ (parts.directory n) fun m directory _ _ => List.forall_mem_singleton.mpr (parts.plain m ?_)
    cases directory <;> rfl
  | .function parameters body, written => by
    simp only [Expression.constants] at written
    simp only [Script.evaluate, Trace.evaluate]
    exact parts.map (fun v => [v]) (parts.newFunction n parameters body written) fun _ _ _ valid => valid
  | .index subject key, written => by
    simp only [Expression.constants, List.forall_mem_append] at written
    simp only [Script.evaluate, Trace.evaluate]
    refine parts.bind (evaluate n subject written.1) fun m v le held => ?_
    refine parts.bind (evaluate m key (parts.later le written.2)) fun k w le named => ?_
    exact parts.map (fun v => [v])
      (parts.index k _ _ (parts.grows le (parts.of_first held)) (parts.of_first named)) fun _ _ _ valid => valid
  | .concat left right, written => by
    simp only [Expression.constants, List.forall_mem_append] at written
    simp only [Script.evaluate, Trace.evaluate]
    refine parts.bind (evaluate n left written.1) fun m a le _ => ?_
    rw [← Trace.andThen_none (Trace.evaluate load tasks right) (Script.evaluate load right)]
    refine parts.bind (evaluate m right (parts.later le written.2)) fun k b _ _ => ?_
    exact parts.map (fun v => [v]) (parts.concat _ _) fun _ _ _ valid => valid
  | .either left right, written => by
    simp only [Expression.constants, List.forall_mem_append] at written
    simp only [Script.evaluate, Trace.evaluate]
    refine parts.bind (evaluate n left written.1) fun m a le held => ite (parts.pure _ ?_) ?_
    · exact List.forall_mem_singleton.mpr (parts.of_first held)
    · exact parts.map (fun vs => [first vs]) (evaluate m right (parts.later le written.2)) fun _ _ _ valid =>
        List.forall_mem_singleton.mpr (parts.of_first valid)
  | .same left right, written => by
    simp only [Expression.constants, List.forall_mem_append] at written
    simp only [Script.evaluate, Trace.evaluate]
    refine parts.bind (evaluate n left written.1) fun m a le _ => ?_
    exact parts.map (fun vs => [Value.flag ((first a).same (first vs))])
      (evaluate m right (parts.later le written.2)) fun k _ _ _ => List.forall_mem_singleton.mpr (parts.plain k rfl)
  | .call f arguments, written => by
    simp only [Expression.constants, List.forall_mem_append] at written
    simp only [Script.evaluate, Trace.evaluate]
    refine parts.bind (evaluate n f written.1) fun m f le called => ?_
    refine parts.bind (evaluateAll m arguments (parts.later le written.2)) fun k vs le given => ?_
    exact parts.call loads k (parts.grows le (parts.of_first called)) given
  | .method subject name arguments, written => by
    simp only [Expression.constants, List.forall_mem_append] at written
    simp only [Script.evaluate, Trace.evaluate]
    refine parts.bind (evaluate n subject written.1) fun m v le held => ?_
    have subjectHeld : V m (first v) := parts.of_first held
    refine parts.bind (parts.index m _ _ subjectHeld (parts.plain m rfl)) fun k f le' called => ?_
    have further : ∀ v ∈ Expression.constantsOfAll arguments, V k v := parts.later (Nat.le_trans le le') written.2
    refine parts.bind (evaluateAll k arguments further) fun l vs le'' given => ?_
    exact parts.call loads l (parts.grows le'' (called f List.mem_cons_self))
      (List.forall_mem_cons.mpr ⟨parts.grows (Nat.le_trans le' le'') subjectHeld, given⟩)
  | .table items [], written => by
    simp only [Expression.constants, List.forall_mem_append] at written
    simp only [Script.evaluate, Trace.evaluate]
    rw [← Trace.andThen_none (Trace.evaluateAll load tasks items) (Script.evaluateAll load items)]
    refine parts.bind (evaluateAll n items written.1) fun m vs _ held => ?_
    exact parts.map (fun v => [v]) (parts.newTable m vs [] held (List.forall_mem_nil _)) fun _ _ _ valid => valid
  | .table items (field :: fields), written => by
    simp only [Expression.constants, List.forall_mem_append] at written
    simp only [Script.evaluate, Trace.evaluate]
    refine parts.bind (evaluateEach n items written.1) fun m vs le held => ?_
    rw [← Trace.andThen_none (Trace.evaluateFields load tasks (field :: fields))
      (Script.evaluateFields load (field :: fields))]
    refine parts.bind (evaluateFields m (field :: fields) (parts.later le written.2)) fun k named le valid => ?_
    exact parts.map (fun v => [v]) (parts.newTable k vs named (parts.later le held) valid)
      fun _ _ _ valid => valid

theorem evaluateAll (n : Nat) : (es : List Expression) → (∀ v ∈ Expression.constantsOfAll es, V n v) →
    P n (evaluateAll load es) (.evaluateAll load tasks es) id
  | [], _ => by
    simp only [Script.evaluateAll, Trace.evaluateAll]
    exact parts.pure _ (List.forall_mem_nil _)
  | [e], written => by
    simp only [Expression.constantsOfAll, List.append_nil] at written
    simp only [Script.evaluateAll, Trace.evaluateAll]
    exact evaluate n e written
  | e :: next :: rest, written => by
    rw [Expression.constantsOfAll, List.forall_mem_append] at written
    simp only [Script.evaluateAll, Trace.evaluateAll]
    refine parts.bind (evaluate n e written.1) fun m v le held => ?_
    exact parts.map (fun vs => first v :: vs) (evaluateAll m (next :: rest) (parts.later le written.2))
      fun k _ le valid => List.forall_mem_cons.mpr ⟨parts.grows le (parts.of_first held), valid⟩

theorem evaluateEach (n : Nat) : (es : List Expression) → (∀ v ∈ Expression.constantsOfAll es, V n v) →
    P n (evaluateEach load es) (.evaluateEach load tasks es) id
  | [], _ => by
    simp only [Script.evaluateEach, Trace.evaluateEach]
    exact parts.pure _ (List.forall_mem_nil _)
  | e :: rest, written => by
    rw [Expression.constantsOfAll, List.forall_mem_append] at written
    simp only [Script.evaluateEach, Trace.evaluateEach]
    refine parts.bind (evaluate n e written.1) fun m v le held => ?_
    exact parts.map (fun vs => first v :: vs) (evaluateEach m rest (parts.later le written.2)) fun k _ le valid =>
      List.forall_mem_cons.mpr ⟨parts.grows le (parts.of_first held), valid⟩

theorem evaluateFields (n : Nat) : (fields : List (String × Expression)) →
    (∀ v ∈ Expression.constantsOfFields fields, V n v) →
    P n (evaluateFields load fields) (.evaluateFields load tasks fields) (List.map Prod.snd)
  | [], _ => by
    simp only [Script.evaluateFields, Trace.evaluateFields]
    exact parts.pure _ (List.forall_mem_nil _)
  | (name, e) :: rest, written => by
    rw [Expression.constantsOfFields, List.forall_mem_append] at written
    simp only [Script.evaluateFields, Trace.evaluateFields]
    refine parts.bind (evaluate n e written.1) fun m v le held => ?_
    exact parts.map (fun named => (name, first v) :: named) (evaluateFields m rest (parts.later le written.2))
      fun k _ le valid => List.forall_mem_cons.mpr ⟨parts.grows le (parts.of_first held), valid⟩

end

theorem evaluateOne (n : Nat) (e : Expression) (written : ∀ v ∈ e.constants, V n v) :
    P n (evaluateOne load e) (.evaluate load tasks e) fun v => [v] :=
  parts.map first (parts.evaluate loads n e written) fun _ _ _ valid =>
    List.forall_mem_singleton.mpr (parts.of_first valid)

mutual

theorem run (n : Nat) : (statement : Statement) → (∀ v ∈ statement.constants, V n v) →
    P n (run load statement) (.run load tasks statement) (Option.getD · [])
  | .assign name e, written => by
    simp only [Statement.constants] at written
    simp only [Script.run, Trace.run]
    rw [← Trace.andThen_none (Trace.evaluate load tasks e) (Script.evaluateOne load e)]
    refine parts.bind (parts.evaluateOne loads n e written) fun m v _ held => ?_
    exact parts.map (fun _ => Option.none) (parts.assign m name v (held v List.mem_cons_self))
      fun _ _ _ _ => List.forall_mem_nil _
  | .evaluate e, written => by
    simp only [Statement.constants] at written
    simp only [Script.run, Trace.run]
    exact parts.map (fun _ => Option.none) (parts.evaluate loads n e written) fun _ _ _ _ => List.forall_mem_nil _
  | .giveBack e, written => by
    simp only [Statement.constants] at written
    simp only [Script.run, Trace.run]
    exact parts.map some (parts.evaluate loads n e written) fun _ _ _ valid => valid
  | .store subject key e, written => by
    simp only [Statement.constants, List.forall_mem_append] at written
    simp only [Script.run, Trace.run]
    refine parts.bind (parts.evaluateOne loads n subject written.1) fun m v le _ => ?_
    refine parts.bind (parts.evaluateOne loads m key (parts.later le written.2.1)) fun k w le' named => ?_
    have further : ∀ v ∈ e.constants, V k v := parts.later (Nat.le_trans le le') written.2.2
    rw [← Trace.andThen_none (Trace.evaluate load tasks e) (Script.evaluateOne load e)]
    refine parts.bind (parts.evaluateOne loads k e further) fun l u le held => ?_
    exact parts.map (fun _ => Option.none)
      (parts.storeValue v (parts.grows le (named w List.mem_cons_self)) (held u List.mem_cons_self))
      fun _ _ _ _ => List.forall_mem_nil _
  | .attempt body, written => by
    simp only [Statement.constants] at written
    simp only [Script.run, Trace.run]
    exact parts.map (fun _ => Option.none) (parts.succeeds (parts.deeper 1 (runAll n body written)))
      fun _ _ _ _ => List.forall_mem_nil _
  | .branch condition whenTrue whenFalse, written => by
    simp only [Statement.constants, List.forall_mem_append] at written
    simp only [Script.run, Trace.run]
    refine parts.bind (parts.evaluateOne loads n condition written.1) fun m v le _ => ?_
    exact ite (runAll m whenTrue (parts.later le written.2.1)) (runAll m whenFalse (parts.later le written.2.2))

theorem runAll (n : Nat) : (program : Program) → (∀ v ∈ Program.constants program, V n v) →
    P n (runAll load program) (.runAll load tasks program) (Option.getD · [])
  | [], _ => by
    simp only [Script.runAll, Trace.runAll]
    exact parts.pure _ (List.forall_mem_nil _)
  | statement :: rest, written => by
    rw [Program.constants, List.forall_mem_append] at written
    simp only [Script.runAll, Trace.runAll]
    refine parts.bind (run n statement written.1) fun m given le valid => ?_
    cases given with
    | some vs => exact parts.pure _ valid
    | none => exact runAll m rest (parts.later le written.2)

end

end

end HoldsOfSteps

namespace HoldsOfFiles

variable {V : Nat → Value → Prop} {P : {α : Type} → Nat → Action α → Trace → (α → List Value) → Prop}
variable (parts : HoldsOfFiles V P)
include parts

-- Files and functions are followed as deeply as they run each other.
theorem runTask (bound : Nat) : ∀ n task, (∀ v ∈ task.values, V n v) →
    P n (runTask bound task) (.runTask bound task) id := by
  induction bound with
  | zero => exact fun n task _ => parts.throw _
  | succ bound ih =>
    intro n task given
    cases task with
    | file path =>
      unfold Script.runTask Trace.runTask Trace.ofTask
      refine parts.bind (parts.readFile n path) fun m ⟨p, text⟩ _ _ => ?_
      dsimp only
      cases read : Program.read? text with
      | some program =>
        have written : ∀ v ∈ Program.constants program, V m v := fun v member => parts.program read v member m
        have inside : P m
            ((fun given => [first (given.getD [])]) <$> Script.runAll (Script.runTask bound) program)
            (.runAll (Script.runTask bound) (.runTask bound) program) id :=
          parts.map _ (parts.runAll ih m program written) fun k _ _ valid =>
            List.forall_mem_singleton.mpr (parts.of_first valid)
        rw [map_eq_pure_bind] at inside
        exact parts.deeper _ (parts.within _ inside)
      | none => exact parts.throw _
    | call c arguments =>
      obtain ⟨arguments_held, written⟩ := List.forall_mem_append.mp given
      have inside : P n ((fun given => given.getD []) <$> Script.runAll (Script.runTask bound) c.body)
          (.runAll (Script.runTask bound) (.runTask bound) c.body) id :=
        parts.map _ (parts.runAll ih n c.body written) fun _ _ _ valid => valid
      rw [map_eq_pure_bind] at inside
      exact parts.applying c arguments arguments_held inside

theorem evaluate_runTask (bound : Nat) (n : Nat) (e : Expression) (written : ∀ v ∈ e.constants, V n v) :
    P n (Script.evaluate (Script.runTask bound) e) (.evaluate (Script.runTask bound) (.runTask bound) e) id :=
  parts.evaluate (parts.runTask bound) n e written

theorem run_runTask (bound : Nat) (n : Nat) (statement : Statement) (written : ∀ v ∈ statement.constants, V n v) :
    P n (Script.run (Script.runTask bound) statement)
      (.run (Script.runTask bound) (.runTask bound) statement) (Option.getD · []) :=
  parts.run (parts.runTask bound) n statement written

theorem interact (n : Nat) (statement : Statement) (written : ∀ v ∈ statement.constants, V n v) :
    P n (interact statement) (.interact statement) fun v => [v] := by
  have tasks := parts.runTask callLimit
  unfold Script.interact Trace.interact
  refine parts.deeper _ ?_
  cases statement with
  | evaluate e => exact parts.evaluateOne tasks n e written
  | attempt body =>
    simp only [Statement.constants] at written
    exact parts.map _ (parts.succeeds (parts.deeper 1 (parts.runAll tasks n body written)))
      fun m _ _ _ => List.forall_mem_singleton.mpr (parts.plain m rfl)
  | assign | giveBack | store | branch =>
    exact parts.map (fun _ => Value.nil) (parts.run tasks n _ written)
      fun m _ _ _ => List.forall_mem_singleton.mpr (parts.plain m rfl)

end HoldsOfFiles

namespace HoldsOfParts

variable {P : {α : Type} → Action α → Trace → Prop} (parts : HoldsOfParts P)
include parts

theorem runTask (bound : Nat) (task : Task) : P (runTask bound task) (.runTask bound task) :=
  HoldsOfFiles.runTask parts bound 0 task fun _ _ => trivial

theorem evaluate_runTask (bound : Nat) (e : Expression) :
    P (Script.evaluate (Script.runTask bound) e) (.evaluate (Script.runTask bound) (.runTask bound) e) :=
  HoldsOfFiles.evaluate_runTask parts bound 0 e fun _ _ => trivial

theorem run_runTask (bound : Nat) (statement : Statement) :
    P (Script.run (Script.runTask bound) statement)
      (.run (Script.runTask bound) (.runTask bound) statement) :=
  HoldsOfFiles.run_runTask parts bound 0 statement fun _ _ => trivial

theorem interact (statement : Statement) : P (interact statement) (.interact statement) :=
  HoldsOfFiles.interact parts 0 statement fun _ _ => trivial

end HoldsOfParts

end ContainerRecipe.Script
