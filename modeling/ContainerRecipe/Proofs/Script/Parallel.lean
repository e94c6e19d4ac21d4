import ContainerRecipe.Proofs.Script.Veil

namespace ContainerRecipe.Script

section

-- To put a value into a table is to put what is seen of it into what is seen of the table.
theorem modify_veiled (tables : List Table) (place : Nat) (k : Key) (v : Value) :
    (tables.modify place (·.put k v)).modify Session.recipePlace Table.veiled =
      (tables.modify Session.recipePlace Table.veiled).modify place
        (·.put k (if place = Session.recipePlace then v.veiled k else v)) := by
  by_cases same : place = Session.recipePlace
  · subst same
    rw [List.modify_modify_eq, List.modify_modify_eq, if_pos rfl]
    congr 1
    exact funext fun t => t.put_veiled k v
  · rw [List.modify_modify_ne _ _ _ same, if_neg same]

theorem append_veiled (tables : List Table) (table : Table) :
    (tables ++ [table]).modify Session.recipePlace Table.veiled =
      tables.modify Session.recipePlace Table.veiled ++
        [if tables.length = Session.recipePlace then table.veiled else table] := by
  refine List.ext_getElem? fun place => ?_
  rw [List.getElem?_modify]
  rcases Nat.lt_trichotomy place tables.length with before | rfl | behind
  · rw [List.getElem?_append_left before, List.getElem?_append_left (by rwa [List.length_modify]),
      List.getElem?_modify]
  · rw [List.getElem?_concat_length, ← List.length_modify Table.veiled tables Session.recipePlace,
      List.getElem?_concat_length, List.length_modify]
    simp only [eq_comm, Option.map_eq_map, Option.map_some]
  · have none_left : (tables ++ [table])[place]? = none :=
      List.getElem?_eq_none (by simp only [List.length_append, List.length_singleton]; omega)
    have none_right (further : Table) :
        (tables.modify Session.recipePlace Table.veiled ++ [further])[place]? = none :=
      List.getElem?_eq_none (by simp only [List.length_append, List.length_modify, List.length_singleton]; omega)
    rw [none_left, none_right]
    rfl

end

namespace Session

def veiledTables (s : Session) : List Table := s.tables.modify recipePlace Table.veiled

theorem getD_veiledTables (s : Session) (place : Nat) : s.veiledTables.getD place ∅ =
    if place = recipePlace then (s.table place).veiled else s.table place := by
  unfold veiledTables table
  rw [List.getD_eq_getElem?_getD, List.getD_eq_getElem?_getD, List.getElem?_modify]
  by_cases here : place = recipePlace
  · subst here
    rw [if_pos rfl]
    cases s.tables[recipePlace]? with
    | none => rfl
    | some t => simp
  · rw [if_neg here]
    cases s.tables[place]? with
    | none => rfl
    | some t => simp [Ne.symm here]

-- Whether the table about the recipe is met when a value is read as data.
def meetsRecipe (s : Session) : Nat → List Nat → Value → Bool
  | bound + 1, path, .table place =>
    !path.contains place && (place == recipePlace ||
      (s.table place).items.any (s.meetsRecipe bound (place :: path)) ||
      (s.table place).others.any fun (k, v) =>
        s.meetsRecipe bound (place :: path) k.toValue || s.meetsRecipe bound (place :: path) v)
  | _, _, _ => false

def leadsToRecipe (s : Session) (v : Value) : Bool := s.meetsRecipe s.tables.length [] v

theorem leadsToRecipe_of_ne (s : Session) {v : Value} (plain : ∀ place, v ≠ .table place) :
    s.leadsToRecipe v = false := by
  unfold leadsToRecipe
  cases v with
  | table place => exact absurd rfl (plain place)
  | _ => cases s.tables.length <;> rfl

-- `t` is in the format `g` what `s` is in the format `f`.
structure Parallel (f g : Format) (s t : Session) : Prop where
  made : s.recipe.inFormat f = s.recipe
  recipe : t.recipe = s.recipe.inFormat g
  tables : t.veiledTables = s.veiledTables
  values : t.values = s.values
  cells : t.cells = s.cells
  closures : t.closures = s.closures
  calls : t.calls = s.calls
  warnings : t.warnings = s.warnings
  directory : t.directory = s.directory

namespace Parallel

theorem start (o : Options) (g : Format) (beside : Option String) :
    Parallel o.format g (Session.start o beside) (Session.start (o.inFormat g) beside) where
  made := rfl
  recipe := rfl
  tables := by
    have hidden := recipeTable_veiled o g
    show [_, _, _, (recipeTable (o.inFormat g)).veiled, _] ++ _ = [_, _, _, (recipeTable o).veiled, _] ++ _
    rw [hidden]
    rfl
  values := rfl
  cells := rfl
  closures := rfl
  calls := rfl
  warnings := rfl
  directory := rfl

variable {f g : Format} {s t : Session} (parallel : Parallel f g s t)
include parallel

section

theorem tables_length : t.tables.length = s.tables.length := by
  have lengths := congrArg List.length parallel.tables
  simpa only [veiledTables, List.length_modify] using lengths

theorem warn (warnings : List Warning) : Parallel f g { s with warnings := s.warnings ++ warnings }
    { t with warnings := t.warnings ++ warnings } :=
  { parallel with warnings := congrArg (· ++ warnings) parallel.warnings }

theorem assign (name : String) (v : Value) : Parallel f g { s with values := setValue name v s.values }
    { t with values := setValue name v t.values } :=
  { parallel with values := congrArg (setValue name v) parallel.values }

theorem assignCell (place : Nat) (v : Value) : Parallel f g { s with cells := s.cells.set place v }
    { t with cells := t.cells.set place v } :=
  { parallel with cells := congrArg (List.set · place v) parallel.cells }

theorem enterCall (c : Closure) (arguments : List Value) :
    Parallel f g { s with cells := s.cells ++ c.given arguments }
      { t with cells := s.cells ++ c.given arguments } :=
  { parallel with cells := rfl }

theorem newFunction (c : Closure) : Parallel f g { s with closures := s.closures ++ [c] }
    { t with closures := s.closures ++ [c] } :=
  { parallel with closures := rfl }

theorem askLibrary (call : LibraryCall) : Parallel f g { s with calls := call :: s.calls }
    { t with calls := call :: s.calls } :=
  { parallel with calls := rfl }

theorem store (place : Nat) (k : Key) (v : Value) :
    Parallel f g { s with tables := s.tables.modify place (·.put k v) }
      { t with tables := t.tables.modify place (·.put k v) } :=
  { parallel with
    tables := by
      have same : t.tables.modify recipePlace Table.veiled = s.tables.modify recipePlace Table.veiled :=
        parallel.tables
      unfold veiledTables
      rw [modify_veiled, modify_veiled, same] }

theorem newTable (table : Table) : Parallel f g { s with tables := s.tables ++ [table] }
    { t with tables := t.tables ++ [table] } :=
  { parallel with
    tables := by
      have same : t.tables.modify recipePlace Table.veiled = s.tables.modify recipePlace Table.veiled :=
        parallel.tables
      unfold veiledTables
      rw [append_veiled, append_veiled, parallel.tables_length, same] }

theorem enter (directory : Option String) : Parallel f g { s with directory } { t with directory } :=
  { parallel with directory := rfl }

theorem push {stage : Stage} (made : stage.inFormat f = stage) :
    Parallel f g { s with recipe := s.recipe.push stage }
      { t with recipe := t.recipe.push (stage.inFormat g) } :=
  { parallel with
    made := by rw [← Recipe.push_inFormat, parallel.made, made]
    recipe := by rw [parallel.recipe, Recipe.push_inFormat] }

theorem append (index : Nat) (layers : List Layer) :
    Parallel f g { s with recipe := s.recipe.append index layers }
      { t with recipe := t.recipe.append index layers } :=
  { parallel with
    made := by rw [← Recipe.append_inFormat, parallel.made]
    recipe := by rw [parallel.recipe, Recipe.append_inFormat] }

end

section

theorem files (setting : Setting) : t.files setting = s.files setting := by
  unfold Session.files
  rw [parallel.calls]

theorem variableValue (locals : List (String × Nat)) (name : String) :
    t.variableValue locals name = s.variableValue locals name := by
  unfold Session.variableValue
  rw [parallel.cells, parallel.values]

theorem pathFrom (path : String) : t.pathFrom path = s.pathFrom path := by
  unfold Session.pathFrom
  rw [parallel.directory]

theorem table_of_ne (other : place ≠ recipePlace) : t.table place = s.table place := by
  have same := congrArg (·.getD place ∅) parallel.tables
  simpa only [getD_veiledTables, if_neg other] using same

theorem table_veiled (place : Nat) : (t.table place).veiled = (s.table place).veiled := by
  by_cases here : place = recipePlace
  · have same := congrArg (·.getD place ∅) parallel.tables
    simpa only [getD_veiledTables, if_pos here] using same
  · rw [parallel.table_of_ne here]

theorem get_of_ne (place : Nat) (other : k ≠ formatKey) : (t.table place).get k = (s.table place).get k := by
  have same := congrArg (·.get k) (parallel.table_veiled place)
  simpa only [Table.get_veiled, Value.veiled_of_ne _ other] using same

theorem datumWithin (bound : Nat) (path : List Nat) (v : Value) (apart : s.meetsRecipe bound path v = false) :
    t.datumWithin bound path v = s.datumWithin bound path v := by
  induction bound generalizing path v with
  | zero => cases v <;> rfl
  | succ bound ih =>
    cases v with
    | table place =>
      simp only [Session.datumWithin]
      by_cases looped : path.contains place = true
      · rw [if_pos looped, if_pos looped]
      · rw [if_neg looped, if_neg looped]
        have fresh : path.contains place = false := Bool.not_eq_true _ ▸ looped
        obtain ⟨⟨other, items⟩, others⟩ : (place ≠ recipePlace ∧
            ∀ v ∈ (s.table place).items, s.meetsRecipe bound (place :: path) v = false) ∧
            ∀ pair ∈ (s.table place).others, s.meetsRecipe bound (place :: path) pair.1.toValue = false ∧
              s.meetsRecipe bound (place :: path) pair.2 = false := by
          simpa only [meetsRecipe, fresh, Bool.not_false, Bool.true_and, Bool.or_eq_false_iff,
            beq_eq_false_iff_ne, List.any_eq_false, Bool.not_eq_true] using apart
        have read : (s.table place).items.map (t.datumWithin bound (place :: path)) =
            (s.table place).items.map (s.datumWithin bound (place :: path)) :=
          List.map_congr_left fun v member => ih _ v (items v member)
        rw [parallel.table_of_ne other, read]
        congr 1
        refine List.map_congr_left fun pair member => ?_
        obtain ⟨key, value⟩ := others pair member
        rw [ih _ _ key, ih _ _ value]
    | _ => rfl

theorem datum (apart : s.leadsToRecipe v = false) : t.datum v = s.datum v := by
  unfold Session.datum
  rw [parallel.tables_length]
  exact parallel.datumWithin _ _ v apart

theorem record (l : Layout σ) (apart : s.leadsToRecipe v = false) : t.record l v = s.record l v := by
  unfold Session.record
  rw [parallel.datum apart]

theorem options (l : Layout σ) (apart : s.leadsToRecipe v = false) : t.options l v = s.options l v := by
  unfold Session.options
  rw [parallel.record l apart]

-- The lists of a table do not lie behind the veil.
theorem commands (v : Value) : t.commands v = s.commands v := by
  cases v with
  | table place =>
    have same := congrArg Table.itemsToGap (parallel.table_veiled place)
    rw [Table.itemsToGap_veiled, Table.itemsToGap_veiled] at same
    exact congrArg (List.mapM Value.asText) same
  | _ => rfl

theorem length (place : Nat) : (t.table place).length = (s.table place).length := by
  have same := congrArg Table.length (parallel.table_veiled place)
  simpa only [Table.length_veiled] using same

theorem stage? (index : Nat) : t.recipe.stage? index = (s.recipe.stage? index).map (·.inFormat g) := by
  rw [parallel.recipe, Recipe.stage?_inFormat]

theorem checkName (name : Option String) : t.checkName name = s.checkName name := by
  unfold Session.checkName
  simp only [parallel.recipe, Recipe.hasStage_inFormat]

end

end Parallel

end Session

end ContainerRecipe.Script
