import ContainerRecipe.Proofs.Script.Parts

namespace ContainerRecipe.Script

-- No value of a list is a stage.
def Stageless (vs : List Value) : Prop := ∀ v ∈ vs, v.isStage = false

@[simp] theorem stageless_nil : Stageless [] := List.forall_mem_nil _

@[simp] theorem stageless_cons : Stageless (v :: vs) ↔ v.isStage = false ∧ Stageless vs := List.forall_mem_cons

@[simp] theorem stageless_append : Stageless (vs ++ ws) ↔ Stageless vs ∧ Stageless ws := List.forall_mem_append

namespace Expression

@[simp] theorem stageless_nil : Stageless nil.constants := by simp [nil, constants, Value.isStage]

@[simp] theorem stageless_text (s : String) : Stageless (text s).constants := by
  simp [text, Value.text, constants, Value.isStage]

@[simp] theorem stageless_recipe (name : String) : Stageless (recipe name).constants := by
  simp [recipe, constants]

theorem stageless_operation? (operand : Stageless e.constants) (read : operation? operation e = some made) :
    Stageless made.constants := by
  unfold operation? at read
  split at read
  -- The name of what is meant, with operands or without; operands alone; a constant.
  case h_1 | h_2 | h_8 | h_10 | h_11 =>
    obtain ⟨_, _, rfl⟩ := Option.map_eq_some_iff.mp read
    simp_all [constants, constantsOfAll, constantsOfFields]
  case h_3 | h_4 | h_5 | h_6 | h_7 | h_9 | h_12 | h_13 | h_16 =>
    cases read
    simp_all [constants, constantsOfAll, constantsOfFields, Program.constants]
  case h_14 =>
    obtain ⟨bytes, _, made⟩ := Option.bind_eq_some_iff.mp read
    cases made
    simp [constants, Value.isStage]
  case h_15 =>
    split at read
    · cases read
      simp [constants, Value.isStage]
    · cases read
      simp [constants, Value.isStage]
    · cases read
  case h_17 => cases read

@[simp] theorem constantsOfAll_append (es others : List Expression) :
    constantsOfAll (es ++ others) = constantsOfAll es ++ constantsOfAll others := by
  induction es with
  | nil => rfl
  | cons e es ih => simp [constantsOfAll, ih]

@[simp] theorem constantsOfFields_append (fields others : List (String × Expression)) :
    constantsOfFields (fields ++ others) = constantsOfFields fields ++ constantsOfFields others := by
  induction fields with
  | nil => rfl
  | cons field fields ih => simp [constantsOfFields, ih]

end Expression

def TablePart.constants (part : TablePart) : List Value :=
  Expression.constantsOfAll part.itemsOf ++ Expression.constantsOfFields part.fieldsOf

-- The values that are written in a part of a statement.
def Part.constants : Part → List Value
  | .value e => e.constants
  | .block body => Program.constants body

theorem stageless_lookup {parts : List (String × Part)} (plain : ∀ entry ∈ parts, Stageless entry.2.constants)
    (found : parts.lookup name = some part) : Stageless part.constants := by
  obtain ⟨before, after, rfl, -⟩ := List.lookup_eq_some_iff.mp found
  exact plain (name, part) (by simp)

theorem stageless_value {parts : List (String × Part)} (plain : ∀ entry ∈ parts, Stageless entry.2.constants)
    (found : (parts.lookup name).bind Part.value? = some e) : Stageless e.constants := by
  obtain ⟨part, held, given⟩ := Option.bind_eq_some_iff.mp found
  cases part with
  | value e =>
    cases given
    exact stageless_lookup plain held
  | block body => cases given

theorem stageless_block {parts : List (String × Part)} (plain : ∀ entry ∈ parts, Stageless entry.2.constants)
    (found : (parts.lookup name).bind Part.block? = some body) : Stageless (Program.constants body) := by
  obtain ⟨part, held, given⟩ := Option.bind_eq_some_iff.mp found
  cases part with
  | value e => cases given
  | block body =>
    cases given
    exact stageless_lookup plain held

theorem stageless_statement {parts : List (String × Part)}
    (plain : ∀ entry ∈ parts, Stageless entry.2.constants) (made : statement parts = some st) : Stageless st.constants := by
  unfold statement at made
  dsimp only at made
  split at made
  · obtain ⟨name, -, more⟩ := Option.bind_eq_some_iff.mp made
    obtain ⟨e, value, made⟩ := Option.bind_eq_some_iff.mp more
    cases made
    exact stageless_value plain value
  split at made
  · rename_i e value
    cases made
    exact stageless_value plain value
  split at made
  · rename_i e value
    cases made
    exact stageless_value plain value
  split at made
  · rename_i e subject
    obtain ⟨key, named, more⟩ := Option.bind_eq_some_iff.mp made
    obtain ⟨v, value, made⟩ := Option.bind_eq_some_iff.mp more
    cases made
    simp [Statement.constants, stageless_value plain subject, stageless_value plain named,
      stageless_value plain value]
  split at made
  · rename_i body block
    cases made
    exact stageless_block plain block
  split at made
  · rename_i e condition
    obtain ⟨whenTrue, block, made⟩ := Option.bind_eq_some_iff.mp made
    cases made
    have other : Stageless (Program.constants (((parts.lookup "else").bind Part.block?).getD [])) := by
      cases otherwise : (parts.lookup "else").bind Part.block? with
      | none => simp [Program.constants]
      | some body => exact stageless_block plain otherwise
    simp [Statement.constants, stageless_value plain condition, stageless_block plain block, other]
  · cases made

-- What is read holds no stages, by the cases of the reading: expressions, named ones, statements, one of them,
-- its parts, lists of expressions, the parts of a table, and one such part.
theorem stageless_read : (∀ d e, expression? d = some e → Stageless e.constants) ∧
    (∀ entries fields, fields? entries = some fields → Stageless (Expression.constantsOfFields fields)) ∧
    (∀ items program, statements? items = some program → Stageless (Program.constants program)) ∧
    (∀ d st, statement? d = some st → Stageless st.constants) ∧
    (∀ entries parts, parts? entries = some parts → ∀ entry ∈ parts, Stageless entry.2.constants) ∧
    (∀ items es, expressions? items = some es → Stageless (Expression.constantsOfAll es)) ∧
    (∀ entries parts, tableParts? entries = some parts →
      Stageless (Expression.constantsOfAll (parts.flatMap TablePart.itemsOf)) ∧
        Stageless (Expression.constantsOfFields (parts.flatMap TablePart.fieldsOf))) ∧
    ∀ name d part, tablePart? name d = some part → Stageless part.constants := by
  refine expression?.mutual_induct _ _ _ _ _ _ _ _ ?null ?flag ?number ?text ?list ?table ?function ?record ?other
    ?statement ?notStatement ?items ?notItems ?named ?notNamed ?noPart ?noSteps ?moreSteps ?noItems ?moreItems
    ?noFields ?moreFields ?nothing ?block ?listed ?single ?noParts ?moreParts
  case null =>
    rintro e ⟨⟩
    simp
  case flag =>
    rintro b e ⟨⟩
    simp [Expression.constants, Value.isStage]
  case number =>
    intro literal e read
    obtain ⟨n, -, rfl⟩ := Option.map_eq_some_iff.mp read
    simp [Expression.constants, Value.isStage]
  case text =>
    rintro s e ⟨⟩
    simp
  case list =>
    intro items ih e read
    simp only [expression?] at read
    obtain ⟨es, items, rfl⟩ := Option.map_eq_some_iff.mp read
    simpa [Expression.constants, Expression.constantsOfFields] using ih es items
  case table =>
    intro entries ih e read
    simp only [expression?] at read
    obtain ⟨parts, entries, made⟩ := Option.bind_eq_some_iff.mp read
    cases made
    simpa [Expression.constants] using ih parts entries
  case function =>
    intro names body ih e read
    simp only [expression?] at read
    obtain ⟨parameters, -, more⟩ := Option.bind_eq_some_iff.mp read
    obtain ⟨program, steps, made⟩ := Option.bind_eq_some_iff.mp more
    cases made
    simpa [Expression.constants] using ih program steps
  case record =>
    intro fields table function ih e read
    rw [expression?] at read
    · obtain ⟨named, held, made⟩ := Option.bind_eq_some_iff.mp read
      have inside := ih named held
      split at made
      · rename_i name operand
        simp only [Expression.constantsOfFields, List.append_nil] at inside
        split at made
        · exact Expression.stageless_operation? inside made
        · cases made
          simpa [Expression.constants, Expression.constantsOfAll, Expression.constantsOfFields] using inside
      · cases made
        simpa [Expression.constants, Expression.constantsOfAll] using inside
    · exact table
    · exact function
  case other =>
    intro d null flag number text list _ _ record e read
    cases d with
    | null => exact (null rfl).elim
    | flag b => exact (flag b rfl).elim
    | number literal => exact (number literal rfl).elim
    | text s => exact (text s rfl).elim
    | list items => exact (list items rfl).elim
    | record fields => exact (record fields rfl).elim
    | bytes | table | again | stage | function => cases read
  case statement =>
    intro fields ih st read
    simp only [statement?] at read
    obtain ⟨parts, held, made⟩ := Option.bind_eq_some_iff.mp read
    exact stageless_statement (ih parts held) made
  case notStatement =>
    intro d record st read
    cases d with
    | record fields => exact (record fields rfl).elim
    | null | flag | number | text | list | bytes | table | again | stage | function => cases read
  case items =>
    intro items ih part read
    obtain ⟨es, items, rfl⟩ := Option.map_eq_some_iff.mp read
    simpa [TablePart.constants, TablePart.itemsOf, TablePart.fieldsOf, Expression.constantsOfFields] using
      ih es items
  case notItems =>
    intro name items other part read
    simp [tablePart?, other] at read
  case named =>
    intro entries ih part read
    obtain ⟨fields, entries, rfl⟩ := Option.map_eq_some_iff.mp read
    simpa [TablePart.constants, TablePart.itemsOf, TablePart.fieldsOf, Expression.constantsOfAll] using
      ih fields entries
  case notNamed =>
    intro name entries other part read
    simp [tablePart?, other] at read
  case noPart =>
    intro d name list record part read
    cases d with
    | list items => exact (list items rfl).elim
    | record fields => exact (record fields rfl).elim
    | null | flag | number | text | bytes | table | again | stage | function => cases read
  case noSteps =>
    rintro program ⟨⟩
    simp [Program.constants]
  case moreSteps =>
    intro d rest first behind program read
    obtain ⟨st, here, more⟩ := Option.bind_eq_some_iff.mp read
    obtain ⟨others, there, made⟩ := Option.bind_eq_some_iff.mp more
    cases made
    simp [Program.constants, first st here, behind others there]
  case noItems =>
    rintro es ⟨⟩
    simp [Expression.constantsOfAll]
  case moreItems =>
    intro d rest first behind es read
    obtain ⟨e, here, more⟩ := Option.bind_eq_some_iff.mp read
    obtain ⟨others, there, made⟩ := Option.bind_eq_some_iff.mp more
    cases made
    simp [Expression.constantsOfAll, first e here, behind others there]
  case noFields =>
    rintro fields ⟨⟩
    simp [Expression.constantsOfFields]
  case moreFields =>
    intro name d rest first behind fields read
    obtain ⟨e, here, more⟩ := Option.bind_eq_some_iff.mp read
    obtain ⟨others, there, made⟩ := Option.bind_eq_some_iff.mp more
    cases made
    simp [Expression.constantsOfFields, first e here, behind others there]
  case nothing =>
    rintro parts ⟨⟩
    exact List.forall_mem_nil _
  case block =>
    intro name items rest named behind inside parts read
    simp only [parts?, named, if_true] at read
    obtain ⟨part, here, more⟩ := Option.bind_eq_some_iff.mp read
    obtain ⟨others, there, made⟩ := Option.bind_eq_some_iff.mp more
    obtain ⟨body, held, rfl⟩ := Option.map_eq_some_iff.mp here
    cases made
    exact List.forall_mem_cons.mpr ⟨inside body held, behind others there⟩
  case listed =>
    intro name items rest named behind inside parts read
    simp only [parts?, named] at read
    obtain ⟨part, here, more⟩ := Option.bind_eq_some_iff.mp read
    obtain ⟨others, there, made⟩ := Option.bind_eq_some_iff.mp more
    obtain ⟨es, held, rfl⟩ := Option.map_eq_some_iff.mp here
    cases made
    refine List.forall_mem_cons.mpr ⟨?_, behind others there⟩
    simpa [Part.constants, Expression.constants, Expression.constantsOfFields] using inside es held
  case single =>
    intro name d rest other inside behind parts read
    rw [parts?] at read
    · obtain ⟨e, here, more⟩ := Option.bind_eq_some_iff.mp read
      obtain ⟨others, there, made⟩ := Option.bind_eq_some_iff.mp more
      cases made
      exact List.forall_mem_cons.mpr ⟨inside e here, behind others there⟩
    · exact other
  case noParts =>
    rintro parts ⟨⟩
    simp [Expression.constantsOfAll, Expression.constantsOfFields]
  case moreParts =>
    intro name d rest first behind parts read
    obtain ⟨part, here, more⟩ := Option.bind_eq_some_iff.mp read
    obtain ⟨others, there, made⟩ := Option.bind_eq_some_iff.mp more
    cases made
    have part := first part here
    have others := behind others there
    simp_all [TablePart.constants]

theorem stageless_statements? (read : statements? items = some program) : Stageless (Program.constants program) :=
  stageless_read.2.2.1 items program read

theorem Program.stageless_ofDatum? (read : Program.ofDatum? d = some program) :
    Stageless (Program.constants program) := by
  unfold ofDatum? at read
  split at read
  · split at read
    · exact stageless_statements? read
    · cases read
  · cases read

-- No program that is read names a stage.
theorem Program.stageless_read? (read : Program.read? text = some program) :
    Stageless (Program.constants program) := by
  unfold Program.read? at read
  split at read
  · cases read
    simp [Program.constants]
  · cases steps : (Json.read? text).bind ofDatum? with
    | some found =>
      rw [steps] at read
      cases read
      obtain ⟨d, -, made⟩ := Option.bind_eq_some_iff.mp steps
      exact stageless_ofDatum? made
    | none =>
      rw [steps] at read
      obtain ⟨items, -, made⟩ := Option.bind_eq_some_iff.mp read
      exact stageless_statements? made

end ContainerRecipe.Script
