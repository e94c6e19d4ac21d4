import ContainerRecipe.Proofs.Script.Parts
import Mathlib.Data.List.Basic

namespace ContainerRecipe.Script

def Table.held (t : Table) : List Value := t.places ++ t.entries.flatMap fun (k, v) => [k.toValue, v]

-- The values of a session: those of its variables and tables, and what is written in its functions.
def Session.held (s : Session) : List Value :=
  s.values.map Prod.snd ++ s.cells ++ s.tables.flatMap Table.held ++
    s.closures.flatMap fun c => Program.constants c.body

def Table.Holds (p : Value → Prop) (t : Table) : Prop := ∀ v ∈ t.held, p v

def Session.Holds (p : Value → Prop) (s : Session) : Prop := ∀ v ∈ s.held, p v

variable {p : Value → Prop}

theorem Table.holds_iff {t : Table} : t.Holds p ↔
    (∀ v ∈ t.places, p v) ∧ ∀ entry ∈ t.entries, p entry.1.toValue ∧ p entry.2 := by
  unfold Holds held
  rw [List.forall_mem_append]
  simp only [List.mem_flatMap, List.mem_cons, List.not_mem_nil, or_false, forall_exists_index, and_imp]
  refine and_congr_right fun _ => ⟨fun all entry member => ?_, fun all v entry member told => ?_⟩
  · exact ⟨all _ entry member (.inl rfl), all _ entry member (.inr rfl)⟩
  · rcases told with rfl | rfl
    · exact (all entry member).1
    · exact (all entry member).2

theorem Session.holds_iff {s : Session} : s.Holds p ↔ (∀ entry ∈ s.values, p entry.2) ∧ (∀ v ∈ s.cells, p v) ∧
    (∀ t ∈ s.tables, t.Holds p) ∧ ∀ c ∈ s.closures, ∀ v ∈ Program.constants c.body, p v := by
  unfold Holds held Table.Holds
  simp only [List.forall_mem_append, List.forall_mem_map, List.forall_mem_flatMap, and_assoc]

section

variable (plain : ∀ {v : Value}, v.isStage = false → p v)
include plain

theorem holds_getD {found : Option Value} (held : ∀ v, found = some v → p v) : p (found.getD .nil) := by
  cases found with
  | none => exact plain rfl
  | some v => exact held v rfl

theorem holds_lookup [BEq κ] [LawfulBEq κ] {entries : List (κ × Value)} (k : κ)
    (held : ∀ entry ∈ entries, p entry.2) : p ((entries.lookup k).getD .nil) := by
  refine holds_getD plain fun v found => ?_
  obtain ⟨before, after, rfl, -⟩ := List.lookup_eq_some_iff.mp found
  exact held (k, v) (List.mem_append_right before List.mem_cons_self)

namespace Table

theorem holds_get {t : Table} (holds : t.Holds p) (k : Key) : p (t.get k) := by
  obtain ⟨places, entries⟩ := holds_iff.mp holds
  unfold get
  split
  · rw [List.getD_eq_getElem?_getD]
    exact holds_getD plain fun v found => places v (List.mem_of_getElem? found)
  · exact holds_lookup plain k fun entry member => (entries entry member).2

theorem holds_pairs {t : Table} (holds : t.Holds p) : ∀ entry ∈ t.pairs, p entry.1.toValue ∧ p entry.2 := by
  obtain ⟨places, entries⟩ := holds_iff.mp holds
  intro entry member
  rcases List.mem_append.mp (List.mem_of_mem_filter member) with numbered | other
  · obtain ⟨⟨v, n⟩, inside, rfl⟩ := List.mem_map.mp numbered
    exact ⟨plain rfl, places v (List.fst_mem_of_mem_zipIdx inside)⟩
  · exact entries entry other

theorem holds_settled {entries : List (Key × Value)} (held : ∀ entry ∈ entries, p entry.1.toValue ∧ p entry.2) :
    (settled entries).Holds p := by
  refine holds_iff.mpr ⟨?_, fun entry member => held entry (List.mem_of_mem_filter member)⟩
  intro v member
  obtain ⟨n, -, rfl⟩ := List.mem_map.mp member
  exact holds_lookup plain _ fun entry member => (held entry member).2

theorem holds_put {t : Table} (holds : t.Holds p) (named : p k.toValue) (valid : p v) : (t.put k v).Holds p := by
  obtain ⟨places, entries⟩ := holds_iff.mp holds
  unfold put
  split
  · refine holds_iff.mpr ⟨fun w member => ?_, entries⟩
    rcases List.mem_or_eq_of_mem_set member with old | rfl
    · exact places w old
    · exact valid
  · split
    · refine holds_iff.mpr ⟨places, fun entry member => ?_⟩
      obtain ⟨⟨l, w⟩, inside, rfl⟩ := List.mem_map.mp member
      refine ⟨(entries _ inside).1, ?_⟩
      dsimp only
      split
      · exact valid
      · exact (entries _ inside).2
    · split
      · exact holds
      · split
        · refine holds_iff.mpr ⟨places, List.forall_mem_append.mpr ⟨entries, ?_⟩⟩
          exact List.forall_mem_singleton.mpr ⟨named, valid⟩
        · refine holds_settled plain (List.forall_mem_append.mpr ⟨holds_pairs plain holds, ?_⟩)
          exact List.forall_mem_singleton.mpr ⟨named, valid⟩

theorem holds_ofParts {items : List Value} {fields : List (String × Value)} (held : ∀ v ∈ items, p v)
    (named : ∀ field ∈ fields, p field.2) : (ofParts items fields).Holds p := by
  have put (t : Table) (holds : t.Holds p) : (t.putFields fields).Holds p := by
    unfold putFields
    induction fields generalizing t with
    | nil => exact holds
    | cons field rest ih =>
      obtain ⟨first, rest⟩ := List.forall_mem_cons.mp named
      exact ih rest _ (holds_put plain holds (plain rfl) first)
  exact put _ (holds_iff.mpr ⟨held, List.forall_mem_nil _⟩)

end Table

namespace Session

omit plain in
theorem holds_table {s : Session} (holds : s.Holds p) (place : Nat) : (s.table place).Holds p := by
  unfold table
  rw [List.getD_eq_getElem?_getD]
  cases found : s.tables[place]? with
  | none => exact Table.holds_iff.mpr ⟨List.forall_mem_nil _, List.forall_mem_nil _⟩
  | some t => exact (holds_iff.mp holds).2.2.1 t (List.mem_of_getElem? found)

theorem holds_variableValue {s : Session} (holds : s.Holds p) (locals : List (String × Nat)) (name : String) :
    p (s.variableValue locals name) := by
  obtain ⟨values, cells, -⟩ := holds_iff.mp holds
  unfold variableValue
  split
  · rw [List.getD_eq_getElem?_getD]
    exact holds_getD plain fun v found => cells v (List.mem_of_getElem? found)
  · exact holds_lookup plain name values

omit plain in
theorem holds_assign {s : Session} (holds : s.Holds p) (name : String) (valid : p v) :
    Holds p { s with values := setValue name v s.values } := by
  obtain ⟨values, others⟩ := holds_iff.mp holds
  refine holds_iff.mpr ⟨List.forall_mem_cons.mpr ⟨valid, fun entry member => ?_⟩, others⟩
  exact values entry (List.mem_of_mem_filter member)

omit plain in
theorem holds_assignCell {s : Session} (holds : s.Holds p) (place : Nat) (valid : p v) :
    Holds p { s with cells := s.cells.set place v } := by
  obtain ⟨values, cells, others⟩ := holds_iff.mp holds
  refine holds_iff.mpr ⟨values, fun w member => ?_, others⟩
  rcases List.mem_or_eq_of_mem_set member with old | rfl
  · exact cells w old
  · exact valid

theorem holds_call {s : Session} (holds : s.Holds p) (c : Closure) {arguments : List Value}
    (given : ∀ v ∈ arguments, p v) : Holds p { s with cells := s.cells ++ c.given arguments } := by
  obtain ⟨values, cells, others⟩ := holds_iff.mp holds
  refine holds_iff.mpr ⟨values, List.forall_mem_append.mpr ⟨cells, fun v member => ?_⟩, others⟩
  obtain ⟨place, inside, rfl⟩ := List.mem_mapIdx.mp member
  unfold argument
  rw [List.getD_eq_getElem?_getD]
  exact holds_getD plain fun v found => given v (List.mem_of_getElem? found)

omit plain in
theorem holds_newFunction {s : Session} (holds : s.Holds p) (c : Closure)
    (written : ∀ v ∈ Program.constants c.body, p v) : Holds p { s with closures := s.closures ++ [c] } := by
  obtain ⟨values, cells, tables, closures⟩ := holds_iff.mp holds
  exact holds_iff.mpr ⟨values, cells, tables,
    List.forall_mem_append.mpr ⟨closures, List.forall_mem_singleton.mpr written⟩⟩

omit plain in
theorem holds_closureAt {s : Session} (holds : s.Holds p) (number : Nat) :
    ∀ v ∈ Closure.constants s.closures[number]?, p v := by
  cases found : s.closures[number]? with
  | none => exact List.forall_mem_nil _
  | some c => exact (holds_iff.mp holds).2.2.2 c (List.mem_of_getElem? found)

theorem holds_store {s : Session} (holds : s.Holds p) (place : Nat) (named : p k.toValue) (valid : p v) :
    Holds p { s with tables := s.tables.modify place (·.put k v) } := by
  obtain ⟨values, cells, tables, closures⟩ := holds_iff.mp holds
  refine holds_iff.mpr ⟨values, cells, fun t member => ?_, closures⟩
  obtain ⟨i, found⟩ := List.mem_iff_getElem?.mp member
  rw [List.getElem?_modify] at found
  obtain ⟨before, there, rfl⟩ := Option.map_eq_some_iff.mp found
  have old : before.Holds p := tables before (List.mem_of_getElem? there)
  split
  · exact Table.holds_put plain old named valid
  · exact old

omit plain in
theorem holds_newTable {s : Session} (holds : s.Holds p) {t : Table} (held : t.Holds p) :
    Holds p { s with tables := s.tables ++ [t] } := by
  obtain ⟨values, cells, tables, closures⟩ := holds_iff.mp holds
  exact holds_iff.mpr ⟨values, cells,
    List.forall_mem_append.mpr ⟨tables, List.forall_mem_singleton.mpr held⟩, closures⟩

-- What is there from the start is no stage.
theorem holds_start (o : Options) (beside : Option String) : (Session.start o beside).Holds p := by
  have ofFields (fields : List (String × Value)) (named : ∀ field ∈ fields, field.2.isStage = false) :
      (Table.ofFields fields).Holds p :=
    Table.holds_ofParts plain (List.forall_mem_nil _) fun field member => plain (named field member)
  have libraryFields : ∀ field ∈ libraryFields, field.2.isStage = false := by decide
  refine holds_iff.mpr ⟨List.forall_mem_nil _, List.forall_mem_nil _, List.forall_mem_append.mpr ⟨?_, ?_⟩,
    List.forall_mem_nil _⟩
  · have base : ∀ field ∈ baseFunctions.map fun name => (name, Value.function (.library name)),
        field.2.isStage = false := List.forall_mem_map.mpr fun _ _ => rfl
    have globals : globalsTable.Holds p := ofFields _
      (List.forall_mem_append.mpr ⟨List.forall_mem_append.mpr ⟨by decide, base⟩, libraryFields⟩)
    have package : (packageTable beside).Holds p := ofFields _ (by simp [Value.text, Value.isStage])
    have recipe : (recipeTable o).Holds p := ofFields _ (by simp [Value.text, Value.isStage])
    have userarg : (userargTable o).Holds p := ofFields _ (List.forall_mem_map.mpr fun _ _ => rfl)
    simp only [List.forall_mem_cons]
    exact ⟨globals, ofFields _ libraryFields, package, recipe, userarg, List.forall_mem_nil _⟩
  · exact List.forall_mem_map.mpr fun _ _ => ofFields _ (List.forall_mem_map.mpr fun _ _ => rfl)

end Session

end

end ContainerRecipe.Script
