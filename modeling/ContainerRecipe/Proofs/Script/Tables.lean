import ContainerRecipe.Proofs.Datum.Record
import ContainerRecipe.Script.Argument

namespace ContainerRecipe.Script

theorem ofText_injective : Function.Injective Key.ofText := fun _ _ same =>
  String.toByteArray_inj.mp (Key.bytes.inj same)

theorem fromUTF8?_toUTF8 (s : String) : String.fromUTF8? s.toUTF8 = some s := by
  unfold String.fromUTF8?
  exact dif_pos s.isValidUTF8

def named (fields : List (String × Value)) : List (Key × Value) := fields.map fun (name, v) => (.ofText name, v)

theorem named_concat (fields : List (String × Value)) (name : String) (v : Value) :
    named (fields ++ [(name, v)]) = named fields ++ [(.ofText name, v)] := List.map_append

namespace Table

-- A table that has no values but those under the given names.
structure Lists (t : Table) (fields : List (String × Value)) : Prop where
  places : t.places = []
  entries : t.entries = named fields
  valued : ∀ field ∈ fields, field.2.isNil = false

theorem positiveKeys_named (fields : List (String × Value)) : positiveKeys (named fields) = [] := by
  unfold positiveKeys named
  rw [List.filterMap_map, List.filterMap_eq_nil_iff]
  exact fun _ _ => rfl

theorem settled_named {fields : List (String × Value)} (valued : ∀ field ∈ fields, field.2.isNil = false) :
    (settled (named fields)).Lists fields where
  places := by
    unfold settled
    rw [positiveKeys_named]
    rfl
  entries := by
    refine List.filter_eq_self.mpr ?_
    exact List.forall_mem_map.mpr fun _ _ => rfl
  valued

theorem Lists.pairs {t : Table} (lists : t.Lists fields) : t.pairs = named fields := by
  unfold Table.pairs
  rw [lists.places, lists.entries]
  refine List.filter_eq_self.mpr (List.forall_mem_map.mpr fun field member => ?_)
  simp [lists.valued field member]

theorem lookup_named (fields : List (String × Value)) (name : String) :
    (named fields).lookup (.ofText name) = fields.lookup name := by
  induction fields with
  | nil => rfl
  | cons field rest ih =>
    have same : (Key.ofText name == Key.ofText field.1) = (name == field.1) := by
      rw [Bool.eq_iff_iff, beq_iff_eq, beq_iff_eq, ofText_injective.eq_iff]
    unfold named at ih ⊢
    rw [List.map_cons, List.lookup_cons, List.lookup_cons, same, ih]

theorem Lists.put {t : Table} (lists : t.Lists fields) (fresh : name ∉ fields.map Prod.fst)
    (valued : v.isNil = false) : (t.put (.ofText name) v).Lists (fields ++ [(name, v)]) := by
  have all : ∀ field ∈ fields ++ [(name, v)], field.2.isNil = false :=
    List.forall_mem_append.mpr ⟨lists.valued, List.forall_mem_singleton.mpr valued⟩
  have missing : fields.lookup name = none := by
    refine List.lookup_eq_none_iff.mpr fun field member => ?_
    exact bne_iff_ne.mpr fun same => fresh (same ▸ List.mem_map_of_mem member)
  have unseen : (t.entries.lookup (.ofText name)).isSome = false := by
    rw [lists.entries, lookup_named, missing]
    rfl
  show Lists (if (t.entries.lookup (.ofText name)).isSome then _ else _) _
  rw [unseen, valued, lists.pairs, ← named_concat]
  simp only [Bool.false_eq_true, if_false]
  split
  · refine ⟨lists.places, ?_, all⟩
    rw [named_concat, ← lists.entries]
  · exact settled_named all

theorem lists_ofFields {fields : List (String × Value)} (apart : (fields.map Prod.fst).Nodup)
    (valued : ∀ field ∈ fields, field.2.isNil = false) : (ofFields fields).Lists fields := by
  have put (t : Table) (before after : List (String × Value)) (lists : t.Lists before)
      (apart : ((before ++ after).map Prod.fst).Nodup) (valued : ∀ field ∈ after, field.2.isNil = false) :
      (t.putFields after).Lists (before ++ after) := by
    unfold putFields
    induction after generalizing t before with
    | nil => rwa [List.append_nil]
    | cons field rest ih =>
      obtain ⟨name, v⟩ := field
      obtain ⟨first, others⟩ := List.forall_mem_cons.mp valued
      have fresh : name ∉ before.map Prod.fst := by
        rw [List.map_append, List.nodup_append'] at apart
        exact fun old => apart.2.2 old List.mem_cons_self
      rw [List.append_cons] at apart ⊢
      exact ih _ _ (lists.put fresh first) apart others
  exact put _ [] fields ⟨rfl, rfl, List.forall_mem_nil _⟩ apart valued

theorem Lists.get {t : Table} (lists : t.Lists fields) (name : String) :
    t.get (.ofText name) = (fields.lookup name).getD .nil := by
  show ((t.entries.lookup (.ofText name)).getD .nil) = _
  rw [lists.entries, lookup_named]

-- Names are no places, so that such a table has no list.
theorem Lists.items {t : Table} (lists : t.Lists fields) : t.items = [] := by
  have nothing (n : Nat) : t.holds n = false := by
    have missing : (named fields).lookup (.ofPlace n) = none := by
      refine List.lookup_eq_none_iff.mpr (List.forall_mem_map.mpr fun _ _ => ?_)
      exact bne_iff_ne.mpr (by simp [Key.ofPlace, Key.ofText])
    have unplaced : t.place? (.ofPlace n) = none := by
      simp [place?, Key.ofPlace, lists.places]
    unfold holds Table.get
    rw [unplaced, lists.entries, missing]
    rfl
  have length : t.length = 0 := by
    unfold Table.length
    simp [lists.places, nothing]
  unfold Table.items
  rw [length]
  rfl

end Table

namespace Session

theorem datumWithin_text (s : Session) (bound : Nat) (path : List Nat) (text : String) :
    s.datumWithin bound path (.text text) = .text text := by
  simp only [Value.text, datumWithin, fromUTF8?_toUTF8]

-- Named values as data.
def fieldsWithin (s : Session) (bound : Nat) (path : List Nat) (fields : List (String × Value)) :
    List (String × Datum) :=
  fields.map fun field => (field.1, s.datumWithin bound path field.2)

theorem fieldsWithin_names (s : Session) (bound : Nat) (path : List Nat) (fields : List (String × Value)) :
    (s.fieldsWithin bound path fields).map Prod.fst = fields.map Prod.fst := by
  unfold fieldsWithin
  rw [List.map_map]
  rfl

-- A table whose values all stand under texts is told by them.
theorem datumWithin_pairs {s : Session} (told : (s.table place).pairs = named fields) (outside : place ∉ path) :
    s.datumWithin (bound + 1) path (.table place) =
      .table ((s.table place).items.map (s.datumWithin bound (place :: path)))
        (Layout.pairsOf (s.fieldsWithin bound (place :: path) fields)) := by
  have others : (s.table place).others = named fields := by
    unfold Table.others
    rw [told]
    exact List.filter_eq_self.mpr (List.forall_mem_map.mpr fun _ _ => rfl)
  rw [datumWithin, if_neg (by simpa using outside)]
  dsimp only
  rw [others]
  unfold named Layout.pairsOf fieldsWithin
  rw [List.map_map, List.map_map]
  refine congrArg (Datum.table _) (List.map_congr_left fun field _ => ?_)
  exact Prod.ext (s.datumWithin_text bound (place :: path) field.1) rfl

theorem datumWithin_table (s : Session) (bound : Nat) (path : List Nat) (place : Nat) :
    s.datumWithin bound path (.table place) = .again ∨ ∃ deeper, bound = deeper + 1 ∧ place ∉ path := by
  cases bound with
  | zero => exact .inl (by rw [datumWithin])
  | succ deeper =>
    by_cases outside : place ∉ path
    · exact .inr ⟨deeper, rfl, outside⟩
    · refine .inl ?_
      rw [datumWithin, if_pos (by simpa using outside)]

-- A table that lists anything is one of the session.
theorem lt_length_of_lists {s : Session} (lists : (s.table place).Lists fields) (member : field ∈ fields) :
    place < s.tables.length := by
  by_contra beyond
  have missing : s.table place = ∅ := by
    unfold table
    rw [List.getD_eq_getElem?_getD, List.getElem?_eq_none (Nat.le_of_not_lt beyond), Option.getD_none]
  have nothing : named fields = [] := lists.entries.symm.trans (congrArg Table.entries missing)
  rw [List.map_eq_nil_iff.mp nothing] at member
  cases member

theorem record_ok {s : Session} {l : Layout σ} (accepted : s.record l v = .ok a) :
    l.read (s.datum v) = .ok a := by
  unfold record at accepted
  cases read : l.read (s.datum v) with
  | error e => simp [read, Except.mapError] at accepted
  | ok b => simpa [read, Except.mapError] using accepted

end Session

end ContainerRecipe.Script
