import ContainerRecipe.Proofs.Script.Runs
import ContainerRecipe.Proofs.Script.Tables

namespace ContainerRecipe.Script

open Session ContainerRecipe.Script.Action

def Key.bytes? : Key → Option ByteArray
  | .bytes content => some content
  | _ => none

theorem Key.bytes?_eq_some_iff {k : Key} : k.bytes? = some content ↔ k = .bytes content := by
  cases k <;> simp [Key.bytes?]

-- The strings among the keys of some entries.
def strings (entries : List (Key × Value)) : List ByteArray := entries.filterMap (·.1.bytes?)

theorem mem_strings_iff {entries : List (Key × Value)} :
    content ∈ strings entries ↔ ∃ v, (.bytes content, v) ∈ entries := by
  simp [strings, Key.bytes?_eq_some_iff]

theorem strings_sublist {part entries : List (Key × Value)} (sublist : part.Sublist entries) :
    (strings part).Sublist (strings entries) :=
  sublist.filterMap _

theorem strings_concat_nodup {entries : List (Key × Value)} (apart : (strings entries).Nodup)
    (fresh : ∀ content, k = .bytes content → content ∉ strings entries) (v : Value) :
    (strings (entries ++ [(k, v)])).Nodup := by
  have last : strings [(k, v)] = k.bytes?.toList := by
    unfold strings
    cases named : k.bytes? <;> simp [named]
  have parts : strings (entries ++ [(k, v)]) = strings entries ++ k.bytes?.toList := by
    rw [← last]
    exact List.filterMap_append
  rw [parts]
  cases named : k.bytes? with
  | none => rwa [Option.toList_none, List.append_nil]
  | some content =>
    rw [Option.toList_some, List.nodup_append']
    refine ⟨apart, List.nodup_singleton content, fun other member new => ?_⟩
    rw [List.mem_singleton] at new
    exact fresh content (Key.bytes?_eq_some_iff.mp named) (new ▸ member)

namespace Table

def Apart (t : Table) : Prop := (strings t.entries).Nodup

theorem apart_empty : Apart ∅ := List.nodup_nil

-- The keys of places are numbers.
theorem strings_pairs (t : Table) : (strings t.pairs).Sublist (strings t.entries) := by
  unfold pairs
  refine (strings_sublist List.filter_sublist).trans ?_
  unfold strings
  rw [List.filterMap_append, List.filterMap_map, List.filterMap_eq_nil_iff.mpr, List.nil_append]
  exact fun _ _ => rfl

theorem strings_replace (entries : List (Key × Value)) (k : Key) (v : Value) :
    strings (entries.map fun (l, w) => (l, if l = k then v else w)) = strings entries := by
  unfold strings
  rw [List.filterMap_map]
  rfl

theorem Apart.put {t : Table} (apart : t.Apart) (k : Key) (v : Value) : (t.put k v).Apart := by
  unfold Table.put
  split
  · exact apart
  · split
    · unfold Apart
      rwa [strings_replace]
    · rename_i missing
      have fresh : ∀ content, k = .bytes content → content ∉ strings t.entries := by
        rintro content rfl member
        obtain ⟨w, held⟩ := mem_strings_iff.mp member
        have other := List.lookup_eq_none_iff.mp (Option.not_isSome_iff_eq_none.mp missing) _ held
        simp at other
      split
      · exact apart
      · split
        · exact strings_concat_nodup apart fresh v
        · -- The table is settled anew from the pairs that it has.
          have kept := t.strings_pairs
          have shown := strings_concat_nodup (apart.sublist kept) (fun _ same member =>
            fresh _ same (kept.subset member)) v
          exact shown.sublist (strings_sublist List.filter_sublist)

theorem apart_ofParts (items : List Value) (fields : List (String × Value)) : (ofParts items fields).Apart := by
  unfold ofParts putFields
  have empty : Apart { places := items, room := roomFor fields.length } := List.nodup_nil
  generalize ({ places := items, room := roomFor fields.length } : Table) = t at empty
  induction fields generalizing t with
  | nil => exact empty
  | cons field rest ih => exact ih _ (empty.put _ _)

theorem get_bytes (t : Table) (content : ByteArray) :
    t.get (.bytes content) = (t.entries.lookup (.bytes content)).getD .nil := rfl

theorem Apart.lookup {t : Table} (apart : t.Apart) (held : (.bytes content, v) ∈ t.entries) :
    t.entries.lookup (.bytes content) = some v := by
  obtain ⟨before, after, parts⟩ := List.append_of_mem held
  have cut : strings t.entries = strings before ++ content :: strings after := by
    unfold strings
    rw [parts, List.filterMap_append]
    rfl
  unfold Apart at apart
  rw [cut, List.nodup_append'] at apart
  refine List.lookup_eq_some_iff.mpr ⟨before, after, parts, fun entry earlier => bne_iff_ne.mpr fun same => ?_⟩
  have named : entry.1.bytes? = some content := Key.bytes?_eq_some_iff.mpr same.symm
  exact apart.2.2 (List.mem_filterMap.mpr ⟨entry, earlier, named⟩) List.mem_cons_self

-- What is told of a table under a string is what it holds there.
theorem Apart.mem_pairs_iff {t : Table} (apart : t.Apart) {content : ByteArray} {v : Value} :
    (.bytes content, v) ∈ t.pairs ↔ t.get (.bytes content) = v ∧ v.isNil = false := by
  rw [get_bytes]
  constructor
  · intro member
    obtain ⟨inside, valued⟩ := List.mem_filter.mp member
    refine ⟨?_, by simpa using valued⟩
    rcases List.mem_append.mp inside with numbered | held
    · obtain ⟨_, -, same⟩ := List.mem_map.mp numbered
      cases same
    · rw [apart.lookup held]
      rfl
  · rintro ⟨found, valued⟩
    refine List.mem_filter.mpr ⟨List.mem_append_right _ ?_, by simpa using valued⟩
    cases looked : t.entries.lookup (.bytes content) with
    | none =>
      rw [looked] at found
      subst found
      cases valued
    | some w =>
      rw [looked] at found
      cases found
      obtain ⟨before, after, parts, -⟩ := List.lookup_eq_some_iff.mp looked
      rw [parts]
      exact List.mem_append_right _ List.mem_cons_self

end Table

section

def Session.Apart (s : Session) : Prop := ∀ t ∈ s.tables, t.Apart

-- An action after which the strings of all tables are apart if they were before it.
def Action.KeepsApart (x : Action α) : Prop :=
  ∀ (setting : Setting) (s : Session), s.Apart → (s.step setting x).2.Apart

theorem keepsApart_of_still {x : Action α} (still : x.Still) : x.KeepsApart := by
  intro setting s apart
  rwa [still]

theorem Action.KeepsApart.bind {x : Action α} {f : α → Action β} (first : x.KeepsApart) (rest : ∀ a, (f a).KeepsApart) :
    (x >>= f).KeepsApart := by
  intro setting s apart
  have next := first setting s apart
  rw [step_bind]
  cases result : s.step setting x with
  | mk told after =>
    rw [result] at next
    cases told with
    | ok a => exact rest a setting after next
    | error fault => exact next

theorem keepsApart_newTable {t : Table} (apart : t.Apart) : (newTable t).KeepsApart := fun _ _ before =>
  List.forall_mem_append.mpr ⟨before, List.forall_mem_singleton.mpr apart⟩

theorem keepsApart_store (place : Nat) (k : Key) (v : Value) : (store place k v).KeepsApart := by
  intro _ s apart t member
  change t ∈ s.tables.modify place (·.put k v) at member
  obtain ⟨i, found⟩ := List.mem_iff_getElem?.mp member
  rw [List.getElem?_modify] at found
  obtain ⟨old, there, rfl⟩ := Option.map_eq_some_iff.mp found
  have before := apart old (List.mem_of_getElem? there)
  split
  · exact before.put k v
  · exact before

theorem keepsApart_handBack (toolchain : Option Toolchain) : (handBack toolchain).KeepsApart := by
  cases toolchain with
  | none => exact keepsApart_of_still (still_pure _)
  | some t =>
    have made : (newToolchain t).KeepsApart :=
      (keepsApart_newTable (Table.apart_ofParts [] _)).bind fun _ => keepsApart_newTable (Table.apart_ofParts [] _)
    exact made.bind fun _ => keepsApart_of_still (still_pure _)

theorem keepsApart_binding (load : Task → Action (List Value)) (arguments : List Value) (binding : f.isBinding = true) :
    (callFunction load f arguments).KeepsApart := by
  intro setting s apart
  cases f with
  | stage =>
    rcases step_stage setting s load arguments with ⟨fault, warnings, failed⟩ | ⟨stage, warnings, -, done⟩
    · rwa [failed]
    · rwa [done]
  | method m =>
    rcases callFunction_method_cases load m arguments with ⟨index, -, called⟩ | called
    · rw [called]
      cases found : s.recipe.stage? index with
      | none => rwa [step_callMethod_missing setting found]
      | some stage =>
        rw [step_callMethod setting found]
        split
        · exact keepsApart_handBack _ setting _ apart
        · exact apart
    · rwa [called]
  | dofile | require | loadfile | library | made => cases binding

theorem keepsApart_holdsOfParts : HoldsOfParts fun x _ => x.KeepsApart where
  grows _ _ := trivial
  plain _ _ _ := trivial
  program _ _ _ _ := trivial
  pure a _ := keepsApart_of_still (still_pure a)
  throw fault := keepsApart_of_still (still_throw fault)
  bind first more := first.bind fun a => more _ a (Nat.le_refl _) fun _ _ => trivial
  succeeds kept setting s apart := by
    rw [step_succeeds_session]
    exact kept setting s apart
  deeper nesting _ _ _ kept setting s apart := by
    rw [step_deeper]
    split
    · exact apart
    · exact kept _ s apart
  within p _ _ _ kept setting s apart := by
    rw [step_within]
    exact kept { setting with file := some p, locals := [] } { s with directory := some p.directory } apart
  applying c arguments _ _ _ _ kept setting s apart :=
    kept (c.setting s.cells.length setting) { s with cells := s.cells ++ c.given arguments } apart
  mark _ _ kept := kept
  variableValue _ name := keepsApart_of_still (still_variableValue name)
  global _ _ := keepsApart_of_still (still_get.bind fun _ => still_pure _)
  moduleValue _ _ := keepsApart_of_still (still_get.bind fun _ => still_pure _)
  directory _ := keepsApart_of_still (still_read.bind fun _ => still_pure _)
  newFunction _ _ _ _ _ _ apart := apart
  closureAt _ number := keepsApart_of_still (still_closureAt number)
  newTable _ items fields _ _ := keepsApart_newTable (Table.apart_ofParts items fields)
  assign _ name v _ setting s apart := by
    rw [step_assign]
    cases setting.locals.lookup name <;> exact apart
  store _ place k v _ _ := keepsApart_store place k v
  filePath _ v := keepsApart_of_still (still_filePath v)
  findModule _ name := keepsApart_of_still (still_findModule name)
  readFile _ path := keepsApart_of_still (still_readFile path)
  index _ subject key _ _ := keepsApart_of_still (still_index subject key)
  askLibrary _ name arguments _ setting s apart := by
    rw [step_askLibrary]
    exact apart
  binding _ load _ arguments binding _ := keepsApart_binding load arguments binding

theorem apart_start (o : Options) (beside : Option String) : (Session.start o beside).Apart := by
  have ofFields (fields : List (String × Value)) : (Table.ofFields fields).Apart := Table.apart_ofParts [] fields
  refine List.forall_mem_append.mpr ⟨?_, List.forall_mem_map.mpr fun _ _ => ofFields _⟩
  simp only [List.forall_mem_cons]
  exact ⟨ofFields _, ofFields _, ofFields _, ofFields _, ofFields _, List.forall_mem_nil _⟩

theorem Reachable.apart (reachable : Reachable o s) : s.Apart := by
  induction reachable with
  | start beside => exact apart_start _ beside
  | evaluate setting same bound e before ih => exact keepsApart_holdsOfParts.evaluate_runTask bound e setting _ ih
  | run setting same bound statement before ih =>
    exact keepsApart_holdsOfParts.run_runTask bound statement setting _ ih
  | file setting same bound path before ih => exact keepsApart_holdsOfParts.runTask bound (.file path) setting _ ih
  | interact setting same statement before ih => exact keepsApart_holdsOfParts.interact statement setting _ ih
  | enter | call => assumption

theorem Session.Apart.table {s : Session} (apart : s.Apart) (place : Nat) : (s.table place).Apart := by
  unfold Session.table
  rw [List.getD_eq_getElem?_getD]
  cases found : s.tables[place]? with
  | none => exact Table.apart_empty
  | some t => exact apart t (List.mem_of_getElem? found)

end

end ContainerRecipe.Script
