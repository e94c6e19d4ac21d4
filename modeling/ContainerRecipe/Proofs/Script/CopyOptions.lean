import ContainerRecipe.Proofs.Bindings
import ContainerRecipe.Proofs.Instruction.RoundTrip
import ContainerRecipe.Proofs.Script.Effects
import ContainerRecipe.Proofs.Script.OptionTables

namespace ContainerRecipe.Script

open Session ContainerRecipe.Script.Action

section

theorem sourcesCodec_injective : Function.Injective CopyRequest.sourcesCodec.write := by
  have lists : Function.Injective Codec.texts.write := (Codec.list_robust Codec.text_robust).injective
  intro a b same
  unfold CopyRequest.sourcesCodec at same
  dsimp only at same
  split at same <;> split at same
  · cases same; rfl
  · cases same
  · cases same
  · exact lists same

theorem copyOptions_strict : Strict CopyRequest.layout where
  named := by decide
  spares := by simp [CopyRequest.layout, Field.default_write, Field.optional_write]
  closed := rfl
  plain := by simp [CopyRequest.layout, Field.optional, Field.default, Text.Plain]

variable {s : Session} {bound : Nat} {path : List Nat} {v : Value}

-- One source that is given by itself, or some in a table.
def Session.Sources (s : Session) (v : Value) (sources : List String) : Prop :=
  (∃ one, v = .text one ∧ sources = [one]) ∨ sources ≠ [] ∧ s.Enumerates v sources

theorem sources_of_datum (read : CopyRequest.sourcesCodec.read (s.datumWithin bound path v) = .ok sources) :
    s.Sources v sources := by
  unfold CopyRequest.sourcesCodec at read
  dsimp only at read
  split at read
  · rename_i one told
    cases read
    have single : Codec.text.read (s.datumWithin bound path v) = .ok one := by
      rw [told]
      rfl
    exact .inl ⟨one, text_of_datum single, rfl⟩
  · split at read
    · cases read
    · rename_i listed
      cases read
      exact .inr ⟨List.cons_ne_nil _ _, texts_of_datum listed⟩
    · cases read

-- A table whose strings with a value are the names of some bindings, each with the text that it is bound to.
def Session.Binds (s : Session) (v : Value) (b : Bindings) : Prop :=
  ∃ place, v = .table place ∧ ∀ content,
    (s.table place).get (.bytes content) = .ofText? ((String.fromUTF8? content).bind b.get?)

-- Entries that are read from named values are the names with texts for their values.
theorem texts_of_entries {fields : List (String × Value)} {entries : List (String × String)}
    (read : (s.fieldsWithin bound path fields).mapM Codec.readEntry = .ok entries) :
    fields = entries.map fun (name, x) => (name, .text x) := by
  unfold fieldsWithin at read
  rw [List.mapM_map] at read
  rw [← List.map_id fields]
  refine map_eq_of_mapM read fun {field entry} read => ?_
  unfold Function.comp Codec.readEntry at read
  dsimp only at read
  cases told : Codec.text.read (s.datumWithin bound path field.2) with
  | error e => simp [told, Except.map] at read
  | ok x =>
    simp only [told, Except.map, Except.ok.injEq] at read
    subst read
    exact Prod.ext rfl (text_of_datum told)

theorem binds_of_names {t : Table} {entries : List (String × String)}
    (names : t.Names (entries.map fun (name, x) => (name, .text x))) (content : ByteArray) :
    t.get (.bytes content) = .ofText? ((String.fromUTF8? content).bind (Bindings.ofList entries).get?) := by
  have once : (entries.map Prod.fst).Nodup := by
    have once := names.once
    rwa [List.map_map] at once
  cases valued : (t.get (.bytes content)).isNil with
  | false =>
    obtain ⟨name, rfl, member⟩ := names.get content valued
    obtain ⟨⟨_, x⟩, inside, same⟩ := List.mem_map.mp member
    obtain ⟨rfl, held⟩ := Prod.mk.inj same
    rw [fromUTF8?_toUTF8, Option.bind_some, Bindings.get?_ofList once, lookup_eq_some_of_mem once inside]
    exact held.symm
  | true =>
    rw [Value.eq_nil_of_isNil valued]
    cases told : (String.fromUTF8? content).bind (Bindings.ofList entries).get? with
    | none => rfl
    | some x =>
      obtain ⟨name, named, found⟩ := Option.bind_eq_some_iff.mp told
      rw [Bindings.get?_ofList once] at found
      have held := (names.valued name _ (List.mem_map.mpr ⟨_, mem_of_lookup found, rfl⟩)).1
      rw [toUTF8_of_fromUTF8? named] at valued
      rw [show Key.ofText name = .bytes name.toUTF8 from rfl] at held
      rw [held] at valued
      cases valued

theorem bindings_of_datum (apart : s.Apart)
    (read : Codec.bindings.read (s.datumWithin bound path v) = .ok b) : s.Binds v b := by
  have shown := s.datumWithin_shows bound path v
  generalize s.datumWithin bound path v = d at shown read
  cases shown with
  | table place bound path =>
    unfold Codec.bindings at read
    dsimp only at read
    cases listless : Codec.checkNoItems ((s.table place).items.map (s.datumWithin bound path)) with
    | error e => simp [listless, bind, Except.bind] at read
    | ok _ =>
      simp only [listless, bind, Except.bind] at read
      split at read
      · cases read
      · rename_i pairs paired
        obtain ⟨fields, named, rfl⟩ := named_of_pairs paired fun _ _ _ mended => by cases mended
        cases texts : (s.fieldsWithin bound path fields).mapM Codec.readEntry with
        | error e => simp [texts, Except.map] at read
        | ok entries =>
          simp only [texts, Except.map, Except.ok.injEq] at read
          obtain rfl := texts_of_entries texts
          subst read
          exact ⟨place, rfl, binds_of_names ((apart.table place).names named)⟩
  | _ => cases read

end

-- A copy that is made as a table of options tells.
structure Session.Copies (s : Session) (t : Table) (copy : Copy) : Prop where
  source : t.get (.ofText "from") = .ofText? copy.source
  owner : t.get (.ofText "chown") = .ofText? copy.owner
  app : t.get (.ofText "app") = .ofText? copy.app
  exclude : t.get (.ofText "exclude") = .nil ∧ copy.exclude = [] ∨ s.Enumerates (t.get (.ofText "exclude")) copy.exclude
  together : t.get (.ofText "src") ≠ .nil → ∃ sources destination, s.Sources (t.get (.ofText "src")) sources ∧
    t.get (.ofText "dest") = .text destination ∧ copy.entries = [⟨sources, destination⟩]
  files : t.get (.ofText "src") = .nil → ∃ files, s.Binds (t.get (.ofText "files")) files ∧ files.entries ≠ [] ∧
    copy.entries = files.entries.map fun (source, destination) => ⟨[source], destination⟩

variable {o : Options} {setting : Setting} {s : Session} {index place : Nat} {arguments values : List Value}

theorem copies_of_record (apart : s.Apart) (accepted : s.record CopyRequest.layout (.table place) = .ok r)
    (made : copyEntries r = .ok entries) : s.Copies (s.table place) (r.copyOf entries) := by
  have strict := copyOptions_strict
  have here := apart.table place
  have sources : (s.table place).get (.ofText "src") = .nil ∧ r.sources = none ∨
      ((s.table place).get (.ofText "src")).isNil = false ∧ ∃ bound path sources, r.sources = some sources ∧
        CopyRequest.sourcesCodec.read (s.datumWithin bound path ((s.table place).get (.ofText "src"))) = .ok sources :=
    strict.optional_read here accepted sourcesCodec_injective (List.mem_of_getElem? (i := 0) rfl) (fun _ _ => rfl) rfl
  have destination : (s.table place).get (.ofText "dest") = .ofText? r.destination :=
    strict.text_given here accepted (List.mem_of_getElem? (i := 1) rfl) (fun _ _ => rfl) rfl
  have files : (s.table place).get (.ofText "files") = .nil ∧ r.files = ∅ ∨
      ((s.table place).get (.ofText "files")).isNil = false ∧ ∃ bound path,
        Codec.bindings.read (s.datumWithin bound path ((s.table place).get (.ofText "files"))) = .ok r.files :=
    strict.default_read here accepted Codec.bindings_robust.injective (List.mem_of_getElem? (i := 2) rfl)
      fun _ _ => rfl
  have exclude : (s.table place).get (.ofText "exclude") = .nil ∧ r.exclude = [] ∨
      ((s.table place).get (.ofText "exclude")).isNil = false ∧ ∃ bound path,
        Codec.texts.read (s.datumWithin bound path ((s.table place).get (.ofText "exclude"))) = .ok r.exclude :=
    strict.default_read here accepted Codec.texts_robust.injective (List.mem_of_getElem? (i := 5) rfl)
      fun _ _ => rfl
  refine
    { source := strict.text_given here accepted (List.mem_of_getElem? (i := 3) rfl) (fun _ _ => rfl) rfl
      owner := strict.text_given here accepted (List.mem_of_getElem? (i := 4) rfl) (fun _ _ => rfl) rfl
      app := strict.text_given here accepted (List.mem_of_getElem? (i := 6) rfl) (fun _ _ => rfl) rfl
      exclude := exclude.imp id fun ⟨_, _, _, read⟩ => texts_of_datum read
      together := ?together
      files := ?files }
  case together =>
    intro given
    rcases sources with ⟨absent, -⟩ | ⟨-, bound, path, sources, held, read⟩
    · exact absurd absent given
    · unfold copyEntries at made
      rw [held] at made
      cases into : r.destination with
      | none => simp [into] at made
      | some target =>
        simp only [into, Except.ok.injEq] at made
        exact ⟨sources, target, sources_of_datum read, by rw [destination, into]; rfl, made.symm⟩
  case files =>
    intro absent
    rcases sources with ⟨-, held⟩ | ⟨valued, -⟩
    · unfold copyEntries at made
      simp only [held] at made
      split at made
      · cases made
      · rename_i filled
        cases made
        rcases files with ⟨-, unset⟩ | ⟨-, bound, path, read⟩
        · simp [unset, Bindings.isEmpty] at filled
        · exact ⟨r.files, bindings_of_datum apart read, by simpa [Bindings.isEmpty] using filled, rfl⟩
    · rw [absent] at valued
      cases valued

-- A call that goes through puts one copy on the stage, which is made as its options tell: with sources, these
-- and their destination are the only entry, and without them each file has one. So of files that are given
-- besides sources, none has an entry.
theorem copies_as_given (reachable : Reachable o s)
    (done : s.step setting (callMethod index .copy arguments) = (.ok values, next)) :
    ∃ place copy, argument arguments 0 = .table place ∧
      next.recipe = s.recipe.append index [.instruction (.copy copy)] ∧ s.Copies (s.table place) copy := by
  obtain ⟨stage, effect, -, settled, told⟩ := callMethod_ok setting done
  have settled : s.copyEffect arguments = .ok effect := settled
  unfold copyEffect at settled
  cases accepted : s.record CopyRequest.layout (argument arguments 0) with
  | error fault => simp [accepted, bind, Except.bind] at settled
  | ok r =>
    cases made : copyEntries r with
    | error fault => simp [accepted, made, bind, Except.bind] at settled
    | ok entries =>
      simp only [accepted, made, bind, Except.bind, pure, Except.pure, Except.ok.injEq] at settled
      subst settled
      obtain ⟨place, _, _, given, -⟩ := table_of_record accepted
      rw [given] at accepted
      exact ⟨place, _, given, told, copies_of_record reachable.apart accepted made⟩

-- A file with its destination, and a pattern to leave out.
theorem copies_as_given_files :
    let s := stocked [] [("files", .table [] [("b", .text "/opt/b")]), ("exclude", .table [.text "*.o"] [])]
    ∃ place copy, (s.step {} (callMethod 0 .copy [.table 14])).2.recipe =
      s.recipe.append 0 [.instruction (.copy copy)] ∧ s.Copies (s.table place) copy := by
  intro s
  obtain ⟨values, done⟩ := step_of_isOk {} s (x := callMethod 0 .copy [.table 14]) (by decide +kernel)
  obtain ⟨place, copy, -, told, copies⟩ := copies_as_given (stocked_reachable _ _) done
  exact ⟨place, copy, told, copies⟩

-- One source with its destination, and beside them a file with its own. The call goes through, and the copy has
-- no entry for the file.
theorem copies_lose_files :
    let s := stocked [] [("src", .text "a"), ("dest", .text "/opt/a"), ("files", .table [] [("b", .text "/opt/b")])]
    let called := s.step {} (callMethod 0 .copy [.table 13])
    Reachable {} s ∧ ((s.table 13).get (.ofText "files")).key? = some (.table 12) ∧
      ((s.table 12).get (.ofText "b")).text? = some "/opt/b" ∧ called.1.isOk = true ∧
      called.2.recipe.stages.map Stage.instructions =
        [[.baseImage { image := "ubuntu:22.04" }, .copy { entries := [⟨["a"], "/opt/a"⟩] }]] := by
  intro s called
  exact ⟨stocked_reachable _ _, by decide +kernel, by decide +kernel, by decide +kernel, by decide +kernel⟩

end ContainerRecipe.Script
