import ContainerRecipe.Proofs.Block.Configuration
import ContainerRecipe.Proofs.Script.Effects
import ContainerRecipe.Proofs.Script.Tables

namespace ContainerRecipe.Script

section

variable {s : Session} {kept options : Nat} {fields : List (String × Value)} {t : Toolchain}

theorem settingFields_names (t : Toolchain) :
    (settingFields t).map Prod.fst = (Toolchain.layout.writeFields t).map Prod.fst := by
  unfold settingFields
  rw [Toolchain.writeFields_eq, List.map_map, List.map_map]
  rfl

theorem lists_toolchainTable (t : Toolchain) : (toolchainTable t).Lists (settingFields t) := by
  refine Table.lists_ofFields ?_ (List.forall_mem_map.mpr fun _ _ => rfl)
  rw [settingFields_names]
  exact Toolchain.layout_sound.named.sublist (Layout.writeFields_names Toolchain.layout.fields t)

-- The settings are told as they are written.
theorem fieldsWithin_settingFields (s : Session) (bound : Nat) (path : List Nat) (t : Toolchain) :
    s.fieldsWithin bound path (settingFields t) = Toolchain.layout.writeFields t := by
  unfold Session.fieldsWithin settingFields
  rw [Toolchain.writeFields_eq, List.map_map]
  exact List.map_congr_left fun setting _ => Prod.ext rfl (s.datumWithin_text ..)

-- The field that gives a block its toolchain.
def autotoolsToolchain : Field Autotools :=
  .default "toolchain" Toolchain.layout.codec (·.toolchain) fun v a => { a with toolchain := v }

-- A block that is built from source takes an option by itself.
def Session.Takes (s : Session) (options : Nat) (field : String × Value) : Prop :=
  ∃ a, Autotools.layout.read
    (.table [] (Layout.pairsOf (s.fieldsWithin (s.tables.length - 1) [options] [field]))) = .ok a

-- A table that stands for a toolchain. It is read as this toolchain, in whatever tables it stands itself.
-- A block takes it among options each of which it takes by itself, and all options that have it as their
-- toolchain are read as those of a block that is built with this toolchain.
structure Session.Keeps (s : Session) (kept : Nat) (t : Toolchain) : Prop where
  reads : ∀ bound path, kept ∉ path →
    Toolchain.layout.read (s.datumWithin (bound + 1) path (.table kept)) = .ok t
  takes : ∀ options fields, kept < s.tables.length → options ≠ kept → (s.table options).Lists fields →
    (∀ field ∈ fields, field ≠ ("toolchain", .table kept) → s.Takes options field) →
    ∃ a, s.record Autotools.layout (.table options) = .ok a
  builds : ∀ options fields a, (s.table options).pairs = named fields → (fields.map Prod.fst).Nodup →
    ("toolchain", .table kept) ∈ fields → s.record Autotools.layout (.table options) = .ok a → a.toolchain = t

theorem Session.reads_toolchainTable (held : s.table kept = toolchainTable t)
    (outside : kept ∉ path) : Toolchain.layout.read (s.datumWithin (bound + 1) path (.table kept)) = .ok t := by
  have plain : ∀ entry ∈ Toolchain.layout.writeFields t, entry.2 ≠ .again := by
    rw [Toolchain.writeFields_eq]
    exact List.forall_mem_map.mpr nofun
  have lists := held ▸ lists_toolchainTable t
  rw [datumWithin_pairs lists.pairs outside, lists.items, List.map_nil, fieldsWithin_settingFields,
    Layout.read_pairsOf _ plain]
  exact Toolchain.layout_sound.robust.faithful t

-- Options are taken together if each of them is taken by itself.
theorem Session.record_of_takes (lists : (s.table options).Lists fields) (present : 0 < s.tables.length)
    (each : ∀ field ∈ fields, s.Takes options field) : ∃ a, s.record Autotools.layout (.table options) = .ok a := by
  have enough : s.tables.length = s.tables.length - 1 + 1 := by omega
  have plain : ∀ entry ∈ s.fieldsWithin (s.tables.length - 1) [options] fields, entry.2 ≠ .again := by
    refine List.forall_mem_map.mpr fun field member => ?_
    obtain ⟨a, accepted⟩ := each field member
    exact (Layout.readFields_of_pairsOf accepted).1 _ List.mem_cons_self
  have single : ∀ entry ∈ s.fieldsWithin (s.tables.length - 1) [options] fields,
      ∃ b a, Autotools.layout.readField b entry = .ok a := by
    refine List.forall_mem_map.mpr fun field member => ?_
    obtain ⟨a, accepted⟩ := each field member
    exact Layout.readField_of_readFields (Layout.readFields_of_pairsOf accepted).2
  obtain ⟨a, accepted⟩ := Layout.readFields_ok (by decide) single
  refine ⟨a, ?_⟩
  unfold record datum
  rw [enough, datumWithin_pairs lists.pairs (List.not_mem_nil), lists.items, List.map_nil,
    Layout.read_pairsOf _ plain, accepted]
  rfl

theorem Session.takes_toolchainTable (held : s.table kept = toolchainTable t) (apart : options ≠ kept)
    (enough : 2 ≤ s.tables.length) : s.Takes options ("toolchain", .table kept) := by
  obtain ⟨bound, length⟩ : ∃ bound, s.tables.length - 1 = bound + 1 := ⟨s.tables.length - 2, by omega⟩
  have outside : kept ∉ [options] := by simpa using apart.symm
  have read : Toolchain.layout.read (s.datumWithin (bound + 1) [options] (.table kept)) = .ok t :=
    reads_toolchainTable held outside
  have plain : s.datumWithin (bound + 1) [options] (.table kept) ≠ .again := by
    intro again
    rw [again] at read
    cases read
  have found : Autotools.layout.fields.find? (·.name == "toolchain") = some autotoolsToolchain := rfl
  have step : Autotools.layout.readField {} ("toolchain", s.datumWithin (bound + 1) [options] (.table kept)) =
      .ok { toolchain := t } := by
    rw [Layout.readField, found]
    simp only [autotoolsToolchain, Field.default, Layout.codec, read, Except.map]
  unfold Takes fieldsWithin
  rw [length, List.map_cons, List.map_nil, Layout.read_pairsOf _ (List.forall_mem_singleton.mpr plain)]
  exact Layout.readFields_ok (by decide) (List.forall_mem_singleton.mpr ⟨_, _, step⟩)

theorem Session.builds_toolchainTable (held : s.table kept = toolchainTable t)
    (listed : (s.table options).pairs = named fields) (apart : (fields.map Prod.fst).Nodup)
    (member : ("toolchain", .table kept) ∈ fields)
    (accepted : s.record Autotools.layout (.table options) = .ok a) : a.toolchain = t := by
  have accepted : Autotools.layout.read (s.datumWithin s.tables.length [] (.table options)) = .ok a :=
    record_ok accepted
  -- A table that is inside itself, or too deep, would not have been read.
  rcases s.datumWithin_table s.tables.length [] options with again | ⟨bound, enough, outside⟩
  · rw [again] at accepted
    cases accepted
  rw [enough, datumWithin_pairs listed outside] at accepted
  have known : autotoolsToolchain ∈ Autotools.layout.fields := List.mem_of_getLast? rfl
  have once : ((s.fieldsWithin bound [options] fields).map Prod.fst).Nodup := by rwa [fieldsWithin_names]
  obtain ⟨put, before, read, told⟩ := Autotools.layout_sound.readFields_told known
    (Layout.readFields_of_pairsOf accepted).2 once (List.mem_map_of_mem member)
  rcases s.datumWithin_table bound [options] kept with again | ⟨deeper, enough, outside⟩
  · rw [again] at read
    cases read
  rw [enough] at read
  simp only [autotoolsToolchain, Field.default, Layout.codec, reads_toolchainTable held outside, Except.map,
    Except.ok.injEq] at read
  rw [← read] at told
  exact (Field.default_told Toolchain.layout_sound.robust).mp told

theorem Session.keeps_of_table (held : s.table kept = toolchainTable t) : s.Keeps kept t where
  reads _ _ outside := reads_toolchainTable held outside
  takes := by
    intro options fields there apart lists each
    refine record_of_takes lists (Nat.zero_lt_of_lt there) fun field member => ?_
    by_cases handed : field = ("toolchain", .table kept)
    · have inside : options < s.tables.length := lt_length_of_lists lists member
      rw [handed]
      exact takes_toolchainTable held apart (by omega)
    · exact each field member handed
  builds _ _ _ listed apart member accepted := builds_toolchainTable held listed apart member accepted

end

section

-- The toolchain of the compilers that a call asks for.
def Session.compilers (s : Session) (stage : Stage) (m : Method) (arguments : List Value) :
    Decoded (Option Toolchain) :=
  match m with
  | .gnu => do return some (← s.options Gnu.layout (argument arguments 0)).toolchain
  | .nvhpc => do return some ((← s.options Nvhpc.layout (argument arguments 0)).toolchain stage.target)
  | _ => .ok none

theorem Session.effect_toolchain {setting : Setting} {s : Session} {arguments : List Value}
    (settled : (s.effect setting index stage m arguments).result = .ok change)
    (asked : s.compilers stage m arguments = .ok (some t)) : change.toolchain = some t := by
  have handed {b : Block} {toolchain : Option Toolchain}
      (settled : (blockEffect stage b toolchain).result = .ok change) : change.toolchain = toolchain := by
    obtain ⟨_, -, made⟩ := Outcome.bind_ok_iff.mp settled
    cases made
    rfl
  cases m with
  | gnu | nvhpc =>
    obtain ⟨block, decoded, placed⟩ := Outcome.bind_ok_iff.mp settled
    have decoded : s.options _ (argument arguments 0) = .ok block := decoded
    simp only [compilers, decoded] at asked
    rw [handed placed]
    exact Except.ok.inj asked
  | _ => cases asked

-- A call that adds compilers hands back a table with the one of their toolchain.
theorem step_compilers {setting : Setting} {s next : Session} {arguments values : List Value}
    (present : s.recipe.stage? index = some stage) (asked : s.compilers stage m arguments = .ok (some t))
    (done : s.step setting (Action.callMethod index m arguments) = (.ok values, next)) :
    values = [.table (s.tables.length + 1)] ∧ next.tables = s.tables ++ toolchainTables s.tables.length t := by
  rw [step_callMethod setting present] at done
  cases settled : s.effect setting index stage m arguments with
  | mk result warnings =>
    rw [settled] at done
    cases result with
    | error fault => cases done
    | ok change =>
      have held : change.toolchain = some t := Session.effect_toolchain (congrArg Outcome.result settled) asked
      dsimp only at done
      rw [held, step_handBack_some] at done
      cases done
      exact ⟨rfl, rfl⟩

-- Configurations of blocks are read back, whatever is left out that has its default, and a toolchain is told
-- by its settings. The table that a compiler hands back is one that keeps its toolchain.
theorem configurations_restored :
    (PackageRequest.layout.Restored ∧ Gnu.layout.Restored ∧ Nvhpc.layout.Restored ∧ Autotools.layout.Restored ∧
      Toolchain.layout.Restored) ∧
    (∀ t : Toolchain, Toolchain.layout.codec.write t =
      .record (t.settings.map fun (name, value) => (name, .text value))) ∧
    ∀ (setting : Setting) (s : Session) (index : Nat) (stage : Stage) (m : Method) (arguments values : List Value)
      (t : Toolchain) (next : Session), s.recipe.stage? index = some stage →
      s.compilers stage m arguments = .ok (some t) →
      s.step setting (Action.callMethod index m arguments) = (.ok values, next) →
      ∃ given kept, values = [.table given] ∧ (next.table given).get (.ofText "toolchain") = .table kept ∧
        ∀ later : Session, later.table kept = next.table kept → later.Keeps kept t := by
  refine ⟨⟨?_, ?_, ?_, ?_, ?_⟩, ?_, ?_⟩
  · exact PackageRequest.layout_sound.restored (by decide)
  · exact Gnu.layout_sound.restored (by decide)
  · exact Nvhpc.layout_sound.restored (by decide)
  · exact Autotools.layout_sound.restored (by decide)
  · exact Toolchain.layout_sound.restored (by decide)
  · exact fun t => congrArg Datum.record t.writeFields_eq
  · intro setting s index stage m arguments values t next present asked done
    obtain ⟨handed, tables⟩ := step_compilers present asked done
    have given : next.table (s.tables.length + 1) = .ofFields [("toolchain", .table s.tables.length)] := by
      simp [Session.table, tables, toolchainTables]
    have kept : next.table s.tables.length = toolchainTable t := by simp [Session.table, tables, toolchainTables]
    have lists : (Table.ofFields [("toolchain", .table s.tables.length)]).Lists _ :=
      Table.lists_ofFields (List.nodup_singleton _) (List.forall_mem_singleton.mpr rfl)
    refine ⟨_, _, handed, ?_, fun later same => Session.keeps_of_table (same.trans kept)⟩
    rw [given]
    exact lists.get "toolchain"

-- The GNU compilers hand back a table, which is then given to a package that is built from source.
theorem configurations_restored_gnu :
    let stage : Stage := { name := none, base := { image := "ubuntu" }, target := ({} : Options).template }
    let added := Session.step {} { recipe := ⟨[stage]⟩ } (Action.callMethod 0 .gnu [])
    let options : Table := .ofFields [("url", .text "https://example.com/zlib-1.3.tar.gz"), ("toolchain", .table 0)]
    let later : Session := { added.2 with tables := added.2.tables ++ [options] }
    added.1 = .ok [.table 1] ∧ (added.2.table 1).get (.ofText "toolchain") = .table 0 ∧
      ∃ a, later.record Autotools.layout (.table 2) = .ok a ∧ a.toolchain = Gnu.toolchain {} := by
  intro stage added options later
  obtain ⟨given, kept, handed, inside, keeps⟩ := configurations_restored.2.2 {} { recipe := ⟨[stage]⟩ } 0
    stage .gnu [] _ _ _ rfl rfl rfl
  cases handed
  have lists : (added.2.table 1).Lists [("toolchain", .table 0)] := Table.lists_ofFields (by decide) (by decide)
  have place : (added.2.table 1).get (.ofText "toolchain") = .table 0 := lists.get "toolchain"
  cases place.symm.trans inside
  refine ⟨rfl, place, ?_⟩
  have accepted : (later.record Autotools.layout (.table 2)).isOk = true := by decide +kernel
  cases read : later.record Autotools.layout (.table 2) with
  | error fault =>
    rw [read] at accepted
    cases accepted
  | ok a =>
    have fields : (later.table 2).Lists _ := Table.lists_ofFields (by decide) (by decide)
    exact ⟨a, rfl, (keeps later rfl).builds 2 _ a fields.pairs (by decide) (by simp) read⟩

end

end ContainerRecipe.Script
