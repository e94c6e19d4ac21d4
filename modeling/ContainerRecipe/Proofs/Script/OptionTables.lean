import ContainerRecipe.Proofs.Script.Keys
import ContainerRecipe.Proofs.Text.Mended

namespace ContainerRecipe

theorem forall₂_of_mapM {f : α → Except ε β} (made : items.mapM f = .ok bs) :
    List.Forall₂ (fun a b => f a = .ok b) items bs := by
  induction items generalizing bs with
  | nil =>
    cases made
    exact .nil
  | cons a rest ih =>
    rw [List.mapM_cons] at made
    cases first : f a with
    | error e => simp [first, bind, Except.bind] at made
    | ok b =>
      cases others : rest.mapM f with
      | error e => simp [first, others, bind, Except.bind] at made
      | ok cs =>
        simp only [first, others, bind, Except.bind, pure, Except.pure, Except.ok.injEq] at made
        exact made ▸ .cons first (ih others)

-- What is told alike of each item and of what is made of it is told alike of the lists.
theorem map_eq_of_mapM {f : α → Except ε β} {g : α → γ} {h : β → γ} {items : List α} {bs : List β}
    (made : items.mapM f = .ok bs) (alike : ∀ {a b}, f a = .ok b → g a = h b) : items.map g = bs.map h := by
  have each := (forall₂_of_mapM made).imp fun _ _ => alike
  exact List.forall₂_eq_eq_eq ▸ List.forall₂_map_left_iff.mpr (List.forall₂_map_right_iff.mpr each)

namespace Script

theorem toUTF8_of_fromUTF8? (read : String.fromUTF8? content = some name) : content = name.toUTF8 := by
  unfold String.fromUTF8? at read
  split at read
  · cases read
    rfl
  · cases read

theorem Value.eq_nil_of_isNil {v : Value} (empty : v.isNil = true) : v = .nil := by
  cases v <;> first | rfl | cases empty

theorem Key.eq_bytes_of_toValue {k : Key} (same : k.toValue = .bytes content) : k = .bytes content := by
  cases k <;> cases same
  rfl

namespace Session

section

-- The texts that are the items of a table.
def Enumerates (s : Session) (v : Value) (names : List String) : Prop :=
  ∃ place, v = .table place ∧ (s.table place).items = names.map .text

-- What a value gives, whatever tables it stands in.
inductive Denotes (s : Session) : Value → Datum → Prop where
  | flag (b : Bool) : Denotes s (.flag b) (.flag b)
  | text (x : String) : Denotes s (.text x) (.text x)
  | texts (given : s.Enumerates v names) : Denotes s v (.list (names.map .text))

variable {s : Session} {bound : Nat} {path : List Nat} {v : Value}

-- What a value is told as, wherever it stands.
inductive Shows (s : Session) : Value → Datum → Prop where
  | nil : Shows s .nil .null
  | flag (b : Bool) : Shows s (.flag b) (.flag b)
  | number (n : Number) : Shows s (.number n) (.number n.literal)
  | text (x : String) : Shows s (.text x) (.text x)
  | bytes (content : ByteArray) : Shows s (.bytes content) (.bytes content)
  | stage (index : Nat) : Shows s (.stage index) .stage
  | function (f : Function) : Shows s (.function f) .function
  | again (place : Nat) : Shows s (.table place) .again
  | table (place bound : Nat) (path : List Nat) : Shows s (.table place)
      (.table ((s.table place).items.map (s.datumWithin bound path))
        ((s.table place).others.map fun (k, v) => (s.datumWithin bound path k.toValue, s.datumWithin bound path v)))

theorem datumWithin_shows (s : Session) (bound : Nat) (path : List Nat) (v : Value) :
    s.Shows v (s.datumWithin bound path v) := by
  cases v with
  | nil | flag | number | stage | function =>
    rw [datumWithin]
    constructor
  | bytes content =>
    rw [datumWithin]
    split
    · rename_i x found
      rw [toUTF8_of_fromUTF8? found]
      exact .text x
    · exact .bytes content
  | table place =>
    rcases s.datumWithin_table bound path place with again | ⟨inside, rfl, outside⟩
    · exact again ▸ .again place
    · rw [datumWithin, if_neg (by simpa using outside)]
      exact .table place inside (place :: path)

theorem flag_of_datum (read : Codec.flag.read (s.datumWithin bound path v) = .ok b) : v = .flag b := by
  have shown := s.datumWithin_shows bound path v
  generalize s.datumWithin bound path v = d at shown read
  cases shown <;> cases read
  rfl

theorem text_of_datum (read : Codec.text.read (s.datumWithin bound path v) = .ok x) : v = .text x := by
  have shown := s.datumWithin_shows bound path v
  generalize s.datumWithin bound path v = d at shown read
  cases shown <;> cases read
  rfl

theorem text_of_item (read : Codec.text.readItem (s.datumWithin bound path v) = .ok x) : v = .text x := by
  unfold Codec.readItem at read
  split at read
  · cases read
  · exact text_of_datum read

theorem texts_of_datum (read : Codec.texts.read (s.datumWithin bound path v) = .ok names) : s.Enumerates v names := by
  have shown := s.datumWithin_shows bound path v
  generalize s.datumWithin bound path v = d at shown read
  cases shown with
  | table place bound path =>
    have read : ((s.table place).items.map (s.datumWithin bound path)).mapM Codec.text.readItem = .ok names := read
    rw [List.mapM_map] at read
    refine ⟨place, rfl, ?_⟩
    rw [← List.map_id (s.table place).items]
    exact map_eq_of_mapM read text_of_item
  | _ => cases read

end

end Session

section

variable {s : Session}

def Telling (s : Session) (c : Codec α) : Prop := ∀ bound path v a, v.isNil = false →
  c.read (s.datumWithin bound path v) = .ok a → s.Denotes v (c.write a)

theorem flag_telling : Telling s .flag := by
  intro bound path v b _ read
  rw [Session.flag_of_datum read]
  exact .flag b

theorem texts_telling : Telling s .texts := fun _ _ _ _ _ read => .texts (Session.texts_of_datum read)

theorem datumWithin_ne_null {v : Value} (valued : v.isNil = false) : s.datumWithin bound path v ≠ .null := by
  have shown := s.datumWithin_shows bound path v
  generalize s.datumWithin bound path v = d at shown
  rintro rfl
  cases shown
  cases valued

-- Only nil is read as nothing.
theorem nullable_of_datum {c : Codec α} {v : Value} (valued : v.isNil = false)
    (read : c.nullable.read (s.datumWithin bound path v) = .ok held) :
    ∃ a, held = some a ∧ c.read (s.datumWithin bound path v) = .ok a := by
  have given : s.datumWithin bound path v ≠ .null := datumWithin_ne_null valued
  generalize s.datumWithin bound path v = d at given read ⊢
  unfold Codec.nullable at read
  dsimp only at read
  split at read
  · exact absurd rfl given
  · cases value : c.read d with
    | error e => simp [value, Except.map] at read
    | ok a =>
      simp only [value, Except.map, Except.ok.injEq] at read
      exact ⟨a, read.symm, rfl⟩

theorem nullable_telling {c : Codec α} (telling : Telling s c) : Telling s c.nullable := by
  intro bound path v held valued read
  obtain ⟨a, rfl, inner⟩ := nullable_of_datum valued read
  exact telling bound path v a valued inner

-- A field that is read from a value has what this value gives.
def FieldTells (s : Session) (f : Field σ) : Prop := ∀ bound path v put r, v.isNil = false →
  f.read (s.datumWithin bound path v) = .ok put → ∃ d, f.write (put r) = some d ∧ s.Denotes v d

theorem default_tells {c : Codec α} {get : σ → α} {set : α → σ → σ} (telling : Telling s c)
    (got : ∀ v s, get (set v s) = v) : FieldTells s (.default name c get set) := by
  intro bound path v put r valued read
  simp only [Field.default] at read ⊢
  cases value : c.read (s.datumWithin bound path v) with
  | error e => simp [value, Except.map] at read
  | ok a =>
    simp only [value, Except.map, Except.ok.injEq] at read
    subst read
    rw [got]
    exact ⟨_, rfl, telling bound path v a valued value⟩

end

section

variable {s : Session} {bound : Nat} {path : List Nat}

-- A key that is read as a name is a string, which is the name or had to be mended.
theorem key_of_pair {mend : ByteArray → Except DecodeError String} {k : Key}
    (read : Codec.readPair mend (s.datumWithin bound path k.toValue, d) = .ok entry) :
    entry.2 = d ∧ ∃ content, k = .bytes content ∧ (content = entry.1.toUTF8 ∨ mend content = .ok entry.1) := by
  have shown := s.datumWithin_shows bound path k.toValue
  generalize s.datumWithin bound path k.toValue = key at shown read
  generalize same : k.toValue = v at shown
  cases shown with
  | text name =>
    cases d <;> cases read <;> exact ⟨rfl, _, Key.eq_bytes_of_toValue same, .inl rfl⟩
  | bytes content =>
    obtain rfl := Key.eq_bytes_of_toValue same
    cases mended : mend content with
    | error e => cases d <;> simp [Codec.readPair, mended, Except.map] at read
    | ok name => cases d <;> simp [Codec.readPair, mended, Except.map] at read <;> subst read <;> simp [mended]
  | _ => cases d <;> cases read

-- Pairs that are read as entries are named values, as long as no name had to be mended.
theorem named_of_pairs {mend : ByteArray → Except DecodeError String} {pairs : List (Key × Value)}
    (read : (pairs.map fun (k, v) => (s.datumWithin bound path k.toValue, s.datumWithin bound path v)).mapM
      (Codec.readPair mend) = .ok entries)
    (exact : ∀ entry ∈ entries, ∀ content, mend content = .ok entry.1 → content = entry.1.toUTF8) :
    ∃ fields, pairs = named fields ∧ entries = s.fieldsWithin bound path fields := by
  have each := List.forall₂_map_left_iff.mp (forall₂_of_mapM read)
  clear read
  induction each with
  | nil => exact ⟨[], rfl, rfl⟩
  | @cons pair entry pairs entries first rest ih =>
    obtain ⟨known, others⟩ := List.forall_mem_cons.mp exact
    obtain ⟨fields, rfl, rfl⟩ := ih others
    obtain ⟨told, content, key, same⟩ := key_of_pair first
    have same : content = entry.1.toUTF8 := same.elim id (known content)
    refine ⟨(entry.1, pair.2) :: fields, ?_, ?_⟩
    · exact congrArg (· :: named fields) (Prod.ext (key.trans (congrArg Key.bytes same)) rfl)
    · exact congrArg (· :: s.fieldsWithin bound path fields) (Prod.ext rfl told)

theorem strings_named (fields : List (String × Value)) :
    strings (named fields) = (fields.map Prod.fst).map String.toUTF8 := by
  induction fields with
  | nil => rfl
  | cons field rest ih => exact congrArg (field.1.toUTF8 :: ·) ih

-- A table whose other pairs are named values has them under their names, and no value under another string.
structure Table.Names (t : Table) (fields : List (String × Value)) : Prop where
  once : (fields.map Prod.fst).Nodup
  get : ∀ content, (t.get (.bytes content)).isNil = false →
    ∃ name, content = name.toUTF8 ∧ (name, t.get (.bytes content)) ∈ fields
  valued : ∀ name v, (name, v) ∈ fields → t.get (.ofText name) = v ∧ v.isNil = false

theorem Table.Apart.names {t : Table} (apart : t.Apart) (told : t.others = named fields) : t.Names fields := by
  have others (content : ByteArray) (v : Value) : (.bytes content, v) ∈ t.others ↔
      t.get (.bytes content) = v ∧ v.isNil = false := by
    rw [← apart.mem_pairs_iff]
    simp [Table.others]
  have part : (strings t.others).Nodup :=
    (apart.sublist t.strings_pairs).sublist (strings_sublist List.filter_sublist)
  refine ⟨?_, fun content valued => ?_, fun name v member => ?_⟩
  · rw [told, strings_named] at part
    exact part.of_map
  · have member := (others content _).mpr ⟨rfl, valued⟩
    rw [told] at member
    obtain ⟨⟨name, v⟩, inside, same⟩ := List.mem_map.mp member
    cases same
    exact ⟨name, rfl, inside⟩
  · refine (others name.toUTF8 v).mp ?_
    rw [told]
    exact List.mem_map.mpr ⟨(name, v), member, rfl⟩

end

-- Options that are read from tables: no name is passed over, and none needs more than ASCII.
structure Strict (l : Layout σ) : Prop extends l.Separate where
  closed : l.lenient = false
  plain : ∀ f ∈ l.fields, ∀ c ∈ f.name.toList, Text.Plain c

section

variable {s : Session} {place : Nat} {l : Layout σ} {r : σ}

-- Nothing but a table is read as a record.
theorem table_of_record {v : Value} (accepted : s.record l v = .ok r) :
    ∃ place bound path, v = .table place ∧ l.read (.table ((s.table place).items.map (s.datumWithin bound path))
      ((s.table place).others.map fun (k, v) =>
        (s.datumWithin bound path k.toValue, s.datumWithin bound path v))) = .ok r := by
  have read := Session.record_ok accepted
  unfold Session.datum at read
  have shown := s.datumWithin_shows s.tables.length [] v
  generalize s.datumWithin s.tables.length [] v = d at shown read
  cases shown with
  | table place bound path => exact ⟨place, bound, path, rfl, read⟩
  | _ => cases read

theorem Strict.record_fields (strict : Strict l) (apart : (s.table place).Apart)
    (accepted : s.record l (.table place) = .ok r) : ∃ bound path fields, (s.table place).Names fields ∧
      l.readFields (s.fieldsWithin bound path fields) = .ok r := by
  obtain ⟨_, bound, path, same, read⟩ := table_of_record accepted
  cases same
  rw [Layout.read] at read
  cases listless : Codec.checkNoItems ((s.table place).items.map (s.datumWithin bound path)) with
  | error e => simp [listless, bind, Except.bind] at read
  | ok _ =>
    simp only [listless, bind, Except.bind] at read
    split at read
    · cases read
    · rename_i entries paired
      have known := Layout.readFields_known strict.closed read
      obtain ⟨fields, named, rfl⟩ := named_of_pairs paired fun entry member content mended => by
        obtain ⟨f, inside, name⟩ := known entry member
        exact Text.eq_of_mended (name ▸ strict.plain f inside) (Except.ok.inj mended)
      exact ⟨bound, path, fields, apart.names named, read⟩

-- Every string under which the table holds a value is the name of an option.
theorem Strict.known (strict : Strict l) (apart : (s.table place).Apart)
    (accepted : s.record l (.table place) = .ok r) (valued : ((s.table place).get (.bytes content)).isNil = false) :
    ∃ f ∈ l.fields, content = f.name.toUTF8 := by
  obtain ⟨bound, path, fields, names, read⟩ := strict.record_fields apart accepted
  obtain ⟨name, same, member⟩ := names.get content valued
  obtain ⟨f, inside, told⟩ := Layout.readFields_known strict.closed read _ (List.mem_map_of_mem member)
  exact ⟨f, inside, same.trans (congrArg String.toUTF8 told.symm)⟩

-- An option that the table holds nothing for has its default, and each other one what is read from its value.
theorem Strict.told (strict : Strict l) (apart : (s.table place).Apart)
    (accepted : s.record l (.table place) = .ok r) (known : f ∈ l.fields) :
    (s.table place).get (.ofText f.name) = .nil ∧ f.write r = f.write l.blank ∨
      ((s.table place).get (.ofText f.name)).isNil = false ∧ ∃ bound path put before,
        f.read (s.datumWithin bound path ((s.table place).get (.ofText f.name))) = .ok put ∧
        f.write r = f.write (put before) := by
  obtain ⟨bound, path, fields, names, read⟩ := strict.record_fields apart accepted
  have entries := s.fieldsWithin_names bound path fields
  cases valued : ((s.table place).get (.ofText f.name)).isNil with
  | true =>
    left
    have absent : f.name ∉ (s.fieldsWithin bound path fields).map Prod.fst := by
      rw [entries]
      intro member
      obtain ⟨⟨_, v⟩, inside, rfl⟩ := List.mem_map.mp member
      obtain ⟨held, given⟩ := names.valued _ v inside
      rw [held] at valued
      simp [valued] at given
    exact ⟨Value.eq_nil_of_isNil valued, strict.readFields_spares known read absent⟩
  | false =>
    right
    obtain ⟨name, same, member⟩ := names.get f.name.toUTF8 valued
    obtain rfl : f.name = name := String.toByteArray_inj.mp same
    have once : ((s.fieldsWithin bound path fields).map Prod.fst).Nodup := entries.symm ▸ names.once
    exact ⟨rfl, bound, path, strict.readFields_told known read once
      (List.mem_map.mpr ⟨_, member, rfl⟩)⟩

-- An option that may be left unset is unset if the table holds nothing for it.
theorem Strict.optional_read (strict : Strict l) (apart : (s.table place).Apart)
    (accepted : s.record l (.table place) = .ok r) {c : Codec α} (injective : Function.Injective c.write)
    {get : σ → Option α} {set : Option α → σ → σ} (known : .optional name c get set ∈ l.fields)
    (got : ∀ v r, get (set v r) = v) (plain : get l.blank = none) :
    (s.table place).get (.ofText name) = .nil ∧ get r = none ∨
      ((s.table place).get (.ofText name)).isNil = false ∧ ∃ bound path a, get r = some a ∧
        c.read (s.datumWithin bound path ((s.table place).get (.ofText name))) = .ok a := by
  rcases strict.told apart accepted known with ⟨absent, told⟩ | ⟨valued, bound, path, put, before, read, told⟩
  · refine .inl ⟨absent, ?_⟩
    simpa [Field.optional, plain] using told
  · obtain ⟨a, held, inner⟩ := nullable_of_datum valued (Field.optional_value injective got read told)
    exact .inr ⟨valued, bound, path, a, held, inner⟩

theorem Strict.default_read (strict : Strict l) (apart : (s.table place).Apart)
    (accepted : s.record l (.table place) = .ok r) {c : Codec α} (injective : Function.Injective c.write)
    {get : σ → α} {set : α → σ → σ} (known : .default name c get set ∈ l.fields)
    (got : ∀ v r, get (set v r) = v) :
    (s.table place).get (.ofText name) = .nil ∧ get r = get l.blank ∨
      ((s.table place).get (.ofText name)).isNil = false ∧ ∃ bound path,
        c.read (s.datumWithin bound path ((s.table place).get (.ofText name))) = .ok (get r) := by
  rcases strict.told apart accepted known with ⟨absent, told⟩ | ⟨valued, bound, path, put, before, read, told⟩
  · exact .inl ⟨absent, injective (Option.some.inj told)⟩
  · exact .inr ⟨valued, bound, path, Field.default_value injective got read told⟩

theorem Strict.text_given (strict : Strict l) (apart : (s.table place).Apart)
    (accepted : s.record l (.table place) = .ok r) {get : σ → Option String} {set : Option String → σ → σ}
    (known : .optional name .text get set ∈ l.fields) (got : ∀ v r, get (set v r) = v)
    (plain : get l.blank = none) : (s.table place).get (.ofText name) = .ofText? (get r) := by
  rcases strict.optional_read apart accepted Codec.text_robust.injective known got plain with
    ⟨absent, unset⟩ | ⟨-, bound, path, x, held, read⟩
  · rw [absent, unset]
    rfl
  · rw [held, Session.text_of_datum read]
    rfl

end

-- What a script has when it has started a stage and made a table.
def stocked (items : List Expression) (fields : List (String × Expression)) : Session :=
  let begun := ((Session.start {} none).step {}
    (Script.evaluate (runTask 0) (.call (.constant (.function .stage)) [.text "ubuntu:22.04"]))).2
  (begun.step {} (evaluate (runTask 0) (.table items fields))).2

theorem stocked_reachable (items : List Expression) (fields : List (String × Expression)) :
    Reachable {} (stocked items fields) :=
  .evaluate {} rfl 0 _ (.evaluate {} rfl 0 _ (.start none))

end Script

end ContainerRecipe
