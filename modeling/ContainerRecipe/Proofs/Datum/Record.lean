import ContainerRecipe.Proofs.Datum.Arrangement

namespace ContainerRecipe

namespace Field

-- What is written for a record puts the same value into any record.
def Restores (f : Field σ) : Prop :=
  ∀ s d e, f.write s = some d → d.Rearranged e →
    ∃ put, f.read e = .ok put ∧ ∀ r, f.write (put r) = f.write s

-- Reading the field leaves another one as it is.
def Spares (f g : Field σ) : Prop := ∀ d put r, f.read d = .ok put → g.write (put r) = g.write r

-- A field that is not written has its default, and can be left out.
def Omits (f : Field σ) (blank : σ) : Prop :=
  ∀ s, f.write s = none → f.needed = false ∧ f.write blank = none

structure Lawful (f : Field σ) (blank : σ) : Prop where
  restores : f.Restores
  omits : f.Omits blank

theorem spares_iff_of_map {f g : Field σ} {decode : Datum → Except DecodeError α} {set : α → σ → σ}
    (reads : ∀ d, f.read d = (decode d).map set) :
    f.Spares g ↔ ∀ d v, decode d = .ok v → ∀ r, g.write (set v r) = g.write r := by
  constructor
  · intro spares d v decoded r
    refine spares d (set v) r ?_
    rw [reads, decoded]
    rfl
  · intro kept d put r accepted
    rw [reads] at accepted
    cases decoded : decode d with
    | error e => simp [decoded, Except.map] at accepted
    | ok v =>
      simp only [decoded, Except.map, Except.ok.injEq] at accepted
      exact accepted ▸ kept d v decoded r

section

variable {name : String} {c : Codec α} {get : σ → α} {set : α → σ → σ} {s : σ}

@[simp] theorem required_name : (required name c get set).name = name := rfl
theorem required_write : (required name c get set).write s = some (c.write (get s)) := rfl

@[simp] theorem required_spares_iff : (required name c get set).Spares g ↔
    ∀ d v, c.read d = .ok v → ∀ r, g.write (set v r) = g.write r := spares_iff_of_map fun _ => rfl

@[simp] theorem default_name : (default name c get set).name = name := rfl
theorem default_write : (default name c get set).write s = some (c.write (get s)) := rfl

@[simp] theorem default_spares_iff : (default name c get set).Spares g ↔
    ∀ d v, c.read d = .ok v → ∀ r, g.write (set v r) = g.write r := spares_iff_of_map fun _ => rfl

variable {usual : α → Bool}

@[simp] theorem unusual_name : (unusual name c usual get set).name = name := rfl

theorem unusual_write : (unusual name c usual get set).write s =
    if usual (get s) then none else some (c.write (get s)) := rfl

@[simp] theorem unusual_spares_iff : (unusual name c usual get set).Spares g ↔
    ∀ d v, c.read d = .ok v → ∀ r, g.write (set v r) = g.write r := spares_iff_of_map fun _ => rfl

end

section

variable {name : String} {c : Codec α} {get : σ → Option α} {set : Option α → σ → σ} {s : σ}

@[simp] theorem optional_name : (optional name c get set).name = name := rfl
theorem optional_write : (optional name c get set).write s = (get s).map c.write := rfl

@[simp] theorem optional_spares_iff : (optional name c get set).Spares g ↔
    ∀ d v, c.nullable.read d = .ok v → ∀ r, g.write (set v r) = g.write r := spares_iff_of_map fun _ => rfl

end

section

variable {name : String} {c : Codec α} {get : σ → α} {set : α → σ → σ} {blank : σ} (robust : c.Robust)
include robust

theorem lawful_of_write {f : Field σ} (writes : ∀ s, f.write s = some (c.write (get s)))
    (reads : ∀ d, f.read d = (c.read d).map set) (got : ∀ v s, get (set v s) = v) : f.Lawful blank where
  restores := by
    intro s d e wrote like
    rw [writes] at wrote
    cases wrote
    refine ⟨set (get s), ?_, fun r => ?_⟩
    · rw [reads, robust _ _ like]
      rfl
    · rw [writes, writes, got]
  omits := by
    intro s missing
    rw [writes] at missing
    cases missing

theorem required_lawful (got : ∀ v s, get (set v s) = v) : (required name c get set).Lawful blank :=
  lawful_of_write robust (fun _ => rfl) (fun _ => rfl) got

theorem default_lawful (got : ∀ v s, get (set v s) = v) : (default name c get set).Lawful blank :=
  lawful_of_write robust (fun _ => rfl) (fun _ => rfl) got

theorem unusual_lawful {usual : α → Bool} (got : ∀ v s, get (set v s) = v)
    (plain : usual (get blank) = true) : (unusual name c usual get set).Lawful blank where
  restores := by
    intro s d e wrote like
    simp only [unusual] at wrote
    split at wrote
    · cases wrote
    · cases wrote
      refine ⟨set (get s), ?_, fun r => ?_⟩
      · simp only [unusual, robust _ _ like, Except.map]
      · simp only [unusual, got]
  omits := fun s _ => ⟨rfl, by simp [unusual, plain]⟩

theorem required_told : (required name c get set).write s = (required name c get set).write r ↔
    get s = get r := by
  simp only [required, Option.some.injEq, robust.injective.eq_iff]

theorem default_told : (default name c get set).write s = (default name c get set).write r ↔
    get s = get r := by
  simp only [default, Option.some.injEq, robust.injective.eq_iff]

-- A usual value has to be the only one, as it is not written.
theorem unusual_told {usual : α → Bool} (only : ∀ v w, usual v = true → usual w = true → v = w) :
    (unusual name c usual get set).write s = (unusual name c usual get set).write r ↔
      get s = get r := by
  simp only [unusual]
  constructor
  · intro same
    split at same <;> split at same
    · exact only _ _ ‹_› ‹_›
    · cases same
    · cases same
    · exact robust.injective (Option.some.inj same)
  · intro same
    rw [same]

end

section

variable {name : String} {c : Codec α} {get : σ → Option α} {set : Option α → σ → σ} {blank : σ}
  (robust : c.Robust)
include robust

theorem optional_lawful (present : c.Present) (got : ∀ v s, get (set v s) = v)
    (plain : get blank = none) : (optional name c get set).Lawful blank where
  restores := by
    intro s d e wrote like
    obtain ⟨a, held, rfl⟩ := Option.map_eq_some_iff.mp wrote
    have reads : c.nullable.read e = .ok (some a) := Codec.nullable_robust robust present (some a) e like
    refine ⟨set (some a), ?_, fun r => ?_⟩
    · simp only [optional, reads, Except.map]
    · simp only [optional, got, held]
  omits := fun s _ => ⟨rfl, by simp [optional, plain]⟩

theorem optional_told : (optional name c get set).write s = (optional name c get set).write r ↔
    get s = get r := by
  simp only [optional, (Option.map_injective robust.injective).eq_iff]

end

section

variable {name : String} {c : Codec α} {put : σ → σ} (injective : Function.Injective c.write)
include injective

theorem default_value {get : σ → α} {set : α → σ → σ} (got : ∀ v s, get (set v s) = v)
    (read : (default name c get set).read d = .ok put)
    (told : (default name c get set).write s = (default name c get set).write (put r)) :
    c.read d = .ok (get s) := by
  simp only [default] at read told
  cases value : c.read d with
  | error e => simp [value, Except.map] at read
  | ok v =>
    simp only [value, Except.map, Except.ok.injEq] at read
    rw [← read, got] at told
    exact congrArg Except.ok (injective (Option.some.inj told)).symm

theorem optional_value {get : σ → Option α} {set : Option α → σ → σ} (got : ∀ v s, get (set v s) = v)
    (read : (optional name c get set).read d = .ok put)
    (told : (optional name c get set).write s = (optional name c get set).write (put r)) :
    c.nullable.read d = .ok (get s) := by
  simp only [optional] at read told
  cases value : c.nullable.read d with
  | error e => simp [value, Except.map] at read
  | ok v =>
    simp only [value, Except.map, Except.ok.injEq] at read
    rw [← read, got] at told
    exact congrArg Except.ok (Option.map_injective injective told).symm

end

end Field

namespace Layout

-- Fields that are told apart by their names, and each of which is read without the others.
structure Separate (l : Layout σ) : Prop where
  named : (l.fields.map Field.name).Nodup
  spares : ∀ f ∈ l.fields, ∀ g ∈ l.fields, f.name ≠ g.name → f.Spares g

structure Sound (l : Layout σ) : Prop extends l.Separate where
  lawful : ∀ f ∈ l.fields, f.Lawful l.blank
  determined : ∀ s r, (∀ f ∈ l.fields, f.write s = f.write r) → s = r

-- Fields that tell a record, as far as it differs from the one with all defaults.
structure Tells (l : Layout σ) (s : σ) (entries : List (String × Datum)) : Prop where
  once : (entries.map Prod.fst).Nodup
  written : ∀ entry ∈ entries, ∃ f ∈ l.fields, f.name = entry.1 ∧
    ∃ d, f.write s = some d ∧ d.Rearranged entry.2
  rest : ∀ f ∈ l.fields, f.name ∉ entries.map Prod.fst → f.needed = false ∧ f.write l.blank = f.write s

theorem find?_name {fields : List (Field σ)} (named : (fields.map Field.name).Nodup)
    (member : f ∈ fields) : fields.find? (·.name == f.name) = some f := by
  induction fields with
  | nil => cases member
  | cons first fields ih =>
    simp only [List.map_cons, List.nodup_cons] at named
    rcases List.mem_cons.mp member with rfl | later
    · simp
    · have other : first.name ≠ f.name := by
        intro same
        exact named.1 (same ▸ List.mem_map_of_mem later)
      simp [other, ih named.2 later]

-- Reading some fields of `s` into `r` gives these fields the values of `s` and leaves the others.
theorem Sound.foldlM_readField {l : Layout σ} (sound : l.Sound) (s r : σ)
    (entries : List (String × Datum)) (once : (entries.map Prod.fst).Nodup)
    (written : ∀ entry ∈ entries, ∃ f ∈ l.fields, f.name = entry.1 ∧
      ∃ d, f.write s = some d ∧ d.Rearranged entry.2) :
    ∃ t, entries.foldlM l.readField r = .ok t ∧ ∀ f ∈ l.fields,
      f.write t = if f.name ∈ entries.map Prod.fst then f.write s else f.write r := by
  induction entries generalizing r with
  | nil => exact ⟨r, rfl, by simp⟩
  | cons entry entries ih =>
    simp only [List.map_cons, List.nodup_cons] at once
    obtain ⟨f, member, name, d, wrote, like⟩ := written entry List.mem_cons_self
    obtain ⟨put, reads, restored⟩ := (sound.lawful f member).restores s d entry.2 wrote like
    obtain ⟨t, reached, told⟩ := ih (put r) once.2 fun later found =>
      written later (List.mem_cons_of_mem _ found)
    have step : l.readField r entry = .ok (put r) := by
      rw [readField, ← name, find?_name sound.named member]
      simp [reads, Except.map]
    refine ⟨t, ?_, ?_⟩
    · rw [List.foldlM_cons, step]
      exact reached
    · intro g found
      rw [told g found]
      by_cases same : g.name = f.name
      · have equal : g = f := List.inj_on_of_nodup_map sound.named found member same
        subst equal
        simp [name, restored r]
      · have kept := sound.spares f member g found (Ne.symm same) entry.2 put r reads
        have other : g.name ≠ entry.1 := name ▸ same
        rw [kept]
        simp only [List.map_cons, List.mem_cons, other, false_or]

theorem Sound.readFields {l : Layout σ} (sound : l.Sound) (tells : l.Tells s entries) :
    l.readFields entries = .ok s := by
  obtain ⟨t, reached, told⟩ := sound.foldlM_readField s l.blank entries tells.once tells.written
  have whole : t = s := by
    refine sound.determined t s fun f member => ?_
    rw [told f member]
    split
    · rfl
    · rename_i missing
      exact (tells.rest f member missing).2
  have complete : l.fields.find? (fun f => f.needed && !entries.any (·.1 == f.name)) = none := by
    rw [List.find?_eq_none]
    intro f member
    by_cases present : f.name ∈ entries.map Prod.fst
    · obtain ⟨entry, found, name⟩ := List.mem_map.mp present
      have any : entries.any (·.1 == f.name) = true := List.any_eq_true.mpr ⟨entry, found, by simp [name]⟩
      simp [any]
    · simp [(tells.rest f member present).1]
  subst whole
  unfold Layout.readFields
  rw [reached]
  simp [complete, bind, Except.bind, pure, Except.pure]

theorem writeFields_names (fields : List (Field σ)) (s : σ) :
    ((fields.filterMap fun f => (f.write s).map (f.name, ·)).map Prod.fst).Sublist
      (fields.map Field.name) := by
  induction fields with
  | nil => exact .slnil
  | cons f fields ih =>
    cases wrote : f.write s with
    | none => simpa [wrote] using ih.cons _
    | some d => simpa [wrote] using ih.cons_cons f.name

theorem mem_writeFields {l : Layout σ} :
    (name, d) ∈ l.writeFields s ↔ ∃ f ∈ l.fields, f.name = name ∧ f.write s = some d := by
  unfold writeFields
  simp only [List.mem_filterMap, Option.map_eq_some_iff, Prod.mk.injEq]
  constructor
  · rintro ⟨f, member, _, wrote, rfl, rfl⟩
    exact ⟨f, member, rfl, wrote⟩
  · rintro ⟨f, member, rfl, wrote⟩
    exact ⟨f, member, d, wrote, rfl, rfl⟩

-- What is left of the fields of a record when some are deleted that can be, as they have their default.
structure Left (l : Layout σ) (s : σ) (kept : List (String × Datum)) : Prop where
  part : kept.Sublist (l.writeFields s)
  usual : ∀ f ∈ l.fields, ∀ d, f.write s = some d →
    (f.name, d) ∈ kept ∨ f.needed = false ∧ f.write l.blank = some d

theorem left_whole (l : Layout σ) (s : σ) : l.Left s (l.writeFields s) where
  part := List.Sublist.refl _
  usual := fun f member _ wrote => .inl (mem_writeFields.mpr ⟨f, member, rfl, wrote⟩)

theorem Sound.tells {l : Layout σ} (sound : l.Sound) (left : l.Left s kept)
    (arranged : Datum.RearrangedFields kept gs) : l.Tells s gs where
  once := arranged.names.nodup (sound.named.sublist ((left.part.map Prod.fst).trans (writeFields_names l.fields s)))
  written := by
    rintro ⟨name, e⟩ member
    obtain ⟨d, found, like⟩ := arranged.source member
    obtain ⟨f, known, named, wrote⟩ := mem_writeFields.mp (left.part.subset found)
    exact ⟨f, known, named, d, wrote, like⟩
  rest := by
    intro f member missing
    cases wrote : f.write s with
    | none => exact (sound.lawful f member).omits s wrote
    | some d =>
      rcases left.usual f member d wrote with present | ⟨free, default⟩
      · exact absurd (arranged.names.mem_iff.mp (List.mem_map_of_mem present)) missing
      · exact ⟨free, default⟩

theorem Sound.robust {l : Layout σ} (sound : l.Sound) : l.codec.Robust := by
  intro s d arranged
  cases arranged with
  | same => exact sound.readFields (sound.tells (l.left_whole s) (Datum.RearrangedFields.refl _))
  | record fields => exact sound.readFields (sound.tells (l.left_whole s) fields)

-- A record is read from its fields, and from what is left of them when any are deleted that have the same
-- value as in the record with all defaults; what is left may stand in any order.
structure Restored (l : Layout σ) : Prop where
  whole : l.codec.Faithful
  shortened : ∀ s kept d, kept.Sublist (l.writeFields s) →
    (∀ field ∈ l.writeFields s, field ∈ kept ∨ field ∈ l.writeFields l.blank) →
    (Datum.record kept).Rearranged d → l.codec.read d = .ok s

theorem Sound.restored {l : Layout σ} (sound : l.Sound) (free : ∀ f ∈ l.fields, f.needed = false) : l.Restored where
  whole := sound.robust.faithful
  shortened := by
    intro s kept d part usual arranged
    have left : l.Left s kept := by
      refine ⟨part, fun f member e wrote => ?_⟩
      rcases usual (f.name, e) (mem_writeFields.mpr ⟨f, member, rfl, wrote⟩) with present | default
      · exact .inl present
      · obtain ⟨g, known, name, same⟩ := mem_writeFields.mp default
        have equal : g = f := List.inj_on_of_nodup_map sound.named known member name
        exact .inr ⟨free f member, equal ▸ same⟩
    cases arranged with
    | same => exact sound.readFields (sound.tells left (Datum.RearrangedFields.refl _))
    | record fields => exact sound.readFields (sound.tells left fields)

theorem Separate.readField_spares {l : Layout σ} (separate : l.Separate) (known : f ∈ l.fields)
    (accepted : l.readField r entry = .ok s) (other : f.name ≠ entry.1) : f.write s = f.write r := by
  unfold readField at accepted
  split at accepted
  · rename_i g found
    have name : g.name = entry.1 := by simpa using List.find?_some found
    cases reads : g.read entry.2 with
    | error e => simp [reads, Except.map] at accepted
    | ok put =>
      simp only [reads, Except.map, Except.ok.injEq] at accepted
      have spared := separate.spares g (List.mem_of_find?_eq_some found) f known (name ▸ other.symm)
      exact accepted ▸ spared entry.2 put r reads
  · split at accepted
    · rw [Except.ok.inj accepted]
    · cases accepted

section

variable {entries : List (String × Datum)}

theorem foldlM_cons_ok {l : Layout σ} (accepted : (entry :: entries).foldlM l.readField r = .ok s) :
    ∃ next, l.readField r entry = .ok next ∧ entries.foldlM l.readField next = .ok s := by
  rw [List.foldlM_cons] at accepted
  cases step : l.readField r entry with
  | error e => simp [step, bind, Except.bind] at accepted
  | ok next => exact ⟨next, rfl, by simpa [step, bind, Except.bind] using accepted⟩

-- Whether an entry is accepted has nothing to do with the record that it is read into.
theorem readField_ok {l : Layout σ} (accepted : l.readField r entry = .ok s) (q : σ) :
    ∃ t, l.readField q entry = .ok t := by
  unfold readField at accepted ⊢
  split at accepted
  · rename_i f found
    cases reads : f.read entry.2 with
    | error e => simp [reads, Except.map] at accepted
    | ok put => exact ⟨put q, by simp [Except.map]⟩
  · split at accepted
    · rename_i lenient
      exact ⟨q, if_pos lenient⟩
    · cases accepted

theorem foldlM_ok {l : Layout σ} (each : ∀ entry ∈ entries, ∃ r s, l.readField r entry = .ok s) (q : σ) :
    ∃ s, entries.foldlM l.readField q = .ok s := by
  induction entries generalizing q with
  | nil => exact ⟨q, rfl⟩
  | cons entry rest ih =>
    obtain ⟨⟨r, s, accepted⟩, others⟩ := List.forall_mem_cons.mp each
    obtain ⟨next, step⟩ := readField_ok accepted q
    obtain ⟨last, reached⟩ := ih others next
    exact ⟨last, by rw [List.foldlM_cons, step]; exact reached⟩

theorem foldlM_of_readFields {l : Layout σ} (accepted : l.readFields entries = .ok s) :
    entries.foldlM l.readField l.blank = .ok s := by
  unfold Layout.readFields at accepted
  cases reached : entries.foldlM l.readField l.blank with
  | error e => simp [reached, bind, Except.bind] at accepted
  | ok r =>
    simp only [reached, bind, Except.bind] at accepted
    split at accepted
    · cases accepted
    · exact accepted

theorem readField_of_readFields {l : Layout σ} (accepted : l.readFields [entry] = .ok s) :
    ∃ r t, l.readField r entry = .ok t := by
  obtain ⟨next, step, -⟩ := foldlM_cons_ok (foldlM_of_readFields accepted)
  exact ⟨_, next, step⟩

-- Where no field has to be given, entries are accepted together if each of them is.
theorem readFields_ok {l : Layout σ} (free : ∀ f ∈ l.fields, f.needed = false)
    (each : ∀ entry ∈ entries, ∃ r s, l.readField r entry = .ok s) : ∃ s, l.readFields entries = .ok s := by
  have complete : l.fields.find? (fun f => f.needed && !entries.any (·.1 == f.name)) = none := by
    rw [List.find?_eq_none]
    intro f member
    simp [free f member]
  obtain ⟨s, reached⟩ := foldlM_ok each l.blank
  refine ⟨s, ?_⟩
  unfold Layout.readFields
  rw [reached]
  simp [complete, bind, Except.bind, pure, Except.pure]

theorem Separate.foldlM_spares {l : Layout σ} (separate : l.Separate) (known : f ∈ l.fields)
    (accepted : entries.foldlM l.readField r = .ok s) (absent : f.name ∉ entries.map Prod.fst) :
    f.write s = f.write r := by
  induction entries generalizing r with
  | nil => rw [Except.ok.inj accepted]
  | cons entry rest ih =>
    obtain ⟨next, step, remaining⟩ := foldlM_cons_ok accepted
    rw [List.map_cons, List.mem_cons, not_or] at absent
    rw [ih remaining absent.2, separate.readField_spares known step absent.1]

-- Entries with different names each settle what the field of that name has in the record.
theorem Separate.foldlM_told {l : Layout σ} (separate : l.Separate) (known : f ∈ l.fields)
    (accepted : entries.foldlM l.readField r = .ok s) (once : (entries.map Prod.fst).Nodup)
    (member : (f.name, d) ∈ entries) : ∃ put before, f.read d = .ok put ∧ f.write s = f.write (put before) := by
  induction entries generalizing r with
  | nil => cases member
  | cons entry rest ih =>
    obtain ⟨next, step, remaining⟩ := foldlM_cons_ok accepted
    obtain ⟨fresh, once⟩ := List.nodup_cons.mp once
    rcases List.mem_cons.mp member with rfl | later
    · rw [readField, find?_name separate.named known] at step
      cases reads : f.read d with
      | error e => simp [reads, Except.map] at step
      | ok put =>
        simp only [reads, Except.map, Except.ok.injEq] at step
        exact ⟨put, r, rfl, step ▸ separate.foldlM_spares known remaining fresh⟩
    · exact ih remaining once later

theorem Separate.readFields_told {l : Layout σ} (separate : l.Separate) (known : f ∈ l.fields)
    (accepted : l.readFields entries = .ok s) (once : (entries.map Prod.fst).Nodup)
    (member : (f.name, d) ∈ entries) : ∃ put before, f.read d = .ok put ∧ f.write s = f.write (put before) :=
  separate.foldlM_told known (foldlM_of_readFields accepted) once member

theorem Separate.readFields_spares {l : Layout σ} (separate : l.Separate) (known : f ∈ l.fields)
    (accepted : l.readFields entries = .ok s) (absent : f.name ∉ entries.map Prod.fst) :
    f.write s = f.write l.blank :=
  separate.foldlM_spares known (foldlM_of_readFields accepted) absent

-- Unless names are passed over, each entry is of a field.
theorem readFields_known {l : Layout σ} (strict : l.lenient = false) (accepted : l.readFields entries = .ok s) :
    ∀ entry ∈ entries, ∃ f ∈ l.fields, f.name = entry.1 := by
  replace accepted := foldlM_of_readFields accepted
  generalize l.blank = r at accepted
  induction entries generalizing r with
  | nil => exact List.forall_mem_nil _
  | cons entry rest ih =>
    obtain ⟨next, step, remaining⟩ := foldlM_cons_ok accepted
    refine List.forall_mem_cons.mpr ⟨?_, ih next remaining⟩
    unfold readField at step
    split at step
    · rename_i f found
      exact ⟨f, List.mem_of_find?_eq_some found, by simpa using List.find?_some found⟩
    · rw [strict] at step
      cases step

end

-- Named data, as a table tells them.
def pairsOf (entries : List (String × Datum)) : List (Datum × Datum) := entries.map fun (name, d) => (.text name, d)

-- They are read as they are, unless one of them is a table that they are part of.
theorem mapM_readPair (mended : ByteArray → Except DecodeError String) (entries : List (String × Datum)) :
    (∀ entry ∈ entries, entry.2 ≠ .again) ∧ (pairsOf entries).mapM (Codec.readPair mended) = .ok entries ∨
    (∃ entry ∈ entries, entry.2 = .again) ∧ (pairsOf entries).mapM (Codec.readPair mended) = .error .recursive := by
  induction entries with
  | nil => exact .inl ⟨List.forall_mem_nil _, rfl⟩
  | cons entry rest ih =>
    obtain ⟨name, d⟩ := entry
    have first : d ≠ .again ∧ Codec.readPair mended (.text name, d) = .ok (name, d) ∨
        d = .again ∧ Codec.readPair mended (.text name, d) = .error .recursive := by
      cases d <;> simp [Codec.readPair]
    unfold pairsOf at ih ⊢
    rw [List.map_cons, List.mapM_cons]
    rcases first with ⟨plain, read⟩ | ⟨again, refused⟩
    · rw [read]
      rcases ih with ⟨others, reached⟩ | ⟨⟨later, member, again⟩, refused⟩
      · refine .inl ⟨List.forall_mem_cons.mpr ⟨plain, others⟩, ?_⟩
        rw [reached]
        rfl
      · refine .inr ⟨⟨later, List.mem_cons_of_mem _ member, again⟩, ?_⟩
        rw [refused]
        rfl
    · refine .inr ⟨⟨_, List.mem_cons_self, again⟩, ?_⟩
      rw [refused]
      rfl

theorem read_pairsOf (l : Layout σ) {entries : List (String × Datum)} (plain : ∀ entry ∈ entries, entry.2 ≠ .again) :
    l.read (.table [] (pairsOf entries)) = l.readFields entries := by
  rcases mapM_readPair (fun content => .ok (Text.mended content)) entries with ⟨-, named⟩ | ⟨⟨entry, member, again⟩, -⟩
  · simp only [read, named]
    rfl
  · exact absurd again (plain entry member)

theorem readFields_of_pairsOf {l : Layout σ} {items : List Datum} {entries : List (String × Datum)}
    (accepted : l.read (.table items (pairsOf entries)) = .ok s) :
    (∀ entry ∈ entries, entry.2 ≠ .again) ∧ l.readFields entries = .ok s := by
  unfold read at accepted
  cases listless : Codec.checkNoItems items with
  | error e => simp [listless, bind, Except.bind] at accepted
  | ok _ =>
    rcases mapM_readPair (fun content => .ok (Text.mended content)) entries with ⟨plain, named⟩ | ⟨-, refused⟩
    · exact ⟨plain, by simpa [listless, named, bind, Except.bind] using accepted⟩
    · simp [listless, refused, bind, Except.bind] at accepted

theorem Sound.read_map {l : Layout σ} (sound : l.Sound) (f : σ → α)
    (arranged : Datum.RearrangedFields (l.writeFields s) gs) :
    (l.read (.record gs)).map f = .ok (f s) := by
  rw [show l.read (.record gs) = .ok s from sound.readFields (sound.tells (l.left_whole s) arranged)]
  rfl

end Layout

end ContainerRecipe
