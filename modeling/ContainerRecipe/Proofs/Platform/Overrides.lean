import ContainerRecipe.Proofs.Platform.Marks

namespace ContainerRecipe.Release

-- An override for a distribution, with the digits of the numbers that are given.
inductive Override (d : Distribution) : List Char → Option (List Char) → Option (List Char) → Prop where
  | mk (named : Distribution.ofName? (String.ofList name) = some d) (known : separator ∈ separators)
      (numbered : Numbers numbers major minor) : Override d (name ++ (separator ++ numbers)) major minor

-- A text that is an override between blanks.
def Overrides (s : String) (d : Distribution) (major minor : Option (List Char)) : Prop :=
  ∃ lead cs trail, s.toList = lead ++ (cs ++ trail) ∧ (∀ c ∈ lead, Text.isBlank c = true) ∧
    Override d cs major minor ∧ ∀ c ∈ trail, Text.isBlank c = true

section

theorem Numbers.exists_digit (numbered : Numbers numbers (some major) minor) :
    ∃ c ∈ numbers, Text.isDecimalDigit c = true := by
  have starts := numbered.starts []
  rw [List.append_nil] at starts
  cases numbers with
  | nil => cases starts
  | cons c numbers => exact ⟨c, List.mem_cons_self, starts⟩

theorem Override.noBlank (override : Override d cs major minor) : ∀ c ∈ cs, Text.isBlank c = false := by
  have belong : ∀ c ∈ cs, belongs c = true := by
    cases override with
    | mk named known numbered =>
      simp only [List.forall_mem_append]
      exact ⟨(isName_of_ofName? named).belongs, separator_belongs known, numbered.belongs⟩
  intro c member
  refine Bool.eq_false_iff.mpr fun blank => ?_
  have apart := belongs_of_isBlank blank
  rw [belong c member] at apart
  cases apart

-- The digits of all scripts stand apart from the capital letters of ASCII.
theorem not_letter_of_isDecimalDigit (digit : Text.isDecimalDigit c = true) : folded c ∉ names.flatten := by
  have lower : c.toLower = c := by
    have ranges : ∀ z ∈ Text.zeroDigits, z + 9 < 65 ∨ 90 < z := by decide
    obtain ⟨z, member, range⟩ := List.any_eq_true.mp digit
    obtain ⟨first, last⟩ := by simpa using range
    have apart := ranges z member
    refine dif_neg ?_
    rintro ⟨low, high⟩
    have low : 65 ≤ c.toNat := UInt32.le_iff_toNat_le.mp low
    have high : c.toNat ≤ 90 := UInt32.le_iff_toNat_le.mp high
    omega
  have other : c ≠ '\u017F' ∧ c ≠ '\u212A' := by
    constructor
    all_goals
      rintro rfl
      revert digit
      decide
  have letters : names.flatten.any Text.isDecimalDigit = false := by decide
  rw [folded, if_neg other.1, if_neg other.2, lower]
  intro letter
  exact List.any_eq_false.mp letters c letter digit

-- The numbers of an override hold all of its digits.
theorem Override.exists_digit_iff (override : Override d cs major minor) :
    (∃ c ∈ cs, Text.isDecimalDigit c = true) ↔ major.isSome := by
  cases override with
  | @mk name separator numbers _ _ named known numbered =>
    have inName : ∀ c ∈ name, ¬ Text.isDecimalDigit c = true := by
      intro c member digit
      refine not_letter_of_isDecimalDigit digit ?_
      exact List.mem_flatten_of_mem (isName_of_ofName? named) (List.mem_map_of_mem member)
    have inSeparator : ∀ c ∈ separator, ¬ Text.isDecimalDigit c = true := by
      have each : separators.any (·.any Text.isDecimalDigit) = false := by decide
      exact List.any_eq_false.mp (Bool.eq_false_iff.mpr (List.any_eq_false.mp each separator known))
    constructor
    · rintro ⟨c, member, digit⟩
      cases numbered with
      | zero =>
        rw [List.append_nil] at member
        rcases List.mem_append.mp member with inside | inside
        · exact absurd digit (inName c inside)
        · exact absurd digit (inSeparator c inside)
      | one | two => rfl
    · intro given
      obtain ⟨major, rfl⟩ := Option.isSome_iff_exists.mp given
      obtain ⟨c, member, digit⟩ := numbered.exists_digit
      exact ⟨c, by simp [member], digit⟩

theorem Overrides.exists_digit_iff (overrides : Overrides s d major minor) :
    (∃ c ∈ s.toList, Text.isDecimalDigit c = true) ↔ major.isSome := by
  obtain ⟨lead, cs, trail, whole, before, override, after⟩ := overrides
  have plain {c : Char} (blank : Text.isBlank c = true) : ¬ Text.isDecimalDigit c = true := by
    rw [not_digit_of_not_belongs (belongs_of_isBlank blank)]
    decide
  rw [← override.exists_digit_iff, whole]
  constructor
  · rintro ⟨c, member, digit⟩
    rcases List.mem_append.mp member with inside | member
    · exact absurd digit (plain (before c inside))
    · rcases List.mem_append.mp member with inside | inside
      · exact ⟨c, inside, digit⟩
      · exact absurd digit (plain (after c inside))
  · rintro ⟨c, member, digit⟩
    exact ⟨c, by simp [member], digit⟩

end

section

-- A mark that is the whole of a text.
theorem Mark.Begins.override {m : Mark} (begins : m.Begins cs) (whole : m.rest = [])
    (named : Distribution.ofName? (String.ofList m.name) = some d) : Override d cs m.major m.minor := by
  obtain ⟨_, ⟨separator, known, numbers, rfl, numbered, _⟩, _⟩ := begins
  rw [whole, List.append_nil]
  exact .mk named known numbered

theorem Override.begins (override : Override d cs major minor) :
    ∃ m : Mark, m.Begins cs ∧ m.rest = [] ∧ Distribution.ofName? (String.ofList m.name) = some d ∧
      m.major = major ∧ m.minor = minor := by
  cases override with
  | @mk name separator numbers _ _ named known numbered =>
    refine ⟨⟨name, major, minor, []⟩, ?_, rfl, named, rfl, rfl⟩
    refine ⟨isName_of_ofName? named, ⟨separator, known, numbers, by simp, numbered, fun _ => ?_⟩, ends_nil _ _⟩
    exact numbered.not_startsSeparator fun _ => rfl

theorem ofText?_eq_some_iff : ofText? s = some r ↔ ∃ major minor, Overrides s r.distribution major minor ∧
    ∀ v, r.version = some v ↔ States r.distribution major minor v := by
  unfold ofText?
  rw [Option.bind_eq_bind, Option.bind_eq_some_iff]
  constructor
  · rintro ⟨m, marked, told⟩
    have begins := markAt?_eq_some_iff.mp marked
    obtain ⟨numbers, numbered⟩ := begins.numbered
    split at told
    · rename_i whole
      obtain ⟨named, version⟩ := (ofMark?_eq_some_iff numbered).mp told
      obtain ⟨lead, trail, parts, before, after⟩ := Text.trimChars_parts s.toList
      exact ⟨_, _, ⟨lead, _, trail, parts, before, begins.override (List.isEmpty_iff.mp whole) named, after⟩, version⟩
    · cases told
  · rintro ⟨major, minor, ⟨lead, cs, trail, parts, before, override, after⟩, version⟩
    obtain ⟨m, begins, whole, named, rfl, rfl⟩ := override.begins
    obtain ⟨numbers, numbered⟩ := begins.numbered
    rw [parts, Text.trimChars_surrounded before override.noBlank after]
    refine ⟨m, markAt?_eq_some_iff.mpr begins, ?_⟩
    rw [if_pos (List.isEmpty_iff.mpr whole)]
    exact (ofMark?_eq_some_iff numbered).mpr ⟨named, version⟩

theorem Overrides.accepted (overrides : Overrides s d major minor) : ∃ r, ofText? s = some r := by
  obtain ⟨_, _, _, _, _, ⟨_, _, numbered⟩, _⟩ := id overrides
  exact ⟨⟨d, versionOf d major minor⟩, ofText?_eq_some_iff.mpr ⟨major, minor, overrides,
    fun _ => versionOf_eq_some_iff numbered⟩⟩

end

-- The overrides are accepted, and nothing else is. The numbers hold all digits of the text, and the release is
-- the version that they state, exactly; there is none if they state none.
theorem overrides_read (s : String) :
    (∀ r, parse s = .ok r ↔ ∃ major minor, Overrides s r.distribution major minor ∧
        (major.isSome ↔ ∃ c ∈ s.toList, Text.isDecimalDigit c = true) ∧
        ∀ v, r.version = some v ↔ States r.distribution major minor v) ∧
      (parse s = .error (.unsupportedDistribution s) ↔ ¬ ∃ d major minor, Overrides s d major minor) := by
  constructor
  · intro r
    have read : parse s = .ok r ↔ ofText? s = some r := by
      unfold parse
      cases ofText? s <;> simp
    rw [read, ofText?_eq_some_iff]
    constructor
    · rintro ⟨major, minor, overrides, told⟩
      exact ⟨major, minor, overrides, overrides.exists_digit_iff.symm, told⟩
    · rintro ⟨major, minor, overrides, _, told⟩
      exact ⟨major, minor, overrides, told⟩
  · have refused : parse s = .error (.unsupportedDistribution s) ↔ ofText? s = none := by
      unfold parse
      cases ofText? s <;> simp
    rw [refused, Option.eq_none_iff_forall_ne_some]
    constructor
    · rintro none ⟨d, major, minor, overrides⟩
      obtain ⟨r, read⟩ := overrides.accepted
      exact none r read
    · intro none r read
      obtain ⟨major, minor, overrides, _⟩ := ofText?_eq_some_iff.mp read
      exact none ⟨_, major, minor, overrides⟩

-- A number that does not fit is passed over, and the default release is taken in its place.
theorem override_loses_release : parse "centos9999999999" = .ok ⟨.centos, none⟩ ∧
    (∃ c ∈ "centos9999999999".toList, Text.isDecimalDigit c = true) ∧
    versionOrDefault ⟨.centos, none⟩ = ⟨7, 0⟩ := by
  have accepted : parse "centos9999999999" = .ok ⟨.centos, none⟩ := by decide +kernel
  exact ⟨accepted, ⟨'9', by decide, by decide⟩, rfl⟩

end ContainerRecipe.Release
