import ContainerRecipe.Proofs.Text.Numeral
import ContainerRecipe.Proofs.Text.Parts
import ContainerRecipe.Version

namespace ContainerRecipe

namespace Text

-- The decimal digits of a number, behind zeros or not.
structure Digits (cs : List Char) (n : Nat) : Prop where
  some : cs ≠ []
  all : ∀ c ∈ cs, c.isDigit = true
  value : Nat.ofDigitChars 10 cs 0 = n

-- A number as it may be written, which is with a plus sign in front as well.
inductive Written : List Char → UInt32 → Prop where
  | plain (digits : Digits cs n.toNat) : Written cs n
  | signed (digits : Digits cs n.toNat) : Written ('+' :: cs) n

theorem Digits.ofNumeral (numeral : Numeral cs n) : Digits cs n.toNat :=
  ⟨numeral.nonempty, numeral.isDigit, digitsValue_eq cs ▸ numeral.value⟩

theorem Numeral.written (numeral : Numeral cs n) : Written cs n := .plain (.ofNumeral numeral)

theorem readDigits?_eq_some_iff {cs : List Char} {n : Nat} : readDigits? cs = some n ↔ Digits cs n := by
  unfold readDigits?
  rw [digitsValue_eq]
  constructor
  · intro told
    obtain ⟨⟨given, digits⟩, value⟩ := by simpa using told
    exact ⟨given, digits, value⟩
  · rintro ⟨given, digits, value⟩
    simpa [given, value] using digits

theorem readWord?_eq_readDigits? {cs : List Char} {n : UInt32} :
    readWord? cs = some n ↔ readDigits? (dropPlus cs) = some n.toNat := by
  unfold readWord?
  cases readDigits? (dropPlus cs) with
  | none => simp
  | some m =>
    rw [Option.bind_some, Option.some.injEq]
    constructor
    · intro fits
      split at fits
      · rename_i small
        cases fits
        exact (UInt32.toNat_ofNat_of_lt' small).symm
      · cases fits
    · rintro rfl
      rw [if_pos n.toNat_lt, UInt32.ofNat_toNat]

theorem readWord?_eq_some_iff : readWord? cs = some n ↔ Written cs n := by
  rw [readWord?_eq_readDigits?, readDigits?_eq_some_iff]
  constructor
  · intro digits
    unfold dropPlus at digits
    split at digits
    · exact .signed digits
    · exact .plain digits
  · intro written
    cases written with
    | plain digits => rwa [dropPlus_of_digits (List.all_eq_true.mpr digits.all)]
    | signed digits => exact digits

namespace Written

-- Digits and signs are neither blanks nor points.
theorem apart (written : Written cs n) : ∀ c ∈ cs, isBlank c = false ∧ c ≠ '.' := by
  have digit {c : Char} (digit : c.isDigit = true) : isBlank c = false ∧ c ≠ '.' := by
    refine ⟨isBlank_of_isDigit digit, ?_⟩
    rintro rfl
    cases digit
  cases written with
  | plain digits => exact fun c member => digit (digits.all c member)
  | signed digits => exact List.forall_mem_cons.mpr ⟨by decide, fun c member => digit (digits.all c member)⟩

theorem splitOn (written : Written cs n) : cs.splitOn '.' = [cs] :=
  List.splitOn_eq_singleton fun member => (written.apart _ member).2 rfl

end Written

end Text

namespace Version

-- The numbers of a version, with points between them. A third number says nothing about the version.
inductive Spelled : List Char → Version → Prop where
  | one (major : Text.Written cs m) : Spelled cs ⟨m, 0⟩
  | two (major : Text.Written cs m) (minor : Text.Written ds n) : Spelled (cs ++ '.' :: ds) ⟨m, n⟩
  | three (major : Text.Written cs m) (minor : Text.Written ds n) (patch : Text.Written es p) :
    Spelled (cs ++ '.' :: (ds ++ '.' :: es)) ⟨m, n⟩

theorem ofParts?_splitOn_iff {cs : List Char} {v : Version} :
    ofParts? (cs.splitOn '.') = some v ↔ Spelled cs v := by
  constructor
  · intro read
    have whole : ['.'].intercalate (cs.splitOn '.') = cs := List.intercalate_splitOn '.'
    generalize cs.splitOn '.' = parts at read whole
    subst whole
    unfold ofParts? at read
    split at read
    · simp only [Option.bind_eq_bind, Option.bind_eq_some_iff, Option.pure_def, Option.some.injEq] at read
      obtain ⟨m, major, rfl⟩ := read
      simpa using Spelled.one (Text.readWord?_eq_some_iff.mp major)
    · simp only [Option.bind_eq_bind, Option.bind_eq_some_iff, Option.pure_def, Option.some.injEq] at read
      obtain ⟨m, major, n, minor, rfl⟩ := read
      simpa using Spelled.two (Text.readWord?_eq_some_iff.mp major) (Text.readWord?_eq_some_iff.mp minor)
    · simp only [Option.bind_eq_bind, Option.bind_eq_some_iff, Option.pure_def, Option.some.injEq] at read
      obtain ⟨m, major, n, minor, p, patch, rfl⟩ := read
      simpa using Spelled.three (Text.readWord?_eq_some_iff.mp major) (Text.readWord?_eq_some_iff.mp minor)
        (Text.readWord?_eq_some_iff.mp patch)
    · cases read
  · intro spelled
    cases spelled with
    | one major =>
      rw [major.splitOn]
      simp [ofParts?, Text.readWord?_eq_some_iff.mpr major]
    | two major minor =>
      rw [Text.splitOn_append_cons, major.splitOn, minor.splitOn]
      simp [ofParts?, Text.readWord?_eq_some_iff.mpr major, Text.readWord?_eq_some_iff.mpr minor]
    | three major minor patch =>
      rw [Text.splitOn_append_cons, Text.splitOn_append_cons, major.splitOn, minor.splitOn, patch.splitOn]
      simp [ofParts?, Text.readWord?_eq_some_iff.mpr major, Text.readWord?_eq_some_iff.mpr minor,
        Text.readWord?_eq_some_iff.mpr patch]

theorem Spelled.noBlank {cs : List Char} {v : Version} (spelled : Spelled cs v) : ∀ c ∈ cs, Text.isBlank c = false := by
  have point : Text.isBlank '.' = false := by decide
  cases spelled with
  | one major => exact fun c member => (major.apart c member).1
  | two major minor =>
    simp only [List.forall_mem_append, List.forall_mem_cons]
    exact ⟨fun c member => (major.apart c member).1, point, fun c member => (minor.apart c member).1⟩
  | three major minor patch =>
    simp only [List.forall_mem_append, List.forall_mem_cons]
    exact ⟨fun c member => (major.apart c member).1, point, fun c member => (minor.apart c member).1, point,
      fun c member => (patch.apart c member).1⟩

-- What a text says as a version, with blanks around the numbers or none.
def Says (s : String) (v : Version) : Prop :=
  ∃ lead cs trail, s.toList = lead ++ (cs ++ trail) ∧ (∀ c ∈ lead, Text.isBlank c = true) ∧ Spelled cs v ∧
    ∀ c ∈ trail, Text.isBlank c = true

theorem ofText?_eq_some_iff {s : String} {v : Version} : ofText? s = some v ↔ Says s v := by
  unfold ofText?
  rw [ofParts?_splitOn_iff]
  constructor
  · intro spelled
    obtain ⟨lead, trail, parts, before, after⟩ := Text.trimChars_parts s.toList
    exact ⟨lead, _, trail, parts, before, spelled, after⟩
  · rintro ⟨lead, cs, trail, parts, before, spelled, after⟩
    rwa [parts, Text.trimChars_surrounded before spelled.noBlank after]

theorem says_text (v : Version) : Says v.text v := by
  refine ⟨[], v.text.toList, [], by simp, by simp, ?_, by simp⟩
  have spelled := Spelled.two (Text.Numeral.ofRepr v.major).written (Text.Numeral.ofRepr v.minor).written
  simpa [text] using spelled

-- Every version is read back from its text. A text is read as a version exactly if it says this version, and
-- is refused as a whole if it says none.
theorem parse_iff (v : Version) (s : String) :
    parse v.text = .ok v ∧ (∀ w, parse s = .ok w ↔ Says s w) ∧
      (parse s = .error (.invalidVersion s) ↔ ¬ ∃ w, Says s w) := by
  have told (s : String) : ∀ w, parse s = .ok w ↔ Says s w := by
    intro w
    rw [← ofText?_eq_some_iff, parse]
    cases ofText? s <;> simp
  refine ⟨(told _ v).mpr (says_text v), told s, ?_⟩
  simp only [← told, parse]
  cases ofText? s <;> simp

end Version

end ContainerRecipe
