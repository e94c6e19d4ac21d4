import ContainerRecipe.Proofs.Platform.Naming

namespace ContainerRecipe.Release

section

-- No name starts in the first part of a text, with the second part behind it.
def Clear (front behind : List Char) : Prop := ∀ i < front.length, ¬ Opens ((front ++ behind).drop i)

instance (front behind : List Char) : Decidable (Clear front behind) := inferInstanceAs (Decidable (∀ i < _, _))

theorem clear_cons_iff : Clear (c :: front) behind ↔ ¬ Opens (c :: (front ++ behind)) ∧ Clear front behind := by
  unfold Clear
  constructor
  · intro clear
    exact ⟨clear 0 (by simp), fun i inside => clear (i + 1) (by simpa using inside)⟩
  · rintro ⟨first, others⟩ i inside
    cases i with
    | zero => exact first
    | succ i => exact others i (by simpa using inside)

theorem findMark?_eq_some_iff :
    findMark? cs = some m ↔ ∃ front behind, cs = front ++ behind ∧ Clear front behind ∧ m.Begins behind := by
  induction cs with
  | nil =>
    simp only [findMark?, reduceCtorEq, false_iff]
    rintro ⟨front, behind, nothing, _, begins⟩
    obtain ⟨rfl, rfl⟩ := List.append_eq_nil_iff.mp nothing.symm
    exact absurd begins.opens (by decide)
  | cons c cs ih =>
    rw [findMark?, Option.or_eq_some_iff, markAt?_eq_some_iff, markAt?_eq_none_iff, ih]
    constructor
    · rintro (begins | ⟨closed, front, behind, rfl, clear, begins⟩)
      · exact ⟨[], _, rfl, nofun, begins⟩
      · exact ⟨c :: front, behind, rfl, clear_cons_iff.mpr ⟨closed, clear⟩, begins⟩
    · rintro ⟨front, behind, whole, clear, begins⟩
      cases front with
      | nil => exact .inl (whole ▸ begins)
      | cons d front =>
        cases whole
        obtain ⟨closed, clear⟩ := clear_cons_iff.mp clear
        exact .inr ⟨closed, front, behind, rfl, clear, begins⟩

end

section

def Named (d : Distribution) (cs : List Char) : Prop :=
  ∃ name rest, cs = name ++ rest ∧ Distribution.ofName? (String.ofList name) = some d

-- A version that is stated right behind the name of a distribution.
inductive Stated (d : Distribution) (v : Version) : List Char → Prop where
  | mk (named : Distribution.ofName? (String.ofList name) = some d) (known : separator ∈ separators)
      (numbered : Numbers numbers major minor) (told : States d major minor v) (ends : Ends major minor rest) :
      Stated d v (name ++ (separator ++ (numbers ++ rest)))

theorem Mark.Begins.unique {m m' : Mark} (first : m.Begins cs) (second : m'.Begins cs) : m = m' := by
  rw [← markAt?_eq_some_iff] at first second
  exact Option.some.inj (first.symm.trans second)

theorem Stated.begins (stated : Stated d v cs) : ∃ m : Mark, m.Begins cs ∧
    Distribution.ofName? (String.ofList m.name) = some d ∧ versionOf d m.major m.minor = some v := by
  cases stated with
  | @mk name separator numbers major minor rest named known numbered told ends =>
    have first : ¬ StartsSeparator (numbers ++ rest) := by
      refine numbered.not_startsSeparator fun nothing => ?_
      subst nothing
      cases told
    exact ⟨⟨name, major, minor, rest⟩,
      ⟨isName_of_ofName? named, ⟨separator, known, numbers, rfl, numbered, fun _ => first⟩, ends⟩,
      named, (versionOf_eq_some_iff numbered).mpr told⟩

section

variable {m : Mark} (begins : m.Begins cs)
include begins

-- The mark at the front of a text tells which distribution is named there, and which version is stated.
theorem Mark.Begins.named_iff : Named d cs ↔ Distribution.ofName? (String.ofList m.name) = some d := by
  obtain ⟨name, ⟨_, _, _, whole, _⟩, _⟩ := begins
  constructor
  · rintro ⟨other, rest, same, named⟩
    rw [(name.unique (isName_of_ofName? named) (whole.symm.trans same)).1]
    exact named
  · exact fun named => ⟨_, _, whole, named⟩

theorem Mark.Begins.stated_iff (named : Distribution.ofName? (String.ofList m.name) = some d) :
    Stated d v cs ↔ versionOf d m.major m.minor = some v := by
  constructor
  · intro stated
    obtain ⟨m', begins', _, version⟩ := stated.begins
    rwa [begins.unique begins']
  · intro version
    obtain ⟨_, ⟨separator, known, numbers, rfl, numbered, _⟩, ends⟩ := begins
    exact .mk named known numbered ((versionOf_eq_some_iff numbered).mp version) ends

theorem Mark.Begins.ofMark?_eq_some_iff : ofMark? m = some r ↔
    Named r.distribution cs ∧ ∀ v, r.version = some v ↔ Stated r.distribution v cs := by
  obtain ⟨numbers, numbered⟩ := begins.numbered
  rw [Release.ofMark?_eq_some_iff numbered, begins.named_iff]
  refine and_congr_right fun named => forall_congr' fun v => ?_
  rw [begins.stated_iff named, versionOf_eq_some_iff numbered]

end

end

section

theorem infer?_eq_some_iff : infer? image = some r ↔ ∃ front behind, image.toList = front ++ behind ∧
    Clear front behind ∧ Named r.distribution behind ∧ ∀ v, r.version = some v ↔ Stated r.distribution v behind := by
  unfold infer?
  simp only [Option.bind_eq_bind, Option.bind_eq_some_iff, findMark?_eq_some_iff]
  constructor
  · rintro ⟨m, ⟨front, behind, whole, clear, begins⟩, told⟩
    exact ⟨front, behind, whole, clear, begins.ofMark?_eq_some_iff.mp told⟩
  · rintro ⟨front, behind, whole, clear, named, version⟩
    obtain ⟨name, rest, parted, told⟩ := id named
    obtain ⟨m, begins⟩ := exists_begins (opens_iff.mpr ⟨name, rest, parted, isName_of_ofName? told⟩)
    exact ⟨m, ⟨front, behind, whole, clear, begins⟩, begins.ofMark?_eq_some_iff.mpr ⟨named, version⟩⟩

theorem Stated.named (stated : Stated d v cs) : Named d cs := by
  obtain ⟨m, begins, named, _⟩ := stated.begins
  exact begins.named_iff.mpr named

theorem Stated.unique (stated : Stated d v cs) (other : Stated d w cs) : v = w := by
  obtain ⟨m, begins, named, version⟩ := stated.begins
  rw [begins.stated_iff named, version] at other
  exact Option.some.inj other

theorem Stated.iff (stated : Stated d v cs) : some v = some w ↔ Stated d w cs := by
  constructor
  · rintro ⟨⟩
    exact stated
  · exact fun other => congrArg some (stated.unique other)

theorem infer?_version_iff : infer? image = some ⟨d, some v⟩ ↔
    ∃ front behind, image.toList = front ++ behind ∧ Clear front behind ∧ Stated d v behind := by
  rw [infer?_eq_some_iff]
  constructor
  · rintro ⟨front, behind, whole, clear, _, version⟩
    exact ⟨front, behind, whole, clear, (version v).mp rfl⟩
  · rintro ⟨front, behind, whole, clear, stated⟩
    exact ⟨front, behind, whole, clear, stated.named, fun _ => stated.iff⟩

theorem stated_text (d : Distribution) (v : Version) (ends : ¬ StartsDigit rest) :
    Stated d v ((text ⟨d, some v⟩).toList ++ rest) := by
  obtain ⟨cs, ds, parts, major, minor⟩ := versionLabel_parts d v
  have spelled : (text ⟨d, some v⟩).toList ++ rest = d.text.toList ++ ([] ++ (cs ++ '.' :: ds ++ rest)) := by
    simp [text, parts]
  rw [spelled]
  refine .mk ?_ (by decide) (.two (run_of_numeral major) (run_of_numeral minor))
    (.two (.ofNumeral major) (.ofNumeral minor)) ⟨ends, by simp⟩
  rw [String.ofList_toList]
  exact Distribution.ofName?_text d

end

-- A release is found where its text stands behind other text, if no name starts in that and no digit follows.
theorem infer?_text_within (front behind : String) (d : Distribution) (v : Version)
    (clear : Clear front.toList (text ⟨d, some v⟩ ++ behind).toList) (ends : ¬ StartsDigit behind.toList) :
    infer? (front ++ text ⟨d, some v⟩ ++ behind) = some ⟨d, some v⟩ := by
  refine infer?_version_iff.mpr ⟨_, _, ?_, clear, ?_⟩
  · simp
  · rw [String.toList_append]
    exact stated_text d v ends

-- The beginnings of names are no names, and the names behind it have no say.
theorem infer?_text_within_tag :
    Clear "hub/ubun-cento".toList (text ⟨.ubuntu, some ⟨16, 4⟩⟩ ++ ".5-centos7").toList ∧
      ¬ StartsDigit ".5-centos7".toList ∧
      infer? ("hub/ubun-cento" ++ text ⟨.ubuntu, some ⟨16, 4⟩⟩ ++ ".5-centos7") = some ⟨.ubuntu, some ⟨16, 4⟩⟩ := by
  have clear : Clear "hub/ubun-cento".toList (text ⟨.ubuntu, some ⟨16, 4⟩⟩ ++ ".5-centos7").toList := by decide +kernel
  have ends : ¬ StartsDigit ".5-centos7".toList := by decide
  exact ⟨clear, ends, infer?_text_within _ _ _ _ clear ends⟩

-- An image reference is taken to state a version exactly if one is stated behind the first name in it. Where none
-- is, the release has none, whatever is stated further on.
theorem inferred_release (image : String) (d : Distribution) :
    (∀ v, infer? image = some ⟨d, some v⟩ ↔
        ∃ front behind, image.toList = front ++ behind ∧ Clear front behind ∧ Stated d v behind) ∧
      (infer? image = some ⟨d, none⟩ ↔
        ∃ front behind, image.toList = front ++ behind ∧ Clear front behind ∧ Named d behind ∧
          ∀ v, ¬ Stated d v behind) := by
  refine ⟨fun v => infer?_version_iff, ?_⟩
  rw [infer?_eq_some_iff]
  simp only [reduceCtorEq, false_iff]

-- The version is stated behind the second name, and the default is taken.
theorem inferred_release_missed :
    (∃ front behind, "rockylinux/rockylinux:8.9".toList = front ++ behind ∧ Stated .rockyLinux ⟨8, 9⟩ behind) ∧
      infer? "rockylinux/rockylinux:8.9" = some ⟨.rockyLinux, none⟩ ∧
      versionOrDefault ⟨.rockyLinux, none⟩ = ⟨9, 0⟩ := by
  have begins := markAt?_eq_some_iff.mp (show markAt? "rockylinux:8.9".toList =
    some ⟨"rockylinux".toList, some ['8'], some ['9'], []⟩ by decide +kernel)
  have stated : Stated .rockyLinux ⟨8, 9⟩ "rockylinux:8.9".toList :=
    (begins.stated_iff (by decide +kernel)).mpr (by decide +kernel)
  exact ⟨⟨"rockylinux/".toList, _, by decide, stated⟩, by decide +kernel, rfl⟩

end ContainerRecipe.Release
