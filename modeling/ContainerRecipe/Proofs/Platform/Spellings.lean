import ContainerRecipe.Platform
import ContainerRecipe.Proofs.Platform.Versions

namespace ContainerRecipe.Release

section

-- The letter of a name that a character stands for, whatever its case.
def folded (c : Char) : Char :=
  if c = '\u017F' then 's' else if c = '\u212A' then 'k' else c.toLower

theorem foldsTo_iff (letter : l ∈ names.flatten) (c : Char) : foldsTo l c = true ↔ l = folded c := by
  have other : '\u017F' ≠ l ∧ '\u212A' ≠ l := by
    constructor
    all_goals
      rintro rfl
      revert letter
      decide
  have long : ('\u017F' : Char).toLower = '\u017F' := by decide
  have kelvin : ('\u212A' : Char).toLower = '\u212A' := by decide
  unfold foldsTo folded
  by_cases s : c = '\u017F'
  · subst s
    simp [long, other.1]
  · by_cases k : c = '\u212A'
    · subst k
      simp [kelvin, other.2]
    · simp only [s, k, beq_iff_eq, beq_eq_false_iff_ne.mpr, ne_eq, not_false_eq_true, Bool.false_and, Bool.or_false,
        if_false]
      exact eq_comm

-- A name as it may be written.
def IsName (cs : List Char) : Prop := cs.map folded ∈ names

instance : DecidablePred IsName := fun _ => inferInstanceAs (Decidable (_ ∈ _))

theorem takeName?_eq_some_iff (known : name ⊆ names.flatten) :
    takeName? name cs = some (front, rest) ↔ cs = front ++ rest ∧ name = front.map folded := by
  induction name generalizing cs front with
  | nil =>
    simp only [takeName?, Option.some.injEq, Prod.mk.injEq]
    constructor
    · rintro ⟨rfl, rfl⟩
      exact ⟨rfl, rfl⟩
    · rintro ⟨rfl, nothing⟩
      rw [List.map_eq_nil_iff.mp nothing.symm]
      exact ⟨rfl, rfl⟩
  | cons l name ih =>
    obtain ⟨letter, others⟩ := List.cons_subset.mp known
    cases cs with
    | nil =>
      simp only [takeName?, reduceCtorEq, false_iff, not_and]
      intro nothing
      simp [(List.append_eq_nil_iff.mp nothing.symm).1]
    | cons c cs =>
      simp only [takeName?, foldsTo_iff letter c]
      cases front with
      | nil => simp
      | cons d front =>
        simp only [Option.ite_none_right_eq_some, Option.map_eq_some_iff, Prod.exists, Prod.mk.injEq, List.cons.injEq,
          List.cons_append, List.map_cons]
        constructor
        · rintro ⟨rfl, taken, _, found, ⟨rfl, rfl⟩, rfl⟩
          obtain ⟨whole, same⟩ := (ih others).mp found
          exact ⟨⟨rfl, whole⟩, rfl, same⟩
        · rintro ⟨⟨rfl, whole⟩, rfl, same⟩
          exact ⟨rfl, _, _, (ih others).mpr ⟨whole, same⟩, ⟨rfl, rfl⟩, rfl⟩

theorem names_apart : ∀ a ∈ names, ∀ b ∈ names, a <+: b → a = b := by decide

-- No name goes on to another one.
theorem IsName.complete (first : IsName name) (longer : IsName (name ++ more)) : more = [] := by
  unfold IsName at longer
  rw [List.map_append] at longer
  have same := names_apart _ first _ longer (List.prefix_append _ _)
  simpa using same

theorem IsName.unique (first : IsName a) (second : IsName b) (same : a ++ x = b ++ y) : a = b ∧ x = y := by
  rcases List.append_eq_append_iff.mp same with ⟨more, rfl, rfl⟩ | ⟨more, rfl, rfl⟩
  · rw [first.complete second]
    simp
  · rw [second.complete first]
    simp

theorem findName_eq_some_iff :
    names.findSome? (takeName? · cs) = some (front, rest) ↔ cs = front ++ rest ∧ IsName front := by
  have known {name : List Char} (member : name ∈ names) : name ⊆ names.flatten :=
    fun _ inside => List.mem_flatten_of_mem member inside
  have sound {front rest : List Char} (found : names.findSome? (takeName? · cs) = some (front, rest)) :
      cs = front ++ rest ∧ IsName front := by
    obtain ⟨name, member, taken⟩ := List.exists_of_findSome?_eq_some found
    obtain ⟨whole, rfl⟩ := (takeName?_eq_some_iff (known member)).mp taken
    exact ⟨whole, member⟩
  refine ⟨sound, ?_⟩
  rintro ⟨whole, named⟩
  have taken := (takeName?_eq_some_iff (known named)).mpr ⟨whole, rfl⟩
  obtain ⟨⟨front', rest'⟩, found⟩ : ∃ part, names.findSome? (takeName? · cs) = some part := by
    rw [← Option.isSome_iff_exists, List.findSome?_isSome_iff]
    exact ⟨_, named, Option.isSome_of_eq_some taken⟩
  obtain ⟨whole', named'⟩ := sound found
  obtain ⟨rfl, rfl⟩ := named.unique named' (whole.symm.trans whole')
  exact found

-- A name stands at the front of a text.
def Opens (cs : List Char) : Prop := ∃ name ∈ names, name <+: cs.map folded

instance : DecidablePred Opens := fun _ => inferInstanceAs (Decidable (∃ name ∈ names, _))

theorem opens_iff : Opens cs ↔ ∃ name rest, cs = name ++ rest ∧ IsName name := by
  constructor
  · rintro ⟨name, member, more, whole⟩
    obtain ⟨front, rest, rfl, rfl, rfl⟩ := List.map_eq_append_iff.mp whole.symm
    exact ⟨front, rest, rfl, member⟩
  · rintro ⟨name, rest, rfl, named⟩
    refine ⟨_, named, ?_⟩
    rw [List.map_append]
    exact List.prefix_append _ _

-- What names a distribution is a name, in ASCII alone.
theorem isName_of_ofName? (told : Distribution.ofName? (String.ofList name) = some d) : IsName name := by
  have letters : name.map Char.toLower ∈ names := by
    have lower : (String.ofList name).toLower.toList = name.map Char.toLower := by
      change ((String.ofList name).map Char.toLower).toList = _
      rw [String.toList_map, String.toList_ofList]
    unfold Distribution.ofName? at told
    rw [← lower]
    split at told <;> cases told
    all_goals
      rename_i same
      rw [same]
      decide
  have same : name.map folded = name.map Char.toLower := by
    refine List.map_congr_left fun c member => ?_
    have letter : c.toLower ∈ names.flatten := List.mem_flatten_of_mem letters (List.mem_map_of_mem member)
    exact ((foldsTo_iff letter c).mp (by simp [foldsTo])).symm
  unfold IsName
  rwa [same]

end

section

-- Decimal digits of any script, one or more.
structure Run (cs : List Char) : Prop where
  given : cs ≠ []
  all : ∀ c ∈ cs, Text.isDecimalDigit c = true

def StartsDigit (cs : List Char) : Prop := cs.head?.any Text.isDecimalDigit = true

instance : DecidablePred StartsDigit := fun _ => inferInstanceAs (Decidable (_ = _))

theorem Run.starts (run : Run cs) (rest : List Char) : StartsDigit (cs ++ rest) := by
  cases cs with
  | nil => exact absurd rfl run.given
  | cons c cs => exact run.all c List.mem_cons_self

theorem takeDigits?_eq_none_iff : takeDigits? cs = none ↔ ¬ StartsDigit cs := by
  unfold takeDigits?
  rw [List.span_eq_takeWhile_dropWhile]
  cases cs with
  | nil => simp [StartsDigit]
  | cons c cs => by_cases digit : Text.isDecimalDigit c = true <;> simp [StartsDigit, digit]

theorem takeDigits?_append (run : Run digits) (stop : ¬ StartsDigit rest) :
    takeDigits? (digits ++ rest) = some (digits, rest) := by
  have stops : rest.takeWhile Text.isDecimalDigit = [] ∧ rest.dropWhile Text.isDecimalDigit = rest := by
    cases rest with
    | nil => exact ⟨rfl, rfl⟩
    | cons c rest =>
      have none : Text.isDecimalDigit c = false := by simpa [StartsDigit] using stop
      simp [none]
  unfold takeDigits?
  rw [List.span_eq_takeWhile_dropWhile, List.takeWhile_append_of_pos run.all, List.dropWhile_append_of_pos run.all,
    stops.1, stops.2, List.append_nil]
  split
  · rename_i nothing
    cases nothing
    exact absurd rfl run.given
  · rfl

theorem takeDigits?_eq_some_iff :
    takeDigits? cs = some (digits, rest) ↔ cs = digits ++ rest ∧ Run digits ∧ ¬ StartsDigit rest := by
  constructor
  · intro taken
    unfold takeDigits? at taken
    rw [List.span_eq_takeWhile_dropWhile] at taken
    split at taken
    · cases taken
    · rename_i given
      cases taken
      refine ⟨List.takeWhile_append_dropWhile.symm, ⟨fun nothing => given _ (Prod.ext nothing rfl), ?_⟩, ?_⟩
      · exact List.all_eq_true.mp List.all_takeWhile
      · have stop := List.head?_dropWhile_not Text.isDecimalDigit cs
        unfold StartsDigit
        cases first : (cs.dropWhile Text.isDecimalDigit).head? with
        | none => simp
        | some c =>
          rw [first] at stop
          simpa using stop
  · rintro ⟨rfl, run, stop⟩
    exact takeDigits?_append run stop

-- A point stands at the front of a text, with a digit behind it.
def StartsMinor (cs : List Char) : Prop := cs.head? = some '.' ∧ StartsDigit cs.tail

instance : DecidablePred StartsMinor := fun _ => inferInstanceAs (Decidable (_ ∧ _))

theorem takeMinor?_eq_none_iff : takeMinor? cs = none ↔ ¬ StartsMinor cs := by
  unfold takeMinor?
  split
  · simp [StartsMinor, takeDigits?_eq_none_iff]
  · rename_i other
    simp only [true_iff]
    rintro ⟨point, _⟩
    obtain ⟨rest, rfl⟩ := List.head?_eq_some_iff.mp point
    exact other rest rfl

theorem takeMinor?_eq_some_iff :
    takeMinor? cs = some (digits, rest) ↔ cs = '.' :: (digits ++ rest) ∧ Run digits ∧ ¬ StartsDigit rest := by
  unfold takeMinor?
  split
  · simp only [takeDigits?_eq_some_iff, List.cons.injEq, true_and]
  · rename_i other
    simp only [reduceCtorEq, false_iff]
    rintro ⟨point, _⟩
    exact other _ point

-- The numbers of a mark: none, one, or two with a point between them.
inductive Numbers : List Char → Option (List Char) → Option (List Char) → Prop where
  | zero : Numbers [] none none
  | one (major : Run cs) : Numbers cs (some cs) none
  | two (major : Run cs) (minor : Run ds) : Numbers (cs ++ '.' :: ds) (some cs) (some ds)

theorem Numbers.starts (numbered : Numbers numbers (some major) minor) (rest : List Char) :
    StartsDigit (numbers ++ rest) := by
  cases numbered with
  | one run => exact run.starts rest
  | two run =>
    rw [List.append_assoc]
    exact run.starts _

-- The numbers of a mark do not go on in the text behind them.
structure Ends (major minor : Option (List Char)) (rest : List Char) : Prop where
  digit : ¬ StartsDigit rest
  point : major.isSome → minor = none → ¬ StartsMinor rest

theorem ends_nil (major minor : Option (List Char)) : Ends major minor [] := by
  constructor
  · decide
  · exact fun _ _ => by decide

end

section

def separators : List (List Char) := [[], [':'], ['-'], ['_']]

def StartsSeparator (cs : List Char) : Prop := cs.head?.any [':', '-', '_'].contains = true

theorem startsSeparator_cons_iff : StartsSeparator (c :: cs) ↔ c = ':' ∨ c = '-' ∨ c = '_' := by
  simp [StartsSeparator]

theorem not_startsSeparator_of_startsDigit (digit : StartsDigit cs) : ¬ StartsSeparator cs := by
  cases cs with
  | nil => cases digit
  | cons c cs =>
    rw [startsSeparator_cons_iff]
    rintro (rfl | rfl | rfl)
    all_goals
      revert digit
      simp only [StartsDigit, List.head?_cons, Option.any_some]
      decide

-- Numbers, or the end of the text, are no separator.
theorem Numbers.not_startsSeparator (numbered : Numbers numbers major minor) (last : major = none → rest = []) :
    ¬ StartsSeparator (numbers ++ rest) := by
  cases major with
  | none =>
    cases numbered
    rw [last rfl]
    simp [StartsSeparator]
  | some major => exact not_startsSeparator_of_startsDigit (numbered.starts rest)

theorem dropSeparator_parts (cs : List Char) : ∃ separator ∈ separators, cs = separator ++ dropSeparator cs ∧
    (separator = [] → ¬ StartsSeparator (dropSeparator cs)) := by
  cases cs with
  | nil => exact ⟨[], by decide, rfl, by simp [StartsSeparator, dropSeparator]⟩
  | cons c cs =>
    by_cases marked : c = ':' ∨ c = '-' ∨ c = '_'
    · refine ⟨[c], ?_, ?_, by simp⟩
      · rcases marked with rfl | rfl | rfl <;> decide
      · rw [dropSeparator, if_pos (by simpa [or_assoc] using marked)]
        rfl
    · have kept : dropSeparator (c :: cs) = c :: cs := if_neg (by simpa [or_assoc] using marked)
      rw [kept]
      exact ⟨[], by decide, rfl, fun _ => mt startsSeparator_cons_iff.mp marked⟩

theorem dropSeparator_append (known : separator ∈ separators) (first : separator = [] → ¬ StartsSeparator rest) :
    dropSeparator (separator ++ rest) = rest := by
  simp only [separators, List.mem_cons, List.not_mem_nil, or_false] at known
  rcases known with rfl | rfl | rfl | rfl
  · cases rest with
    | nil => rfl
    | cons c rest => exact if_neg (by simpa [or_assoc] using mt startsSeparator_cons_iff.mpr (first rfl))
  all_goals rfl

end

section

-- A mark stands at the front of a text, and each of its parts is as long as it can be.
structure Mark.Begins (m : Mark) (cs : List Char) : Prop where
  name : IsName m.name
  spelled : ∃ separator ∈ separators, ∃ numbers, cs = m.name ++ (separator ++ (numbers ++ m.rest)) ∧
    Numbers numbers m.major m.minor ∧ (separator = [] → ¬ StartsSeparator (numbers ++ m.rest))
  ends : Ends m.major m.minor m.rest

theorem Mark.Begins.opens {m : Mark} (begins : m.Begins cs) : Opens cs := by
  obtain ⟨named, ⟨_, _, _, whole, _⟩, _⟩ := begins
  exact opens_iff.mpr ⟨m.name, _, whole, named⟩

theorem Mark.Begins.numbered {m : Mark} (begins : m.Begins cs) : ∃ numbers, Numbers numbers m.major m.minor := by
  obtain ⟨_, ⟨_, _, numbers, _, numbered, _⟩, _⟩ := begins
  exact ⟨numbers, numbered⟩

theorem markAt?_eq_some_iff : markAt? cs = some m ↔ m.Begins cs := by
  constructor
  · intro marked
    unfold markAt? at marked
    obtain ⟨⟨name, behind⟩, found, parts⟩ := Option.bind_eq_some_iff.mp marked
    obtain ⟨rfl, named⟩ := findName_eq_some_iff.mp found
    obtain ⟨separator, known, parted, first⟩ := dropSeparator_parts behind
    dsimp only at parts
    rw [parted]
    generalize dropSeparator behind = numbered at parts first
    split at parts
    · rename_i unnumbered
      cases parts
      exact ⟨named, ⟨separator, known, [], rfl, .zero, first⟩, takeDigits?_eq_none_iff.mp unnumbered, by simp⟩
    · rename_i major rest taken
      obtain ⟨rfl, run, stop⟩ := takeDigits?_eq_some_iff.mp taken
      split at parts
      · rename_i single
        cases parts
        exact ⟨named, ⟨separator, known, major, rfl, .one run, first⟩, stop,
          fun _ _ => takeMinor?_eq_none_iff.mp single⟩
      · rename_i minor rest taken
        cases parts
        obtain ⟨rfl, second, stop⟩ := takeMinor?_eq_some_iff.mp taken
        refine ⟨named, ⟨separator, known, major ++ '.' :: minor, ?_, .two run second, ?_⟩, stop, by simp⟩
        · simp
        · simpa using first
  · rintro ⟨named, ⟨separator, known, numbers, rfl, numbered, first⟩, digit, point⟩
    obtain ⟨name, major, minor, rest⟩ := m
    have found : names.findSome? (takeName? · (name ++ (separator ++ (numbers ++ rest)))) =
        some (name, separator ++ (numbers ++ rest)) := findName_eq_some_iff.mpr ⟨rfl, named⟩
    have dropped : dropSeparator (separator ++ (numbers ++ rest)) = numbers ++ rest := dropSeparator_append known first
    unfold markAt?
    rw [found, Option.bind_eq_bind, Option.bind_some]
    dsimp only
    rw [dropped]
    cases numbered with
    | zero =>
      rw [List.nil_append, takeDigits?_eq_none_iff.mpr digit]
      rfl
    | one run =>
      rw [takeDigits?_append run digit]
      dsimp only
      rw [takeMinor?_eq_none_iff.mpr (point rfl rfl)]
      rfl
    | @two cs ds run second =>
      have stop : ¬ StartsDigit ('.' :: (ds ++ rest)) := by
        simp only [StartsDigit, List.head?_cons, Option.any_some]
        decide
      rw [List.append_assoc, List.cons_append, takeDigits?_append run stop]
      dsimp only
      rw [takeMinor?_eq_some_iff.mpr ⟨rfl, second, digit⟩]
      rfl

theorem exists_begins (opens : Opens cs) : ∃ m : Mark, m.Begins cs := by
  obtain ⟨name, behind, whole, named⟩ := opens_iff.mp opens
  have found := findName_eq_some_iff.mpr ⟨whole, named⟩
  suffices marked : ∃ m, markAt? cs = some m from marked.imp fun _ => markAt?_eq_some_iff.mp
  unfold markAt?
  rw [found, Option.bind_eq_bind, Option.bind_some]
  dsimp only
  split
  · exact ⟨_, rfl⟩
  · split <;> exact ⟨_, rfl⟩

theorem markAt?_eq_none_iff : markAt? cs = none ↔ ¬ Opens cs := by
  constructor
  · intro closed opens
    obtain ⟨m, begins⟩ := exists_begins opens
    rw [markAt?_eq_some_iff.mpr begins] at closed
    cases closed
  · intro closed
    refine Option.eq_none_iff_forall_ne_some.mpr fun m marked => closed ?_
    exact (markAt?_eq_some_iff.mp marked).opens

end

section

-- The version that is written in digits behind a name. Where Ubuntu has no second number it is April.
inductive States (d : Distribution) : Option (List Char) → Option (List Char) → Version → Prop where
  | one (major : Text.Digits cs m.toNat) : States d (some cs) none ⟨m, if d = .ubuntu then 4 else 0⟩
  | two (major : Text.Digits cs m.toNat) (minor : Text.Digits ds n.toNat) : States d (some cs) (some ds) ⟨m, n⟩

-- A sign is no digit, so of the ways to write a number only its digits are left.
theorem Run.readWord?_eq_some_iff (run : Run cs) : Text.readWord? cs = some n ↔ Text.Digits cs n.toNat := by
  rw [Text.readWord?_eq_some_iff]
  constructor
  · intro written
    cases written with
    | plain digits => exact digits
    | signed digits =>
      have plus : Text.isDecimalDigit '+' = false := by decide
      rw [run.all '+' List.mem_cons_self] at plus
      cases plus
  · exact .plain

theorem versionOf_eq_some_iff (numbered : Numbers numbers major minor) :
    versionOf d major minor = some v ↔ States d major minor v := by
  unfold versionOf
  cases numbered with
  | zero =>
    simp only [Option.bind_eq_bind, Option.bind_none, reduceCtorEq, false_iff]
    nofun
  | one run =>
    simp only [Option.bind_eq_bind, Option.bind_some, Option.bind_eq_some_iff, run.readWord?_eq_some_iff,
      Option.pure_def, Option.some.injEq]
    constructor
    · rintro ⟨m, digits, rfl⟩
      exact .one digits
    · rintro ⟨digits⟩
      exact ⟨_, digits, rfl⟩
  | two run second =>
    simp only [Option.bind_eq_bind, Option.bind_some, Option.bind_eq_some_iff, run.readWord?_eq_some_iff,
      second.readWord?_eq_some_iff, Option.pure_def, Option.some.injEq]
    constructor
    · rintro ⟨m, major, n, minor, rfl⟩
      exact .two major minor
    · rintro (_ | ⟨major, minor⟩)
      exact ⟨_, major, _, minor, rfl⟩

theorem ofMark?_eq_some_iff (numbered : Numbers numbers m.major m.minor) : ofMark? m = some r ↔
    Distribution.ofName? (String.ofList m.name) = some r.distribution ∧
      ∀ v, r.version = some v ↔ States r.distribution m.major m.minor v := by
  unfold ofMark?
  simp only [Option.bind_eq_bind, Option.bind_eq_some_iff, Option.pure_def, Option.some.injEq,
    ← versionOf_eq_some_iff numbered]
  constructor
  · rintro ⟨d, named, rfl⟩
    exact ⟨named, fun _ => Iff.rfl⟩
  · rintro ⟨named, told⟩
    refine ⟨_, named, ?_⟩
    rw [← Option.ext told]

end

end ContainerRecipe.Release
