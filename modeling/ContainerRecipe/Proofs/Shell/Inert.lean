import ContainerRecipe.Proofs.Shell.Quoting

namespace ContainerRecipe

namespace Shell

-- A character outside of single quotes, by itself or with a backslash before it.
inductive Exposed where
  | plain (c : Char)
  | escaped (c : Char)
  deriving DecidableEq

inductive Place where
  | outside
  | between
  -- Outside of single quotes, with a backslash just read.
  | behind
  deriving DecidableEq

-- What has been found outside of single quotes so far.
structure Reading where
  place : Place := .outside
  found : List Exposed := []
  deriving DecidableEq

namespace Reading

-- Between single quotes everything but a single quote is passed over. A double quote begins nothing here: it is
-- found like other characters, and is not harmless.
def step (r : Reading) (c : Char) : Reading :=
  match r.place with
  | .outside =>
    if c = '\'' then { r with place := .between }
    else if c = '\\' then { r with place := .behind }
    else { r with found := r.found ++ [.plain c] }
  | .between => if c = '\'' then { r with place := .outside } else r
  | .behind => { place := .outside, found := r.found ++ [.escaped c] }

end Reading

-- A text that is read from outside of single quotes to outside of them, with what is found in it.
def Exposes (cs : List Char) (found : List Exposed) : Prop :=
  ∀ earlier, cs.foldl Reading.step ⟨.outside, earlier⟩ = ⟨.outside, earlier ++ found⟩

-- The characters that a shell takes as they are, and the one that a backslash may stand before.
def Exposed.Harmless : Exposed → Prop
  | .plain c => c.isAlphanum = true ∨ c ∈ ['_', '-', '+', '=', '.', '/', ',', ':', '@', '%', '^']
  | .escaped c => c = '\''

instance : DecidablePred Exposed.Harmless
  | .plain _ => inferInstanceAs (Decidable (_ ∨ _))
  | .escaped _ => inferInstanceAs (Decidable (_ = _))

-- What expansions, patterns, comments, operators, redirections, groups and quotes are written with.
def active : List Char :=
  ['$', '\x60', '~', '*', '?', '[', ']', '#', '!', '&', '|', ';', '<', '>', '(', ')', '\x7b', '\x7d', '\'', '"', '\\']

structure Inert (cs : List Char) (found : List Exposed) : Prop where
  exposes : Exposes cs found
  harmless : ∀ e ∈ found, e.Harmless

theorem harmless_plain_iff : (Exposed.plain c).Harmless ↔ isLiteral c = true := by
  simp only [Exposed.Harmless, isLiteral, Bool.or_eq_true, List.contains_eq_mem, decide_eq_true_eq]

theorem inactive_of_harmless (harmless : (Exposed.plain c).Harmless) : Text.isBlank c = false ∧ c ∉ active := by
  have apart : (active.all fun a => !isLiteral a) = true := by decide
  have literal := harmless_plain_iff.mp harmless
  refine ⟨(bare_of_isLiteral literal).1, fun among => ?_⟩
  have other := List.all_eq_true.mp apart c among
  rw [literal] at other
  cases other

theorem Exposes.append (first : Exposes cs found) (second : Exposes ds more) : Exposes (cs ++ ds) (found ++ more) := by
  intro earlier
  rw [List.foldl_append, first earlier, second, List.append_assoc]

theorem Inert.append (first : Inert cs found) (second : Inert ds more) : Inert (cs ++ ds) (found ++ more) where
  exposes := first.exposes.append second.exposes
  harmless := List.forall_mem_append.mpr ⟨first.harmless, second.harmless⟩

theorem exposes_intercalate (exposed : List.Forall₂ Exposes parts founds) :
    Exposes ([' '].intercalate parts) ([.plain ' '].intercalate founds) := by
  induction exposed with
  | nil => exact fun earlier => by simp
  | @cons cs found parts founds here others ih =>
    cases others with
    | nil => simpa using here
    | cons next rest =>
      have space : Exposes [' '] [.plain ' '] := fun _ => rfl
      rw [List.intercalate_cons_cons, List.intercalate_cons_cons]
      exact (here.append space).append ih

section

theorem inert_literals {cs : List Char} (literals : cs.all isLiteral = true) : Inert cs (cs.map .plain) where
  exposes := by
    intro earlier
    induction cs generalizing earlier with
    | nil => simp
    | cons c rest ih =>
      obtain ⟨first, others⟩ := by simpa only [List.all_cons, Bool.and_eq_true] using literals
      obtain ⟨-, single, -, backslash⟩ := bare_of_isLiteral first
      have here : Reading.step ⟨.outside, earlier⟩ c = ⟨.outside, earlier ++ [.plain c]⟩ := by
        simp [Reading.step, single, backslash]
      rw [List.foldl_cons, here, ih others, List.append_assoc]
      rfl
  harmless := by
    intro e member
    obtain ⟨c, among, rfl⟩ := List.mem_map.mp member
    exact harmless_plain_iff.mpr (List.all_eq_true.mp literals c among)

-- A single quote of the word is where the quotes are left for an escaped one, and nothing else is outside.
theorem foldl_quotedChars_between (word : List Char) (earlier : List Exposed) :
    (quotedChars word).foldl Reading.step ⟨.between, earlier⟩ =
      ⟨.between, earlier ++ List.replicate (word.count '\'') (.escaped '\'')⟩ := by
  induction word generalizing earlier with
  | nil => simp [quotedChars]
  | cons c word ih =>
    rw [quotedChars_cons, List.foldl_append]
    by_cases quote : c = '\''
    · have here : (quotedChars [c]).foldl Reading.step ⟨.between, earlier⟩ =
          ⟨.between, earlier ++ [.escaped '\'']⟩ := by
        simp [quotedChars, quote, Reading.step]
      rw [here, ih, quote, List.count_cons_self, List.replicate_succ, List.append_assoc]
      rfl
    · have here : (quotedChars [c]).foldl Reading.step ⟨.between, earlier⟩ = ⟨.between, earlier⟩ := by
        simp [quotedChars, quote, Reading.step]
      rw [here, ih, List.count_cons_of_ne quote]

theorem inert_quoted (word : List Char) :
    Inert ('\'' :: quotedChars word ++ ['\'']) (List.replicate (word.count '\'') (.escaped '\'')) where
  exposes := by
    intro earlier
    have opened : Reading.step ⟨.outside, earlier⟩ '\'' = ⟨.between, earlier⟩ := rfl
    rw [List.cons_append, List.foldl_cons, opened, List.foldl_append, foldl_quotedChars_between]
    rfl
  harmless := by
    intro e member
    obtain rfl := List.eq_of_mem_replicate member
    decide

-- What a word has outside of quotes when it is quoted.
def exposedOf (word : List Char) : List Exposed :=
  if !word.isEmpty && word.all isLiteral then word.map .plain
  else List.replicate (word.count '\'') (.escaped '\'')

theorem inert_quoteWord (word : String) : Inert (quoteWord word).toList (exposedOf word.toList) := by
  rw [quoteWord, String.toList_ofList, quoteChars, exposedOf]
  split
  · rename_i plain
    exact inert_literals (Bool.and_eq_true_iff.mp plain).2
  · exact inert_quoted word.toList

example : (quoteWord "it's $HOME").toList.foldl Reading.step {} = ⟨.outside, [.escaped '\'']⟩ := by decide

end

end Shell

namespace Toolchain

-- What the assignment of a value to a name has outside of quotes.
def exposedIn (setting : String × String) : List Shell.Exposed :=
  (setting.1 ++ "=").toList.map .plain ++ Shell.exposedOf setting.2.toList

theorem inert_assignment {t : Toolchain} (member : setting ∈ t.settings) :
    Shell.Inert (setting.1 ++ "=" ++ Shell.quoteWord setting.2).toList (exposedIn setting) := by
  obtain ⟨v, -, given⟩ := List.mem_filterMap.mp member
  obtain ⟨value, -, rfl⟩ := Option.map_eq_some_iff.mp given
  rw [String.toList_append]
  exact (Shell.inert_literals (literal_name v)).append (Shell.inert_quoteWord value)

theorem exposes_assignments (t : Toolchain) :
    Shell.Exposes t.assignments.toList ([.plain ' '].intercalate (t.settings.map exposedIn)) := by
  rw [assignments, String.toList_intercalate]
  apply Shell.exposes_intercalate
  rw [List.map_map, List.forall₂_map_left_iff, List.forall₂_map_right_iff, List.forall₂_same]
  exact fun setting member => (inert_assignment member).exposes

-- Quoted words are inert, and so is each assignment of a toolchain, with single spaces as all that is between
-- them: no blank and none of the active characters is among those that stand outside of quotes for themselves.
theorem quoted_inert :
    (∀ word : String, ∃ found, Shell.Inert (Shell.quoteWord word).toList found) ∧
      (∀ t : Toolchain, ∃ founds,
        Shell.Exposes t.assignments.toList ([.plain ' '].intercalate founds) ∧
          List.Forall₂ (fun (name, value) => Shell.Inert (name ++ "=" ++ Shell.quoteWord value).toList)
            t.settings founds) ∧
      ∀ c, (Shell.Exposed.plain c).Harmless → Text.isBlank c = false ∧ c ∉ Shell.active := by
  refine ⟨fun word => ⟨_, Shell.inert_quoteWord word⟩, fun t => ⟨_, exposes_assignments t, ?_⟩,
    fun _ => Shell.inactive_of_harmless⟩
  rw [List.forall₂_map_right_iff, List.forall₂_same]
  exact fun setting member => inert_assignment member

end Toolchain

end ContainerRecipe
