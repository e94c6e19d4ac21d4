import ContainerRecipe.CommandLine.Argument
import ContainerRecipe.Proofs.Outcome

namespace ContainerRecipe.CommandLine

namespace Grammar

section

-- A reader that does not look at the words it leaves: put in front of others, what it takes is read alike.
def Frugal (read : List String → Except UsageError (α × List String)) : Prop :=
  ∀ rest x left, read rest = .ok (x, left) →
    ∃ taken, rest = taken ++ left ∧ ∀ more, read (taken ++ more) = .ok (x, more)

theorem frugal_ok (x : α) : Frugal fun rest => .ok (x, rest) := by
  rintro rest y left ⟨⟩
  exact ⟨[], rfl, fun _ => rfl⟩

theorem frugal_error (e : UsageError) :
    Frugal fun _ => (.error e : Except UsageError (α × List String)) := nofun

theorem Frugal.map {read : List String → Except UsageError (α × List String)} (frugal : Frugal read) (f : α → β) :
    Frugal fun rest => read rest >>= fun result => .ok (f result.1, result.2) := by
  intro rest y left found
  dsimp only at found ⊢
  cases first : read rest with
  | error e =>
    rw [first] at found
    cases found
  | ok result =>
    rw [first] at found
    cases found
    obtain ⟨taken, parted, same⟩ := frugal _ _ _ first
    refine ⟨taken, parted, fun more => ?_⟩
    rw [same]
    rfl

theorem nextValue_frugal (p : Parameter) : Frugal (nextValue p) := by
  intro rest value left found
  cases rest with
  | nil => cases found
  | cons word rest =>
    simp only [nextValue] at found
    split at found
    · cases found
    · rename_i plain
      cases found
      exact ⟨[value], rfl, fun more => by simp [nextValue, plain]⟩

theorem longOption_frugal (g : Grammar) (word : String) : Frugal (g.longOption word) := by
  unfold longOption
  cases Text.cutFirst? '=' (word.toList.drop 2) with
  | none =>
    dsimp only
    cases g.switches.find? _ with
    | some s => exact frugal_ok (Argument.switch s)
    | none =>
      cases g.parameters.find? _ with
      | some p => exact (nextValue_frugal p).map (Argument.parameter p)
      | none => exact frugal_error (.unknown word)
  | some named =>
    dsimp only
    cases g.switches.find? _ with
    | some s => exact frugal_error (.unexpectedValue s.long)
    | none =>
      cases g.parameters.find? _ with
      | some p => exact frugal_ok (Argument.parameter p _)
      | none => exact frugal_error (.unknown word)

theorem shortOptions_frugal (g : Grammar) (cs : List Char) : Frugal (g.shortOptions cs) := by
  induction cs with
  | nil => exact frugal_ok []
  | cons c cs ih =>
    rw [funext fun rest => shortOptions.eq_2 g rest c cs]
    cases g.switches.find? (·.short? = some c) with
    | some s =>
      by_cases version : s = .version
      · simp only [if_pos version]
        exact frugal_ok [Argument.switch s]
      · simp only [if_neg version]
        exact ih.map (Argument.switch s :: ·)
    | none =>
      cases g.parameters.find? (·.short? = some c) with
      | none => exact frugal_error _
      | some p =>
        dsimp only
        split
        · exact (nextValue_frugal p).map fun value => [Argument.parameter p value]
        · exact frugal_ok [Argument.parameter p _]
        · exact frugal_ok [Argument.parameter p _]

theorem options_frugal (g : Grammar) (word : String) : Frugal (g.options word) := by
  unfold options
  by_cases long : Text.startsWith "--" word = true
  · simp only [if_pos long]
    exact (longOption_frugal g word).map fun argument => [argument]
  · simp only [if_neg long]
    exact shortOptions_frugal g _

end

section

variable {g : Grammar}

theorem length_left_le {read : List String → Except UsageError (α × List String)} (frugal : Frugal read)
    (found : read rest = .ok (x, left)) : left.length ≤ rest.length := by
  obtain ⟨taken, rfl, -⟩ := frugal _ _ _ found
  simp

-- Every word is looked at once at most, so any bound that is not less than their number is as good.
theorem argumentsWithin_congr {bound other : Nat} {words : List String} (enough : words.length ≤ bound)
    (enough' : words.length ≤ other) : g.argumentsWithin bound words = g.argumentsWithin other words := by
  induction bound generalizing other words with
  | zero =>
    obtain rfl := List.length_eq_zero_iff.mp (Nat.le_zero.mp enough)
    cases other <;> rfl
  | succ bound ih =>
    cases words with
    | nil => cases other <;> rfl
    | cons word rest =>
      cases other with
      | zero => simp at enough'
      | succ other =>
        simp only [List.length_cons, Nat.add_le_add_iff_right] at enough enough'
        simp only [argumentsWithin]
        rw [ih enough enough']
        cases told : g.options word rest with
        | error e => rfl
        | ok result =>
          have shorter := length_left_le (options_frugal g word) told
          simp only [bind, Except.bind]
          rw [ih (Nat.le_trans shorter enough) (Nat.le_trans shorter enough')]

theorem arguments_option (apart : word ≠ "--") (named : isOption word = true) :
    g.arguments (word :: rest) = g.options word rest >>= fun (xs, left) => (xs ++ ·) <$> g.arguments left := by
  simp only [arguments, List.length_cons, argumentsWithin, if_neg apart, if_pos named]
  cases told : g.options word rest with
  | error e => rfl
  | ok result =>
    have shorter := length_left_le (options_frugal g word) told
    simp only [bind, Except.bind]
    rw [argumentsWithin_congr shorter (Nat.le_refl _)]
    rfl

end

end Grammar

end ContainerRecipe.CommandLine
