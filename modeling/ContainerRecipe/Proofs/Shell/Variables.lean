import Mathlib.Data.List.Basic

namespace ContainerRecipe

inductive Piece where
  | letter (c : Char)
  -- The value that the variable has at the time.
  | reference (name : String)
  deriving DecidableEq

namespace Piece

-- A dollar sign without a name stands for itself.
def named : List Char → Piece
  | [] => .letter '$'
  | name => .reference (String.ofList name)

def inName (name : List Char) (c : Char) : Bool :=
  c.isAlpha || c == '_' || (c.isDigit && !name.isEmpty)

-- With a name, what has been read of it; the name after a dollar sign is as long as it can be.
def split : Option (List Char) → List Char → List Piece
  | none, [] => []
  | some name, [] => [named name]
  | none, c :: rest => if c = '$' then split (some []) rest else .letter c :: split none rest
  | some name, c :: rest =>
    if inName name c then split (some (name ++ [c])) rest
    else if c = '$' then named name :: split (some []) rest
    else named name :: .letter c :: split none rest

end Piece

def pieces (value : String) : List Piece := Piece.split none value.toList

example : pieces "/a:$PATH:$5" =
    [.letter '/', .letter 'a', .letter ':', .reference "PATH", .letter ':', .letter '$', .letter '5'] := by
  decide +kernel

abbrev Variables := String → Option String

-- Assignments that are made at once: every value is read before the first of them.
abbrev Step := List (String × String)

namespace Variables

-- A variable that is not set reads as nothing.
def spellPiece (σ : Variables) : Piece → List Char
  | .letter c => [c]
  | .reference name => ((σ name).getD "").toList

def spell (σ : Variables) (value : List Piece) : String := String.ofList (value.flatMap σ.spellPiece)

def assign (σ : Variables) (step : Step) : Variables := fun name =>
  match step.lookup name with
  | some value => some (σ.spell (pieces value))
  | none => σ name

def run (σ : Variables) (steps : List Step) : Variables := steps.foldl assign σ

theorem run_append (σ : Variables) (first second : List Step) :
    σ.run (first ++ second) = (σ.run first).run second := List.foldl_append

theorem run_cons (σ : Variables) (step : Step) (steps : List Step) :
    σ.run (step :: steps) = (σ.assign step).run steps := rfl

theorem assign_of_bound (σ : Variables) {step : Step} (bound : step.lookup name = some value) :
    σ.assign step name = some (σ.spell (pieces value)) := by
  simp only [assign, bound]

theorem assign_of_free (σ : Variables) {step : Step} (free : step.lookup name = none) :
    σ.assign step name = σ name := by
  simp only [assign, free]

-- A variable that no step assigns keeps its value.
theorem run_of_free (σ : Variables) (steps : List Step) (free : ∀ step ∈ steps, step.lookup name = none) :
    σ.run steps name = σ name := by
  induction steps generalizing σ with
  | nil => rfl
  | cons step steps ih =>
    rw [run_cons, ih _ fun later member => free later (List.mem_cons_of_mem _ member)]
    exact assign_of_free σ (free step List.mem_cons_self)

-- A value is read the same where the variables it refers to are the same.
theorem spell_congr {σ τ : Variables} {value : List Piece}
    (same : ∀ name, .reference name ∈ value → σ name = τ name) : σ.spell value = τ.spell value := by
  have piece : ∀ p ∈ value, σ.spellPiece p = τ.spellPiece p := by
    intro p member
    cases p with
    | letter c => rfl
    | reference name => simp only [spellPiece, same name member]
  exact congrArg String.ofList (List.flatMap_congr piece)

theorem spell_cons_cancel {σ : Variables} (same : σ.spell (p :: v) = σ.spell (p :: w)) :
    σ.spell v = σ.spell w := by
  have chars := String.ofList_injective same
  simp only [List.flatMap_cons, List.append_cancel_left_eq] at chars
  exact congrArg String.ofList chars

end Variables

-- What has been made of each variable, over the variables before; nothing for one that was not assigned.
abbrev Account := String → Option (List Piece)

namespace Account

def substitute (μ : Account) : Piece → List Piece
  | .letter c => [.letter c]
  | .reference name => (μ name).getD [.reference name]

def assign (μ : Account) (step : Step) : Account := fun name =>
  match step.lookup name with
  | some value => some ((pieces value).flatMap μ.substitute)
  | none => μ name

def ofSteps (steps : List Step) : Account := steps.foldl assign fun _ => none

-- The environment that an account tells of.
def settle (μ : Account) (σ : Variables) : Variables := fun name =>
  match μ name with
  | some value => some (σ.spell value)
  | none => σ name

theorem spell_settle (μ : Account) (σ : Variables) (value : List Piece) :
    (μ.settle σ).spell value = σ.spell (value.flatMap μ.substitute) := by
  have piece : ∀ p, (μ.settle σ).spellPiece p = (μ.substitute p).flatMap σ.spellPiece := by
    intro p
    cases p with
    | letter c => rfl
    | reference name =>
      cases made : μ name with
      | none => simp [Variables.spellPiece, substitute, settle, made]
      | some value => simp [Variables.spellPiece, substitute, settle, made, Variables.spell]
  have pieces : (μ.settle σ).spellPiece = fun p => (μ.substitute p).flatMap σ.spellPiece := funext piece
  simp only [Variables.spell, List.flatMap_assoc, pieces]

theorem settle_assign (μ : Account) (σ : Variables) (step : Step) :
    (μ.settle σ).assign step = (μ.assign step).settle σ := by
  funext name
  cases bound : step.lookup name with
  | none => simp only [Variables.assign, assign, settle, bound]
  | some value => simp only [Variables.assign, assign, settle, bound, ← spell_settle]

theorem settle_foldl (μ : Account) (σ : Variables) (steps : List Step) :
    (μ.settle σ).run steps = (steps.foldl assign μ).settle σ := by
  induction steps generalizing μ with
  | nil => rfl
  | cons step steps ih => rw [Variables.run_cons, settle_assign, ih, List.foldl_cons]

-- The account of some steps tells what they do to every environment.
theorem run_eq_settle (σ : Variables) (steps : List Step) : σ.run steps = (ofSteps steps).settle σ :=
  settle_foldl (fun _ => none) σ steps

-- Values that start apart: letters differ as such, and variables can be given values that differ.
theorem exists_spell_ne (apart : p ≠ q) (v w : List Piece) :
    ∃ σ : Variables, σ.spell (p :: v) ≠ σ.spell (q :: w) := by
  have heads : ∀ (σ : Variables) (a b : Char) (s t : List Char), a ≠ b →
      σ.spellPiece p = a :: s → σ.spellPiece q = b :: t → σ.spell (p :: v) ≠ σ.spell (q :: w) := by
    intro σ a b s t differ left right same
    have chars := String.ofList_injective same
    simp only [List.flatMap_cons, left, right, List.cons_append, List.cons.injEq] at chars
    exact differ chars.1
  have other : ∀ c : Char, ∃ d : Char, c ≠ d := by
    intro c
    by_cases same : c = 'a'
    · exact ⟨'b', same ▸ by decide⟩
    · exact ⟨'a', same⟩
  cases p with
  | letter a =>
    obtain ⟨b, differ⟩ := other a
    cases q with
    | letter c =>
      have letters : a ≠ c := fun same => apart (congrArg _ same)
      exact ⟨fun _ => none, heads _ a c [] [] letters rfl rfl⟩
    | reference name =>
      refine ⟨fun _ => some (String.ofList [b]), heads _ a b [] [] differ rfl ?_⟩
      simp [Variables.spellPiece]
  | reference name =>
    cases q with
    | letter c =>
      obtain ⟨b, differ⟩ := other c
      refine ⟨fun _ => some (String.ofList [b]), heads _ b c [] [] (Ne.symm differ) ?_ rfl⟩
      simp [Variables.spellPiece]
    | reference second =>
      have names : name ≠ second := fun same => apart (congrArg _ same)
      refine ⟨fun n => if n = name then some "a" else some "b",
        heads _ 'a' 'b' [] [] (by decide) ?_ ?_⟩
      · simp [Variables.spellPiece]
      · simp [Variables.spellPiece, Ne.symm names]

theorem eq_of_spell_eq {v w : List Piece} (same : ∀ σ : Variables, σ.spell v = σ.spell w) : v = w := by
  -- With a letter for every variable, something reads longer than nothing.
  let letters : Variables := fun _ => some "a"
  have nonempty : ∀ p w, letters.spell [] ≠ letters.spell (p :: w) := by
    intro p w empty
    have chars := String.ofList_injective empty
    cases p <;> simp [Variables.spellPiece, letters] at chars
  induction v generalizing w with
  | nil =>
    cases w with
    | nil => rfl
    | cons q w => exact absurd (same letters) (nonempty q w)
  | cons p v ih =>
    cases w with
    | nil => exact absurd (same letters).symm (nonempty p v)
    | cons q w =>
      by_cases first : p = q
      · subst first
        rw [ih fun σ => Variables.spell_cons_cancel (same σ)]
      · obtain ⟨σ, differ⟩ := exists_spell_ne first v w
        exact absurd (same σ) differ

theorem run_eq_iff (first second : List Step) :
    (∀ σ : Variables, σ.run first = σ.run second) ↔ ofSteps first = ofSteps second := by
  simp only [run_eq_settle]
  constructor
  · intro same
    funext name
    have values : ∀ σ : Variables, (ofSteps first).settle σ name = (ofSteps second).settle σ name :=
      fun σ => congrFun (same σ) name
    cases left : ofSteps first name with
    | none =>
      cases right : ofSteps second name with
      | none => rfl
      | some value => simpa [settle, left, right] using values fun _ => none
    | some value =>
      cases right : ofSteps second name with
      | none => simpa [settle, left, right] using values fun _ => none
      | some other =>
        simp only [settle, left, right, Option.some.injEq] at values
        rw [eq_of_spell_eq values]
  · intro same σ
    rw [same]

end Account

end ContainerRecipe
