import ContainerRecipe.CommandLine.Request
import ContainerRecipe.Proofs.CommandLine.Arguments
import Mathlib.Tactic.SplitIfs

namespace ContainerRecipe.CommandLine

open Grammar

variable {xs ys : List Argument} {path : String}

namespace RenderRequest

variable {r r' : RenderRequest}

def into (r : RenderRequest) (path : String) : RenderRequest := { r with out := some path }

-- Some words that name a file to write.
def Names (option : List String) (path : String) : Prop :=
  grammar.arguments option = .ok [.parameter .out path] ∧ "--" ∉ option

theorem names_apart (option : word = "--out" ∨ word = "-o") (plain : isOption path = false) :
    Names [word, path] path := by
  have valued : nextValue .out [path] = .ok (path, []) := by simp [nextValue, plain]
  have told : grammar.options word [path] = .ok ([.parameter .out path], []) := by
    rcases option with rfl | rfl
    · change (nextValue .out [path] >>= _) >>= _ = _
      rw [valued]
      rfl
    · change nextValue .out [path] >>= _ = _
      rw [valued]
      rfl
  have apart : word ≠ "--" ∧ isOption word = true := by rcases option with rfl | rfl <;> decide
  constructor
  · rw [arguments_option apart.1 apart.2, told]
    rfl
  · have value : path ≠ "--" := by
      rintro rfl
      exact absurd plain (by decide)
    simp [apart.1.symm, value.symm]

variable {before after option words : List String}

end RenderRequest

end ContainerRecipe.CommandLine
