import ContainerRecipe.NameError
import ContainerRecipe.Text.Blank
import ContainerRecipe.Text.Digit

namespace ContainerRecipe

structure Version where
  major : UInt32
  minor : UInt32
  deriving DecidableEq, Repr

namespace Version

-- A later major number wins, whatever the minor numbers are.
instance : LT Version := ⟨fun a b => a.major < b.major ∨ a.major = b.major ∧ a.minor < b.minor⟩
instance : LE Version := ⟨fun a b => ¬ b < a⟩
instance (a b : Version) : Decidable (a < b) :=
  inferInstanceAs (Decidable (a.major < b.major ∨ a.major = b.major ∧ a.minor < b.minor))
instance (a b : Version) : Decidable (a ≤ b) := inferInstanceAs (Decidable (¬ b < a))

def text (v : Version) : String := Nat.repr v.major.toNat ++ "." ++ Nat.repr v.minor.toNat

def ofParts? : List (List Char) → Option Version
  | [major] => do return ⟨← Text.readWord? major, 0⟩
  | [major, minor] => do return ⟨← Text.readWord? major, ← Text.readWord? minor⟩
  | [major, minor, patch] => do
    let version : Version := ⟨← Text.readWord? major, ← Text.readWord? minor⟩
    let _ ← Text.readWord? patch
    return version
  | _ => none

def ofText? (s : String) : Option Version := ofParts? ((Text.trimChars s.toList).splitOn '.')

def parse (s : String) : Except NameError Version :=
  match ofText? s with
  | some version => .ok version
  | none => .error (.invalidVersion s)

def sort (versions : List Version) : List Version := versions.mergeSort fun a b => a ≤ b

end Version

end ContainerRecipe
