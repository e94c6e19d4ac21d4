import ContainerRecipe.Text.Blank
import ContainerRecipe.Text.Lines

namespace ContainerRecipe.Text

-- Width of a filled comment line, the mark included.
def commentWidth : Nat := 70

-- Continues `line` with `words`. A word joins the line while both, with a space between them, stay within
-- `width` bytes; otherwise the line is closed and the word opens the next one after `lead`.
def fillFrom (width : Nat) (lead line : String) : List String → List String
  | [] => [line]
  | word :: rest =>
    if line.utf8ByteSize + 1 + word.utf8ByteSize ≤ width then
      fillFrom width lead (line ++ " " ++ word) rest
    else
      line :: fillFrom width lead (lead ++ word) rest

-- Fills lines greedily. A word wider than the line gets a line of its own.
def wrap (s : String) (width : Nat) (lead : String) : List String :=
  match words s with
  | [] => []
  | word :: rest => fillFrom width lead (lead ++ word) rest

def commentLine (line : String) : String := if line = "" then "#" else "# " ++ line

-- A blank text has no comment.
def comment (s : String) (reformat : Bool) : String :=
  if isBlankText s then ""
  else if reformat then "\n".intercalate (wrap s commentWidth "# ")
  else "\n".intercalate ((lines s).map commentLine)

end ContainerRecipe.Text
