namespace ContainerRecipe.Text

def dropReturn (line : List Char) : List Char :=
  if line.getLast? = some '\r' then line.dropLast else line

-- Splits at line feeds. Only a part that was ended loses its carriage return.
def lineChars (cs : List Char) : List (List Char) :=
  let parts := cs.splitOn '\n'
  parts.dropLast.map dropReturn ++ parts.getLast?.toList.filter fun rest => !rest.isEmpty

def lines (s : String) : List String := (lineChars s.toList).map String.ofList

def indent (s margin : String) : String := "\n".intercalate ((lines s).map (margin ++ ·))

end ContainerRecipe.Text
