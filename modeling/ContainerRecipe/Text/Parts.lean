namespace ContainerRecipe.Text

def occursIn (part : List Char) : List Char → Bool
  | [] => part.isEmpty
  | c :: cs => part.isPrefixOf (c :: cs) || occursIn part cs

def cutFirst? (mark : Char) (cs : List Char) : Option (List Char × List Char) :=
  match cs.span (· != mark) with
  | (_, []) => none
  | (before, _ :: after) => some (before, after)

def cutLast? (mark : Char) (cs : List Char) : Option (List Char × List Char) :=
  (cutFirst? mark cs.reverse).map fun (after, before) => (before.reverse, after.reverse)

def afterLast (mark : Char) (s : String) : String :=
  match cutLast? mark s.toList with
  | some (_, after) => String.ofList after
  | none => s

def dropTrailing (mark : Char) (s : String) : String :=
  String.ofList (s.toList.reverse.dropWhile (· == mark)).reverse

def dropEnding? (ending : String) (s : String) : Option String :=
  (ending.toList.isSuffixOf? s.toList).map String.ofList

def startsWith (part s : String) : Bool := part.toList.isPrefixOf s.toList

def endsWith (ending s : String) : Bool := ending.toList.isSuffixOf s.toList

end ContainerRecipe.Text
