import ContainerRecipe.Platform.Distribution

namespace ContainerRecipe

structure Release where
  distribution : Distribution
  version : Option Version
  deriving DecidableEq, Repr

namespace Release

def names : List (List Char) :=
  ["ubuntu", "centos", "rockylinux", "almalinux", "rhel", "ubi"].map String.toList

-- Two letters outside ASCII fold to the case of an ASCII one: the long s and the Kelvin sign.
def foldsTo (letter c : Char) : Bool :=
  c.toLower == letter || (c == '\u017F' && letter == 's') || (c == '\u212A' && letter == 'k')

def takeName? : List Char → List Char → Option (List Char × List Char)
  | [], cs => some ([], cs)
  | letter :: name, c :: cs =>
    if foldsTo letter c then (takeName? name cs).map fun (taken, rest) => (c :: taken, rest)
    else none
  | _ :: _, [] => none

structure Mark where
  name : List Char
  major : Option (List Char)
  minor : Option (List Char)
  rest : List Char
  deriving DecidableEq, Repr

def dropSeparator : List Char → List Char
  | c :: cs => if c = ':' || c = '-' || c = '_' then cs else c :: cs
  | [] => []

def takeDigits? (cs : List Char) : Option (List Char × List Char) :=
  match cs.span Text.isDecimalDigit with
  | ([], _) => none
  | taken => some taken

def takeMinor? : List Char → Option (List Char × List Char)
  | '.' :: cs => takeDigits? cs
  | _ => none

def markAt? (cs : List Char) : Option Mark := do
  let (name, rest) ← names.findSome? (takeName? · cs)
  let rest := dropSeparator rest
  match takeDigits? rest with
  | none => return { name, major := none, minor := none, rest }
  | some (major, rest) =>
    match takeMinor? rest with
    | none => return { name, major := some major, minor := none, rest }
    | some (minor, rest) => return { name, major := some major, minor := some minor, rest }

def findMark? : List Char → Option Mark
  | [] => none
  | c :: cs => (markAt? (c :: cs)).or (findMark? cs)

-- The version a mark names. A number that is not a version's leaves it unnamed.
def versionOf (d : Distribution) (major minor : Option (List Char)) : Option Version := do
  let major ← Text.readWord? (← major)
  match minor with
  | some minor => return ⟨major, ← Text.readWord? minor⟩
  -- The long-term releases of Ubuntu all come in April.
  | none => return ⟨major, if d = .ubuntu then 4 else 0⟩

-- A name in letters that only fold to ASCII is a mark, but names no distribution.
def ofMark? (m : Mark) : Option Release := do
  let d ← Distribution.ofName? (String.ofList m.name)
  return ⟨d, versionOf d m.major m.minor⟩

def infer? (image : String) : Option Release := findMark? image.toList >>= ofMark?

def ofText? (s : String) : Option Release := do
  let m ← markAt? (Text.trimChars s.toList)
  if m.rest.isEmpty then ofMark? m else none

def parse (s : String) : Except NameError Release :=
  match ofText? s with
  | some r => .ok r
  | none => .error (.unsupportedDistribution s)

def versionOrDefault (r : Release) : Version := r.version.getD r.distribution.defaultVersion

def text (r : Release) : String :=
  match r.version with
  | some v => r.distribution.text ++ r.distribution.versionLabel v
  | none => r.distribution.text

end Release

end ContainerRecipe
