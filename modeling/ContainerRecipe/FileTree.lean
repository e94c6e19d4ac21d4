import ContainerRecipe.Text.Parts

namespace ContainerRecipe

abbrev Path := List String

def Path.text (p : Path) : String := "/" ++ "/".intercalate p

def Path.directory (p : Path) : String := Path.text p.dropLast

def Path.holds (p q : Path) : Bool := p.isPrefixOf q

inductive FileError where
  | notFound
  | notADirectory
  | isADirectory
  | notText
  | nulCharacter
  | nameTooLong
  deriving DecidableEq, Repr

namespace FileError

def reason : FileError → String
  | .notFound => "No such file or directory"
  | .notADirectory => "Not a directory"
  | .isADirectory => "Is a directory"
  | .notText => "stream did not contain valid UTF-8"
  | .nulCharacter => "file name contained an unexpected NUL byte"
  | .nameTooLong => "File name too long"

-- The number that the system gives an error, if it is one of the system.
def number? : FileError → Option Nat
  | .notFound => some 2
  | .notADirectory => some 20
  | .isADirectory => some 21
  | .nameTooLong => some 36
  | .notText | .nulCharacter => none

def message (e : FileError) : String :=
  match e.number? with
  | some n => e.reason ++ " (os error " ++ Nat.repr n ++ ")"
  | none => e.reason

end FileError

-- A directory is there if something is below it or if it is named, and so is the one that work is done in.
structure FileTree where
  files : List (Path × ByteArray) := []
  directories : List Path := []
  directory : Path := []

namespace FileTree

def isFile (t : FileTree) (p : Path) : Bool := t.files.any (·.1 = p)

def isDirectory (t : FileTree) (p : Path) : Bool :=
  p.isEmpty || p.holds t.directory || t.directories.any p.holds ||
    t.files.any fun (file, _) => p.holds file && file ≠ p

def longestName : Nat := 255

def enter (t : FileTree) (p : Path) (name : String) : Except FileError Path :=
  if !t.isDirectory p then .error .notADirectory
  else if name = "." then .ok p
  else if name = ".." then .ok p.dropLast
  else if longestName < name.utf8ByteSize then .error .nameTooLong
  else if t.isFile (p ++ [name]) || t.isDirectory (p ++ [name]) then .ok (p ++ [name])
  else .error .notFound

def isAbsolute (path : String) : Bool := Text.startsWith "/" path

def names (path : String) : List String :=
  let names := ((path.toList.splitOn '/').filter fun name => !name.isEmpty).map String.ofList
  if Text.endsWith "/" path then names ++ ["."] else names

def start (t : FileTree) (path : String) : Path := if isAbsolute path then [] else t.directory

def checkPath (path : String) : Except FileError Unit :=
  if path.toList.contains '\x00' then .error .nulCharacter
  else if path = "" then .error .notFound
  else .ok ()

def follow (t : FileTree) (path : String) : Except FileError Path := do
  checkPath path
  (names path).foldlM t.enter (t.start path)

def longestPath : Nat := 4095

def resolve (t : FileTree) (path : String) : Except FileError Path := do
  checkPath path
  if longestPath < path.utf8ByteSize then throw .nameTooLong
  t.follow path

def contents (t : FileTree) (p : Path) : Except FileError ByteArray :=
  match t.files.lookup p with
  | some bytes => .ok bytes
  | none => .error (if t.isDirectory p then .isADirectory else .notFound)

def textAt (t : FileTree) (p : Path) : Except FileError String := do
  match String.fromUTF8? (← t.contents p) with
  | some s => return s
  | none => throw .notText

def readText (t : FileTree) (path : String) : Except FileError String := do
  t.textAt (← t.resolve path)

def put (t : FileTree) (p : Path) (bytes : ByteArray) : FileTree :=
  { t with files := t.files.filter (·.1 ≠ p) ++ [(p, bytes)] }

def destination (t : FileTree) (path : String) : Except FileError Path :=
  match t.resolve path with
  | .ok p => if t.isDirectory p then .error .isADirectory else .ok p
  | .error .notFound => do
    checkPath path
    let names := (path.toList.splitOn '/').map String.ofList
    let above ← ((names.dropLast.filter (· ≠ "")).foldlM t.enter (t.start path))
    match names.getLast? with
    | none | some "" => throw .isADirectory
    | some name => if t.isDirectory above then return above ++ [name] else throw .notADirectory
  | .error e => .error e

def write (t : FileTree) (path : String) (bytes : ByteArray) : Except FileError FileTree := do
  return t.put (← t.destination path) bytes

-- Takes a file away. The directory that it was in stays.
def remove (t : FileTree) (path : String) : Except FileError FileTree := do
  let p ← t.resolve path
  if !t.isFile p then throw .isADirectory
  return { t with files := t.files.filter (·.1 ≠ p), directories := p.dropLast :: t.directories }

def trimBack : List Char → List Char
  | ['/'] => ['/']
  | ['.', '/'] => ['/']
  | '/' :: cs => trimBack cs
  | '.' :: '/' :: cs => trimBack cs
  | cs => cs

def parent (path : String) : Option String :=
  (Text.cutLast? '/' path.toList).map fun (above, _) =>
    String.ofList (trimBack ('/' :: above.reverse)).reverse

def join (directory path : String) : String :=
  if isAbsolute path then path
  else if Text.endsWith "/" directory then directory ++ path
  else directory ++ "/" ++ path

end FileTree

end ContainerRecipe
