import ContainerRecipe.Block.Error
import ContainerRecipe.Target
import ContainerRecipe.Text.Parts

namespace ContainerRecipe

inductive Compression where
  | plain
  | gzip
  | bzip2
  | xz
  deriving DecidableEq, Repr

def Compression.option : Compression → String
  | .plain => ""
  | .gzip => " -z"
  | .bzip2 => " -j"
  | .xz => " -J"

structure Archive where
  url : String
  workspace : String
  file : String
  directory : String
  compression : Compression
  deriving DecidableEq, Repr

namespace Archive

-- The endings of the known kinds of archive. The first one that a file's name ends in counts.
def endings : List (String × Compression) :=
  [(".tar.gz", .gzip), (".tgz", .gzip), (".tar.bz2", .bzip2), (".tbz2", .bzip2), (".tar.xz", .xz),
    (".txz", .xz), (".tar", .plain)]

def splitEnding? (file : String) : Option (String × Compression) :=
  endings.findSome? fun (ending, compression) =>
    (Text.dropEnding? ending file).map (·, compression)

-- The archive behind a URL. It unpacks into a directory of its own name unless that is overridden.
def ofUrl (t : Target) (block url : String) (directory : Option String) :
    Except BlockError Archive :=
  let file := Text.afterLast '/' url
  match splitEnding? file with
  | some (stem, compression) => .ok
    { url, file, compression
      workspace := Text.dropTrailing '/' t.workingDirectory
      directory := directory.getD stem }
  | none => .error (.unknownArchive block file)

def sources (a : Archive) : String := a.workspace ++ "/" ++ a.directory

def download (a : Archive) : String := a.workspace ++ "/" ++ a.file

def fetch (a : Archive) : List String :=
  ["mkdir -p " ++ a.workspace ++ " && wget -q -nc --no-check-certificate -P " ++ a.workspace ++ " " ++
      a.url,
    "mkdir -p " ++ a.workspace ++ " && tar -x -f " ++ a.download ++ " -C " ++ a.workspace ++
      a.compression.option]

def cleanUp (a : Archive) : String := "rm -rf " ++ a.sources ++ " " ++ a.download

end Archive

end ContainerRecipe
