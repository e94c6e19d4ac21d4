import ContainerRecipe.CommandLine

namespace ContainerRecipe.CommandLine

def namesOf (place : String) : Path := FileTree.names place

def filesBelow (directory : String) : IO (List (Path × ByteArray)) := do
  let found ← (← IO.FS.realPath directory).walkDir
  let mut files := []
  for place in found do
    if !(← place.isDir) then
      files := (namesOf place.toString, ← IO.FS.readBinFile place) :: files
  return files.reverse

def readTree (words : List String) : IO FileTree := do
  let directory := namesOf (← IO.FS.realPath ".").toString
  match Request.read words with
  | .ok (.render r) =>
    let here ← filesBelow "."
    let beside ←
      match FileTree.parent r.recipe with
      | some parent =>
        try filesBelow parent
        catch _ => pure []
      | none => pure []
    return { files := here ++ beside, directory }
  | _ => return { directory }

end ContainerRecipe.CommandLine

open ContainerRecipe.CommandLine in
def main (words : List String) : IO UInt32 := do
  let tree ← readTree words
  let ending := run words tree
  for warning in ending.warnings do
    IO.eprintln (" WARN " ++ warning.message)
  if let some failure := ending.failure then
    IO.eprintln failure.message
  for (place, _) in tree.files do
    if !ending.tree.isFile place then
      IO.FS.removeFile place.text
  for (place, bytes) in ending.tree.files do
    if !tree.files.contains (place, bytes) then
      IO.FS.writeBinFile place.text bytes
  IO.print (ending.output ++ ending.printed)
  return ending.exitCode
