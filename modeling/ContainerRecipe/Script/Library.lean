import ContainerRecipe.Script.Fault
import ContainerRecipe.Script.Value

namespace ContainerRecipe.Script

-- What a function of the library gives back. It has no stage to give.
inductive Reply where
  | nil
  | flag (b : Bool)
  | number (n : Number)
  | bytes (content : ByteArray)
  | function (name : String)
  | table (fields : List (String × Reply))

structure LibraryCall where
  name : String
  arguments : List Datum

structure Deed where
  result : Except Fault (List Reply)
  printed : String := ""
  tree : FileTree

-- The library of the language, which is not part of this program: what comes of a call may depend on all calls
-- before it, the last of which stands first, and on the files. Its functions are told what their arguments
-- hold; they do not call functions back, nor change the tables that they are given.
structure Library where
  answer : List LibraryCall → LibraryCall → FileTree → Deed

namespace Library

variable (l : Library) (tree : FileTree)

def filesAfter : List LibraryCall → FileTree
  | [] => tree
  | call :: before => (l.answer before call (filesAfter before)).tree

def printedBy : List LibraryCall → String
  | [] => ""
  | call :: before => printedBy before ++ (l.answer before call (l.filesAfter tree before)).printed

end Library

-- What is shown of a text, a number or another plain value.
def shown : Datum → String
  | .null => "nil"
  | .flag b => if b then "true" else "false"
  | .number literal => literal
  | .text s => s
  | _ => ""

namespace Library

def remove (tree : FileTree) (path : String) : Deed :=
  match tree.remove path with
  | .ok tree => { result := .ok [.flag true], tree }
  | .error cause =>
    let number := .number (.integer (Int64.ofNat (cause.number?.getD 0)))
    { result := .ok [.nil, .bytes (path ++ ": " ++ cause.reason).toUTF8, number], tree }

-- A library of few functions. All others do nothing in it.
def basic : Library where
  answer _ call tree :=
    let texts := call.arguments.map shown
    match call.name with
    | "error" => { result := .error (.misuse (.raised (texts.headD ""))), tree }
    | "print" => { result := .ok [], printed := "\t".intercalate texts ++ "\n", tree }
    | "io.write" => { result := .ok [], printed := String.join texts, tree }
    | "os.remove" => remove tree (texts.headD "")
    | _ => { result := .ok [], tree }

end Library

end ContainerRecipe.Script
