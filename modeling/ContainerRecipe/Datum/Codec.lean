import ContainerRecipe.Bindings
import ContainerRecipe.Datum
import ContainerRecipe.Text.Mended

namespace ContainerRecipe

structure Codec (α : Type) where
  write : α → Datum
  read : Datum → Except DecodeError α

namespace Datum

def mismatch : Datum → DecodeError
  | .function => .unsupported "function"
  | .stage => .unsupported "userdata"
  | .again => .recursive
  | _ => .wrongType

mutual

def obstacle? : Datum → Option DecodeError
  | .list items => obstacleIn? items
  | .record fields => obstacleInFields? fields
  | .table items others => if items.isEmpty then obstacleInPairs? others else obstacleIn? items
  | .function => some (mismatch .function)
  | .stage => some (mismatch .stage)
  | .again => some (mismatch .again)
  | _ => none

def obstacleIn? : List Datum → Option DecodeError
  | [] => none
  | d :: rest => d.obstacle?.orElse fun _ => obstacleIn? rest

def obstacleInFields? : List (String × Datum) → Option DecodeError
  | [] => none
  | (_, d) :: rest => d.obstacle?.orElse fun _ => obstacleInFields? rest

def obstacleInPairs? : List (Datum × Datum) → Option DecodeError
  | [] => none
  | (k, d) :: rest =>
    k.obstacle?.orElse fun _ => d.obstacle?.orElse fun _ => obstacleInPairs? rest

end

end Datum

namespace Codec

def Faithful (c : Codec α) : Prop := ∀ a, c.read (c.write a) = .ok a

def text : Codec String where
  write := .text
  read
    | .text s => .ok s
    | .bytes _ => .error .invalidValue
    | d => .error d.mismatch

def flag : Codec Bool where
  write := .flag
  read
    | .flag b => .ok b
    | d => .error d.mismatch

-- Reads an item of a table, which must not be the table itself.
def readItem (c : Codec α) : Datum → Except DecodeError α
  | .again => .error .recursive
  | d => c.read d

def list (c : Codec α) : Codec (List α) where
  write items := .list (items.map c.write)
  read
    | .list items => items.mapM c.read
    | .table items _ => items.mapM c.readItem
    | _ => .error .wrongType

-- A table's list has numbers for keys, so it is no part of a record.
def checkNoItems (items : List Datum) : Except DecodeError Unit :=
  match items.find? fun d => !d matches .null with
  | some .again => .error .recursive
  | some _ => .error .wrongType
  | none => .ok ()

-- A key and its value, where the key has to be a name. `named` reads a name that is not a text.
def readPair (named : ByteArray → Except DecodeError String) :
    Datum × Datum → Except DecodeError (String × Datum)
  | (.again, _) | (_, .again) => .error .recursive
  | (.text name, d) => .ok (name, d)
  | (.bytes content, d) => (named content).map (·, d)
  | (k, _) => .error k.mismatch

def readEntry (entry : String × Datum) : Except DecodeError (String × String) :=
  (text.read entry.2).map (entry.1, ·)

def bindings : Codec Bindings where
  write b := .record (b.entries.map fun (name, value) => (name, .text value))
  read
    | .record fields => (fields.mapM readEntry).map .ofList
    | .table items others => do
      checkNoItems items
      let fields ← others.mapM (readPair fun _ => .error .invalidValue)
      (fields.mapM readEntry).map .ofList
    | _ => .error .wrongType

def nullable (c : Codec α) : Codec (Option α) where
  write
    | some a => c.write a
    | none => .null
  read
    | .null => .ok none
    | d => (c.read d).map some

def word (print : α → String) (parse : String → Except NameError α) : Codec α where
  write a := .text (print a)
  read d := do
    match parse (← text.read d) with
    | .ok a => .ok a
    | .error cause => .error (.refused cause)

-- One of a closed set of values, written as its exact name. A name may stand as the only field of a record as
-- well, with nothing in it.
def choice (all : List α) (name : α → String) : Codec α where
  write a := .text (name a)
  read d := do
    let find (s : String) : Except DecodeError α :=
      match all.find? (name · = s) with
      | some a => .ok a
      | none => .error (.unknownVariant s)
    match d with
    | .record [(s, content)] =>
      let a ← find s
      match content with
      | .null => return a
      | _ => throw .wrongType
    | .record _ => throw .invalidValue
    | d => find (← text.read d)

end Codec

structure Field (σ : Type) where
  name : String
  needed : Bool
  write : σ → Option Datum
  read : Datum → Except DecodeError (σ → σ)

namespace Field

def required (name : String) (c : Codec α) (get : σ → α) (set : α → σ → σ) : Field σ where
  name
  needed := true
  write s := some (c.write (get s))
  read d := (c.read d).map set

def default (name : String) (c : Codec α) (get : σ → α) (set : α → σ → σ) : Field σ where
  name
  needed := false
  write s := some (c.write (get s))
  read d := (c.read d).map set

def unusual (name : String) (c : Codec α) (usual : α → Bool) (get : σ → α) (set : α → σ → σ) :
    Field σ where
  name
  needed := false
  write s := if usual (get s) then none else some (c.write (get s))
  read d := (c.read d).map set

def optional (name : String) (c : Codec α) (get : σ → Option α) (set : Option α → σ → σ) :
    Field σ where
  name
  needed := false
  write s := (get s).map c.write
  read d := (c.nullable.read d).map set

end Field

structure Layout (σ : Type) where
  blank : σ
  fields : List (Field σ)
  lenient : Bool := false

namespace Layout

def without (l : Layout σ) (name : String) : Layout σ :=
  { l with fields := l.fields.filter (·.name != name) }

def strict (l : Layout σ) : Layout σ := { l with lenient := false }

def writeFields (l : Layout σ) (s : σ) : List (String × Datum) :=
  l.fields.filterMap fun f => (f.write s).map (f.name, ·)

def readField (l : Layout σ) (s : σ) (entry : String × Datum) : Except DecodeError σ :=
  match l.fields.find? (·.name == entry.1) with
  | some f => (f.read entry.2).map (· s)
  | none => if l.lenient then .ok s else .error (.unknownField entry.1)

def readFields (l : Layout σ) (entries : List (String × Datum)) : Except DecodeError σ := do
  let s ← entries.foldlM l.readField l.blank
  match l.fields.find? fun f => f.needed && !entries.any (·.1 == f.name) with
  | some f => throw (.missingField f.name)
  | none => return s

def readPlaces : List (Field σ) → σ → List Datum → Except DecodeError σ
  | [], s, [] => .ok s
  | [], _, _ :: _ => .error .wrongLength
  | fields, s, [] => if fields.any (·.needed) then .error .wrongLength else .ok s
  | f :: fields, s, d :: rest => do readPlaces fields ((← f.read d) s) rest

def read (l : Layout σ) : Datum → Except DecodeError σ
  | .record entries => l.readFields entries
  | .table items others => do
    Codec.checkNoItems items
    -- No field has a name that had to be mended.
    l.readFields (← others.mapM (Codec.readPair fun content => .ok (Text.mended content)))
  | .list items => readPlaces l.fields l.blank items
  | _ => .error .wrongType

def codec (l : Layout σ) : Codec σ := ⟨fun s => .record (l.writeFields s), l.read⟩

end Layout

end ContainerRecipe
