import ContainerRecipe.Script.Value

namespace ContainerRecipe.Script

structure Table where
  places : List Value := []
  -- The values under other keys. A key whose value was taken away stays here with nil.
  entries : List (Key × Value) := []
  room : Nat := 0

namespace Table

instance : EmptyCollection Table := ⟨{}⟩
instance : Inhabited Table := ⟨∅⟩

def place? (t : Table) : Key → Option Nat
  | .integer n =>
    if 0 < n.toInt && n.toInt ≤ t.places.length then some (n.toInt.toNat - 1) else none
  | _ => none

def get (t : Table) (k : Key) : Value :=
  match t.place? k with
  | some place => t.places.getD place .nil
  | none => (t.entries.lookup k).getD .nil

def pairs (t : Table) : List (Key × Value) :=
  let numbered : List (Key × Value) := (t.places.zipIdx 1).map fun (v, n) => (.ofPlace n, v)
  (numbered ++ t.entries).filter fun (_, v) => !v.isNil

def positiveKeys (entries : List (Key × Value)) : List Nat :=
  entries.filterMap fun (k, _) =>
    match k with
    | .integer n => if 0 < n.toInt then some n.toInt.toNat else none
    | _ => none

def placesFor (numbers : List Nat) : Nat :=
  let sizes := (List.range (numbers.length.log2 + 2)).map (Nat.pow 2)
  sizes.foldl (fun best size =>
    if size / 2 < (numbers.filter (· ≤ size)).length then size else best) 0

def roomFor (count : Nat) : Nat := if count = 0 then 0 else count.nextPowerOfTwo

def settled (entries : List (Key × Value)) : Table :=
  let size := placesFor (positiveKeys entries)
  let places := (List.range size).map fun n => (entries.lookup (.ofPlace (n + 1))).getD .nil
  let others := entries.filter fun (k, _) => (place? { places } k).isNone
  { places, entries := others, room := roomFor others.length }

def put (t : Table) (k : Key) (v : Value) : Table :=
  match t.place? k with
  | some place => { t with places := t.places.set place v }
  | none =>
    if (t.entries.lookup k).isSome then
      { t with entries := t.entries.map fun (l, w) => (l, if l = k then v else w) }
    else if v.isNil then t
    else if t.entries.length < t.room then { t with entries := t.entries ++ [(k, v)] }
    else settled (t.pairs ++ [(k, v)])

def putFields (t : Table) (fields : List (String × Value)) : Table :=
  fields.foldl (fun t (name, v) => t.put (.ofText name) v) t

-- A table of items and named values. There is a place for each item, also for nil, and room for each name.
def ofParts (items : List Value) (fields : List (String × Value)) : Table :=
  putFields { places := items, room := roomFor fields.length } fields

def ofFields (fields : List (String × Value)) : Table := ofParts [] fields

def holds (t : Table) (n : Nat) : Bool := !(t.get (.ofPlace n)).isNil

-- A number between two others that has a value while the next one has none, found by halving. The lower one
-- has a value, or counts as having one, and the upper one has none.
def halve (t : Table) : Nat → Nat → Nat → Nat
  | 0, low, _ => low
  | bound + 1, low, high =>
    if high - low ≤ 1 then low
    else
      let middle := (low + high) / 2
      if t.holds middle then t.halve bound middle high else t.halve bound low middle

def lastBetween (t : Table) (low high : Nat) : Nat := t.halve high low high

def lastBeyond (t : Table) : Nat → Nat → Nat
  | 0, n => n
  | bound + 1, n =>
    if t.holds (2 * n) then t.lastBeyond bound (2 * n) else t.lastBetween n (2 * n)

-- The length of the table's list: a number that has a value, or zero, while the next one has none. The last
-- place decides where to look for it.
def length (t : Table) : Nat :=
  let size := t.places.length
  if size = 0 || t.holds size then
    if t.holds (size + 1) then t.lastBeyond (t.entries.length + 1) (max size 1) else size
  else if 1 < size && t.holds (size - 1) then size - 1
  else t.lastBetween 0 size

def items (t : Table) : List Value := (List.range t.length).map fun n => t.get (.ofPlace (n + 1))

def others (t : Table) : List (Key × Value) :=
  t.pairs.filter fun (k, _) =>
    match k with
    | .integer n => !(0 < n.toInt && n.toInt ≤ t.length)
    | _ => true

def itemsFrom (t : Table) : Nat → Nat → List Value
  | 0, _ => []
  | bound + 1, n => if t.holds n then t.get (.ofPlace n) :: t.itemsFrom bound (n + 1) else []

def itemsToGap (t : Table) : List Value := t.itemsFrom (t.places.length + t.entries.length) 1

end Table

end ContainerRecipe.Script
