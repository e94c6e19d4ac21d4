import ContainerRecipe.Number.Decimal

namespace ContainerRecipe

inductive Number where
  | integer (n : Int64)
  | real (x : Float)
  deriving Repr

namespace Number

def toInt64? (n : Int) : Option Int64 :=
  if Int64.minValue.toInt ≤ n && n ≤ Int64.maxValue.toInt then some (Int64.ofInt n) else none

-- The text of a number. A floating-point number is told from an integer by a point, a power of ten or a name.
def realText (x : Float) : String :=
  let sign := if isNegative x then ['-'] else []
  match magnitude? x with
  | some r =>
    let cs := r.chars
    String.ofList (sign ++ cs ++ if cs.all Char.isDigit then ['.', '0'] else [])
  | none => String.ofList sign ++ if x.isNaN then "nan" else "inf"

def text : Number → String
  | .integer n => Int.repr n.toInt
  | .real x => realText x

structure Literal where
  negative : Bool := false
  whole : List Char
  fraction : Option (List Char) := none
  exponent : Option Int := none

def readExponent? : List Char → Option Int
  | '-' :: cs => (Text.readDigits? cs).map fun n => -n
  | '+' :: cs => (Text.readDigits? cs).map Int.ofNat
  | cs => (Text.readDigits? cs).map Int.ofNat

def Literal.read? (cs : List Char) : Option Literal := do
  let (negative, cs) := match cs with
    | '-' :: cs => (true, cs)
    | cs => (false, cs)
  let (whole, cs) := cs.span Char.isDigit
  let (fraction, cs) := match cs with
    | '.' :: cs => let (fraction, cs) := cs.span Char.isDigit; (some fraction, cs)
    | cs => (none, cs)
  match cs with
  | [] => return { negative, whole, fraction }
  | c :: cs =>
    if c = 'e' || c = 'E' then
      return { negative, whole, fraction, exponent := some (← readExponent? cs) }
    else none

-- Beyond these powers of ten every number is infinite, or zero.
def largestExponent : Int := 310
def smallestExponent : Int := -345

def Literal.toReal (l : Literal) : Float :=
  let fraction := l.fraction.getD []
  let digits := Text.digitsValue (l.whole ++ fraction)
  let exponent := l.exponent.getD 0 - fraction.length
  let size := exponent + (Nat.repr digits).length
  let x :=
    if digits = 0 || size < smallestExponent then 0.0
    else if largestExponent < size then 1.0 / 0.0
    else Float.ofScientific digits (exponent < 0) exponent.natAbs
  if l.negative then -x else x

-- An integer is written without a point and a power of ten and fits into 64 bits. A negative zero is no
-- integer.
def Literal.toNumber (l : Literal) : Number :=
  let n : Int := Text.digitsValue l.whole
  if l.fraction.isSome || l.exponent.isSome || (l.negative && n = 0) then .real l.toReal
  else match toInt64? (if l.negative then -n else n) with
    | some n => .integer n
    | none => .real l.toReal

def read? (literal : String) : Option Number := (Literal.read? literal.toList).map Literal.toNumber

def exactDigits : Nat := 17

def Ratio.charsOf (r : Ratio) (count : Nat) : List Char :=
  let (digits, e) := r.significant count
  generalChars ((Nat.repr digits).toList ++ List.replicate (exactDigits - count) '0') e

def Ratio.exactChars (r : Ratio) (x : Float) : List Char :=
  let texts := (List.range exactDigits).map fun n => r.charsOf (n + 1)
  (texts.find? fun cs => ((Literal.read? cs).map (·.toReal.toBits)) == some x.toBits).getD r.chars

-- A number as a literal of data, which holds all of its digits. A number that is not finite has none.
def literal : Number → String
  | .integer n => Int.repr n.toInt
  | .real x =>
    match magnitude? x with
    | some r =>
      let cs := if r.numerator = 0 then ['0'] else r.exactChars x.abs
      let sign := if isNegative x then ['-'] else []
      String.ofList (sign ++ cs ++ if cs.all Char.isDigit then ['.', '0'] else [])
    | none => "null"

end Number

end ContainerRecipe
