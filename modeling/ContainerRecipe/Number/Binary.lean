namespace ContainerRecipe.Number

structure Ratio where
  numerator : Nat
  denominator : Nat
  deriving DecidableEq, Repr

def Ratio.shift (r : Ratio) (e : Int) : Ratio :=
  ⟨r.numerator * Nat.pow 2 e.toNat, r.denominator * Nat.pow 2 (-e).toNat⟩

def Ratio.scale (r : Ratio) (e : Int) : Ratio :=
  ⟨r.numerator * Nat.pow 10 e.toNat, r.denominator * Nat.pow 10 (-e).toNat⟩

def Ratio.toNat? (r : Ratio) : Option Nat :=
  if r.numerator % r.denominator = 0 then some (r.numerator / r.denominator) else none

def isNegative (x : Float) : Bool := Nat.pow 2 63 ≤ x.toBits.toNat

-- The number without its sign, unless it is infinite or not a number. Below the bit of the sign stand eleven
-- bits of the exponent and the bits after the point.
def magnitude? (x : Float) : Option Ratio :=
  let field : Nat := x.toBits.toNat / Nat.pow 2 52 % Nat.pow 2 11
  let fraction : Nat := x.toBits.toNat % Nat.pow 2 52
  if field = 2047 then none
  else if field = 0 then some (Ratio.shift ⟨fraction, 1⟩ (-1074))
  else some (Ratio.shift ⟨Nat.pow 2 52 + fraction, 1⟩ ((field : Int) - 1075))

def toInt? (x : Float) : Option Int := do
  let n ← (← magnitude? x).toNat?
  return if isNegative x then -n else n

end ContainerRecipe.Number
