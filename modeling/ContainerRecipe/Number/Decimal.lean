import ContainerRecipe.Number.Binary
import ContainerRecipe.Text.Digit

namespace ContainerRecipe.Number

def Ratio.round (r : Ratio) : Nat :=
  let quotient := r.numerator / r.denominator
  let rest := 2 * (r.numerator % r.denominator)
  if rest < r.denominator || (rest = r.denominator && quotient % 2 = 0) then quotient
  else quotient + 1

def Ratio.decimalExponent (r : Ratio) : Int :=
  let guess : Int := (Nat.repr r.numerator).length - (Nat.repr r.denominator).length
  let scaled := r.scale (-guess)
  if scaled.denominator ≤ scaled.numerator then guess else guess - 1

def Ratio.significant (r : Ratio) (count : Nat) : Nat × Int :=
  let e := r.decimalExponent
  let digits := (r.scale (count - 1 - e)).round
  if digits = Nat.pow 10 count then (Nat.pow 10 (count - 1), e + 1) else (digits, e)

def precision : Nat := 14

def dropZeros (digits : List Char) : List Char := (digits.reverse.dropWhile (· = '0')).reverse

def withPoint (whole fraction : List Char) : List Char :=
  let fraction := dropZeros fraction
  if fraction.isEmpty then whole else whole ++ '.' :: fraction

def exponentChars (e : Int) : List Char :=
  'e' :: (if e < 0 then '-' else '+') :: (Text.twoDigits e.natAbs).toList

def generalChars (digits : List Char) (e : Int) : List Char :=
  if e < -4 || digits.length ≤ e then
    withPoint (digits.take 1) (digits.drop 1) ++ exponentChars e
  else if e < 0 then withPoint ['0'] (List.replicate (e.natAbs - 1) '0' ++ digits)
  else withPoint (digits.take (e.toNat + 1)) (digits.drop (e.toNat + 1))

def Ratio.chars (r : Ratio) : List Char :=
  if r.numerator = 0 then ['0']
  else
    let (digits, e) := r.significant precision
    generalChars (Nat.repr digits).toList e

end ContainerRecipe.Number
