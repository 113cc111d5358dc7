import PowerCurve.Decimal.Binary
import PowerCurve.Decimal.Digits

/-!
# Numbers with a fixed number of decimal places

The exact value is rounded to the given number of places, a half going to the even neighbour. There
is never an exponent. A negative number keeps its sign even when all its places are zero.
-/

namespace PowerCurve.Decimal

/-- The integer nearest to a quotient; a half goes to the even neighbour. -/
def roundDiv (numerator denominator : Nat) : Nat :=
  let below := numerator / denominator
  let rest := numerator % denominator
  if 2 * rest < denominator ∨ (2 * rest = denominator ∧ below % 2 = 0) then below else below + 1

/-- A magnitude in units of `10 ^ (-places)`, rounded. -/
def Magnitude.inPlaces (places : Nat) (m : Magnitude) : Nat :=
  roundDiv (m.significand * Nat.pow 10 places * Nat.pow 2 m.exponent.toNat)
    (Nat.pow 2 (-m.exponent).toNat)

/-- The text of `n` units of `10 ^ (-places)`. -/
def pointed (places n : Nat) : List Char :=
  let fraction := natText (n % Nat.pow 10 places)
  natText (n / Nat.pow 10 places) ++
    '.' :: (List.replicate (places - fraction.length) '0' ++ fraction)

/-- A number with a fixed number of places. -/
def fixedText (places : Nat) (x : Float) : List Char :=
  let signed (negative : Bool) (body : List Char) := if negative then '-' :: body else body
  match Binary.ofFloat x with
  | .finite negative m => signed negative (pointed places (m.inPlaces places))
  | .infinite negative => signed negative "inf".toList
  | .notANumber => "NaN".toList

end PowerCurve.Decimal
