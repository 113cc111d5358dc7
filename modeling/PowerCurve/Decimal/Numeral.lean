import PowerCurve.Decimal.Digits

/-!
# Numerals

A numeral is a number as it is written: a sign, the digits before and after the point, and an
exponent of ten. `Numeral.toFloat` is the 64-bit number nearest to what it denotes.
-/

namespace PowerCurve.Decimal

/-- A written decimal number. -/
structure Numeral where
  /-- Whether a minus sign stands in front. -/
  negative : Bool
  /-- The digits before the point. -/
  whole : List Digit
  /-- The digits after the point. -/
  fraction : List Digit
  /-- The exponent of ten, if one is written. -/
  exponent : Option Int
deriving DecidableEq, Repr

/-- All the digits of a numeral, as one number. -/
def Numeral.significand (n : Numeral) : Nat :=
  value (n.whole ++ n.fraction)

/-- The power of ten that scales the significand. -/
def Numeral.scale (n : Numeral) : Int :=
  n.exponent.getD 0 - n.fraction.length

/-- Positive infinity. -/
def infinity : Float := Float.ofBits 0x7FF0000000000000

/-- The value that is not a number. -/
def notANumber : Float := Float.ofBits 0x7FF8000000000000

/-- The 64-bit number nearest to `significand * 10 ^ scale`. What is at least `10 ^ 309` is
infinite and what is below `10 ^ (-324)` is zero, which is decided before any power of ten is
computed. -/
def nearest (significand : Nat) (scale : Int) : Float :=
  if significand = 0 then 0.0
  else
    let places := (digits significand).length + scale
    if 310 ≤ places then infinity
    else if places ≤ -324 then 0.0
    else Float.ofScientific significand (decide (scale < 0)) scale.natAbs

/-- The 64-bit number nearest to what a numeral denotes. -/
def Numeral.toFloat (n : Numeral) : Float :=
  let magnitude := nearest n.significand n.scale
  if n.negative then -magnitude else magnitude

/-- The sign at the front of a text, as whether it is a minus, and what follows it. -/
def spanSign : List Char → Bool × List Char
  | '-' :: rest => (true, rest)
  | '+' :: rest => (false, rest)
  | text => (false, text)

/-- An exponent: a sign and at least one digit. -/
def spanExponent? (text : List Char) : Option (Int × List Char) :=
  match spanDigits (spanSign text).2 with
  | ([], _) => none
  | (ds, rest) => some (if (spanSign text).1 then -(value ds : Int) else value ds, rest)

end PowerCurve.Decimal
