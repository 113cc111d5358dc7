import PowerCurve.Decimal.Numeral

/-!
# Real numbers in a log

A real number is written as an optional sign followed by `inf`, `infinity` or `nan` in any case,
or by digits with an optional point (at least one digit on one side of it) and an optional
exponent. It is read as the nearest 64-bit number.
-/

namespace PowerCurve.Decimal

/-- The unsigned numbers that are written as words. -/
def wordReal? (text : List Char) : Option Float :=
  let lower := text.map Char.toLower
  if lower = "inf".toList ∨ lower = "infinity".toList then some infinity
  else if lower = "nan".toList then some notANumber
  else none

/-- The digits after a point, if the text starts with a point. -/
def spanFraction : List Char → List Digit × List Char
  | '.' :: rest => spanDigits rest
  | text => ([], text)

/-- An exponent part that takes all of the text, which may also be empty. -/
def exponentPart? : List Char → Option (Option Int)
  | [] => some none
  | c :: rest =>
    if c = 'e' ∨ c = 'E' then
      match spanExponent? rest with
      | some (e, []) => some (some e)
      | _ => none
    else none

/-- An unsigned number in digits. -/
def numeral? (negative : Bool) (text : List Char) : Option Numeral :=
  let (whole, afterWhole) := spanDigits text
  let (fraction, afterFraction) := spanFraction afterWhole
  if whole = [] ∧ fraction = [] then none
  else (exponentPart? afterFraction).map fun exponent => ⟨negative, whole, fraction, exponent⟩

/-- The real number that a text denotes. -/
def readReal? (text : List Char) : Option Float :=
  let (negative, body) := spanSign text
  match wordReal? body with
  | some x => some (if negative then -x else x)
  | none => (numeral? negative body).map Numeral.toFloat

end PowerCurve.Decimal
