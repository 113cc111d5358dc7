import PowerCurve.Decimal.Shortest
import PowerCurve.Json.Value

/-!
# Floating-point numbers in JSON

A finite number is written with the fewest digits that read back as it. Magnitudes in a range that
depends on the width are written positionally with at least one digit after the point, all others
with one digit before the point and a signed exponent. The range is from `10 ^ (-5)` up to but not
including `10 ^ 16` for 64 bits, and from `10 ^ (-6)` up to but not including `10 ^ 13` for 32 bits.
What is not finite is `null`.
-/

namespace PowerCurve.Json

open PowerCurve.Decimal

/-- Which magnitudes are written positionally: those whose first digit stands for a power of ten
from `10 ^ lowest` to `10 ^ highest`. -/
structure PositionalRange where
  /-- The lowest power of ten. -/
  lowest : Int
  /-- The highest power of ten. -/
  highest : Int

/-- The range of positional notation for 64-bit numbers. -/
def positional64 : PositionalRange := ⟨-5, 15⟩

/-- The range of positional notation for 32-bit numbers. -/
def positional32 : PositionalRange := ⟨-6, 12⟩

/-- The numeral of a decimal whose digits are `ds` and whose last digit stands for
`10 ^ exponent`, in positional notation. -/
def positionalNumeral (negative : Bool) (ds : List Digit) (exponent : Int) : Numeral :=
  let point := ds.length + exponent
  if 0 ≤ exponent then
    ⟨negative, ds ++ List.replicate exponent.toNat 0, [0], none⟩
  else if 0 < point then
    ⟨negative, ds.take point.toNat, ds.drop point.toNat, none⟩
  else
    ⟨negative, [0], List.replicate (-point).toNat 0 ++ ds, none⟩

/-- The same decimal with one digit before the point and an exponent. -/
def exponentNumeral (negative : Bool) (ds : List Digit) (exponent : Int) : Numeral :=
  ⟨negative, ds.take 1, ds.drop 1, some (ds.length - 1 + exponent)⟩

/-- The numeral of a decimal. -/
def numeralOf (positional : PositionalRange) (negative : Bool) (x : Scaled) : Numeral :=
  let ds := digits x.coefficient
  let leading := ds.length - 1 + x.exponent
  if positional.lowest ≤ leading ∧ leading ≤ positional.highest then
    positionalNumeral negative ds x.exponent
  else exponentNumeral negative ds x.exponent

/-- A floating-point number as a value. -/
def Value.ofBinary (positional : PositionalRange) : Binary → Value
  | .finite negative m =>
    if m.significand = 0 then .number ⟨negative, [0], [0], none⟩
    else .number (numeralOf positional negative m.shortest)
  | .infinite _ => .null
  | .notANumber => .null

/-- A 64-bit number as a value. -/
def Value.ofFloat (x : Float) : Value :=
  .ofBinary positional64 (.ofFloat x)

/-- A 32-bit number as a value. -/
def Value.ofFloat32 (x : Float32) : Value :=
  .ofBinary positional32 (.ofFloat32 x)

end PowerCurve.Json
