import PowerCurve.Decimal.Numeral
import PowerCurve.Decimal.Shortest

/-!
# Reading a JSON number as a floating-point number

An integer of 64 bits is converted directly. Any other number is read in two roundings: the digits
that fit into 64 bits become a significand, which is then multiplied or divided by a power of ten.
Whole digits that do not fit are counted in the power of ten; fraction digits after the first one
that does not fit are dropped. The result can differ from the nearest number in its last place. A
number beyond the range of 64-bit numbers is refused.
-/

namespace PowerCurve.Json

open PowerCurve.Decimal

/-- Appends digits to a number as long as it stays below `2 ^ 64`; the number, and the digits that
are left. -/
def absorb : Nat → List Digit → Nat × List Digit
  | n, [] => (n, [])
  | n, d :: ds => if 10 * n + d.val < UInt64.size then absorb (10 * n + d.val) ds else (n, d :: ds)

/-- The power of ten with a natural exponent, as a 64-bit number. -/
def powerOfTen (n : Nat) : Float :=
  Float.ofScientific 1 false n

/-- A number times a power of ten. A large negative power is applied in steps of `10 ^ 308`; two of
them turn every 64-bit significand into zero, so three units of fuel are enough. -/
def timesPower? : (fuel : Nat) → Float → Int → Option Float
  | 0, x, _ => some x
  | fuel + 1, x, e =>
    if e.natAbs ≤ 308 then
      if 0 ≤ e then
        let y := x * powerOfTen e.natAbs
        if y.isInf then none else some y
      else some (x / powerOfTen e.natAbs)
    else if x == 0.0 then some x
    else if 0 ≤ e then none
    else timesPower? fuel (x / powerOfTen 308) (e + 308)

/-- The magnitude of a numeral as a 64-bit number. -/
def magnitude? (n : Numeral) : Option Float :=
  let (leading, dropped) := absorb 0 n.whole
  let (significand, ignored) := absorb leading n.fraction
  let scale := n.exponent.getD 0 + dropped.length - (n.fraction.length - ignored.length)
  timesPower? 3 (UInt64.ofNat significand).toFloat scale

/-- Whether a numeral is an integer of 64 bits, written without a point or an exponent. -/
def isWord (n : Numeral) : Bool :=
  n.fraction = [] && n.exponent = none && decide (value n.whole < UInt64.size)

/-! ## 32-bit numbers -/

/-- A 32-bit number with a sign. -/
def signed32 (negative : Bool) (x : Float32) : Float32 :=
  if negative then -x else x

/-- The 32-bit number nearest to a 64-bit number. -/
def narrowed (x : Float) : Float32 :=
  match Binary.ofFloat x with
  | .finite negative m =>
    signed32 negative
      (Float32.ofScientific m.exact.coefficient true (-m.exact.exponent).toNat)
  | .infinite negative => signed32 negative (Float32.ofBits 0x7F800000)
  | .notANumber => Float32.ofBits 0x7FC00000

/-- A numeral as a 32-bit number; infinite if it is beyond the range of those. -/
def real32? (n : Numeral) : Option Float32 :=
  if isWord n then some (signed32 n.negative (UInt64.ofNat (value n.whole)).toFloat32)
  else (magnitude? n).map fun x => signed32 n.negative (narrowed x)

end PowerCurve.Json
