/-!
# Binary floating-point numbers, taken apart

A finite number is a sign and `significand * 2 ^ exponent`. The two widths in use differ only in
the number of bits of the fraction and of the exponent field.
-/

namespace PowerCurve.Decimal

/-- The magnitude `significand * 2 ^ exponent` of a finite number. -/
structure Magnitude where
  /-- The integer that is scaled. -/
  significand : Nat
  /-- The power of two that scales it. -/
  exponent : Int
  /-- Whether the next smaller number is only half as far away as the next larger one. -/
  halfBelow : Bool
deriving DecidableEq, Repr

/-- A floating-point number. -/
inductive Binary where
  /-- A finite number. -/
  | finite (negative : Bool) (magnitude : Magnitude)
  /-- An infinity. -/
  | infinite (negative : Bool)
  /-- No number at all. -/
  | notANumber
deriving DecidableEq, Repr

/-- The number with the given bits: from the top a sign bit, the exponent field and the
fraction. -/
def Binary.ofBits (exponentBits fractionBits bits : Nat) : Binary :=
  let fraction := bits % Nat.pow 2 fractionBits
  let field := bits / Nat.pow 2 fractionBits % Nat.pow 2 exponentBits
  let negative := decide (bits / Nat.pow 2 (fractionBits + exponentBits) % 2 = 1)
  let lowest : Int := 2 - Nat.pow 2 (exponentBits - 1) - fractionBits
  if field = Nat.pow 2 exponentBits - 1 then
    if fraction = 0 then .infinite negative else .notANumber
  else if field = 0 then .finite negative ⟨fraction, lowest, false⟩
  else
    .finite negative
      ⟨Nat.pow 2 fractionBits + fraction, lowest + (field - 1), decide (fraction = 0 ∧ 1 < field)⟩

/-- A 64-bit number, taken apart. -/
def Binary.ofFloat (x : Float) : Binary :=
  Binary.ofBits 11 52 x.toBits.toNat

/-- A 32-bit number, taken apart. -/
def Binary.ofFloat32 (x : Float32) : Binary :=
  Binary.ofBits 8 23 x.toBits.toNat

end PowerCurve.Decimal
