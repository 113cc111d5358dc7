/-!
# Decimal digits

Digit strings and the natural numbers they denote, written with the most significant digit first.
`digits` writes a number with as few digits as possible; `value` reads any digit string, leading
zeros included.
-/

namespace PowerCurve.Decimal

/-- A decimal digit. -/
abbrev Digit := Fin 10

/-- The digit that an ASCII character denotes. -/
def Digit.ofChar? (c : Char) : Option Digit :=
  if h : 48 ≤ c.toNat ∧ c.toNat ≤ 57 then some ⟨c.toNat - 48, by omega⟩ else none

/-- The ASCII character of a digit. -/
def Digit.toChar (d : Digit) : Char :=
  Char.ofNat (48 + d.val)

/-- The number that a digit string denotes. -/
def value (ds : List Digit) : Nat :=
  ds.foldl (fun n d => 10 * n + d.val) 0

/-- Writes the digits of `n` in front of `written`; a number has no more digits than `fuel` as
long as it is smaller than `fuel`. -/
def writeDigits : (fuel n : Nat) → (written : List Digit) → List Digit
  | 0, _, written => written
  | fuel + 1, n, written =>
    let last : Digit := ⟨n % 10, Nat.mod_lt n (by decide)⟩
    if n < 10 then last :: written else writeDigits fuel (n / 10) (last :: written)

/-- The digits of a number, without leading zeros except for the number zero itself. -/
def digits (n : Nat) : List Digit :=
  writeDigits (n + 1) n []

/-- The text of a digit string. -/
def digitText (ds : List Digit) : List Char :=
  ds.map Digit.toChar

/-- The text of a number. -/
def natText (n : Nat) : List Char :=
  digitText (digits n)

/-- The digits at the front of a text, and the rest of it. -/
def spanDigits : List Char → List Digit × List Char
  | [] => ([], [])
  | c :: rest =>
    match Digit.ofChar? c with
    | some d => (d :: (spanDigits rest).1, (spanDigits rest).2)
    | none => ([], c :: rest)

/-- A text as a natural number below `limit`: digits only, at least one of them, with leading
zeros and one leading `+` allowed. -/
def readNatural? (limit : Nat) (text : List Char) : Option Nat :=
  let body := match text with
    | '+' :: rest => rest
    | _ => text
  match spanDigits body with
  | (d :: ds, []) => if value (d :: ds) < limit then some (value (d :: ds)) else none
  | _ => none

/-! ## Reading back what was written -/

theorem Digit.ofChar?_toChar (d : Digit) : Digit.ofChar? d.toChar = some d := by
  revert d; decide

end PowerCurve.Decimal
