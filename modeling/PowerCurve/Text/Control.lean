import PowerCurve.Text.Hex

/-!
# Texts that cannot steer a terminal

A message may quote a text of unknown origin, and a terminal takes some control characters in it for
commands: escape, bell, backspace, form feed, delete, and the controls from `U+0080` to `U+009F`.
Where a message goes to a terminal these are spelled out. All other characters stay as they are,
so a line feed still ends a line.
-/

namespace PowerCurve.Text

/-- Whether a character is an ASCII control that a terminal obeys beyond the layout of lines. -/
def isSteering (c : Char) : Bool :=
  c = '\x07' || c = '\x08' || c = '\x0c' || c = '\x1b' || c = '\x7f'

/-- Whether a character is a control beyond ASCII. -/
def isHighControl (c : Char) : Bool :=
  0x80 ≤ c.toNat && c.toNat ≤ 0x9F

/-- The two hexadecimal digits of a number below 256. -/
def twoHexDigits (n : Nat) : List Char :=
  [hexDigit (n / 16), hexDigit (n % 16)]

/-- One character as a terminal may receive it. -/
def inertChar (c : Char) : List Char :=
  if isSteering c then '\\' :: 'x' :: twoHexDigits c.toNat
  else if isHighControl c then '\\' :: 'u' :: '{' :: (twoHexDigits c.toNat ++ ['}'])
  else [c]

/-- A text as a terminal may receive it. -/
def inert (text : List Char) : List Char :=
  text.flatMap inertChar

end PowerCurve.Text
