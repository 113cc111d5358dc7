import PowerCurve.Json.Value
import PowerCurve.Text.Hex

/-!
# Reading JSON

The reader takes strict JSON: no comments, no trailing commas, no leading zeros, blanks only where
the grammar has them. Strings are checked for their escapes but may hold halves of surrogate pairs;
two halves that belong together are read as one character.

A value is at least one character long and every bracket is one character, so a text never needs
more than two units of fuel for each of its characters.
-/

namespace PowerCurve.Json

open PowerCurve.Decimal PowerCurve.Text

/-- The blanks of JSON. -/
def isSpace (c : Char) : Bool :=
  c = ' ' || c = '\n' || c = '\t' || c = '\r'

/-- The text from its first character that is not blank. -/
def skipSpace (text : List Char) : List Char :=
  text.dropWhile isSpace

/-! ## Strings -/

/-- The number that four hexadecimal digits denote. -/
def unit? (a b c d : Char) : Option Nat := do
  let a ← hexValue? a
  let b ← hexValue? b
  let c ← hexValue? c
  let d ← hexValue? d
  return ((a * 16 + b) * 16 + c) * 16 + d

/-- Whether a unit is the first half of a surrogate pair. -/
def isHigh (unit : Nat) : Bool :=
  0xD800 ≤ unit && unit < 0xDC00

/-- Whether a unit is the second half of a surrogate pair. -/
def isLow (unit : Nat) : Bool :=
  0xDC00 ≤ unit && unit < 0xE000

/-- The glyph that an escaped unit stands for. -/
def Glyph.ofUnit (unit : Nat) : Glyph :=
  if isHigh unit || isLow unit then .surrogate unit else .char (Char.ofNat unit)

/-- The character that a one-letter escape stands for. -/
def escaped? (c : Char) : Option Char :=
  match c with
  | '"' => some '"'
  | '\\' => some '\\'
  | '/' => some '/'
  | 'b' => some '\x08'
  | 'f' => some '\x0c'
  | 'n' => some '\n'
  | 'r' => some '\r'
  | 't' => some '\t'
  | _ => none

/-- The units of a string up to its closing quote, and what follows the quote. -/
def units? : List Char → Option (List Glyph × List Char)
  | [] => none
  | '"' :: rest => some ([], rest)
  | '\\' :: 'u' :: a :: b :: c :: d :: rest => do
    let unit ← unit? a b c d
    let (glyphs, rest) ← units? rest
    return (Glyph.ofUnit unit :: glyphs, rest)
  | '\\' :: e :: rest => do
    let c ← escaped? e
    let (glyphs, rest) ← units? rest
    return (.char c :: glyphs, rest)
  | c :: rest =>
    if c.toNat < 0x20 then none
    else do
      let (glyphs, rest) ← units? rest
      return (.char c :: glyphs, rest)

/-- Joins the two halves of each surrogate pair. -/
def pairUp : List Glyph → List Glyph
  | .surrogate high :: .surrogate low :: rest =>
    if isHigh high && isLow low then
      .char (Char.ofNat (0x10000 + (high - 0xD800) * 0x400 + (low - 0xDC00))) :: pairUp rest
    else .surrogate high :: pairUp (.surrogate low :: rest)
  | glyph :: rest => glyph :: pairUp rest
  | [] => []

/-- A string after its opening quote. -/
def string? (text : List Char) : Option (List Glyph × List Char) := do
  let (glyphs, rest) ← units? text
  return (pairUp glyphs, rest)

/-! ## Numbers -/

/-- The digits after a point, of which there is at least one if there is a point. -/
def fraction? : List Char → Option (List Digit × List Char)
  | '.' :: rest =>
    match spanDigits rest with
    | ([], _) => none
    | (ds, rest) => some (ds, rest)
  | text => some ([], text)

/-- An exponent, if one follows. -/
def exponent? (text : List Char) : Option (Option Int × List Char) :=
  match text with
  | [] => some (none, [])
  | c :: rest =>
    if c = 'e' ∨ c = 'E' then (spanExponent? rest).map fun e => (some e.1, e.2)
    else some (none, text)

/-- A number. A zero at its front is the only digit before the point. -/
def numeral? (text : List Char) : Option (Numeral × List Char) := do
  let (negative, body) := match text with
    | '-' :: rest => (true, rest)
    | _ => (false, text)
  let (whole, rest) ← match spanDigits body with
    | ([], _) => none
    | (0 :: _ :: _, _) => none
    | (ds, rest) => some (ds, rest)
  let (fraction, rest) ← fraction? rest
  let (exponent, rest) ← exponent? rest
  return (⟨negative, whole, fraction, exponent⟩, rest)

/-! ## Values -/

mutual

/-- A value at the front of a text, after blanks, and what follows it. -/
def value? : (fuel : Nat) → List Char → Option (Value × List Char)
  | 0, _ => none
  | fuel + 1, text =>
    match skipSpace text with
    | 'n' :: 'u' :: 'l' :: 'l' :: rest => some (.null, rest)
    | 't' :: 'r' :: 'u' :: 'e' :: rest => some (.bool true, rest)
    | 'f' :: 'a' :: 'l' :: 's' :: 'e' :: rest => some (.bool false, rest)
    | '"' :: rest => (string? rest).map fun s => (.string s.1, s.2)
    | '[' :: rest =>
      match skipSpace rest with
      | ']' :: rest => some (.list [], rest)
      | rest => (items? fuel rest).map fun r => (.list r.1, r.2)
    | '\x7b' :: rest =>
      match skipSpace rest with
      | '\x7d' :: rest => some (.object [], rest)
      | rest => (members? fuel rest).map fun r => (.object r.1, r.2)
    | rest => (numeral? rest).map fun n => (.number n.1, n.2)

/-- The items of a list up to its closing bracket; there is at least one. -/
def items? : (fuel : Nat) → List Char → Option (List Value × List Char)
  | 0, _ => none
  | fuel + 1, text =>
    match value? fuel text with
    | none => none
    | some (v, rest) =>
      match skipSpace rest with
      | ',' :: rest => (items? fuel rest).map fun r => (v :: r.1, r.2)
      | ']' :: rest => some ([v], rest)
      | _ => none

/-- The members of a record up to its closing brace; there is at least one. -/
def members? : (fuel : Nat) → List Char → Option (List (List Glyph × Value) × List Char)
  | 0, _ => none
  | fuel + 1, text =>
    match skipSpace text with
    | '"' :: rest =>
      match string? rest with
      | none => none
      | some (name, rest) =>
        match skipSpace rest with
        | ':' :: rest =>
          match value? fuel rest with
          | none => none
          | some (v, rest) =>
            match skipSpace rest with
            | ',' :: rest => (members? fuel rest).map fun r => ((name, v) :: r.1, r.2)
            | '\x7d' :: rest => some ([(name, v)], rest)
            | _ => none
        | _ => none
    | _ => none

end

/-- The value that a text denotes: one value with nothing but blanks around it. -/
def read? (text : List Char) : Option Value :=
  match value? (2 * text.length + 2) text with
  | some (v, rest) => if skipSpace rest = [] then some v else none
  | none => none

end PowerCurve.Json
