import PowerCurve.Decimal.Numeral

/-!
# JSON values

A value keeps its numbers as they are written and its strings as lists of glyphs, because an escape
may name half of a surrogate pair, which is no character.
-/

namespace PowerCurve.Json

open PowerCurve.Decimal

/-- A unit of a string. -/
inductive Glyph where
  /-- A character. -/
  | char (c : Char)
  /-- Half of a surrogate pair that stands alone. -/
  | surrogate (unit : Nat)
deriving DecidableEq, Repr

/-- A JSON value. -/
inductive Value where
  /-- The value `null`. -/
  | null
  /-- A truth value. -/
  | bool (b : Bool)
  /-- A number. -/
  | number (n : Numeral)
  /-- A string. -/
  | string (glyphs : List Glyph)
  /-- A list of values. -/
  | list (items : List Value)
  /-- A record of named values, in the order in which they are written. -/
  | object (members : List (List Glyph × Value))
deriving Repr

/-- A text as the glyphs of a string. -/
def glyphsOf (text : List Char) : List Glyph :=
  text.map .char

/-- The text of a string, if no half of a surrogate pair stands in it. -/
def textOf? : List Glyph → Option (List Char)
  | [] => some []
  | .char c :: rest => (textOf? rest).map (c :: ·)
  | .surrogate _ :: _ => none

/-- A string value. -/
def Value.ofString (s : String) : Value :=
  .string (glyphsOf s.toList)

/-- A natural number. -/
def Value.ofNat (n : Nat) : Value :=
  .number ⟨false, digits n, [], none⟩

/-- A record whose member names are plain texts. -/
def Value.record (members : List (String × Value)) : Value :=
  .object (members.map fun m => (glyphsOf m.1.toList, m.2))

theorem textOf?_glyphsOf (text : List Char) : textOf? (glyphsOf text) = some text := by
  induction text with
  | nil => rfl
  | cons c text ih => simpa [glyphsOf, textOf?] using ih

end PowerCurve.Json
