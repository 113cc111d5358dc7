import PowerCurve.Json.Value
import PowerCurve.Text.Hex

/-!
# Writing JSON

Compact and indented text are one printer with two layouts: a layout says what stands where a line
may be broken and what follows a colon. Both put only blanks there. An empty list or record is never
broken.

In a string the quote, the backslash and the control characters below `U+0020` are escaped, and
nothing else.
-/

namespace PowerCurve.Json

open PowerCurve.Decimal PowerCurve.Text

/-- How a text is laid out. -/
structure Layout where
  /-- What stands at a possible line break inside `depth` brackets. -/
  lineBreak : (depth : Nat) → List Char
  /-- What follows the colon after a name. -/
  afterColon : List Char

/-- Everything on one line, without a blank. -/
def Layout.compact : Layout := ⟨fun _ => [], []⟩

/-- One item on each line, indented by two blanks for each bracket around it. -/
def Layout.indented : Layout := ⟨fun depth => '\n' :: List.replicate (2 * depth) ' ', [' ']⟩

/-- A number below `0x10000` as an escape. -/
def unitEscape (n : Nat) : List Char :=
  ['\\', 'u', hexDigit (n / 4096 % 16), hexDigit (n / 256 % 16), hexDigit (n / 16 % 16),
    hexDigit (n % 16)]

/-- The text of one glyph inside a string. -/
def Glyph.text : Glyph → List Char
  | .char c =>
    if c = '"' then ['\\', '"']
    else if c = '\\' then ['\\', '\\']
    else if c = '\x08' then ['\\', 'b']
    else if c = '\x0c' then ['\\', 'f']
    else if c = '\n' then ['\\', 'n']
    else if c = '\r' then ['\\', 'r']
    else if c = '\t' then ['\\', 't']
    else if c.toNat < 0x20 then unitEscape c.toNat
    else [c]
  | .surrogate unit => unitEscape unit

/-- A string in quotes. -/
def quoted (glyphs : List Glyph) : List Char :=
  '"' :: (glyphs.flatMap Glyph.text ++ ['"'])

/-- The exponent part of a numeral; its sign is always written. -/
def exponentText : Option Int → List Char
  | none => []
  | some e => 'e' :: (if e < 0 then '-' else '+') :: natText e.natAbs

/-- The text of a numeral. -/
def numeralText (n : Numeral) : List Char :=
  (if n.negative then ['-'] else []) ++ digitText n.whole ++
    (if n.fraction = [] then [] else '.' :: digitText n.fraction) ++ exponentText n.exponent

mutual

/-- The text of a value that stands inside `depth` brackets. -/
def Value.textAt (layout : Layout) (depth : Nat) : Value → List Char
  | .null => "null".toList
  | .bool true => "true".toList
  | .bool false => "false".toList
  | .number n => numeralText n
  | .string glyphs => quoted glyphs
  | .list [] => ['[', ']']
  | .list (v :: vs) =>
    '[' :: (layout.lineBreak (depth + 1) ++ v.textAt layout (depth + 1) ++
      itemsText layout (depth + 1) vs ++ layout.lineBreak depth ++ [']'])
  | .object [] => ['\x7b', '\x7d']
  | .object ((name, v) :: ms) =>
    '\x7b' :: (layout.lineBreak (depth + 1) ++ quoted name ++ ':' :: layout.afterColon ++
      v.textAt layout (depth + 1) ++ membersText layout (depth + 1) ms ++
      layout.lineBreak depth ++ ['\x7d'])

/-- The text of the items after the first one, each with the comma before it. -/
def itemsText (layout : Layout) (depth : Nat) : List Value → List Char
  | [] => []
  | v :: vs =>
    ',' :: (layout.lineBreak depth ++ v.textAt layout depth ++ itemsText layout depth vs)

/-- The text of the members after the first one, each with the comma before it. -/
def membersText (layout : Layout) (depth : Nat) : List (List Glyph × Value) → List Char
  | [] => []
  | (name, v) :: ms =>
    ',' :: (layout.lineBreak depth ++ quoted name ++ ':' :: layout.afterColon ++
      v.textAt layout depth ++ membersText layout depth ms)

end

/-- The text of a value in a layout. -/
def Value.text (layout : Layout) (v : Value) : List Char :=
  v.textAt layout 0

/-- The text of a value on one line. -/
def Value.compact (v : Value) : String :=
  String.ofList (v.text .compact)

/-- The text of a value with one item on each line. -/
def Value.indented (v : Value) : String :=
  String.ofList (v.text .indented)

end PowerCurve.Json
