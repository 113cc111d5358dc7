/-!
# UTF-8

A byte string is read one byte at a time. The reader is either between two characters or inside
one, and then knows how many bytes are still owed and in which range the next one must lie; the
range of the first continuation byte excludes overlong forms, surrogates and code points beyond
`U+10FFFF`.

A byte that cannot continue a character ends it: what was read of it is one ill-formed part, and
the byte is looked at again as a first byte. `decode?` refuses ill-formed parts, `decodeLossy`
shows each of them as one replacement character.
-/

namespace PowerCurve.Text

/-- A string of bytes. -/
abbrev Bytes := List UInt8

namespace Utf8

/-- Where the reader stands between two bytes. -/
inductive State where
  /-- Between two characters. -/
  | between
  /-- Inside a character that owes `more + 1` bytes, the next of them from `low` to `high`; `bits`
  is the number that the bytes read so far contribute. -/
  | inside (more : Nat) (low high : UInt8) (bits : Nat)
deriving DecidableEq, Repr

/-- What a first byte does: it is a character, it opens one, or it is ill-formed. -/
def first (b : UInt8) : State × List (Option Char) :=
  if b < 0x80 then (.between, [some (Char.ofNat b.toNat)])
  else if 0xC2 ≤ b ∧ b ≤ 0xDF then (.inside 0 0x80 0xBF (b.toNat - 0xC0), [])
  else if b = 0xE0 then (.inside 1 0xA0 0xBF 0, [])
  else if b = 0xED then (.inside 1 0x80 0x9F 0xD, [])
  else if 0xE1 ≤ b ∧ b ≤ 0xEF then (.inside 1 0x80 0xBF (b.toNat - 0xE0), [])
  else if b = 0xF0 then (.inside 2 0x90 0xBF 0, [])
  else if 0xF1 ≤ b ∧ b ≤ 0xF3 then (.inside 2 0x80 0xBF (b.toNat - 0xF0), [])
  else if b = 0xF4 then (.inside 2 0x80 0x8F 4, [])
  else (.between, [none])

/-- One byte: the next state, and the characters (or ill-formed parts, as `none`) it completes. -/
def step : State → UInt8 → State × List (Option Char)
  | .between, b => first b
  | .inside more low high bits, b =>
    if low ≤ b ∧ b ≤ high then
      let bits := bits * 64 + (b.toNat - 0x80)
      match more with
      | 0 => (.between, [some (Char.ofNat bits)])
      | more + 1 => (.inside more 0x80 0xBF bits, [])
    else
      let (state, out) := first b
      (state, none :: out)

/-- The end of the bytes: a character that is still open is ill-formed. -/
def finish : State → List (Option Char)
  | .between => []
  | .inside .. => [none]

/-- The characters and ill-formed parts of the bytes, from a given state on. -/
def scan : State → Bytes → List (Option Char)
  | state, [] => finish state
  | state, b :: rest => (step state b).2 ++ scan (step state b).1 rest

/-- The bytes of a text. -/
def encode (text : List Char) : Bytes :=
  text.flatMap String.utf8EncodeChar

/-- All the characters, if no part is ill-formed. -/
def wellFormed : List (Option Char) → Option (List Char)
  | [] => some []
  | none :: _ => none
  | some c :: rest => (wellFormed rest).map (c :: ·)

/-- The text that the bytes spell; `none` if a part of them is ill-formed. -/
def decode? (bytes : Bytes) : Option (List Char) :=
  wellFormed (scan .between bytes)

/-- The character shown for an ill-formed part. -/
def replacement : Char := '\uFFFD'

/-- The text that the bytes spell, with every ill-formed part shown as one replacement
character. -/
def decodeLossy (bytes : Bytes) : List Char :=
  (scan .between bytes).map (·.getD replacement)

end Utf8

end PowerCurve.Text
