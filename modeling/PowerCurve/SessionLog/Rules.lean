import PowerCurve.Decimal.Real
import PowerCurve.SessionLog.Error
import PowerCurve.Session
import PowerCurve.Text.Blank
import PowerCurve.Text.Pieces

/-!
# What the lines of a log say

Each kind of line has one rule, which sees the text of the line and nothing else: it gives what the
line says, or why the line does not fit.
-/

namespace PowerCurve.SessionLog

open PowerCurve.Text PowerCurve.Decimal

/-- The rule of a kind of line. -/
abbrev Rule (α : Type) := List Char → Except Cause α

/-- The first line is taken as it is. -/
def descriptionRule : Rule String := fun line =>
  .ok (String.ofList line)

/-- A line of the preamble: the value is what follows the first colon, without the blanks around
it. -/
def fieldRule {α : Type} (field : Field) (read : List Char → Option α) : Rule α := fun line =>
  match afterFirst ':' line with
  | none => .error (.noName field)
  | some rest =>
    match read (trim rest) with
    | some a => .ok a
    | none => .error (.badValue field (String.ofList (trim rest)))

/-- A field that holds a 32-bit number other than zero. -/
def rateRule (field : Field) : Rule UInt32 := fun line => do
  let n ← fieldRule field (readNatural? UInt32.size) line
  if n = 0 then .error (.zeroRate field) else .ok (UInt32.ofNat n)

/-- A field that holds a 64-bit number. -/
def countRule (field : Field) : Rule UInt64 := fun line => do
  let n ← fieldRule field (readNatural? UInt64.size) line
  return UInt64.ofNat n

/-- The start of the session. -/
def startRule : Rule Float :=
  fieldRule .startTime readReal?

/-- The channels, which are any text. -/
def channelsRule : Rule String :=
  fieldRule .channels fun text => some (String.ofList text)

/-- A line between two sections is blank. -/
def blankRule : Rule Unit := fun line =>
  if allBlank line then .ok () else .error (.notBlank (String.ofList line))

/-- A line of the events: the time in nanoseconds, one bar, and the label. -/
def eventRule (start : Float) : Rule Event := fun line =>
  match pieces '|' line with
  | [time, message] =>
    match readReal? (trim time) with
    | some nanos => .ok ⟨(nanos - start) / nanosecondsPerSecond, String.ofList (trim message)⟩
    | none => .error (.badTime (String.ofList (trim time)))
  | _ => .error (.badEvent (String.ofList line))

/-- One sample. -/
def sampleRule : Rule Float := fun text =>
  match readReal? (trim text) with
  | some x => .ok x
  | none => .error (.badSample (String.ofList (trim text)))

/-- The sum of a series from left to right. An empty series sums to negative zero, which is neutral
for the addition of all numbers. -/
def total (xs : List Float) : Float :=
  xs.foldl (· + ·) (-0.0)

/-- A row of samples with commas between them; its power is the sum of the last `window` ones. -/
def rowRule (window : Nat) : Rule Float := fun line => do
  let samples ← (pieces ',' line).mapM sampleRule
  if samples.length < window then .error (.shortRow samples.length window)
  else .ok (total (samples.drop (samples.length - window)))

/-- The time of the reading with the given index, counted from zero. -/
def readingTime (readingInterval : Float) (index : Nat) : Float :=
  readingInterval * (UInt64.ofNat (index + 1)).toFloat

/-- The row of the reading with the given index. -/
def readingRule (window : Nat) (readingInterval : Float) (index : Nat) : Rule Reading :=
  fun line => do
    let power ← rowRule window line
    return ⟨readingTime readingInterval index, power⟩

end PowerCurve.SessionLog
