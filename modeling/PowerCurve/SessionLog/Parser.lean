import PowerCurve.Notice
import PowerCurve.SessionLog.Lines
import PowerCurve.SessionLog.Rules

/-!
# Parsing a log

```text
<channel description>
Start Time: <nanoseconds>
Channels: <identifier>
Sample Rate: <samples per reading>
Samples Per Second: <hertz>
Number of Timestamps: <n>
Number of Samples: <m>

<nanoseconds>|<message>        n lines

<v0>, <v1>, ..., <vk>          one line for each reading
```

A cursor goes down the lines. `Cursor.take` reads one line by a rule, `Cursor.takeMany` reads a
number of lines that the preamble announces. Both stop at the first line that does not fit, so the
announced number may be far beyond what the log holds.
-/

namespace PowerCurve.SessionLog

open PowerCurve.Text

/-- A place between two lines of a log. -/
structure Cursor where
  /-- The number of lines before it. -/
  consumed : Nat
  /-- What can be read after it. -/
  rest : Source

/-- Reads one line by a rule. -/
def Cursor.take {α : Type} (c : Cursor) (part : Part) (rule : Rule α) :
    Except LogError (α × Cursor) :=
  let refuse (cause : Cause) := .error (.misfit (c.consumed + 1) part cause)
  match c.rest.lines with
  | .text line :: lines =>
    match rule line with
    | .ok a => .ok (a, ⟨c.consumed + 1, lines, c.rest.fault⟩)
    | .error cause => refuse cause
  | .undecodable :: _ => refuse .undecodable
  | [] =>
    match c.rest.fault with
    | some fault => .error (.unreadable fault)
    | none => refuse .endOfInput

/-- Reads `count` lines by rules that depend on an index, which starts at `index`. -/
def Cursor.takeMany {α : Type} (part : Part) (rule : Nat → Rule α) :
    (count index : Nat) → Cursor → Except LogError (List α × Cursor)
  | 0, _, c => .ok ([], c)
  | count + 1, index, c => do
    let (a, c) ← c.take part (rule index)
    let (as, c) ← Cursor.takeMany part rule count (index + 1) c
    return (a :: as, c)

/-- Reads the preamble and the blank line after it. -/
def Cursor.takePreamble (c : Cursor) : Except LogError (Preamble × Cursor) := do
  let (description, c) ← c.take .preamble descriptionRule
  let (startTime, c) ← c.take .preamble startRule
  let (channels, c) ← c.take .preamble channelsRule
  let (sampleRate, c) ← c.take .preamble (rateRule .sampleRate)
  let (samplesPerSecond, c) ← c.take .preamble (rateRule .samplesPerSecond)
  let (eventCount, c) ← c.take .preamble (countRule .eventCount)
  let (sampleCount, c) ← c.take .preamble (countRule .sampleCount)
  let ((), c) ← c.take .preamble blankRule
  return ({ description, startTime, channels, sampleRate, samplesPerSecond, eventCount,
            sampleCount }, c)

/-- Reads the events and the blank line after them. -/
def Cursor.takeEvents (c : Cursor) (p : Preamble) :
    Except LogError (List Event × Cursor) := do
  let (events, c) ←
    Cursor.takeMany .events (fun _ => eventRule p.startTime) p.eventCount.toNat 0 c
  let ((), c) ← c.take .events blankRule
  return (events, c)

/-- Reads the rows of samples. -/
def Cursor.takeReadings (c : Cursor) (p : Preamble) (window : Nat) :
    Except LogError (List Reading × Cursor) :=
  Cursor.takeMany .samples (readingRule window p.readingInterval) p.rowCount 0 c

/-- Whether a line after the last row is worth a notice. -/
def Line.isRemarkable : Line → Bool
  | .text content => !allBlank content
  | .undecodable => true

/-- Goes to the end of the log; the number of lines that are worth a notice. -/
def Cursor.finish (c : Cursor) : Except LogError Nat :=
  match c.rest.fault with
  | some fault => .error (.unreadable fault)
  | none => .ok (c.rest.lines.countP Line.isRemarkable)

/-- Reads what follows the preamble: the session, and the number of ignored lines. -/
def Cursor.takeBody (c : Cursor) (p : Preamble) (window : Nat) :
    Except LogError (Session × Nat) := do
  let (events, c) ← c.takeEvents p
  let (readings, c) ← c.takeReadings p window
  let ignored ← c.finish
  return (⟨p, events, readings⟩, ignored)

/-- The notices of a parsed log. -/
def parsedNotices (s : Session) (ignored : Nat) : List Notice :=
  (if ignored = 0 then [] else [.linesIgnored ignored]) ++
    [.logParsed s.events.length s.readings.length]

/-- Parses a log; each reading is the sum of the last `window` samples of its row. -/
def parse (window : Nat) (source : Source) : Noted (Except LogError Session) :=
  if window = 0 then ⟨[], .error .emptyWindow⟩
  else
    match Cursor.takePreamble ⟨0, source⟩ with
    | .error e => ⟨[], .error e⟩
    | .ok (p, c) =>
      let opening :=
        Notice.preambleRead p.eventCount.toNat p.sampleCount.toNat p.sampleRate.toNat
      match c.takeBody p window with
      | .error e => ⟨[opening], .error e⟩
      | .ok (session, ignored) => ⟨opening :: parsedNotices session ignored, .ok session⟩

end PowerCurve.SessionLog
