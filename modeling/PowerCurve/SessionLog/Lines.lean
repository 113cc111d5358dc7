import PowerCurve.Fault
import PowerCurve.Text.Utf8

/-!
# The lines of a log

A log arrives as a script: chunks of bytes, with failures between them. Lines end at a line feed;
one carriage return before it is removed with it. What follows the last line feed is a line too
unless it is empty. A line that is not UTF-8 is a line that cannot be decoded.

The reader holds the bytes of the line that is not finished yet and nothing else, so it does not
matter where chunks end (`feed_append`). `Source.ofArrivals` gives the lines that can be read and
the fault, if any, at which reading stops.
-/

namespace PowerCurve.SessionLog

open PowerCurve.Text

/-- A line without its terminator. -/
inductive Line where
  /-- A line of text. -/
  | text (content : List Char)
  /-- A line whose bytes are not UTF-8. -/
  | undecodable
deriving DecidableEq, Repr

/-- One step in the delivery of a log. -/
inductive Arrival where
  /-- Some bytes arrive. -/
  | bytes (chunk : Bytes)
  /-- The device fails once. -/
  | failure (fault : Fault)
deriving DecidableEq, Repr

/-- All that can be read of a log. -/
structure Source where
  /-- The lines that are read. -/
  lines : List Line
  /-- The fault that stops the reading after them; without it the log ends there. -/
  fault : Option Fault
deriving DecidableEq, Repr

/-- The byte that ends a line. -/
def lineFeed : UInt8 := 10

/-- The byte that may stand before a line feed. -/
def carriageReturn : UInt8 := 13

/-- The line with the given bytes. -/
def Line.ofBytes (bytes : Bytes) : Line :=
  match Utf8.decode? bytes with
  | some content => .text content
  | none => .undecodable

/-- The bytes of a finished line. It is held in reverse, so a carriage return before the line feed
is at the front. -/
def finished : (held : Bytes) → Bytes
  | [] => []
  | b :: held => if b = carriageReturn then held.reverse else (b :: held).reverse

/-- Reads a chunk while `held` is held in reverse: the bytes of the lines that it finishes, and what
is held afterwards. -/
def feed : (held chunk : Bytes) → List Bytes × Bytes
  | held, [] => ([], held)
  | held, b :: chunk =>
    if b = lineFeed then (finished held :: (feed [] chunk).1, (feed [] chunk).2)
    else feed (b :: held) chunk

/-- The last line, if there is anything of it. Nothing ends it, so its carriage return stays. -/
def remainder (held : Bytes) : List Line :=
  if held = [] then [] else [Line.ofBytes held.reverse]

/-- Puts lines in front of a source. -/
def Source.after (lines : List Line) (source : Source) : Source :=
  { source with lines := lines ++ source.lines }

/-- What can be read of a script while `held` is held in reverse. -/
def collect : (held : Bytes) → List Arrival → Source
  | held, [] => ⟨remainder held, none⟩
  | held, .bytes chunk :: rest =>
    (collect (feed held chunk).2 rest).after ((feed held chunk).1.map Line.ofBytes)
  | held, .failure fault :: rest =>
    match fault.effect with
    | .retried => collect held rest
    | .spoilsLine => (collect [] rest).after [.undecodable]
    | .endsReading => ⟨[], some fault⟩

/-- What can be read of a script. -/
def Source.ofArrivals (script : List Arrival) : Source :=
  collect [] script

/-- What can be read of bytes that arrive in one piece. -/
def Source.ofBytes (bytes : Bytes) : Source :=
  Source.ofArrivals [.bytes bytes]

/-- What can be read of a text. -/
def Source.ofText (text : String) : Source :=
  Source.ofBytes (Utf8.encode text.toList)

/-- Two chunks one after the other are read as one. -/
theorem feed_append (held a b : Bytes) :
    feed held (a ++ b) =
      ((feed held a).1 ++ (feed (feed held a).2 b).1, (feed (feed held a).2 b).2) := by
  induction a generalizing held with
  | nil => simp [feed]
  | cons x a ih =>
    rw [List.cons_append, feed, feed]
    split
    · simp [ih]
    · exact ih _

end PowerCurve.SessionLog
