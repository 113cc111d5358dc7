import PowerCurve.Fault

/-!
# Errors in a log

A log is refused with the number of the first line that does not fit, the section that was being
read, and the cause. All wordings are here.
-/

namespace PowerCurve.SessionLog

/-- The part of a log that is being read. -/
inductive Part where
  /-- The seven lines of settings and the blank line after them. -/
  | preamble
  /-- The events and the blank line after them. -/
  | events
  /-- The rows of samples. -/
  | samples
  /-- Everything is read. -/
  | done
deriving DecidableEq, Repr

/-- The name of a section in messages. -/
def Part.text : Part → String
  | .preamble => "Preamble"
  | .events => "timestamp section"
  | .samples => "sample section"
  | .done => "Done"

/-- A named value of the preamble. -/
inductive Field where
  | startTime
  | channels
  | sampleRate
  | samplesPerSecond
  | eventCount
  | sampleCount
deriving DecidableEq, Repr

/-- The name of a field in messages. -/
def Field.text : Field → String
  | .startTime => "start time"
  | .channels => "channels"
  | .sampleRate => "sample rate"
  | .samplesPerSecond => "samples per second"
  | .eventCount => "number of timestamps"
  | .sampleCount => "number of samples"

/-- What kind of value a field holds. -/
def Field.expected : Field → String
  | .startTime => "a real number"
  | .channels => "text"
  | _ => "a non-negative integer"

/-- Why a line does not fit. -/
inductive Cause where
  /-- There is no such line. -/
  | endOfInput
  /-- The bytes of the line are not UTF-8. -/
  | undecodable
  /-- The line between two sections is not blank. -/
  | notBlank (line : String)
  /-- A line of the preamble has no colon. -/
  | noName (field : Field)
  /-- The value of a field is of the wrong kind. -/
  | badValue (field : Field) (found : String)
  /-- A rate is zero. -/
  | zeroRate (field : Field)
  /-- A line of the events has no bar or more than one. -/
  | badEvent (line : String)
  /-- The time of an event is not a real number. -/
  | badTime (found : String)
  /-- A sample is not a real number. -/
  | badSample (found : String)
  /-- A row has fewer samples than the power window. -/
  | shortRow (values window : Nat)
  /-- A cause in the words of whoever states it. -/
  | stated (message : String)
deriving DecidableEq, Repr

/-- The wording of a cause. -/
def Cause.text : Cause → String
  | .endOfInput => "unexpected end of input"
  | .undecodable => "line is not valid UTF-8"
  | .notBlank line => s!"expected blank separator line, found `{line}`"
  | .noName field => s!"expected `<name>: <value>` for {field.text}"
  | .badValue field found => s!"{field.text} must be {field.expected}, found `{found}`"
  | .zeroRate field => s!"{field.text} must be greater than zero"
  | .badEvent line => s!"expected `<timestamp>|<message>`, found `{line}`"
  | .badTime found => s!"timestamp must be a real number, found `{found}`"
  | .badSample found => s!"sample value must be a real number, found `{found}`"
  | .shortRow values window =>
    s!"row too short for power window: {values} value(s), window is {window}"
  | .stated message => message

/-- Why a log cannot be parsed. -/
inductive LogError where
  /-- A line does not fit. -/
  | misfit (line : Nat) (part : Part) (cause : Cause)
  /-- The power window is empty. -/
  | emptyWindow
  /-- The log cannot be read to its end. -/
  | unreadable (fault : Fault)
deriving DecidableEq, Repr

/-- The wording of an error in a log. -/
def LogError.text : LogError → String
  | .misfit line part cause => s!"line {line} ({part.text}): {cause.text}"
  | .emptyWindow => "power window must be at least 1"
  | .unreadable fault => s!"read error: {fault.text}"

/-- The fault behind an error in a log, if there is one. -/
def LogError.source : LogError → Option Fault
  | .unreadable fault => some fault
  | _ => none

end PowerCurve.SessionLog
