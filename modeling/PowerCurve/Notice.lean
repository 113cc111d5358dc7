import PowerCurve.Decimal.Fixed
import PowerCurve.RunError
import PowerCurve.Text.Control

/-!
# Notices

What the program reports while it works. Operations return the notices that they give, in order,
beside their result.
-/

namespace PowerCurve

open PowerCurve.Decimal PowerCurve.Text

/-- How much a notice matters. -/
inductive Level where
  | debug
  | info
  | warn
  | error
deriving DecidableEq, Repr

/-- The name of a level. -/
def Level.text : Level → String
  | .debug => "DEBUG"
  | .info => "INFO"
  | .warn => "WARN"
  | .error => "ERROR"

/-- Why settings cannot be saved. -/
inductive SaveError where
  /-- The directory of the settings file cannot be created. -/
  | directory (path : Path) (cause : FileError)
  /-- The settings file cannot be written. -/
  | file (path : Path) (cause : FileError)
deriving DecidableEq, Repr

/-- The wording of a failed save. -/
def SaveError.text : SaveError → String
  | .directory path cause =>
    s!"Failed to create config directory {path.display}: {cause.text}"
  | .file path cause => s!"Failed to write settings file {path.display}: {cause.text}"

/-- Something worth reporting. -/
inductive Notice where
  /-- The preamble of a log is read. -/
  | preambleRead (events samples rate : Nat)
  /-- Lines after the last row are ignored. -/
  | linesIgnored (count : Nat)
  /-- A log is parsed. -/
  | logParsed (events readings : Nat)
  /-- A session is ready to be shown. -/
  | sessionLoaded (title : String) (events readings : Nat) (bounds : Bounds)
  /-- The power window in the settings is zero. -/
  | windowUnusable
  /-- The settings are not in the right form. -/
  | settingsMalformed
  /-- The settings file exists and cannot be read. -/
  | settingsUnread (path : Path) (cause : FileError)
  /-- The default settings are written. -/
  | defaultsWritten (path : Path)
  /-- The default settings cannot be written. -/
  | defaultsUnwritten (cause : SaveError)
  /-- A series of the session is empty. -/
  | seriesEmpty (series : EmptySeries)
  /-- The run fails. -/
  | runFailed (cause : RunError)
deriving Inhabited

/-- How much a notice matters. -/
def Notice.level : Notice → Level
  | .preambleRead .. => .debug
  | .linesIgnored _ => .debug
  | .logParsed .. => .info
  | .sessionLoaded .. => .info
  | .windowUnusable => .warn
  | .settingsMalformed => .warn
  | .settingsUnread .. => .warn
  | .defaultsWritten _ => .info
  | .defaultsUnwritten _ => .warn
  | .seriesEmpty _ => .warn
  | .runFailed _ => .error

/-- The program that shows a chart. Whatever both programs share speaks in its name. -/
def plotProgram : String := "powerplot"

/-- The program that prints a session. -/
def dumpProgram : String := "dump_session"

/-- The name of the component that gives a notice, under which the log records it. Only the command
that prints a session has a name of its own. -/
def Notice.component : Notice → String
  | .seriesEmpty _ => dumpProgram
  | _ => plotProgram

/-- A number with three places. -/
def threePlaces (x : Float) : String :=
  String.ofList (fixedText 3 x)

/-- The wording of a notice. -/
def Notice.text : Notice → String
  | .preambleRead events samples rate =>
    s!"Preamble read: {events} timestamps, {samples} samples at {rate} per reading"
  | .linesIgnored count => s!"Ignoring {count} line(s) after the last sample row"
  | .logParsed events readings =>
    s!"Parsed sensor log: {events} timestamps, {readings} readings"
  | .sessionLoaded title events readings bounds =>
    s!"Loaded {title}: {events} events, {readings} readings, " ++
      s!"x_max {threePlaces bounds.latestEvent}s, " ++
      s!"peak power {threePlaces bounds.highestReading}"
  | .windowUnusable =>
    s!"Power window of 0 is not usable, falling back to {standardPowerWindow}"
  | .settingsMalformed => "Ignoring malformed settings"
  | .settingsUnread path cause =>
    s!"Failed to read settings file {path.display}: {cause.text}"
  | .defaultsWritten path => s!"Wrote default settings to {path.display}"
  | .defaultsUnwritten cause => cause.text
  | .seriesEmpty series => series.text
  | .runFailed cause => cause.text

/-- A notice as the error stream shows it. -/
structure ShownNotice where
  /-- How much it matters. -/
  level : Level
  /-- Its wording, in which nothing can steer a terminal. -/
  text : String
deriving DecidableEq, Repr

/-- A notice as the error stream shows it. -/
def Notice.shown (n : Notice) : ShownNotice :=
  ⟨n.level, String.ofList (inert n.text.toList)⟩

/-- A result with the notices given on the way to it. -/
structure Noted (α : Type) where
  /-- The notices, in order. -/
  notices : List Notice
  /-- The result. -/
  result : α

end PowerCurve
