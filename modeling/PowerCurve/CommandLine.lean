import PowerCurve.Chart
import PowerCurve.Plot
import PowerCurve.Settings.Store

/-!
# The two commands

`plot` shows the chart of a log in a window; `dump` prints the session and its extremes as JSON.
Both take the name of one log. Only a usage message or a dump goes to standard output.
-/

namespace PowerCurve

open PowerCurve.Json

/-- What a run leaves behind. -/
structure Outcome where
  /-- The exit status. -/
  status : Nat
  /-- What it prints. -/
  output : String
  /-- What it prints on the error stream, apart from notices. -/
  errors : String
  /-- The notices it gives. -/
  notices : List Notice
  /-- The files after it. -/
  tree : FileTree

/-- The one file that a command line names; its first word is the name of the program. A command
line without any word counts as one of the program that shows a chart. -/
def inputPath : List Path → Except RunError Path
  | [_, path] => .ok path
  | program :: _ => .error (.misuse program.display)
  | [] => .error (.misuse plotProgram)

/-- The run of a command line that does not name one file. -/
def misuseOutcome (tree : FileTree) (e : RunError) : Outcome :=
  ⟨e.status, e.text ++ "\n", "", [], tree⟩

/-- A way to show a chart in a window. It gives a reason if the window cannot be opened. -/
abbrev Display := Window → Chart → Option String

/-- Shows the chart of the log that the command line names. -/
def plot (e : Environment) (display : Display) (tree : FileTree) (args : List Path) : Outcome :=
  match inputPath args with
  | .error e => misuseOutcome tree e
  | .ok path =>
    let (tree, settings) := Settings.establish tree e
    let loaded := Plot.ofFile tree path settings.result.powerWindow.toNat
    let notices := settings.notices ++ loaded.notices
    let fail (cause : RunError) : Outcome :=
      ⟨cause.status, "", "", notices ++ [.runFailed cause], tree⟩
    match loaded.result with
    | .error cause => fail cause
    | .ok l =>
      let chart := Chart.ofSession l.title l.session l.bounds settings.result.labelSize
      match display (.ofTitle l.title) chart with
      | some reason => fail (.noWindow reason)
      | none => ⟨0, "", "", notices, tree⟩

/-! ## Reporting an error with its sources -/

/-- A text whose lines after the first one are indented by `width`. -/
def hanging (width : Nat) (text : String) : String :=
  String.ofList (text.toList.flatMap fun c =>
    if c = '\n' then c :: List.replicate width ' ' else [c])

/-- A number, filled up to five characters. -/
def numbered (n : Nat) : String :=
  let number := Decimal.natText n
  String.ofList (List.replicate (5 - number.length) ' ' ++ number)

/-- The lines for several sources, counted from `n`. -/
def sourceLines (n : Nat) : List String → String
  | [] => ""
  | text :: rest => numbered n ++ ": " ++ hanging 7 text ++ "\n" ++ sourceLines (n + 1) rest

/-- An error with all that is behind it. -/
def RunError.report (e : RunError) : String :=
  "Error: " ++ e.text ++ "\n" ++
    match e.sources with
    | [] => ""
    | [text] => "\nCaused by:\n    " ++ hanging 4 text ++ "\n"
    | texts => "\nCaused by:\n" ++ sourceLines 0 texts

/-! ## Printing a session -/

/-- A session and its extremes as a JSON value. -/
def dumpJson (s : Session) (bounds : Option Bounds) : Value :=
  .record
    [("session", s.toJson),
      ("bounds", match bounds with
        | some b => b.toJson
        | none => .null)]

/-- Prints the log that the command line names. A session with an empty series has no extremes. -/
def dump (e : Environment) (tree : FileTree) (args : List Path) : Outcome :=
  match inputPath args with
  | .error e => misuseOutcome tree e
  | .ok path =>
    let settings := Settings.ofEnvironment tree e
    let loaded := Session.ofFile tree path settings.result.powerWindow.toNat
    let notices := settings.notices ++ loaded.notices
    match loaded.result with
    | .error cause => ⟨failureStatus, "", cause.report, notices, tree⟩
    | .ok session =>
      match Bounds.ofSession session with
      | .ok bounds =>
        ⟨0, (dumpJson session (some bounds)).indented ++ "\n", "", notices, tree⟩
      | .error series =>
        ⟨0, (dumpJson session none).indented ++ "\n", "", notices ++ [.seriesEmpty series],
          tree⟩

/-- The notices that the error stream shows: all but the finest level. -/
def Outcome.shown (o : Outcome) : List Notice :=
  o.notices.filter fun n => n.level ≠ .debug

/-- The log: what is shown and recorded under the name that both programs share. -/
def Outcome.log (o : Outcome) : List ShownNotice :=
  (o.shown.filter fun n => n.component = plotProgram).map Notice.shown

end PowerCurve
