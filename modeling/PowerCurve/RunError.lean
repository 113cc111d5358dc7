import PowerCurve.Bounds
import PowerCurve.FileTree.Path
import PowerCurve.SessionLog.Error

/-!
# Why a chart is not shown

A wrong command line has an exit status of its own; every other failure shares one. An error may
have a chain of sources, each of which has its own wording.
-/

namespace PowerCurve

open PowerCurve.SessionLog

/-- Why a chart is not shown. -/
inductive RunError where
  /-- The command line does not name one file. -/
  | misuse (program : String)
  /-- The file cannot be opened. -/
  | unopened (path : Path) (fault : Fault)
  /-- The file is not a log. -/
  | unparsed (path : Path) (error : LogError)
  /-- A series of the session is empty. -/
  | empty (series : EmptySeries)
  /-- The window cannot be opened. -/
  | noWindow (reason : String)
deriving DecidableEq, Repr

/-- The wording of an error. -/
def RunError.text : RunError → String
  | .misuse program => s!"{program} <file name>"
  | .unopened path fault => s!"failed to open '{path.display}': {fault.text}"
  | .unparsed path error => s!"failed to parse '{path.display}': {error.text}"
  | .empty series => series.text
  | .noWindow reason => s!"failed to open chart window: {reason}"

/-- The exit status for a wrong command line. -/
def misuseStatus : Nat := 2

/-- The exit status for every other failure. -/
def failureStatus : Nat := 1

/-- Whether the command line is at fault. -/
def RunError.isMisuse : RunError → Bool
  | .misuse _ => true
  | _ => false

/-- The exit status for an error. -/
def RunError.status (e : RunError) : Nat :=
  if e.isMisuse then misuseStatus else failureStatus

/-- The wordings of what is behind an error, from the nearest source on. -/
def RunError.sources : RunError → List String
  | .unopened _ fault => [fault.text]
  | .unparsed _ error => error.text :: (error.source.map Fault.text).toList
  | _ => []

end PowerCurve
