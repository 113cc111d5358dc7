import PowerCurve.FileTree.Basic
import PowerCurve.SessionLog.Parser

/-!
# Loading a session

A log is opened, parsed, and its extremes are found. A directory can be opened but not read.
-/

namespace PowerCurve

open PowerCurve.SessionLog

/-- What arrives when an opened file or directory is read. -/
def Node.script : Node → List Arrival
  | .file content => [.bytes content]
  | .directory _ => [.failure (.file .isDirectory)]

/-- Opens and parses a log. -/
def Session.ofFile (tree : FileTree) (path : Path) (window : Nat) :
    Noted (Except RunError Session) :=
  match tree.lookup path with
  | .error cause => ⟨[], .error (.unopened path (.file cause))⟩
  | .ok node =>
    let parsed := parse window (.ofArrivals node.script)
    ⟨parsed.notices, parsed.result.mapError (.unparsed path)⟩

/-- A session that is ready to be shown. -/
structure Plot where
  /-- The file that it comes from. -/
  path : Path
  /-- The title of its chart. -/
  title : String
  /-- The session. -/
  session : Session
  /-- Its extremes. -/
  bounds : Bounds

/-- Opens and parses a log and finds the extremes of its session. -/
def Plot.ofFile (tree : FileTree) (path : Path) (window : Nat) :
    Noted (Except RunError Plot) :=
  let loaded := Session.ofFile tree path window
  match loaded.result with
  | .error e => ⟨loaded.notices, .error e⟩
  | .ok session =>
    match Bounds.ofSession session with
    | .error series => ⟨loaded.notices, .error (.empty series)⟩
    | .ok bounds =>
      let title := path.display
      ⟨loaded.notices ++
          [.sessionLoaded title session.events.length session.readings.length bounds],
        .ok ⟨path, title, session, bounds⟩⟩

end PowerCurve
