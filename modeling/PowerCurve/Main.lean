import PowerCurve.CommandLine

/-!
# The program

The outer layer reads the files that a run can see into a file tree, runs the command on it, writes
back the settings file if the run created it, and prints. The executable's own name selects the
command. There is no window system to draw on, so the chart is never shown.
-/

namespace PowerCurve.Program

open PowerCurve.Text

/-- The bytes of a text. -/
def bytesOf (s : String) : Bytes := s.toUTF8.toList

/-- Whether a path leads to a directory on disk. -/
def isDirectoryOnDisk (path : Path) : IO Bool := do
  try (← IO.FS.realPath path.display).isDir catch _ => return false

/-- Adds what a path leads to on disk to a tree: the directories on the way and the file. -/
def observe (tree : FileTree) (path : Path) : IO FileTree := do
  let mut seen := tree
  for ancestor in (Path.ancestors path).reverse do
    if ancestor ≠ [] then
      if ← isDirectoryOnDisk ancestor then
        seen := (seen.makeDirectories ancestor).1
  try
    let content ← IO.FS.readBinFile path.display
    return (seen.writeAt path content.toList).toOption.getD seen
  catch _ => return seen

/-- The files that a run can see: the settings file and the files that the command line names. -/
def snapshot (paths : List Path) : IO FileTree := do
  let here := bytesOf (← IO.currentDir).toString
  let start : FileTree := ⟨[], (Path.components here).filter (· ≠ [])⟩
  paths.foldlM observe (start.makeDirectories here).1

/-- Writes the settings file to disk if a run created or changed it. -/
def writeBack (before after : FileTree) (path : Path) : IO Unit := do
  match after.contentAt path with
  | .ok content =>
    if (before.contentAt path).toOption ≠ some content then
      if let some parent := Path.parent? path then
        IO.FS.createDirAll parent.display
      IO.FS.writeBinFile path.display (ByteArray.mk content.toArray)
  | .error _ => return ()

/-- Runs the command that the executable is named for. -/
def run (program : String) (args : List String) : IO UInt32 := do
  let environment : Environment :=
    ⟨(← IO.getEnv "XDG_CONFIG_HOME").map bytesOf, (← IO.getEnv "HOME").map bytesOf⟩
  let words := (program :: args).map bytesOf
  let settingsFile := environment.settingsFile?.toList
  let tree ← snapshot (settingsFile ++ words.drop 1)
  let outcome :=
    if program.endsWith dumpProgram then dump environment tree words
    else plot environment (fun _ _ => some "no display is available") tree words
  settingsFile.forM (writeBack tree outcome.tree)
  for notice in outcome.shown do
    IO.eprintln s!"{notice.level.text} {notice.component}: {notice.shown.text}"
  IO.eprint outcome.errors
  IO.print outcome.output
  return UInt32.ofNat outcome.status

end PowerCurve.Program

/-- The entry point of the program. -/
def main (args : List String) : IO UInt32 := do
  PowerCurve.Program.run (← IO.appPath).toString args
