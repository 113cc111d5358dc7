import PowerCurve.FileTree.Basic
import PowerCurve.Settings.Basic

/-!
# Where settings are kept

The settings file lies in a directory of its own below the configuration directory of the user. A
file that is missing or cannot be used never stops the program: the defaults stand in. On a first
run they are written out, so that they can be edited.
-/

namespace PowerCurve

open PowerCurve.Text

/-- What the environment says about directories. -/
structure Environment where
  /-- The configuration directory. -/
  configHome : Option Path
  /-- The home directory. -/
  home : Option Path

/-- The directory of the settings file. A configuration directory that is not absolute does not
count; the one below the home directory takes its place. -/
def Environment.configDirectory? (e : Environment) : Option Path :=
  let ofHome := (e.home.filter (· ≠ [])).map fun home => Path.join home (.ofString ".config")
  ((e.configHome.filter Path.isAbsolute).or ofHome).map fun directory =>
    Path.join directory (.ofString plotProgram)

/-- The settings file. -/
def Environment.settingsFile? (e : Environment) : Option Path :=
  e.configDirectory?.map fun directory => Path.join directory (.ofString "settings.json")

namespace Settings

/-- The content of a settings file. -/
def fileContent (s : Settings) : Bytes :=
  Utf8.encode (s.toJson.text .indented)

/-- Reads the settings from a file. -/
def ofFile (tree : FileTree) (path : Path) : Noted Settings :=
  if tree.pathExists path then
    match tree.textAt path with
    | .ok text => ofText text
    | .error cause => ⟨[.settingsUnread path cause], standard⟩
  else ⟨[], standard⟩

/-- Writes the settings to a file, creating the directories above it. -/
def writeTo (s : Settings) (tree : FileTree) (path : Path) : FileTree × Except SaveError Unit :=
  let write (tree : FileTree) : FileTree × Except SaveError Unit :=
    match tree.writeAt path s.fileContent with
    | .ok written => (written, .ok ())
    | .error cause => (tree, .error (.file path cause))
  match Path.parent? path with
  | none => write tree
  | some parent =>
    match tree.makeDirectories parent with
    | (grown, .ok ()) => write grown
    | (grown, .error cause) => (grown, .error (.directory parent cause))

/-- Reads the settings from a file; if nothing is there, the defaults are written to it. -/
def establishAt (tree : FileTree) (path : Path) : FileTree × Noted Settings :=
  if tree.pathExists path then (tree, ofFile tree path)
  else
    match writeTo standard tree path with
    | (saved, .ok ()) => (saved, ⟨[.defaultsWritten path], standard⟩)
    | (grown, .error cause) => (grown, ⟨[.defaultsUnwritten cause], standard⟩)

/-- Reads the settings of the user. -/
def ofEnvironment (tree : FileTree) (e : Environment) : Noted Settings :=
  match e.settingsFile? with
  | some path => ofFile tree path
  | none => ⟨[], standard⟩

/-- Reads the settings of the user, writing them out on a first run. -/
def establish (tree : FileTree) (e : Environment) : FileTree × Noted Settings :=
  match e.settingsFile? with
  | some path => establishAt tree path
  | none => (tree, ⟨[], standard⟩)

end Settings

end PowerCurve
