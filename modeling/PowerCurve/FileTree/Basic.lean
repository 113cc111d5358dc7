import PowerCurve.FileTree.Path
import PowerCurve.Fault

/-!
# File trees

A file tree is a root directory and a working directory in it. There are no links, so every
directory has one location, the list of names that leads to it from the root.

The operations on paths resolve the path one component at a time. Every component is looked up in a
directory, also an empty one or a dot, so that a path with a slash at its end names a directory.
-/

namespace PowerCurve

open PowerCurve.Text

/-- A file or a directory. -/
inductive Node where
  /-- A file with its content. -/
  | file (content : Bytes)
  /-- A directory with its entries. -/
  | directory (entries : List (Name × Node))

/-- The entries of a directory. -/
abbrev Entries := List (Name × Node)

/-- The names that lead from the root to a file or directory. -/
abbrev Location := List Name

/-- All files, and the directory at which relative paths start. -/
structure FileTree where
  /-- The entries of the root directory. -/
  entries : Entries
  /-- The working directory. -/
  workingDirectory : Location

/-! ## Entries -/

/-- The entry with a name. -/
def Entries.find? (name : Name) : Entries → Option Node
  | [] => none
  | (n, node) :: rest => if n = name then some node else Entries.find? name rest

/-- Sets the entry with a name. -/
def Entries.put (name : Name) (node : Node) : Entries → Entries
  | [] => [(name, node)]
  | (n, old) :: rest =>
    if n = name then (name, node) :: rest else (n, old) :: Entries.put name node rest

/-- Removes the entry with a name. -/
def Entries.erase (name : Name) : Entries → Entries
  | [] => []
  | (n, node) :: rest => if n = name then rest else (n, node) :: Entries.erase name rest

/-- What stands at a location below some entries. -/
def Entries.get? : Location → Entries → Option Node
  | [], entries => some (.directory entries)
  | name :: rest, entries =>
    match Entries.find? name entries with
    | none => none
    | some (.file content) => if rest = [] then some (.file content) else none
    | some (.directory inner) => Entries.get? rest inner

/-- Changes the entries of the directory at a location. Nothing changes if there is no such
directory. -/
def Entries.modify (change : Entries → Entries) : Location → Entries → Entries
  | [], entries => change entries
  | name :: rest, entries =>
    match Entries.find? name entries with
    | some (.directory inner) =>
      Entries.put name (.directory (Entries.modify change rest inner)) entries
    | _ => entries

/-! ## Locations -/

namespace FileTree

/-- What stands at a location. -/
def get? (tree : FileTree) (location : Location) : Option Node :=
  Entries.get? location tree.entries

/-- Sets an entry of the directory at a location. -/
def put (tree : FileTree) (directory : Location) (name : Name) (node : Node) : FileTree :=
  { tree with entries := Entries.modify (Entries.put name node) directory tree.entries }

/-- Removes an entry of the directory at a location. -/
def erase (tree : FileTree) (directory : Location) (name : Name) : FileTree :=
  { tree with entries := Entries.modify (Entries.erase name) directory tree.entries }

/-! ## Resolving paths -/

/-- The number of bytes that a component may have. -/
def nameLimit : Nat := 255

/-- The number of bytes that a path may have. -/
def pathLimit : Nat := 4095

/-- The entries of the directory at a location. -/
def directoryAt (tree : FileTree) (location : Location) : Except FileError Entries :=
  match tree.get? location with
  | none => .error .notFound
  | some (.file _) => .error .notDirectory
  | some (.directory entries) => .ok entries

/-- One component: it is looked up in the directory at a location. -/
def enter (tree : FileTree) (location : Location) (name : Name) : Except FileError Location := do
  let entries ← tree.directoryAt location
  if Path.isIdle name then .ok location
  else if name = Path.dotDot then .ok location.dropLast
  else if nameLimit < name.length then .error .nameTooLong
  else
    match Entries.find? name entries with
    | none => .error .notFound
    | some _ => .ok (location ++ [name])

/-- Several components, one after the other. -/
def walk (tree : FileTree) : Location → List Name → Except FileError Location
  | location, [] => .ok location
  | location, name :: rest => do
    let location ← tree.enter location name
    tree.walk location rest

/-- Where a path starts. -/
def start (tree : FileTree) (path : Path) : Location :=
  if Path.isAbsolute path then [] else tree.workingDirectory

/-- What is wrong with a path whatever the tree. -/
def checkPath (path : Path) : Except FileError Unit :=
  if path.contains 0 then .error .nulByte
  else if path = [] then .error .notFound
  else if pathLimit < path.length then .error .nameTooLong
  else .ok ()

/-- The location that a path leads to. -/
def resolve (tree : FileTree) (path : Path) : Except FileError Location := do
  checkPath path
  tree.walk (tree.start path) (Path.components path)

/-- What a path leads to. -/
def lookup (tree : FileTree) (path : Path) : Except FileError Node := do
  let location ← tree.resolve path
  match tree.get? location with
  | some node => .ok node
  | none => .error .notFound

/-- Whether a path leads to anything. -/
def pathExists (tree : FileTree) (path : Path) : Bool :=
  match tree.lookup path with
  | .ok _ => true
  | .error _ => false

/-- Whether a path leads to a directory. -/
def isDirectory (tree : FileTree) (path : Path) : Bool :=
  match tree.lookup path with
  | .ok (.directory _) => true
  | _ => false

/-! ## Reading and writing -/

/-- The content of the file that a path leads to. -/
def contentAt (tree : FileTree) (path : Path) : Except FileError Bytes := do
  match ← tree.lookup path with
  | .file content => .ok content
  | .directory _ => .error .isDirectory

/-- The text of the file that a path leads to. -/
def textAt (tree : FileTree) (path : Path) : Except FileError (List Char) := do
  let content ← tree.contentAt path
  match Utf8.decode? content with
  | some text => .ok text
  | none => .error .notUtf8

/-- The place where an operation that creates something works: a directory and a new name in it. -/
structure Place where
  /-- The directory. -/
  directory : Location
  /-- The name. -/
  name : Name
  /-- What stands there already. -/
  present : Option Node

/-- The components of a path without the empty ones at its end, and whether there were any. -/
def withoutTrailing (path : Path) : List Name × Bool :=
  let names := (Path.components path).reverse
  ((names.dropWhile (· = [])).reverse, names.head? = some [])

/-- The place that a path names. All components but the last one are resolved. The result is `none`
if the last component is not a name. -/
def place? (tree : FileTree) (path : Path) : Except FileError (Option Place) := do
  checkPath path
  let names := (withoutTrailing path).1
  let directory ← tree.walk (tree.start path) names.dropLast
  let entries ← tree.directoryAt directory
  match names.getLast? with
  | none => .ok none
  | some name =>
    if Path.isIdle name ∨ name = Path.dotDot then .ok none
    else .ok (some ⟨directory, name, Entries.find? name entries⟩)

/-- Creates a directory. -/
def makeDirectory (tree : FileTree) (path : Path) : Except FileError FileTree := do
  match ← tree.place? path with
  | none => .error .alreadyExists
  | some place =>
    if nameLimit < place.name.length then .error .nameTooLong
    else
      match place.present with
      | some _ => .error .alreadyExists
      | none => .ok (tree.put place.directory place.name (.directory []))

/-- Writes a file, replacing what it held. A path that ends in a slash or a dot names no file. -/
def writeAt (tree : FileTree) (path : Path) (content : Bytes) : Except FileError FileTree := do
  match ← tree.place? path with
  | none => .error .isDirectory
  | some place =>
    if (withoutTrailing path).2 then .error .isDirectory
    else if nameLimit < place.name.length then .error .nameTooLong
    else
      match place.present with
      | some (.directory _) => .error .isDirectory
      | _ => .ok (tree.put place.directory place.name (.file content))

/-- Creates the first of some paths, of which each is the parent of the one before it, and creates
its parent first if that is missing. The tree shows what was created even if the whole fails. -/
def makeChain (tree : FileTree) : List Path → FileTree × Except FileError Unit
  | [] => (tree, .ok ())
  | path :: parents =>
    if path = [] then (tree, .ok ())
    else
      match tree.makeDirectory path with
      | .ok made => (made, .ok ())
      | .error .notFound =>
        match tree.makeChain parents with
        | (grown, .error cause) => (grown, .error cause)
        | (grown, .ok ()) =>
          match grown.makeDirectory path with
          | .ok made => (made, .ok ())
          | .error cause =>
            (grown, if grown.isDirectory path then .ok () else .error cause)
      | .error cause => (tree, if tree.isDirectory path then .ok () else .error cause)

/-- Creates a directory and every missing directory above it. -/
def makeDirectories (tree : FileTree) (path : Path) : FileTree × Except FileError Unit :=
  tree.makeChain (Path.ancestors path)

end FileTree

end PowerCurve
