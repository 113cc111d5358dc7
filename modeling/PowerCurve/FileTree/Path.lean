import PowerCurve.Text.Blank
import PowerCurve.Text.Pieces
import PowerCurve.Text.Utf8

/-!
# Paths

A path is a byte string. Slashes cut it into components; an empty component and `.` lead nowhere,
`..` leads to the parent directory, and a path that starts with a slash starts at the root.

`Path.parent?` works on the spelling alone: it drops the last component that is a name or `..`, and
with it the slashes and dots around it. A dot at the very start of a path counts as a component.
-/

namespace PowerCurve

open PowerCurve.Text

/-- A path, or the name of a file. -/
abbrev Path := Bytes

/-- A component of a path. -/
abbrev Name := Bytes

namespace Path

/-- The byte between two components. -/
def slash : UInt8 := 47

/-- The component `.`. -/
def dot : Name := [46]

/-- The component `..`. -/
def dotDot : Name := [46, 46]

/-- The path that a text spells. -/
def ofString (s : String) : Path :=
  Utf8.encode s.toList

/-- A path for people to read. Parts that are not UTF-8 are shown as replacement characters. -/
def display (path : Path) : String :=
  String.ofList (Utf8.decodeLossy path)

/-- Whether a path starts at the root. -/
def isAbsolute (path : Path) : Bool :=
  path.head? = some slash

/-- The components of a path. An absolute path has an empty first component. -/
def components (path : Path) : List Name :=
  pieces slash path

/-- Whether a component leads nowhere. -/
def isIdle (name : Name) : Bool :=
  name = [] || name = dot

/-- The components without the last one that leads somewhere and without the idle ones around it;
`none` if all are idle. -/
def dropLast? (names : List Name) : Option (List Name) :=
  match names.reverse.dropWhile isIdle with
  | [] => none
  | _ :: before => some (before.dropWhile isIdle).reverse

/-- The path without its last component. The root and the empty path have no parent; a single
component has the empty path for a parent. -/
def parent? (path : Path) : Option Path :=
  match components path with
  | [] => none
  | first :: rest =>
    match dropLast? rest with
    | some [] => some (if first = [] then [slash] else first)
    | some names => some (joinPieces slash (first :: names))
    | none => if first = [] then none else some []

/-- A path below another one: an absolute path stands for itself, any other is appended after a
slash. -/
def join (path below : Path) : Path :=
  if isAbsolute below then below
  else if path = [] ∨ path.getLast? = some slash then path ++ below
  else path ++ slash :: below

/-- A path followed by its ancestors, from the nearest one on. A parent is shorter than its path, so
the length of the path bounds their number. -/
def ancestorsUpTo : (fuel : Nat) → Path → List Path
  | 0, path => [path]
  | fuel + 1, path =>
    match parent? path with
    | none => [path]
    | some parent => path :: ancestorsUpTo fuel parent

/-- A path followed by its ancestors. -/
def ancestors (path : Path) : List Path :=
  ancestorsUpTo path.length path

end Path

end PowerCurve
