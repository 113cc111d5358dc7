import PowerCurve.Json.Printer
import PowerCurve.Json.Reader
import PowerCurve.Json.Real
import PowerCurve.Notice

/-!
# Settings

The settings are three values that are kept between runs. A text of settings is a record, or a list
of the values in order, in which values may be missing; missing values take their defaults. Members
with other names are ignored. A text of any other form counts as no settings at all, and then all
values take their defaults.

A power window of zero, and a font size that is not finite or not positive, are read but not used:
each is replaced by its default alone.
-/

namespace PowerCurve

open PowerCurve.Decimal PowerCurve.Json

/-- The settings. -/
structure Settings where
  /-- The version of the settings file. -/
  version : UInt32
  /-- The number of trailing columns that are summed into a reading. -/
  powerWindow : UInt64
  /-- The size of the font of the labels. -/
  labelSize : Float32

/-- The size of the font of the labels unless told otherwise. -/
def standardLabelSize : Float32 := 10.0

/-- The settings of a first run. -/
def Settings.standard : Settings :=
  ⟨1, UInt64.ofNat standardPowerWindow, standardLabelSize⟩

instance : Inhabited Settings := ⟨Settings.standard⟩

namespace Settings

/-- Settings as a JSON value. -/
def toJson (s : Settings) : Value :=
  .record
    [("version", .ofNat s.version.toNat),
      ("power_window", .ofNat s.powerWindow.toNat),
      ("label_font_size", .ofFloat32 s.labelSize)]

/-! ## Reading -/

/-- A natural number below `limit`, written without a sign, a point or an exponent. -/
def natural? (limit : Nat) : Value → Option Nat
  | .number n =>
    if n.negative = false ∧ n.fraction = [] ∧ n.exponent = none ∧ value n.whole < limit then
      some (value n.whole)
    else none
  | _ => none

/-- A version. -/
def version? (v : Value) : Option UInt32 :=
  (natural? UInt32.size v).map UInt32.ofNat

/-- A power window. -/
def powerWindow? (v : Value) : Option UInt64 :=
  (natural? UInt64.size v).map UInt64.ofNat

/-- A font size. -/
def labelSize? : Value → Option Float32
  | .number n => real32? n
  | _ => none

/-- A value that may be missing but not occur twice. -/
def optional {α : Type} (missing : α) (read : Value → Option α) : List Value → Option α
  | [] => some missing
  | [v] => read v
  | _ => none

/-- Settings whose values are given as lists with at most one element. -/
def assemble (version powerWindow labelSize : List Value) : Option Settings := do
  let version ← optional standard.version version? version
  let powerWindow ← optional standard.powerWindow powerWindow? powerWindow
  let labelSize ← optional standard.labelSize labelSize? labelSize
  return ⟨version, powerWindow, labelSize⟩

/-- The values of the members with a name. -/
def named (name : String) (members : List (List Glyph × Value)) : List Value :=
  (members.filter fun m => m.1 = glyphsOf name.toList).map (·.2)

/-- The settings that a JSON value denotes, if it has the right form. The names in a record must be
texts. -/
def ofJson? : Value → Option Settings
  | .object members =>
    if members.all fun m => (textOf? m.1).isSome then
      assemble (named "version" members) (named "power_window" members)
        (named "label_font_size" members)
    else none
  | .list items =>
    if items.length ≤ 3 then
      assemble (items.take 1) ((items.drop 1).take 1) (items.drop 2)
    else none
  | _ => none

/-! ## Replacing what cannot be used -/

/-- Whether labels can be written in a font of this size. -/
def isUsableSize (size : Float32) : Bool :=
  size.isFinite && size > 0.0

/-- The settings with each value that cannot be used replaced by its default. -/
def repaired (s : Settings) : Settings where
  version := s.version
  powerWindow := if s.powerWindow = 0 then standard.powerWindow else s.powerWindow
  labelSize := if isUsableSize s.labelSize then s.labelSize else standardLabelSize

/-- The settings that a text denotes. -/
def ofText (text : List Char) : Noted Settings :=
  match (read? text).bind ofJson? with
  | none => ⟨[.settingsMalformed], standard⟩
  | some s => ⟨if s.powerWindow = 0 then [.windowUnusable] else [], s.repaired⟩

end Settings

end PowerCurve
