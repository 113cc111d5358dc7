import PowerCurve.Bounds

/-!
# The chart

What the window shows: two lines of header, the power curve, and a dashed marker with a label for
each event. The labels are spread over several rows below the highest reading, so that neighbours
do not cover each other.
-/

namespace PowerCurve

/-- A colour. -/
structure Colour where
  red : UInt8
  green : UInt8
  blue : UInt8
deriving DecidableEq, Repr

/-- The colour of the power curve. -/
def curveColour : Colour := ⟨71, 108, 155⟩

/-- The colour of the event markers and their labels. -/
def markerColour : Colour := ⟨253, 193, 73⟩

/-- The width of the power curve. -/
def curveWidth : Float32 := 1.5

/-- The number of rows over which the labels are spread. -/
def labelRowCount : Nat := 8

/-- The height at which the label of the event with the given index stands. -/
def labelLevel (index : Nat) (highest : Float) : Float :=
  let row := index % labelRowCount + 1
  greater highest 0.0 * (UInt64.ofNat row).toFloat / (UInt64.ofNat (labelRowCount + 1)).toFloat

/-- The label of an event. -/
structure Label where
  /-- The lower left corner of the text. -/
  corner : Float × Float
  /-- The text. -/
  text : String
  /-- The size of the font. -/
  size : Float32

/-- A chart. -/
structure Chart where
  /-- The first line of the header. -/
  title : String
  /-- The second line of the header. -/
  description : String
  /-- What the horizontal axis shows. -/
  xAxis : String
  /-- What the vertical axis shows. -/
  yAxis : String
  /-- The labels of the events, in their order. -/
  labels : List Label
  /-- The points of the curve. -/
  curve : List (Float × Float)
  /-- The part of the plane that is shown; it cannot be moved. -/
  range : Range
  /-- Whether it is drawn on a dark ground. -/
  dark : Bool

/-- The second line of the header. -/
def Preamble.summary (p : Preamble) : String :=
  s!"{p.description}  |  channels {p.channels}  |  " ++
    s!"{p.sampleRate} samples/reading at {p.samplesPerSecond} Hz"

/-- The labels of some events, of which the first one has the given index. -/
def labelsFrom (highest : Float) (size : Float32) (index : Nat) : List Event → List Label
  | [] => []
  | e :: rest =>
    ⟨(e.time, labelLevel index highest), e.message, size⟩ ::
      labelsFrom highest size (index + 1) rest

/-- The chart of a session. -/
def Chart.ofSession (title : String) (s : Session) (b : Bounds) (labelSize : Float32) : Chart where
  title := title
  description := s.preamble.summary
  xAxis := "Time (seconds)"
  yAxis := "Power (joules)"
  labels := labelsFrom b.highestReading labelSize 0 s.events
  curve := s.curve
  range := b.range
  dark := true

/-- What is asked of the window system. -/
structure Window where
  /-- The title of the window. -/
  title : String
  /-- The name under which the window system knows the program. -/
  program : String
  /-- The size at the start. -/
  size : Float32 × Float32
  /-- The smallest size. -/
  minimum : Float32 × Float32

/-- The size of a window at the start. -/
def windowSize : Float32 × Float32 := (1280.0, 800.0)

/-- The smallest size of a window. -/
def minimumWindowSize : Float32 × Float32 := (640.0, 400.0)

/-- The window for a chart. -/
def Window.ofTitle (title : String) : Window :=
  ⟨title, "PowerPlot", windowSize, minimumWindowSize⟩

end PowerCurve
