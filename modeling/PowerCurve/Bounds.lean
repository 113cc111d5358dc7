import PowerCurve.Session

/-!
# The range of the chart

The latest event decides how far the chart reaches to the right and the highest reading how far it
reaches up, each with some room beyond it. Both series must have a value.
-/

namespace PowerCurve

open PowerCurve.Json

/-- Room to the right of the latest event, in seconds. -/
def timePadding : Float := 1.0

/-- Room above the highest reading. -/
def powerPadding : Float := 10.0

/-- The extremes of a session. -/
structure Bounds where
  /-- The time of the latest event. -/
  latestEvent : Float
  /-- The highest power. -/
  highestReading : Float
deriving Inhabited

/-- A series without values, whose extreme is undefined. -/
structure EmptySeries where
  /-- The name of the series. -/
  series : String
deriving DecidableEq, Repr

/-- The wording of an empty series. -/
def EmptySeries.text (e : EmptySeries) : String :=
  s!"session has no {e.series}; cannot derive the chart range"

/-- The session has no events. -/
def noEvents : EmptySeries := ⟨"timestamps"⟩

/-- The session has no readings. -/
def noReadings : EmptySeries := ⟨"readings"⟩

/-- The extremes of a session. Missing events are noticed before missing readings. -/
def Bounds.ofSession (s : Session) : Except EmptySeries Bounds :=
  match greatest (s.events.map Event.time) with
  | none => .error noEvents
  | some latest =>
    match s.highestPower with
    | none => .error noReadings
    | some highest => .ok ⟨latest, highest⟩

/-- A rectangle of the chart, given by two opposite corners. -/
structure Range where
  /-- The lower left corner. -/
  low : Float × Float
  /-- The upper right corner. -/
  high : Float × Float

/-- What the chart shows: from the origin to the extremes and the room beyond them. -/
def Bounds.range (b : Bounds) : Range :=
  ⟨(0.0, 0.0), (b.latestEvent + timePadding, b.highestReading + powerPadding)⟩

/-- Extremes as a JSON value. -/
def Bounds.toJson (b : Bounds) : Value :=
  .record [("x_max", .ofFloat b.latestEvent), ("y_max", .ofFloat b.highestReading)]

end PowerCurve
