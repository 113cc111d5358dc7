import PowerCurve.Json.Number

/-!
# Recorded sessions

A session is what a log says: the settings of the recording, the labelled events, and one power
reading for each row of samples. Times are in seconds since the start of the session.
-/

namespace PowerCurve

/-- The number of trailing columns that are summed into a reading unless told otherwise. -/
def standardPowerWindow : Nat := 6

/-- Nanoseconds in a second. -/
def nanosecondsPerSecond : Float := 1000000000.0

/-- How a session was recorded. -/
structure Preamble where
  /-- What was measured, in the words of the log. -/
  description : String
  /-- The start of the session in nanoseconds. -/
  startTime : Float
  /-- The channels that were recorded. -/
  channels : String
  /-- The number of raw samples behind one reading. -/
  sampleRate : UInt32
  /-- The frequency of raw samples. -/
  samplesPerSecond : UInt32
  /-- The number of events. -/
  eventCount : UInt64
  /-- The number of raw samples. -/
  sampleCount : UInt64
deriving DecidableEq, Inhabited

/-- A labelled event. -/
structure Event where
  /-- When it happened. -/
  time : Float
  /-- Its label. -/
  message : String
deriving DecidableEq, Inhabited

/-- A power reading. -/
structure Reading where
  /-- When its samples were complete. -/
  time : Float
  /-- The power. -/
  power : Float
deriving DecidableEq, Inhabited

/-- A recorded session. -/
structure Session where
  /-- How it was recorded. -/
  preamble : Preamble
  /-- The events, in the order of the log. -/
  events : List Event
  /-- The readings, in the order of the log. -/
  readings : List Reading
deriving DecidableEq, Inhabited

/-- The number of readings: as many as are needed to cover all the samples. -/
def Preamble.rowCount (p : Preamble) : Nat :=
  if p.sampleRate = 0 then 0
  else (p.sampleCount.toNat + p.sampleRate.toNat - 1) / p.sampleRate.toNat

/-- The time that one reading covers, in seconds. -/
def Preamble.readingInterval (p : Preamble) : Float :=
  p.sampleRate.toFloat / p.samplesPerSecond.toFloat

/-- The greater of two numbers. What is not a number loses against every number. -/
def greater (x y : Float) : Float :=
  if x > y || y.isNaN then x else y

/-- The greatest number of a series; `none` if the series is empty. -/
def greatest : List Float → Option Float
  | [] => none
  | x :: xs => some (xs.foldl greater x)

/-- The time of the last reading, zero if there is none. -/
def Session.endTime (s : Session) : Float :=
  match s.readings.getLast? with
  | some reading => reading.time
  | none => 0.0

/-- The highest power, if there is a reading. -/
def Session.highestPower (s : Session) : Option Float :=
  greatest (s.readings.map Reading.power)

/-- The power curve as points. -/
def Session.curve (s : Session) : List (Float × Float) :=
  s.readings.map fun r => (r.time, r.power)

/-! ## Sessions as JSON -/

open PowerCurve.Json

/-- A preamble as a JSON value. -/
def Preamble.toJson (p : Preamble) : Value :=
  .record
    [("channel_description", .ofString p.description),
      ("start_time", .ofFloat p.startTime),
      ("channels", .ofString p.channels),
      ("sample_rate", .ofNat p.sampleRate.toNat),
      ("samples_per_second", .ofNat p.samplesPerSecond.toNat),
      ("num_timestamps", .ofNat p.eventCount.toNat),
      ("num_samples", .ofNat p.sampleCount.toNat)]

/-- An event as a JSON value. -/
def Event.toJson (e : Event) : Value :=
  .record [("time", .ofFloat e.time), ("message", .ofString e.message)]

/-- A reading as a JSON value. -/
def Reading.toJson (r : Reading) : Value :=
  .record [("time", .ofFloat r.time), ("power", .ofFloat r.power)]

/-- A session as a JSON value. -/
def Session.toJson (s : Session) : Value :=
  .record
    [("preamble", s.preamble.toJson),
      ("timestamps", .list (s.events.map Event.toJson)),
      ("readings", .list (s.readings.map Reading.toJson))]

end PowerCurve
