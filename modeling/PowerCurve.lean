import PowerCurve.CommandLine
import PowerCurve.Main
import PowerCurve.Proofs.Chart.Extremes
import PowerCurve.Proofs.Chart.Labels
import PowerCurve.Proofs.Chart.Loading
import PowerCurve.Proofs.Chart.Range
import PowerCurve.Proofs.CommandLine.Agreement
import PowerCurve.Proofs.CommandLine.Notices
import PowerCurve.Proofs.CommandLine.Streams
import PowerCurve.Proofs.CommandLine.Unambiguous
import PowerCurve.Proofs.Decimal.Arithmetic
import PowerCurve.Proofs.Decimal.Digits
import PowerCurve.Proofs.Decimal.Literal
import PowerCurve.Proofs.Decimal.Places
import PowerCurve.Proofs.Decimal.Rounding
import PowerCurve.Proofs.FileTree.Growth
import PowerCurve.Proofs.FileTree.Locations
import PowerCurve.Proofs.FileTree.Parents
import PowerCurve.Proofs.Json.Printed
import PowerCurve.Proofs.Json.RoundTrip
import PowerCurve.Proofs.SessionLog.Checked
import PowerCurve.Proofs.SessionLog.Delivery
import PowerCurve.Proofs.SessionLog.Extent
import PowerCurve.Proofs.SessionLog.Grammar
import PowerCurve.Proofs.SessionLog.Layout
import PowerCurve.Proofs.SessionLog.Lines
import PowerCurve.Proofs.SessionLog.Plan
import PowerCurve.Proofs.SessionLog.Position
import PowerCurve.Proofs.SessionLog.ReadFailure
import PowerCurve.Proofs.SessionLog.Refusal
import PowerCurve.Proofs.SessionLog.Rules
import PowerCurve.Proofs.SessionLog.Terminators
import PowerCurve.Proofs.SessionLog.Timeline
import PowerCurve.Proofs.SessionLog.Window
import PowerCurve.Proofs.Settings.FirstRun
import PowerCurve.Proofs.Settings.Form
import PowerCurve.Proofs.Settings.LaterRuns
import PowerCurve.Proofs.Settings.Meaning
import PowerCurve.Proofs.Settings.OldFiles
import PowerCurve.Proofs.Settings.Reloading
import PowerCurve.Proofs.Settings.Saving
import PowerCurve.Proofs.Settings.Usable
import PowerCurve.Proofs.Steps
import PowerCurve.Proofs.Text.Pieces
import PowerCurve.Proofs.Text.Utf8
