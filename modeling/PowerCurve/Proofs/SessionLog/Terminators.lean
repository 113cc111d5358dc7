import PowerCurve.Proofs.SessionLog.Lines
import PowerCurve.SessionLog.Parser

/-!
# Terminators carry no meaning

A line may end with a line feed or with a carriage return and a line feed, and the last line of a
file may go without a terminator unless it is empty: `Renders` says which byte strings result. All
of them are cut into the same lines (`byteLines_of_renders`), so they are parsed alike
(`parse_renders`).
-/

namespace PowerCurve.SessionLog

open PowerCurve.Text

/-- The two ways to end a line. -/
def terminators : List Bytes := [[lineFeed], [carriageReturn, lineFeed]]

/-- The bytes are the lines, each with a terminator of its own; the last line may do without one
unless it is empty. -/
inductive Renders : (lines : List Bytes) → (bytes : Bytes) → Prop where
  | nothing : Renders [] []
  | unterminated {line : Bytes} (h : line ≠ []) : Renders [line] line
  | terminated {lines : List Bytes} {bytes terminator : Bytes} (line : Bytes)
      (ht : terminator ∈ terminators) (h : Renders lines bytes) :
      Renders (line :: lines) (line ++ terminator ++ bytes)

/-- A line that no terminator can be mistaken for a part of: it holds no line feed and does not end
with a carriage return. -/
def IsBare (line : Bytes) : Prop :=
  lineFeed ∉ line ∧ line.getLast? ≠ some carriageReturn

theorem chomp_of_isBare {line : Bytes} (h : IsBare line) : chomp line = line :=
  if_neg h.2

/-- Only one carriage return goes with the line feed. -/
theorem chomp_append_carriageReturn (line : Bytes) : chomp (line ++ [carriageReturn]) = line := by
  rw [chomp, List.getLast?_concat, if_pos rfl, List.dropLast_concat]

theorem byteLines_append_lineFeed {line : Bytes} (rest : Bytes) (h : lineFeed ∉ line) :
    byteLines (line ++ lineFeed :: rest) = chomp line :: byteLines rest := by
  rw [byteLines, finishedLines_append_lineFeed rest h, unfinishedLine_append_lineFeed rest h,
    List.cons_append, byteLines]

theorem byteLines_of_notMem {line : Bytes} (h : lineFeed ∉ line) (hne : line ≠ []) :
    byteLines line = [line] := by
  rw [byteLines, finishedLines_of_notMem h, unfinishedLine_of_notMem h, if_neg hne,
    List.nil_append]

/-- A bare line is found again before either terminator. -/
theorem byteLines_terminated {line terminator : Bytes} (rest : Bytes) (h : IsBare line)
    (ht : terminator ∈ terminators) :
    byteLines (line ++ terminator ++ rest) = line :: byteLines rest := by
  simp only [terminators, List.mem_cons, List.not_mem_nil, or_false] at ht
  rcases ht with rfl | rfl
  · rw [List.append_assoc, List.singleton_append, byteLines_append_lineFeed rest h.1,
      chomp_of_isBare h]
  · -- the carriage return is read with the line and removed from it
    have hmem : lineFeed ∉ line ++ [carriageReturn] := by
      simpa [h.1] using (by decide : lineFeed ≠ carriageReturn)
    have happend : line ++ [carriageReturn, lineFeed] ++ rest =
        (line ++ [carriageReturn]) ++ lineFeed :: rest := by
      simp only [List.append_assoc, List.cons_append, List.nil_append]
    rw [happend, byteLines_append_lineFeed rest hmem, chomp_append_carriageReturn]

/-- **All renderings of some bare lines are cut into these lines.** -/
theorem byteLines_of_renders {lines : List Bytes} {bytes : Bytes} (h : Renders lines bytes)
    (hlines : ∀ line ∈ lines, IsBare line) : byteLines bytes = lines := by
  induction h with
  | nothing => rfl
  | @unterminated line hne =>
    have hline : IsBare line := hlines line List.mem_cons_self
    exact byteLines_of_notMem hline.1 hne
  | @terminated lines bytes terminator line ht h ih =>
    have hline : IsBare line := hlines line List.mem_cons_self
    have hrest : byteLines bytes = lines := by
      apply ih
      intro line' hline'
      exact hlines line' (List.mem_cons_of_mem line hline')
    rw [byteLines_terminated bytes hline ht, hrest]

/-- **Terminators carry no meaning**: all renderings of some bare lines are parsed alike, with the
same notices. -/
theorem parse_renders {lines : List Bytes} (hlines : ∀ line ∈ lines, IsBare line) {a b : Bytes}
    (ha : Renders lines a) (hb : Renders lines b) (window : Nat) :
    parse window (.ofBytes a) = parse window (.ofBytes b) := by
  have hsame : byteLines a = byteLines b := by
    rw [byteLines_of_renders ha hlines, byteLines_of_renders hb hlines]
  rw [Source.ofBytes_eq, Source.ofBytes_eq, hsame]

/-- Three lines, of which the second holds a carriage return and is not UTF-8, with line feeds only
and with both terminators and none at the end. -/
theorem parse_renders_mixed :
    parse 1 (.ofBytes [0x61, 0x0A, 0xFF, 0x0D, 0x62, 0x0A, 0x63, 0x0A]) =
      parse 1 (.ofBytes [0x61, 0x0D, 0x0A, 0xFF, 0x0D, 0x62, 0x0A, 0x63]) := by
  have hlines : ∀ line ∈ [[0x61], [0xFF, 0x0D, 0x62], [0x63]], IsBare line := by
    unfold IsBare
    decide
  have hlineFeed : [lineFeed] ∈ terminators := by decide
  have hboth : [carriageReturn, lineFeed] ∈ terminators := by decide
  have ha : Renders [[0x61], [0xFF, 0x0D, 0x62], [0x63]]
      [0x61, 0x0A, 0xFF, 0x0D, 0x62, 0x0A, 0x63, 0x0A] :=
    .terminated [0x61] hlineFeed (.terminated [0xFF, 0x0D, 0x62] hlineFeed
      (.terminated [0x63] hlineFeed .nothing))
  have hb : Renders [[0x61], [0xFF, 0x0D, 0x62], [0x63]]
      [0x61, 0x0D, 0x0A, 0xFF, 0x0D, 0x62, 0x0A, 0x63] :=
    .terminated [0x61] hboth (.terminated [0xFF, 0x0D, 0x62] hlineFeed (.unterminated (by decide)))
  exact parse_renders hlines ha hb 1

end PowerCurve.SessionLog
