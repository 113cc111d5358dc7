import Mathlib.Data.List.DropRight
import PowerCurve.Proofs.Text.Pieces
import PowerCurve.SessionLog.Lines

/-!
# The lines of a byte string

`byteLines` cuts a byte string at its line feeds, all at once. The reader, which sees one byte after
the other, finds exactly these lines (`Source.ofBytes_eq`): between two bytes it holds what follows
the last line feed (`feed_eq`).

`Delivers` says which bytes a script brings if it has no failures but interruptions. Whatever comes
before such a script and after it, the reader goes on as if the bytes had come in one piece
(`collect_delivers`).
-/

namespace PowerCurve.SessionLog

open PowerCurve.Text

/-! ## Cutting at line feeds -/

/-- The bytes of a line without the carriage return at their end, if there is one. -/
def chomp (bytes : Bytes) : Bytes :=
  if bytes.getLast? = some carriageReturn then bytes.dropLast else bytes

/-- The lines that end with a line feed, without their terminators. -/
def finishedLines (bytes : Bytes) : List Bytes :=
  (bytes.splitOn lineFeed).dropLast.map chomp

/-- What follows the last line feed. -/
def unfinishedLine (bytes : Bytes) : Bytes :=
  (bytes.splitOn lineFeed).getLastD []

/-- The lines of a byte string. What follows the last line feed is a line unless it is empty, and a
carriage return at its end stays. -/
def byteLines (bytes : Bytes) : List Bytes :=
  finishedLines bytes ++ if unfinishedLine bytes = [] then [] else [unfinishedLine bytes]

/-- The bytes up to the last line feed and with it. -/
def wholeLines (bytes : Bytes) : Bytes :=
  bytes.rdropWhile (· ≠ lineFeed)

theorem splitOn_of_notMem {bytes : Bytes} (h : lineFeed ∉ bytes) :
    bytes.splitOn lineFeed = [bytes] :=
  List.splitOn_eq_singleton h

theorem finishedLines_of_notMem {bytes : Bytes} (h : lineFeed ∉ bytes) :
    finishedLines bytes = [] := by
  rw [finishedLines, splitOn_of_notMem h]
  rfl

theorem unfinishedLine_of_notMem {bytes : Bytes} (h : lineFeed ∉ bytes) :
    unfinishedLine bytes = bytes := by
  rw [unfinishedLine, splitOn_of_notMem h]
  rfl

theorem splitOn_append_lineFeed {line : Bytes} (rest : Bytes) (h : lineFeed ∉ line) :
    (line ++ lineFeed :: rest).splitOn lineFeed = line :: rest.splitOn lineFeed :=
  List.splitOn_append_cons_self_of_not_mem h rest

theorem finishedLines_append_lineFeed {line : Bytes} (rest : Bytes) (h : lineFeed ∉ line) :
    finishedLines (line ++ lineFeed :: rest) = chomp line :: finishedLines rest := by
  have hne : rest.splitOn lineFeed ≠ [] := List.splitOn_ne_nil lineFeed rest
  rw [finishedLines, splitOn_append_lineFeed rest h, List.dropLast_cons_of_ne_nil hne]
  rfl

theorem unfinishedLine_append_lineFeed {line : Bytes} (rest : Bytes) (h : lineFeed ∉ line) :
    unfinishedLine (line ++ lineFeed :: rest) = unfinishedLine rest := by
  have hne : rest.splitOn lineFeed ≠ [] := List.splitOn_ne_nil lineFeed rest
  rw [unfinishedLine, splitOn_append_lineFeed rest h, unfinishedLine]
  cases hps : rest.splitOn lineFeed with
  | nil => exact absurd hps hne
  | cons p ps => rfl

/-! ## The reader finds these lines -/

theorem finished_eq (held : Bytes) : finished held = chomp held.reverse := by
  cases held with
  | nil => rfl
  | cons b held =>
    simp only [finished, chomp, List.reverse_cons, List.getLast?_concat, Option.some.injEq,
      List.dropLast_concat]

/-- **What the reader makes of a chunk**: the lines that are finished, and the reverse of what
follows the last line feed. The invariant is that it holds no line feed. -/
theorem feed_eq {held : Bytes} (chunk : Bytes) (h : lineFeed ∉ held) :
    feed held chunk =
      (finishedLines (held.reverse ++ chunk),
        (unfinishedLine (held.reverse ++ chunk)).reverse) := by
  induction chunk generalizing held with
  | nil =>
    have h' : lineFeed ∉ held.reverse ++ [] := by simpa using h
    rw [feed, finishedLines_of_notMem h', unfinishedLine_of_notMem h']
    simp
  | cons b chunk ih =>
    rw [feed]
    split
    · next hb =>
      -- what is held is one line, and the rest is read with nothing held
      subst hb
      have h' : lineFeed ∉ held.reverse := by simpa using h
      rw [finishedLines_append_lineFeed chunk h', unfinishedLine_append_lineFeed chunk h',
        ih List.not_mem_nil, finished_eq]
      rfl
    · next hb =>
      have h' : lineFeed ∉ b :: held := by simpa [h] using Ne.symm hb
      rw [ih h']
      simp

theorem feed_nil (chunk : Bytes) :
    feed [] chunk = (finishedLines chunk, (unfinishedLine chunk).reverse) :=
  feed_eq chunk List.not_mem_nil

theorem remainder_reverse (bytes : Bytes) :
    remainder bytes.reverse =
      (if bytes = [] then [] else [bytes]).map Line.ofBytes := by
  by_cases h : bytes = []
  · simp [remainder, h]
  · simp [remainder, h]

/-- **The reader finds the lines of a byte string.** -/
theorem Source.ofBytes_eq (bytes : Bytes) :
    Source.ofBytes bytes = ⟨(byteLines bytes).map Line.ofBytes, none⟩ := by
  rw [Source.ofBytes, Source.ofArrivals, collect, feed_nil, collect, remainder_reverse,
    Source.after, byteLines, List.map_append]

/-! ## Scripts -/

/-- A script that brings some bytes in chunks of any size, with any number of interruptions between
them. -/
inductive Delivers : List Arrival → Bytes → Prop where
  | nothing : Delivers [] []
  | chunk {script : List Arrival} {bytes : Bytes} (chunk : Bytes) (h : Delivers script bytes) :
      Delivers (.bytes chunk :: script) (chunk ++ bytes)
  | interruption {script : List Arrival} {bytes : Bytes} (message : Option String)
      (h : Delivers script bytes) :
      Delivers (.failure (.device .interrupted message) :: script) bytes

theorem Source.after_after (source : Source) (a b : List Line) :
    (source.after b).after a = source.after (a ++ b) := by
  simp [Source.after]

theorem collect_bytes (held chunk : Bytes) (rest : List Arrival) :
    collect held (.bytes chunk :: rest) =
      (collect (feed held chunk).2 rest).after ((feed held chunk).1.map Line.ofBytes) := rfl

theorem collect_ends {fault : Fault} (hf : fault.effect = .endsReading) (held : Bytes)
    (later : List Arrival) : collect held (.failure fault :: later) = ⟨[], some fault⟩ := by
  simp [collect, hf]

/-- **Only the bytes that a script brings matter**, not the chunks in which they come. -/
theorem collect_delivers {script : List Arrival} {bytes : Bytes} (h : Delivers script bytes)
    (held : Bytes) (rest : List Arrival) :
    collect held (script ++ rest) = collect held (.bytes bytes :: rest) := by
  induction h generalizing held with
  | nothing => rfl
  | chunk chunk h ih =>
    rw [List.cons_append, collect_bytes, ih, collect_bytes, collect_bytes, feed_append,
      Source.after_after, List.map_append]
  | interruption message h ih => exact ih held

theorem Source.ofArrivals_of_delivers {script : List Arrival} {bytes : Bytes}
    (h : Delivers script bytes) : Source.ofArrivals script = Source.ofBytes bytes := by
  have hcollect := collect_delivers h [] []
  rwa [List.append_nil] at hcollect

/-- A fault that ends the reading leaves the finished lines before it. -/
theorem Source.ofArrivals_fault {script : List Arrival} {bytes : Bytes} {fault : Fault}
    (h : Delivers script bytes) (hf : fault.effect = .endsReading) (later : List Arrival) :
    Source.ofArrivals (script ++ .failure fault :: later) =
      ⟨(finishedLines bytes).map Line.ofBytes, some fault⟩ := by
  rw [Source.ofArrivals, collect_delivers h, collect_bytes, feed_nil, collect_ends hf,
    Source.after, List.append_nil]

/-! ## Whole lines -/

/-- The whole lines and what follows them. -/
theorem exists_wholeLines (bytes : Bytes) :
    ∃ tail, bytes = wholeLines bytes ++ tail ∧ lineFeed ∉ tail := by
  refine ⟨bytes.rtakeWhile (· ≠ lineFeed), ?_, ?_⟩
  · exact List.rdropWhile_append_rtakeWhile.symm
  · intro h
    simpa using List.mem_rtakeWhile_imp h

/-- Whole lines are empty or end with a line feed. -/
theorem wholeLines_cases (bytes : Bytes) :
    wholeLines bytes = [] ∨ ∃ front, wholeLines bytes = front ++ [lineFeed] := by
  by_cases h : wholeLines bytes = []
  · exact .inl h
  · have hlast : ¬decide ((wholeLines bytes).getLast h ≠ lineFeed) = true :=
      List.rdropWhile_last_not _ _ h
    rw [decide_eq_true_iff, not_not] at hlast
    exact .inr ⟨(wholeLines bytes).dropLast, by rw [← hlast, List.dropLast_append_getLast h]⟩

/-- After a line feed nothing is held. -/
theorem feed_wholeLines (bytes : Bytes) : (feed [] (wholeLines bytes)).2 = [] := by
  rcases wholeLines_cases bytes with h | ⟨front, h⟩
  · rw [h]
    rfl
  · rw [h, feed_append]
    simp [feed]

/-- What follows the whole lines finishes no line. -/
theorem feed_notMem {held tail : Bytes} (h : lineFeed ∉ tail) :
    feed held tail = ([], tail.reverse ++ held) := by
  induction tail generalizing held with
  | nil => rfl
  | cons b tail ih =>
    rw [List.mem_cons, not_or] at h
    rw [feed, if_neg (Ne.symm h.1), ih h.2]
    simp

theorem finishedLines_wholeLines (bytes : Bytes) :
    finishedLines (wholeLines bytes) = finishedLines bytes := by
  rcases exists_wholeLines bytes with ⟨tail, heq, htail⟩
  -- both sides are what the reader finishes, with and without the tail
  have hfeed := feed_append [] (wholeLines bytes) tail
  rw [← heq, feed_wholeLines, feed_notMem htail, List.append_nil, feed_nil, feed_nil] at hfeed
  exact (Prod.mk.inj hfeed).1.symm

/-- **The lines of the whole lines are the finished lines.** -/
theorem byteLines_wholeLines (bytes : Bytes) :
    byteLines (wholeLines bytes) = finishedLines bytes := by
  have hnil : unfinishedLine (wholeLines bytes) = [] := by
    have h := feed_wholeLines bytes
    rwa [feed_nil, List.reverse_eq_nil_iff] at h
  rw [byteLines, if_pos hnil, List.append_nil, finishedLines_wholeLines]

end PowerCurve.SessionLog
