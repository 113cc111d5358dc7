import PowerCurve.Plot
import PowerCurve.Proofs.SessionLog.Lines
import PowerCurve.Proofs.Text.Utf8

/-!
# How a log is delivered does not matter

A log may come in any chunks and with any interruptions, as a text, or from a file: the parser gives
the same result and the same notices (`parse_delivery`).

A failure that spoils the line which is being read has the same effect as a whole line that is not
UTF-8 in the place of the bytes of that line (`collect_spoiled_eq`). The bytes that are lost are
those that `withoutUnfinished` drops.
-/

namespace PowerCurve.SessionLog

open PowerCurve.Text

/-! ## Lines that are lost -/

/-- Drops the bytes since the last end of a line, or since the last failure that was not only an
interruption. The latest arrival comes first. -/
def dropUnfinished : List Arrival → List Arrival
  | [] => []
  | .bytes chunk :: earlier =>
    if lineFeed ∈ chunk then .bytes (wholeLines chunk) :: earlier else dropUnfinished earlier
  | .failure fault :: earlier =>
    match fault.effect with
    | .retried => .failure fault :: dropUnfinished earlier
    | _ => .failure fault :: earlier

/-- A script without the bytes of the line that is unfinished at its end. -/
def withoutUnfinished (script : List Arrival) : List Arrival :=
  (dropUnfinished script.reverse).reverse

/-- A line that is not UTF-8, with its terminator. -/
def spoiledLine : Bytes := [0xFF, lineFeed]

theorem collect_spoiledLine (later : List Arrival) :
    collect [] (.bytes spoiledLine :: later) = (collect [] later).after [.undecodable] := rfl

theorem collect_spoils {fault : Fault} (hf : fault.effect = .spoilsLine) (held : Bytes)
    (later : List Arrival) :
    collect held (.failure fault :: later) = (collect [] later).after [.undecodable] := by
  simp [collect, hf]

theorem collect_retried {fault : Fault} (hf : fault.effect = .retried) (held : Bytes)
    (later : List Arrival) : collect held (.failure fault :: later) = collect held later := by
  simp [collect, hf]

/-- Two scripts that are read alike whatever is held are read alike after any other script. -/
theorem collect_append_congr {a b : List Arrival} (h : ∀ held, collect held a = collect held b)
    (earlier : List Arrival) (held : Bytes) :
    collect held (earlier ++ a) = collect held (earlier ++ b) := by
  induction earlier generalizing held with
  | nil => exact h held
  | cons arrival earlier ih =>
    cases arrival with
    | bytes chunk => rw [List.cons_append, List.cons_append, collect_bytes, collect_bytes, ih]
    | failure fault =>
      simp only [List.cons_append, collect]
      split
      · exact ih held
      · rw [ih]
      · rfl

/-- Up to its last line feed a chunk finishes the lines that it finishes, and nothing is held. -/
theorem feed_wholeLines_of_mem {chunk : Bytes} (h : lineFeed ∈ chunk) (held : Bytes) :
    feed held (wholeLines chunk) = ((feed held chunk).1, []) := by
  rcases exists_wholeLines chunk with ⟨tail, heq, htail⟩
  have hheld : (feed held (wholeLines chunk)).2 = [] := by
    rcases wholeLines_cases chunk with hnil | ⟨front, hfront⟩
    · rw [hnil, List.nil_append] at heq
      exact absurd (heq ▸ h) htail
    · rw [hfront, feed_append]
      simp [feed]
  have hfeed := feed_append held (wholeLines chunk) tail
  rw [← heq, feed_notMem htail, List.append_nil] at hfeed
  rw [hfeed, ← hheld]

/-- **A failure that spoils a line acts as an undecodable line in the place of its bytes.** -/
theorem collect_spoiled_eq {fault : Fault} (hf : fault.effect = .spoilsLine)
    (recent later : List Arrival) :
    collect [] (recent.reverse ++ .failure fault :: later) =
      collect [] ((dropUnfinished recent).reverse ++ .bytes spoiledLine :: later) := by
  fun_induction dropUnfinished recent with
  | case1 => exact collect_spoils hf [] later
  | case2 chunk earlier hmem =>
    -- the bytes after the last line feed of the chunk are lost, what is before it stays
    simp only [List.reverse_cons, List.append_assoc, List.singleton_append]
    apply collect_append_congr
    intro held
    rw [collect_bytes, collect_bytes, collect_spoils hf, feed_wholeLines_of_mem hmem,
      collect_spoiledLine]
  | case3 chunk earlier hmem ih =>
    rw [← ih]
    simp only [List.reverse_cons, List.append_assoc, List.singleton_append]
    apply collect_append_congr
    intro held
    rw [collect_bytes, feed_notMem hmem, collect_spoils hf, collect_spoils hf]
    rfl
  | case4 interruption earlier hr ih =>
    simp only [List.reverse_cons, List.append_assoc, List.singleton_append]
    rw [collect_append_congr (fun held => collect_retried hr held _), ih]
    exact (collect_append_congr (fun held => collect_retried hr held _) _ _).symm
  | case5 failure earlier hr =>
    -- nothing is held after the failure, so there is nothing to drop
    simp only [List.reverse_cons, List.append_assoc, List.singleton_append]
    apply collect_append_congr
    intro held
    cases heq : failure.effect with
    | retried => exact absurd heq hr
    | spoilsLine =>
      rw [collect_spoils heq, collect_spoils heq, collect_spoils hf, collect_spoiledLine]
    | endsReading => rw [collect_ends heq, collect_ends heq]

/-! ## What is dropped -/

theorem delivers_append_iff {a b : List Arrival} {bytes : Bytes} :
    Delivers (a ++ b) bytes ↔ ∃ x y, Delivers a x ∧ Delivers b y ∧ bytes = x ++ y := by
  constructor
  · intro h
    induction a generalizing bytes with
    | nil => exact ⟨[], bytes, .nothing, h, rfl⟩
    | cons arrival a ih =>
      cases h with
      | chunk chunk h =>
        rcases ih h with ⟨x, y, hx, hy, rfl⟩
        exact ⟨chunk ++ x, y, .chunk chunk hx, hy, (List.append_assoc chunk x y).symm⟩
      | interruption message h =>
        rcases ih h with ⟨x, y, hx, hy, rfl⟩
        exact ⟨x, y, .interruption message hx, hy, rfl⟩
  · intro h
    rcases h with ⟨x, y, hx, hy, rfl⟩
    induction hx with
    | nothing => exact hy
    | chunk chunk h ih =>
      rw [List.append_assoc]
      exact .chunk chunk ih
    | interruption message h ih => exact .interruption message ih

theorem wholeLines_append (a b : Bytes) :
    wholeLines (a ++ b) = if lineFeed ∈ b then a ++ wholeLines b else wholeLines a := by
  induction b using List.reverseRecOn with
  | nil => simp
  | append_singleton b c ih =>
    rw [← List.append_assoc, wholeLines, wholeLines, List.rdropWhile_concat,
      List.rdropWhile_concat]
    by_cases hc : c = lineFeed
    · simp [hc]
    · have hc' : lineFeed ≠ c := Ne.symm hc
      simpa [hc, hc', wholeLines] using ih

/-- **What is dropped are the bytes after the last line feed.** -/
theorem Delivers.withoutUnfinished {script : List Arrival} {bytes : Bytes}
    (h : Delivers script bytes) : Delivers (withoutUnfinished script) (wholeLines bytes) := by
  suffices hrecent : ∀ recent bytes, Delivers recent.reverse bytes →
      Delivers (dropUnfinished recent).reverse (wholeLines bytes) from
    hrecent script.reverse bytes (by rwa [List.reverse_reverse])
  intro recent
  fun_induction dropUnfinished recent with
  | case1 =>
    rintro bytes ⟨⟩
    exact .nothing
  | case2 chunk earlier hmem =>
    intro bytes h
    rw [List.reverse_cons, delivers_append_iff] at h
    rcases h with ⟨x, y, hx, hy, rfl⟩
    cases hy with
    | chunk chunk hy =>
      cases hy
      rw [List.append_nil, wholeLines_append, if_pos hmem, List.reverse_cons,
        delivers_append_iff]
      refine ⟨x, wholeLines chunk, hx, ?_, rfl⟩
      simpa using Delivers.chunk (wholeLines chunk) .nothing
  | case3 chunk earlier hmem ih =>
    intro bytes h
    rw [List.reverse_cons, delivers_append_iff] at h
    rcases h with ⟨x, y, hx, hy, rfl⟩
    cases hy with
    | chunk chunk hy =>
      cases hy
      rw [List.append_nil, wholeLines_append, if_neg hmem]
      exact ih x hx
  | case4 failure earlier hr ih =>
    intro bytes h
    rw [List.reverse_cons, delivers_append_iff] at h
    rcases h with ⟨x, y, hx, hy, rfl⟩
    cases hy with
    | interruption message hy =>
      cases hy
      rw [List.reverse_cons, delivers_append_iff]
      exact ⟨wholeLines x, [], ih x hx, .interruption message .nothing, by simp⟩
  | case5 failure earlier hr =>
    intro bytes h
    rw [List.reverse_cons, delivers_append_iff] at h
    rcases h with ⟨x, y, hx, hy, rfl⟩
    cases hy with
    | interruption message hy => exact absurd rfl hr

/-! ## The parser -/

/-- A text and its encoding are the same log. -/
theorem Source.ofText_eq {bytes : Bytes} {text : String}
    (h : Utf8.decode? bytes = some text.toList) : Source.ofText text = Source.ofBytes bytes := by
  rw [Source.ofText, ← Utf8.decode?_eq_some_iff.mp h]

/-- **The outcome of parsing does not depend on how a log is delivered.** -/
theorem parse_delivery (window : Nat) (bytes : Bytes) :
    (∀ script, Delivers script bytes →
      parse window (.ofArrivals script) = parse window (.ofBytes bytes)) ∧
    (∀ text : String, Utf8.decode? bytes = some text.toList →
      parse window (.ofText text) = parse window (.ofBytes bytes)) ∧
    (∀ tree path, FileTree.lookup tree path = .ok (.file bytes) →
      Session.ofFile tree path window =
        ⟨(parse window (.ofBytes bytes)).notices,
          (parse window (.ofBytes bytes)).result.mapError (.unparsed path)⟩) ∧
    (∀ earlier later message,
      parse window
          (.ofArrivals (earlier ++ .failure (.device .invalidData message) :: later)) =
        parse window
          (.ofArrivals (withoutUnfinished earlier ++ .bytes spoiledLine :: later))) := by
  refine ⟨?_, ?_, ?_, ?_⟩
  · intro script h
    rw [Source.ofArrivals_of_delivers h]
  · intro text h
    rw [Source.ofText_eq h]
  · intro tree path h
    simp only [Session.ofFile, h]
    rfl
  · intro earlier later message
    have hf : (Fault.device .invalidData message).effect = .spoilsLine := rfl
    have h := collect_spoiled_eq hf earlier.reverse later
    rw [List.reverse_reverse] at h
    rw [Source.ofArrivals, h]
    rfl

/-- The line `a` with both terminators, in two chunks, as a text, and as the file `f`; then the same
letter with a failure after it that spoils its line. -/
theorem parse_delivery_oneLine :
    parse 1 (.ofArrivals [.bytes [0x61, 0x0D], .failure (.device .interrupted none),
        .bytes [0x0A]]) = parse 1 (.ofBytes [0x61, 0x0D, 0x0A]) ∧
      parse 1 (.ofText "a\r\n") = parse 1 (.ofBytes [0x61, 0x0D, 0x0A]) ∧
      Session.ofFile ⟨[([0x66], .file [0x61, 0x0D, 0x0A])], []⟩ [0x66] 1 =
        ⟨(parse 1 (.ofBytes [0x61, 0x0D, 0x0A])).notices,
          (parse 1 (.ofBytes [0x61, 0x0D, 0x0A])).result.mapError (.unparsed [0x66])⟩ ∧
      parse 1 (.ofArrivals [.bytes [0x61], .failure (.device .invalidData none)]) =
        parse 1 (.ofArrivals [.bytes spoiledLine]) := by
  rcases parse_delivery 1 [0x61, 0x0D, 0x0A] with ⟨hscript, htext, hfile, hspoiled⟩
  refine ⟨hscript _ ?_, htext _ (by decide), hfile _ _ (by rfl), ?_⟩
  · exact .chunk [0x61, 0x0D] (.interruption none (.chunk [0x0A] .nothing))
  · exact hspoiled [.bytes [0x61]] [] none

end PowerCurve.SessionLog
