import Mathlib
import PowerCurve.Proofs.SessionLog.Layout

/-!
# The extent of a log

A log that is accepted consists of its first lines, as many as its preamble announces. Whatever
follows them changes nothing but the notice that counts it, and no shorter beginning of it is
accepted (`parse_extent`).
-/

namespace PowerCurve.SessionLog

open PowerCurve.Text

/-- If some lines are what a plan wants, fewer of them are not enough. -/
theorem Plan.Reads.take_missing {α : Type} {plan : Plan α} {lines : List Line} {a : α}
    (h : plan.Reads lines (.value a)) {j : Nat} (hj : j < lines.length) :
    ∃ part, plan.Reads (lines.take j) (.missing part) := by
  generalize houtcome : Outcome.value a = outcome at h
  induction h generalizing j with
  | done b => exact absurd hj (Nat.not_lt_zero j)
  | missing part rule next => cases houtcome
  | undecodable part rule next => cases houtcome
  | refused next hrule => cases houtcome
  | @line _ part rule next text b lines outcome hrule hnext ih =>
    cases j with
    | zero => exact ⟨part, .missing part rule next⟩
    | succ j =>
      rcases ih (Nat.lt_of_succ_lt_succ hj) houtcome with ⟨part', hreads⟩
      exact ⟨part', .line hrule hreads⟩

/-! ## The notice of ignored lines -/

/-- The line is a text of blanks only. -/
def Line.IsBlank (line : Line) : Prop :=
  ∃ text, line = .text text ∧ IsBlankLine text

theorem Line.isRemarkable_iff {line : Line} : line.isRemarkable = true ↔ ¬ line.IsBlank := by
  cases line with
  | text content =>
    have hblank : (Line.text content).IsBlank ↔ allBlank content = true := by
      simp [Line.IsBlank, IsBlankLine, allBlank_iff]
    rw [hblank, Line.isRemarkable, Bool.not_eq_true', Bool.not_eq_true]
  | undecodable => simp [Line.IsBlank, Line.isRemarkable]

instance : DecidablePred Line.IsBlank := fun _ =>
  decidable_of_iff _ (not_iff_comm.mp Line.isRemarkable_iff.symm)

theorem linesIgnored_text (n : Nat) :
    (Notice.linesIgnored n).text =
      "Ignoring " ++ n.repr ++ " line(s) after the last sample row" := rfl

/-- The wording of the notice tells the number. -/
theorem linesIgnored_text_inj {m n : Nat} :
    (Notice.linesIgnored m).text = (Notice.linesIgnored n).text ↔ m = n := by
  rw [linesIgnored_text, linesIgnored_text, String.append_left_inj, String.append_right_inj,
    Nat.repr_inj]

/-- No other notice of the parser has this wording. -/
theorem linesIgnored_text_ne {notice : Notice} (h : notice.text.toList.head? = some 'P') (n : Nat) :
    (Notice.linesIgnored n).text ≠ notice.text := by
  intro heq
  have hhead : (Notice.linesIgnored n).text.toList.head? = some 'I' :=
    head?_toList_append (head?_toList_append rfl)
  rw [heq, h] at hhead
  exact absurd hhead (by decide)

/-- The parser says that lines are ignored exactly if there are any, and says how many. -/
theorem linesIgnored_text_mem_iff {p : Preamble} {s : Session} {ignored n : Nat} :
    (Notice.linesIgnored n).text ∈
        (preambleNotice p :: parsedNotices s ignored).map Notice.text ↔
      0 < n ∧ n = ignored := by
  have hopening : (preambleNotice p).text.toList.head? = some 'P' :=
    head?_toList_append (head?_toList_append (head?_toList_append (head?_toList_append
      (head?_toList_append (head?_toList_append rfl)))))
  have hsummary : (Notice.logParsed s.events.length s.readings.length).text.toList.head? =
      some 'P' :=
    head?_toList_append (head?_toList_append (head?_toList_append (head?_toList_append rfl)))
  have hopening' := linesIgnored_text_ne hopening n
  have hsummary' := linesIgnored_text_ne hsummary n
  by_cases hignored : ignored = 0
  · simp only [parsedNotices, if_pos hignored, List.nil_append, List.map_cons, List.map_nil,
      List.mem_cons, List.not_mem_nil, or_false, hopening', hsummary', false_iff]
    omega
  · simp only [parsedNotices, if_neg hignored, List.cons_append, List.nil_append, List.map_cons,
      List.map_nil, List.mem_cons, List.not_mem_nil, or_false, hopening', hsummary', false_or,
      linesIgnored_text_inj]
    omega

/-! ## The lines that count -/

/-- The number of lines that a log with this preamble consists of: seven lines of settings, the
events, the rows, and the blank lines between them. -/
def logLength (p : Preamble) : Nat :=
  9 + p.eventCount.toNat + p.rowCount

/-- Lines after those that are wanted are only counted. -/
theorem parse_append {window : Nat} (hw : 0 < window) {front back : List Line} {s : Session}
    (hfront : preamblePlan.Reads front (.value s.preamble))
    (hback : (bodyPlan window s.preamble).Reads back (.value s)) (rest : List Line) :
    parse window ⟨front ++ (back ++ rest), none⟩ =
      ⟨preambleNotice s.preamble ::
        parsedNotices s (rest.countP fun line => ¬ line.IsBlank), .ok s⟩ := by
  have hrun : preamblePlan.run ⟨0, ⟨front ++ (back ++ rest), none⟩⟩ = _ :=
    Plan.run_eq hfront 0 none nofun
  have hbody : (bodyPlan window s.preamble).run ⟨0 + front.length, ⟨back ++ rest, none⟩⟩ = _ :=
    Plan.run_eq hback (0 + front.length) none nofun
  have hcount : rest.countP Line.isRemarkable = rest.countP fun line => ¬ line.IsBlank := by
    apply List.countP_congr
    intro line _
    rw [Line.isRemarkable_iff, decide_eq_true_iff]
  rw [parse_of_session hw hrun hbody, hcount]

/-- **A log is exactly its first lines.** Any lines after them leave the session as it is, and the
notices tell how many of them are not blank. If one of the first lines is missing, the log is
refused for the end of the input. -/
theorem parse_extent {window : Nat} (hw : 0 < window) {lines : List Line} {s : Session}
    (h : (parse window ⟨lines, none⟩).result = .ok s) :
    logLength s.preamble ≤ lines.length ∧
    (∀ lines', lines'.take (logLength s.preamble) = lines.take (logLength s.preamble) →
      (parse window ⟨lines', none⟩).result = .ok s ∧
      ∀ n, s!"Ignoring {n} line(s) after the last sample row" ∈
          (parse window ⟨lines', none⟩).notices.map Notice.text ↔
        0 < n ∧ n = (lines'.drop (logLength s.preamble)).countP fun line => ¬ line.IsBlank) ∧
    ∀ j < logLength s.preamble, ∃ part,
      (parse window ⟨lines.take j, none⟩).result = .error (.misfit (j + 1) part .endOfInput) := by
  have hcourse := parse_course hw lines
  generalize parse window ⟨lines, none⟩ = noted at h hcourse
  cases hcourse with
  | preambleMisfit hk hfirst => cases h
  | bodyMisfit hlines hfront hpart hfirst => cases h
  | @session front back rest s' hlines hfront hlength hback hlength' =>
    obtain rfl := Except.ok.inj h
    have hcount : (front ++ back).length = logLength s'.preamble := by
      rw [List.length_append, hlength, hlength', length_bodyParts, logLength]
      omega
    have htake : lines.take (logLength s'.preamble) = front ++ back := by
      rw [hlines, ← List.append_assoc, List.take_left' hcount]
    have hreads : (logPlan window).Reads (front ++ back) (.value s') := hfront.bind hback
    refine ⟨?_, ?_, ?_⟩
    · rw [← hcount, ← htake]
      exact List.length_take_le' _ _
    · intro lines' hlines'
      have hsplit : lines' = front ++ (back ++ lines'.drop (logLength s'.preamble)) := by
        rw [← List.append_assoc, ← htake, ← hlines', List.take_append_drop]
      have hparse := parse_append hw hfront hback (lines'.drop (logLength s'.preamble))
      rw [← hsplit] at hparse
      rw [hparse]
      exact ⟨rfl, fun n => linesIgnored_text_mem_iff⟩
    · intro j hj
      -- the first lines are read up to the place where the log is cut off
      have hbefore : lines.take j = (front ++ back).take j := by
        rw [← htake, List.take_take, Nat.min_eq_left (Nat.le_of_lt hj)]
      rw [← hcount] at hj
      rcases hreads.take_missing hj with ⟨part, hmissing⟩
      have hlengthj : ((front ++ back).take j).length = j :=
        List.length_take_of_le (Nat.le_of_lt hj)
      have hparse : (parse window ⟨(front ++ back).take j ++ [], none⟩).result = _ :=
        parse_eq_verdict hw hmissing none fun _ _ => rfl
      rw [List.append_nil, hlengthj, ← hbefore] at hparse
      exact ⟨part, hparse⟩

/-- A log of one event and one row, with a line behind it that is not text. -/
theorem parse_extent_oneRow :
    let lines : List Line := [.text ['a'], .text [':', '0'], .text [':'], .text [':', '1'],
      .text [':', '1'], .text [':', '1'], .text [':', '1'], .text [], .text ['0', '|'], .text [' '],
      .text ['5'], .undecodable]
    ∃ s, (parse 1 ⟨lines, none⟩).result = .ok s ∧ logLength s.preamble = 11 ∧
      (parse 1 ⟨lines.take 11, none⟩).result = .ok s ∧
      ∀ j < 11, ∃ part,
        (parse 1 ⟨lines.take j, none⟩).result = .error (.misfit (j + 1) part .endOfInput) := by
  intro lines
  have hs : ∃ s, (parse 1 ⟨lines, none⟩).result = .ok s ∧ logLength s.preamble = 11 :=
    ⟨_, rfl, rfl⟩
  rcases hs with ⟨s, hs, hlength⟩
  rcases parse_extent (by decide) hs with ⟨-, hrest, hless⟩
  rw [hlength] at hrest hless
  have htake : (lines.take 11).take 11 = lines.take 11 := by rw [List.take_take, Nat.min_self]
  exact ⟨s, hs, hlength, (hrest _ htake).1, hless⟩

end PowerCurve.SessionLog
