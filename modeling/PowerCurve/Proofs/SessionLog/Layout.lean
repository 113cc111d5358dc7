import PowerCurve.Proofs.SessionLog.Plan
import PowerCurve.Proofs.SessionLog.Rules

/-!
# The layout of a log

To which part of a log a line belongs depends on its place and on the counts in the preamble alone
(`Plan.Follows`), and what a rule refuses it refuses for something in the line (`Rule.BlamesLine`).

`Course` lists what parsing some lines can come to: a line of the preamble does not fit, a later one
does not fit, or there is a session. Each time it says which notices are given and where the lines
are that were read. The parser takes one of these courses (`parse_course`).
-/

namespace PowerCurve.SessionLog

open PowerCurve.Text PowerCurve.Decimal

/-! ## The parts of the lines -/

namespace Plan

variable {α β : Type}

/-- The parts of the lines that a plan reads, in order, whatever the lines say. -/
inductive Follows : Plan α → List Part → Prop where
  | done (a : α) : Follows (.done a) []
  | line {β : Type} {part : Part} {rule : Rule β} {next : β → Plan α} {parts : List Part}
      (h : ∀ b, Follows (next b) parts) : Follows (.line part rule next) (part :: parts)

theorem Follows.bind {plan : Plan β} {f : β → Plan α} {parts parts' : List Part}
    (h : plan.Follows parts) (hf : ∀ b, (f b).Follows parts') :
    (plan.bind f).Follows (parts ++ parts') := by
  induction h with
  | done b => exact hf b
  | line h ih => exact .line ih

theorem Follows.many (part : Part) (rule : Nat → Rule α) (count index : Nat) :
    (many part rule count index).Follows (List.replicate count part) := by
  induction count generalizing index with
  | zero => exact .done []
  | succ count ih =>
    refine .line fun a => ?_
    have hrest := (ih (index + 1)).bind fun as => .done (a :: as)
    rwa [List.append_nil] at hrest

end Plan

/-- An outcome after `count` lines goes with the parts of the lines: a value comes when there is one
line for each part, a refusal is of the part of the last line, and a line that is missing is of the
part of the next one. -/
def Outcome.GoesWith {α : Type} (parts : List Part) (count : Nat) : Outcome α → Prop
  | .value _ => count = parts.length
  | .refusal part _ => ∃ k, count = k + 1 ∧ parts[k]? = some part
  | .missing part => parts[count]? = some part

/-- One more line before all others changes nothing. -/
theorem Outcome.GoesWith.cons {α : Type} {parts : List Part} {count : Nat} {outcome : Outcome α}
    (h : outcome.GoesWith parts count) (part : Part) :
    outcome.GoesWith (part :: parts) (count + 1) := by
  cases outcome with
  | value a => exact congrArg (· + 1) h
  | refusal part' cause =>
    rcases h with ⟨k, hcount, hpart⟩
    exact ⟨k + 1, congrArg (· + 1) hcount, hpart⟩
  | missing part' => exact h

theorem Plan.Follows.goesWith {α : Type} {plan : Plan α} {parts : List Part}
    (h : plan.Follows parts) {used : List Line} {outcome : Outcome α}
    (hreads : plan.Reads used outcome) : outcome.GoesWith parts used.length := by
  induction hreads generalizing parts with
  | done b =>
    cases h
    rfl
  | missing part rule next =>
    cases h
    rfl
  | undecodable part rule next =>
    cases h
    exact ⟨0, rfl, rfl⟩
  | refused next hrule =>
    cases h
    exact ⟨0, rfl, rfl⟩
  | @line _ _ _ _ _ b _ _ hrule hnext ih =>
    cases h with
    | line h => exact (ih (h b)).cons _

/-- The parts of the lines after the preamble and its blank line. The blank line after the events
belongs to them. -/
def bodyParts (p : Preamble) : List Part :=
  List.replicate (p.eventCount.toNat + 1) .events ++ List.replicate p.rowCount .samples

theorem length_bodyParts (p : Preamble) :
    (bodyParts p).length = p.eventCount.toNat + 1 + p.rowCount := by
  rw [bodyParts, List.length_append, List.length_replicate, List.length_replicate]

theorem getElem?_bodyParts {p : Preamble} {k : Nat} {part : Part} :
    (bodyParts p)[k]? = some part ↔
      (part = .events ∧ k < p.eventCount.toNat + 1) ∨
      (part = .samples ∧ p.eventCount.toNat + 1 ≤ k ∧
        k < p.eventCount.toNat + 1 + p.rowCount) := by
  rw [bodyParts, List.getElem?_append, List.length_replicate]
  split
  · next hk =>
    rw [List.getElem?_replicate, if_pos hk, Option.some.injEq]
    constructor
    · rintro rfl
      exact .inl ⟨rfl, hk⟩
    · rintro (⟨rfl, -⟩ | ⟨-, hle, -⟩)
      · rfl
      · exact absurd hle (Nat.not_le.mpr hk)
  · next hk =>
    rw [List.getElem?_replicate, Option.ite_none_right_eq_some, Option.some.injEq]
    constructor
    · rintro ⟨hlt, rfl⟩
      exact .inr ⟨rfl, by omega, by omega⟩
    · rintro (⟨-, hlt⟩ | ⟨rfl, hle, hlt⟩)
      · exact absurd hlt hk
      · exact ⟨by omega, rfl⟩

theorem preamblePlan_follows : preamblePlan.Follows (List.replicate 8 .preamble) := by
  refine .line fun _ => .line fun _ => .line fun _ => .line fun _ => ?_
  exact .line fun _ => .line fun _ => .line fun _ => .line fun _ => .done _

theorem bodyPlan_follows (window : Nat) (p : Preamble) :
    (bodyPlan window p).Follows (bodyParts p) := by
  have hparts : bodyParts p = List.replicate p.eventCount.toNat .events ++
      .events :: (List.replicate p.rowCount .samples ++ []) := by
    rw [bodyParts, List.replicate_succ', List.append_assoc, List.append_nil]
    rfl
  rw [hparts]
  refine (Plan.Follows.many .events _ p.eventCount.toNat 0).bind fun events => .line fun _ => ?_
  exact (Plan.Follows.many .samples _ p.rowCount 0).bind fun readings => .done _

/-! ## What is refused -/

/-- The cause is something in a line that exists. -/
def Cause.IsOfLine : Cause → Prop
  | .endOfInput => False
  | .stated _ => False
  | _ => True

theorem head?_toList_append {text rest : String} {c : Char} (h : text.toList.head? = some c) :
    (text ++ rest).toList.head? = some c := by
  rw [String.toList_append, List.head?_append, h]
  rfl

theorem Field.exists_head?_text (field : Field) :
    ∃ c, c ≠ 'u' ∧ field.text.toList.head? = some c := by
  cases field with
  | startTime => exact ⟨'s', by decide, rfl⟩
  | channels => exact ⟨'c', by decide, rfl⟩
  | sampleRate => exact ⟨'s', by decide, rfl⟩
  | samplesPerSecond => exact ⟨'s', by decide, rfl⟩
  | eventCount => exact ⟨'n', by decide, rfl⟩
  | sampleCount => exact ⟨'n', by decide, rfl⟩

theorem Cause.exists_head?_text {cause : Cause} (h : cause.IsOfLine) :
    ∃ c, c ≠ 'u' ∧ cause.text.toList.head? = some c := by
  cases cause with
  | endOfInput => exact absurd h not_false
  | undecodable => exact ⟨'l', by decide, rfl⟩
  | notBlank line =>
    exact ⟨'e', by decide, head?_toList_append (head?_toList_append rfl)⟩
  | noName field => exact ⟨'e', by decide, head?_toList_append rfl⟩
  | badValue field found =>
    rcases field.exists_head?_text with ⟨c, hne, hc⟩
    exact ⟨c, hne, head?_toList_append (head?_toList_append (head?_toList_append
      (head?_toList_append (head?_toList_append hc))))⟩
  | zeroRate field =>
    rcases field.exists_head?_text with ⟨c, hne, hc⟩
    exact ⟨c, hne, head?_toList_append hc⟩
  | badEvent line => exact ⟨'e', by decide, head?_toList_append (head?_toList_append rfl)⟩
  | badTime found => exact ⟨'t', by decide, head?_toList_append (head?_toList_append rfl)⟩
  | badSample found => exact ⟨'s', by decide, head?_toList_append (head?_toList_append rfl)⟩
  | shortRow values window =>
    exact ⟨'r', by decide, head?_toList_append (head?_toList_append (head?_toList_append rfl))⟩
  | stated message => exact absurd h not_false

/-- The wording of such a cause is never taken for the end of the log: its first character is
another one. -/
theorem Cause.IsOfLine.text_ne {cause : Cause} (h : cause.IsOfLine) :
    cause.text ≠ Cause.endOfInput.text := by
  intro heq
  rcases cause.exists_head?_text h with ⟨c, hne, hc⟩
  rw [heq] at hc
  have hu : Cause.endOfInput.text.toList.head? = some 'u' := rfl
  exact hne (Option.some.inj (hc.symm.trans hu))

/-- What the rule refuses, it refuses for something in the line. -/
def Rule.BlamesLine {α : Type} (rule : Rule α) : Prop :=
  ∀ text cause, rule text = .error cause → cause.IsOfLine

theorem descriptionRule_blamesLine : Rule.BlamesLine descriptionRule := nofun

theorem fieldRule_blamesLine {α : Type} (field : Field) (read : List Char → Option α) :
    (fieldRule field read).BlamesLine := by
  intro text cause h
  unfold fieldRule at h
  split at h
  · cases h
    exact trivial
  · split at h
    · cases h
    · cases h
      exact trivial

theorem rateRule_blamesLine (field : Field) : (rateRule field).BlamesLine := by
  intro text cause h
  rw [rateRule, bind_eq_error_iff] at h
  rcases h with h | ⟨n, -, h⟩
  · exact fieldRule_blamesLine field _ text cause h
  · split at h
    · cases h
      exact trivial
    · cases h

theorem countRule_blamesLine (field : Field) : (countRule field).BlamesLine := by
  intro text cause h
  rw [countRule, bind_eq_error_iff] at h
  rcases h with h | ⟨n, -, h⟩
  · exact fieldRule_blamesLine field _ text cause h
  · cases h

theorem blankRule_blamesLine : Rule.BlamesLine blankRule := by
  intro text cause h
  unfold blankRule at h
  split at h
  · cases h
  · cases h
    exact trivial

theorem eventRule_blamesLine (start : Float) : (eventRule start).BlamesLine := by
  intro text cause h
  unfold eventRule at h
  split at h
  · split at h
    · cases h
    · cases h
      exact trivial
  · cases h
    exact trivial

theorem sampleRule_blamesLine : Rule.BlamesLine sampleRule := by
  intro text cause h
  unfold sampleRule at h
  split at h
  · cases h
  · cases h
    exact trivial

theorem readingRule_blamesLine (window : Nat) (interval : Float) (index : Nat) :
    (readingRule window interval index).BlamesLine := by
  intro text cause h
  rw [readingRule, bind_eq_error_iff] at h
  rcases h with h | ⟨power, -, h⟩
  · rw [rowRule, bind_eq_error_iff] at h
    rcases h with h | ⟨samples, -, h⟩
    · rcases exists_of_mapM_eq_error h with ⟨token, -, htoken⟩
      exact sampleRule_blamesLine token cause htoken
    · split at h
      · cases h
        exact trivial
      · cases h
  · cases h

namespace Plan

variable {α β : Type}

/-- Every rule of the plan blames the line. -/
inductive BlamesLines : Plan α → Prop where
  | done (a : α) : BlamesLines (.done a)
  | line {β : Type} {part : Part} {rule : Rule β} {next : β → Plan α} (h : rule.BlamesLine)
      (hnext : ∀ b, BlamesLines (next b)) : BlamesLines (.line part rule next)

theorem BlamesLines.bind {plan : Plan β} {f : β → Plan α} (h : plan.BlamesLines)
    (hf : ∀ b, (f b).BlamesLines) : (plan.bind f).BlamesLines := by
  induction h with
  | done b => exact hf b
  | line h hnext ih => exact .line h ih

theorem BlamesLines.many {part : Part} {rule : Nat → Rule α} (h : ∀ index, (rule index).BlamesLine)
    (count index : Nat) : (many part rule count index).BlamesLines := by
  induction count generalizing index with
  | zero => exact .done []
  | succ count ih => exact .line (h index) fun a => (ih (index + 1)).bind fun as => .done (a :: as)

theorem BlamesLines.isOfLine {plan : Plan α} (h : plan.BlamesLines) {used : List Line} {part : Part}
    {cause : Cause} (hreads : plan.Reads used (.refusal part cause)) : cause.IsOfLine := by
  generalize houtcome : Outcome.refusal part cause = outcome at hreads
  induction hreads with
  | done b => cases houtcome
  | missing part rule next => cases houtcome
  | undecodable part rule next =>
    cases houtcome
    exact trivial
  | refused next hrule =>
    cases houtcome
    cases h with
    | line hblames hnext => exact hblames _ _ hrule
  | line hrule hnext ih =>
    cases h with
    | line hblames hviable => exact ih (hviable _) houtcome

end Plan

theorem preamblePlan_blamesLines : preamblePlan.BlamesLines := by
  refine .line descriptionRule_blamesLine fun _ => ?_
  refine .line (fieldRule_blamesLine _ _) fun _ => ?_
  refine .line (fieldRule_blamesLine _ _) fun _ => ?_
  refine .line (rateRule_blamesLine _) fun _ => ?_
  refine .line (rateRule_blamesLine _) fun _ => ?_
  refine .line (countRule_blamesLine _) fun _ => ?_
  refine .line (countRule_blamesLine _) fun _ => ?_
  exact .line blankRule_blamesLine fun _ => .done _

theorem bodyPlan_blamesLines (window : Nat) (p : Preamble) : (bodyPlan window p).BlamesLines := by
  refine (Plan.BlamesLines.many (fun _ => eventRule_blamesLine p.startTime) _ _).bind ?_
  intro events
  refine .line blankRule_blamesLine fun _ => ?_
  refine (Plan.BlamesLines.many (readingRule_blamesLine window p.readingInterval) _ _).bind ?_
  exact fun readings => .done _

/-! ## The courses of the parser -/

/-- In a log of `lineCount` lines, line `k` is the first that cannot be read: something in it is the
cause, or it is missing behind the last line. -/
def IsFirstMisfit (lineCount k : Nat) (cause : Cause) : Prop :=
  (k ≤ lineCount ∧ cause.IsOfLine) ∨ (k = lineCount + 1 ∧ cause = .endOfInput)

/-- **A run reads a line for each part, or stops at a line of the right part.** -/
theorem Plan.Follows.run_cases {α : Type} {plan : Plan α} {parts : List Part}
    (h : plan.Follows parts) (hblames : plan.BlamesLines) (n : Nat) (lines : List Line) :
    (∃ used rest a, lines = used ++ rest ∧ plan.Reads used (.value a) ∧
      used.length = parts.length ∧
      plan.run ⟨n, ⟨lines, none⟩⟩ = .ok (a, ⟨n + parts.length, ⟨rest, none⟩⟩)) ∨
    (∃ k part cause, parts[k]? = some part ∧ IsFirstMisfit lines.length (k + 1) cause ∧
      plan.run ⟨n, ⟨lines, none⟩⟩ = .error (.misfit (n + (k + 1)) part cause)) := by
  rcases plan.exists_reads lines with ⟨used, rest, outcome, rfl, hreads, hrest⟩
  have hrun := Plan.run_eq hreads n none hrest
  have hplace := h.goesWith hreads
  cases outcome with
  | value a =>
    have hlength : used.length = parts.length := hplace
    rw [hlength] at hrun
    exact .inl ⟨used, rest, a, rfl, hreads, hlength, hrun⟩
  | refusal part cause =>
    rcases hplace with ⟨k, hlength, hpart⟩
    rw [hlength] at hrun
    have hk : k + 1 ≤ (used ++ rest).length := by
      rw [List.length_append]
      omega
    exact .inr ⟨k, part, cause, hpart, .inl ⟨hk, hblames.isOfLine hreads⟩, hrun⟩
  | missing part =>
    obtain rfl := hrest part rfl
    have hk : used.length + 1 = (used ++ []).length + 1 := by rw [List.append_nil]
    exact .inr ⟨used.length, part, .endOfInput, hplace, .inr ⟨hk, rfl⟩, hrun⟩

/-- The notice that a preamble is read. -/
def preambleNotice (p : Preamble) : Notice :=
  .preambleRead p.eventCount.toNat p.sampleCount.toNat p.sampleRate.toNat

/-- What parsing some lines can come to, with its notices. -/
inductive Course (window : Nat) (lines : List Line) : Noted (Except LogError Session) → Prop where
  /-- One of the first eight lines does not fit. -/
  | preambleMisfit {k : Nat} {cause : Cause} (hk : k < 8)
      (hfirst : IsFirstMisfit lines.length (k + 1) cause) :
      Course window lines ⟨[], .error (.misfit (k + 1) .preamble cause)⟩
  /-- A line after the preamble does not fit. -/
  | bodyMisfit {front rest : List Line} {p : Preamble} {k : Nat} {part : Part} {cause : Cause}
      (hlines : lines = front ++ rest) (hfront : preamblePlan.Reads front (.value p))
      (hpart : (bodyParts p)[k]? = some part)
      (hfirst : IsFirstMisfit lines.length (8 + (k + 1)) cause) :
      Course window lines ⟨[preambleNotice p], .error (.misfit (8 + (k + 1)) part cause)⟩
  /-- All lines that are wanted fit. -/
  | session {front back rest : List Line} {s : Session} (hlines : lines = front ++ (back ++ rest))
      (hfront : preamblePlan.Reads front (.value s.preamble)) (hlength : front.length = 8)
      (hback : (bodyPlan window s.preamble).Reads back (.value s))
      (hlength' : back.length = (bodyParts s.preamble).length) :
      Course window lines
        ⟨preambleNotice s.preamble :: parsedNotices s (rest.countP Line.isRemarkable), .ok s⟩

/-- The session has the preamble with which the reading went on. -/
theorem preamble_of_run {window : Nat} {p : Preamble} {c c' : Cursor} {s : Session}
    (h : (bodyPlan window p).run c = .ok (s, c')) : s.preamble = p := by
  simp only [bodyPlan, Plan.run_bind, Plan.run_line, Plan.run_done, bind_eq_ok_iff] at h
  rcases h with ⟨events, -, blank, -, readings, -, heq⟩
  cases heq
  rfl

theorem parse_of_preamble_error {window : Nat} (hw : 0 < window) {source : Source} {e : LogError}
    (h : preamblePlan.run ⟨0, source⟩ = .error e) : parse window source = ⟨[], .error e⟩ := by
  rw [parse, if_neg (Nat.ne_of_gt hw), takePreamble_eq, h]

theorem parse_of_body_error {window : Nat} (hw : 0 < window) {source : Source} {p : Preamble}
    {c : Cursor} {e : LogError} (h : preamblePlan.run ⟨0, source⟩ = .ok (p, c))
    (hbody : (bodyPlan window p).run c = .error e) :
    parse window source = ⟨[preambleNotice p], .error e⟩ := by
  have htake : c.takeBody p window = .error e := by
    rw [takeBody_eq, hbody]
    rfl
  rw [parse, if_neg (Nat.ne_of_gt hw), takePreamble_eq, h]
  simp only [htake]
  rfl

theorem parse_of_session {window : Nat} (hw : 0 < window) {source : Source} {p : Preamble}
    {c : Cursor} {s : Session} {n : Nat} {rest : List Line}
    (h : preamblePlan.run ⟨0, source⟩ = .ok (p, c))
    (hbody : (bodyPlan window p).run c = .ok (s, ⟨n, ⟨rest, none⟩⟩)) :
    parse window source =
      ⟨preambleNotice p :: parsedNotices s (rest.countP Line.isRemarkable), .ok s⟩ := by
  have htake : c.takeBody p window = .ok (s, rest.countP Line.isRemarkable) := by
    rw [takeBody_eq, hbody]
    rfl
  rw [parse, if_neg (Nat.ne_of_gt hw), takePreamble_eq, h]
  simp only [htake]
  rfl

/-- **What parsing some lines can come to.** -/
theorem parse_course {window : Nat} (hw : 0 < window) (lines : List Line) :
    Course window lines (parse window ⟨lines, none⟩) := by
  rcases preamblePlan_follows.run_cases preamblePlan_blamesLines 0 lines with
    ⟨front, rest, p, rfl, hfront, hlength, hrun⟩ | ⟨k, part, cause, hpart, hfirst, hrun⟩
  · rcases (bodyPlan_follows window p).run_cases (bodyPlan_blamesLines window p) 8 rest with
      ⟨back, rest', s, rfl, hback, hlength', hbody⟩ | ⟨k, part, cause, hpart, hfirst, hbody⟩
    · obtain rfl := preamble_of_run hbody
      rw [parse_of_session hw hrun hbody]
      exact .session rfl hfront hlength hback hlength'
    · -- the lines before the body are counted as well
      have hlines : (front ++ rest).length = 8 + rest.length := by
        rw [List.length_append, hlength, List.length_replicate]
      have hfirst' : IsFirstMisfit (front ++ rest).length (8 + (k + 1)) cause := by
        rw [hlines]
        rcases hfirst with ⟨hle, hcause⟩ | ⟨heq, hcause⟩
        · exact .inl ⟨by omega, hcause⟩
        · exact .inr ⟨by omega, hcause⟩
      rw [parse_of_body_error hw hrun hbody]
      exact .bodyMisfit rfl hfront hpart hfirst'
  · rw [List.getElem?_replicate, Option.ite_none_right_eq_some, Option.some.injEq] at hpart
    rcases hpart with ⟨hk, rfl⟩
    rw [parse_of_preamble_error hw hrun, Nat.zero_add]
    exact .preambleMisfit hk hfirst

end PowerCurve.SessionLog
