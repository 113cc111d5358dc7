import Mathlib.Tactic.Common
import PowerCurve.SessionLog.Parser

/-!
# The plan of a log

A plan is a tree of rules: each line is read by one rule, and what the line says determines the
rules of all later lines. `logPlan` is the plan of a whole log, and the parser is the plan run on a
cursor (`parse_result_eq`).

`Plan.Reads` says what a plan makes of a number of lines, apart from cursors, line numbers and
faults: it comes to a value, it refuses the last of the lines, or it wants one line more. Any lines
begin with some of these three kinds (`Plan.exists_reads`), and their outcome is the outcome of the
parser (`parse_eq_verdict`).
-/

namespace PowerCurve.SessionLog

/-! ## One line -/

theorem take_eq_ok_iff {α : Type} {c c' : Cursor} {part : Part} {rule : Rule α} {a : α} :
    c.take part rule = .ok (a, c') ↔
      ∃ text lines, c.rest.lines = .text text :: lines ∧ rule text = .ok a ∧
        ⟨c.consumed + 1, lines, c.rest.fault⟩ = c' := by
  rcases c with ⟨n, lines, fault⟩
  rcases lines with _ | ⟨text | _, lines⟩
  · cases fault <;> simp [Cursor.take]
  · cases hrule : rule text <;> simp [Cursor.take, hrule]
  · simp [Cursor.take]

theorem take_of_error {α : Type} {c : Cursor} {part : Part} {rule : Rule α} {text : List Char}
    {lines : List Line} {cause : Cause} (hlines : c.rest.lines = .text text :: lines)
    (hrule : rule text = .error cause) :
    c.take part rule = .error (.misfit (c.consumed + 1) part cause) := by
  simp only [Cursor.take, hlines, hrule]

/-! ## Plans -/

/-- A tree of rules for lines that follow each other. -/
inductive Plan (α : Type) : Type 1 where
  /-- No line is left to read. -/
  | done (value : α)
  /-- One line is read by a rule; what it says determines how the reading goes on. -/
  | line {β : Type} (part : Part) (rule : Rule β) (next : β → Plan α)

namespace Plan

variable {α β : Type}

/-- Follows a plan by another one. -/
def bind : Plan β → (β → Plan α) → Plan α
  | .done b, f => f b
  | .line part rule next, f => .line part rule fun c => (next c).bind f

/-- Reads `count` lines by rules that depend on an index, which starts at `index`. -/
def many (part : Part) (rule : Nat → Rule α) : (count index : Nat) → Plan (List α)
  | 0, _ => .done []
  | count + 1, index =>
    .line part (rule index) fun a =>
    (many part rule count (index + 1)).bind fun as =>
    .done (a :: as)

/-- Reads the lines at a cursor. -/
def run : Plan α → Cursor → Except LogError (α × Cursor)
  | .done a, c => .ok (a, c)
  | .line part rule next, c => do
    let (b, c) ← c.take part rule
    (next b).run c

@[simp] theorem run_done (a : α) (c : Cursor) : (Plan.done a).run c = .ok (a, c) := rfl

theorem run_line (part : Part) (rule : Rule β) (next : β → Plan α) (c : Cursor) :
    (Plan.line part rule next).run c = (do
      let (b, c) ← c.take part rule
      (next b).run c) := rfl

/-- One plan after the other is run one after the other. -/
theorem run_bind (plan : Plan β) (f : β → Plan α) (c : Cursor) :
    (plan.bind f).run c = (do
      let (b, c) ← plan.run c
      (f b).run c) := by
  induction plan generalizing c with
  | done b => rfl
  | line part rule next ih =>
    rw [bind, run_line, run_line, bind_assoc]
    exact bind_congr fun bc => ih bc.1 bc.2

theorem takeMany_eq (part : Part) (rule : Nat → Rule α) (count index : Nat) (c : Cursor) :
    Cursor.takeMany part rule count index c = (many part rule count index).run c := by
  induction count generalizing index c with
  | zero => rfl
  | succ count ih =>
    rw [Cursor.takeMany, many, run_line]
    apply bind_congr
    intro ac
    rcases ac with ⟨a, c⟩
    simp only [run_bind, ih]
    rfl

end Plan

/-! ## The plan of a log -/

/-- The plan of the preamble and the blank line after it. -/
def preamblePlan : Plan Preamble :=
  .line .preamble descriptionRule fun description =>
  .line .preamble startRule fun startTime =>
  .line .preamble channelsRule fun channels =>
  .line .preamble (rateRule .sampleRate) fun sampleRate =>
  .line .preamble (rateRule .samplesPerSecond) fun samplesPerSecond =>
  .line .preamble (countRule .eventCount) fun eventCount =>
  .line .preamble (countRule .sampleCount) fun sampleCount =>
  .line .preamble blankRule fun _ =>
  .done { description, startTime, channels, sampleRate, samplesPerSecond, eventCount, sampleCount }

/-- The plan of what follows the preamble. -/
def bodyPlan (window : Nat) (p : Preamble) : Plan Session :=
  (Plan.many .events (fun _ => eventRule p.startTime) p.eventCount.toNat 0).bind fun events =>
  .line .events blankRule fun _ =>
  (Plan.many .samples (readingRule window p.readingInterval) p.rowCount 0).bind fun readings =>
  .done ⟨p, events, readings⟩

/-- The plan of a log. -/
def logPlan (window : Nat) : Plan Session :=
  preamblePlan.bind (bodyPlan window)

theorem takePreamble_eq (c : Cursor) : c.takePreamble = preamblePlan.run c := rfl

theorem takeBody_eq (c : Cursor) (p : Preamble) (window : Nat) :
    c.takeBody p window = (do
      let (session, c) ← (bodyPlan window p).run c
      let ignored ← c.finish
      return (session, ignored)) := by
  simp only [Cursor.takeBody, Cursor.takeEvents, Cursor.takeReadings, Plan.takeMany_eq, bodyPlan,
    Plan.run_bind, Plan.run_line, bind_assoc, pure_bind, Plan.run_done]
  rfl

/-- **The parser runs the plan and goes to the end of the log.** -/
theorem parse_result_eq {window : Nat} (hw : 0 < window) (source : Source) :
    (parse window source).result = (do
      let (session, c) ← (logPlan window).run ⟨0, source⟩
      let _ ← c.finish
      return session) := by
  rw [parse, if_neg (Nat.ne_of_gt hw), logPlan, Plan.run_bind, takePreamble_eq]
  cases preamblePlan.run ⟨0, source⟩ with
  | error e => rfl
  | ok pc =>
    -- the notices differ from here on, the results do not
    rcases pc with ⟨p, c⟩
    simp only [takeBody_eq]
    cases hbody : (bodyPlan window p).run c with
    | error e => simp [hbody, bind, Except.bind]
    | ok sc =>
      rcases sc with ⟨session, c'⟩
      cases hfinish : c'.finish <;> simp [hbody, hfinish, bind, Except.bind, pure, Except.pure]

/-! ## What a plan makes of lines -/

/-- What reading some lines comes to. -/
inductive Outcome (α : Type) where
  /-- The lines are what the plan wants, and they say this. -/
  | value (a : α)
  /-- The last of the lines does not fit. -/
  | refusal (part : Part) (cause : Cause)
  /-- The lines fit, and one more is wanted. -/
  | missing (part : Part)

namespace Plan

variable {α : Type}

/-- Reading exactly these lines by a plan comes to the outcome. -/
inductive Reads : Plan α → List Line → Outcome α → Prop where
  | done (a : α) : Reads (.done a) [] (.value a)
  | missing {β : Type} (part : Part) (rule : Rule β) (next : β → Plan α) :
      Reads (.line part rule next) [] (.missing part)
  | undecodable {β : Type} (part : Part) (rule : Rule β) (next : β → Plan α) :
      Reads (.line part rule next) [.undecodable] (.refusal part .undecodable)
  | refused {β : Type} {part : Part} {rule : Rule β} (next : β → Plan α) {text : List Char}
      {cause : Cause} (h : rule text = .error cause) :
      Reads (.line part rule next) [.text text] (.refusal part cause)
  | line {β : Type} {part : Part} {rule : Rule β} {next : β → Plan α} {text : List Char} {b : β}
      {lines : List Line} {outcome : Outcome α} (h : rule text = .ok b)
      (hnext : Reads (next b) lines outcome) :
      Reads (.line part rule next) (.text text :: lines) outcome

/-- **Any lines begin with some that come to an outcome**; if one line more is wanted, there is
none. -/
theorem exists_reads (plan : Plan α) (lines : List Line) :
    ∃ used rest outcome, lines = used ++ rest ∧ plan.Reads used outcome ∧
      ∀ part, outcome = .missing part → rest = [] := by
  induction plan generalizing lines with
  | done a => exact ⟨[], lines, .value a, rfl, .done a, nofun⟩
  | line part rule next ih =>
    rcases lines with _ | ⟨text | _, lines⟩
    · exact ⟨[], [], .missing part, rfl, .missing part rule next, fun _ _ => rfl⟩
    · -- a line of text is refused, or it leads to the plan that reads the others
      cases hrule : rule text with
      | error cause =>
        exact ⟨[.text text], lines, .refusal part cause, rfl, .refused next hrule, nofun⟩
      | ok b =>
        rcases ih b lines with ⟨used, rest, outcome, rfl, hreads, hrest⟩
        exact ⟨.text text :: used, rest, outcome, rfl, .line hrule hreads, hrest⟩
    · exact ⟨[.undecodable], lines, .refusal part .undecodable, rfl,
        .undecodable part rule next, nofun⟩

/-- A refusal is about a line that exists, and without it that line is missing. -/
theorem Reads.dropLast_of_refusal {plan : Plan α} {lines : List Line} {part : Part} {cause : Cause}
    (h : plan.Reads lines (.refusal part cause)) :
    lines ≠ [] ∧ ∃ part, plan.Reads lines.dropLast (.missing part) := by
  generalize houtcome : Outcome.refusal part cause = outcome at h
  induction h with
  | done a => cases houtcome
  | missing part rule next => cases houtcome
  | undecodable part rule next => exact ⟨List.cons_ne_nil _ _, part, .missing part rule next⟩
  | @refused _ part rule next text cause hrule =>
    exact ⟨List.cons_ne_nil _ _, part, .missing part rule next⟩
  | line hrule hnext ih =>
    rcases ih houtcome with ⟨hne, part, hreads⟩
    refine ⟨List.cons_ne_nil _ _, part, ?_⟩
    rw [List.dropLast_cons_of_ne_nil hne]
    exact .line hrule hreads

/-- One plan after the other reads some lines and then others. -/
theorem Reads.bind {β : Type} {plan : Plan β} {f : β → Plan α} {lines lines' : List Line} {b : β}
    {outcome : Outcome α} (h : plan.Reads lines (.value b)) (hf : (f b).Reads lines' outcome) :
    (plan.bind f).Reads (lines ++ lines') outcome := by
  generalize hvalue : Outcome.value b = first at h
  induction h with
  | done a =>
    cases hvalue
    exact hf
  | missing part rule next => cases hvalue
  | undecodable part rule next => cases hvalue
  | refused next hrule => cases hvalue
  | line hrule hnext ih => exact .line hrule (ih hvalue)

end Plan

/-! ## What the parser makes of an outcome -/

/-- The result of a run that came to an outcome after line `n`, when `rest` and then perhaps a fault
follow. A line that is missing is behind the end of the log unless it is lost to the fault. -/
def Outcome.result {α : Type} (n : Nat) (rest : List Line) (fault : Option Fault) :
    Outcome α → Except LogError (α × Cursor)
  | .value a => .ok (a, ⟨n, ⟨rest, fault⟩⟩)
  | .refusal part cause => .error (.misfit n part cause)
  | .missing part =>
    match fault with
    | some fault => .error (.unreadable fault)
    | none => .error (.misfit (n + 1) part .endOfInput)

/-- **A run gives the outcome of the lines at its cursor.** -/
theorem Plan.run_eq {α : Type} {plan : Plan α} {used : List Line} {outcome : Outcome α}
    (h : plan.Reads used outcome) (n : Nat) {rest : List Line} (fault : Option Fault)
    (hrest : ∀ part, outcome = .missing part → rest = []) :
    plan.run ⟨n, ⟨used ++ rest, fault⟩⟩ = outcome.result (n + used.length) rest fault := by
  induction h generalizing n with
  | done a => rfl
  | missing part rule next =>
    -- no line is left, so only the fault decides
    rw [hrest part rfl]
    cases fault <;> rfl
  | undecodable part rule next => rfl
  | @refused _ part rule next text cause hrule =>
    have htake : Cursor.take ⟨n, ⟨.text text :: rest, fault⟩⟩ part rule =
        .error (.misfit (n + 1) part cause) := by
      simp only [Cursor.take, hrule]
    rw [List.singleton_append, run_line, htake]
    rfl
  | @line _ part rule next text b lines outcome hrule hnext ih =>
    have htake : Cursor.take ⟨n, ⟨.text text :: (lines ++ rest), fault⟩⟩ part rule =
        .ok (b, ⟨n + 1, ⟨lines ++ rest, fault⟩⟩) := by
      simp only [Cursor.take, hrule]
    have hn : n + 1 + lines.length = n + (lines.length + 1) := by omega
    rw [List.cons_append, run_line, htake, List.length_cons, ← hn]
    exact ih (n + 1) hrest

/-- The result of parsing that came to an outcome after line `n`. After a complete session the
parser goes on to the end of the log, so a fault there counts as well. -/
def Outcome.verdict {α : Type} (n : Nat) (fault : Option Fault) :
    Outcome α → Except LogError α
  | .refusal part cause => .error (.misfit n part cause)
  | .value a =>
    match fault with
    | some fault => .error (.unreadable fault)
    | none => .ok a
  | .missing part =>
    match fault with
    | some fault => .error (.unreadable fault)
    | none => .error (.misfit (n + 1) part .endOfInput)

/-- **The parser gives the outcome of the first lines**, whatever comes after them. -/
theorem parse_eq_verdict {window : Nat} (hw : 0 < window) {used : List Line}
    {outcome : Outcome Session} (h : (logPlan window).Reads used outcome) {rest : List Line}
    (fault : Option Fault) (hrest : ∀ part, outcome = .missing part → rest = []) :
    (parse window ⟨used ++ rest, fault⟩).result = outcome.verdict used.length fault := by
  rw [parse_result_eq hw, Plan.run_eq h 0 fault hrest, Nat.zero_add]
  cases outcome <;> cases fault <;> rfl

/-- The first lines of a log come to an outcome, and its verdict is the result of parsing whether or
not a fault follows the lines. -/
theorem exists_parse_eq_verdict {window : Nat} (hw : 0 < window) (lines : List Line) :
    ∃ used rest outcome, lines = used ++ rest ∧ (logPlan window).Reads used outcome ∧
      (∀ part, outcome = .missing part → rest = []) ∧
      ∀ fault, (parse window ⟨lines, fault⟩).result = outcome.verdict used.length fault := by
  rcases (logPlan window).exists_reads lines with ⟨used, rest, outcome, rfl, hreads, hrest⟩
  exact ⟨used, rest, outcome, rfl, hreads, hrest, fun fault =>
    parse_eq_verdict hw hreads fault hrest⟩

end PowerCurve.SessionLog
