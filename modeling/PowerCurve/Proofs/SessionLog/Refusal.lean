import PowerCurve.Proofs.SessionLog.Plan
import PowerCurve.Proofs.SessionLog.Rules

/-!
# A refusal names the first line that cannot be continued from

A log that does not fit is refused at line `k`. What comes after this line has no influence on the
error, and the lines before it are the beginning of some log that is accepted (`parse_misfit`).

The second part rests on `Plan.Viable`: whatever the lines so far have said, there is a line that
fits next. It is not always the same line, since a row needs as many samples as the window has.
-/

namespace PowerCurve.SessionLog

open PowerCurve.Text PowerCurve.Decimal

/-! ## Plans that can be continued -/

/-- Some line of a file fits the rule. -/
def Rule.Satisfiable {α : Type} (rule : Rule α) : Prop :=
  ∃ text a, '\n' ∉ text ∧ rule text = .ok a

namespace Plan

variable {α β : Type}

/-- Whatever the lines so far have said, some line fits next. -/
inductive Viable : Plan α → Prop where
  | done (a : α) : Viable (.done a)
  | line {β : Type} {part : Part} {rule : Rule β} {next : β → Plan α} (h : rule.Satisfiable)
      (hnext : ∀ b, Viable (next b)) : Viable (.line part rule next)

theorem Viable.bind {plan : Plan β} {f : β → Plan α} (h : plan.Viable) (hf : ∀ b, (f b).Viable) :
    (plan.bind f).Viable := by
  induction h with
  | done b => exact hf b
  | line h hnext ih => exact .line h ih

theorem Viable.many {part : Part} {rule : Nat → Rule α} (h : ∀ index, (rule index).Satisfiable)
    (count index : Nat) : (many part rule count index).Viable := by
  induction count generalizing index with
  | zero => exact .done []
  | succ count ih => exact .line (h index) fun a => (ih (index + 1)).bind fun as => .done (a :: as)

/-- A viable plan is carried out by some lines. -/
theorem Viable.exists_reads {plan : Plan α} (h : plan.Viable) :
    ∃ (more : List (List Char)) (a : α), (∀ text ∈ more, '\n' ∉ text) ∧
      plan.Reads (more.map .text) (.value a) := by
  induction h with
  | done a => exact ⟨[], a, nofun, .done a⟩
  | line h hnext ih =>
    rcases h with ⟨text, b, htext, hrule⟩
    rcases ih b with ⟨more, a, hmore, hreads⟩
    exact ⟨text :: more, a, List.forall_mem_cons.mpr ⟨htext, hmore⟩, .line hrule hreads⟩

/-- **Lines that a viable plan does not refuse can be continued.** -/
theorem Viable.exists_continuation {plan : Plan α} (h : plan.Viable) {lines : List Line}
    {part : Part} (hreads : plan.Reads lines (.missing part)) :
    ∃ (more : List (List Char)) (a : α), (∀ text ∈ more, '\n' ∉ text) ∧
      plan.Reads (lines ++ more.map .text) (.value a) := by
  generalize houtcome : Outcome.missing part = outcome at hreads
  induction hreads with
  | done a => cases houtcome
  | missing part rule next => exact h.exists_reads
  | undecodable part rule next => cases houtcome
  | refused next hrule => cases houtcome
  | line hrule hnext ih =>
    -- viability is asked of the plan that the line leads to
    cases h with
    | line h hviable =>
      rcases ih (hviable _) houtcome with ⟨more, a, hmore, hreads⟩
      exact ⟨more, a, hmore, .line hrule hreads⟩

end Plan

/-! ## Every rule of a log is satisfiable -/

theorem rateRule_satisfiable (field : Field) : (rateRule field).Satisfiable :=
  ⟨[':', '1'], 1, by decide, rfl⟩

theorem countRule_satisfiable (field : Field) : (countRule field).Satisfiable :=
  ⟨[':', '0'], 0, by decide, rfl⟩

theorem blankRule_satisfiable : Rule.Satisfiable blankRule :=
  ⟨[], (), List.not_mem_nil, rfl⟩

theorem eventRule_satisfiable (start : Float) : (eventRule start).Satisfiable :=
  ⟨['0', '|'], _, by decide, rfl⟩

/-- A row of `n + 1` zeros. -/
def zeroRow : Nat → List Char
  | 0 => ['0']
  | n + 1 => '0' :: ',' :: zeroRow n

theorem pieces_zeroRow (n : Nat) : pieces ',' (zeroRow n) = List.replicate (n + 1) ['0'] := by
  induction n with
  | zero => rfl
  | succ n ih =>
    rw [zeroRow, pieces_cons, pieces_cons, ih]
    rfl

theorem notMem_zeroRow (n : Nat) : '\n' ∉ zeroRow n := by
  induction n with
  | zero => decide
  | succ n ih => simpa [zeroRow] using ih

/-- There are rows for any window. -/
theorem rowRule_satisfiable (window : Nat) : (rowRule window).Satisfiable := by
  obtain ⟨x, hx⟩ : ∃ x, sampleRule ['0'] = .ok x := ⟨_, rfl⟩
  have hsamples : (pieces ',' (zeroRow window)).mapM sampleRule =
      .ok (List.replicate (window + 1) x) := by
    rw [pieces_zeroRow, mapM_eq_ok_iff, List.forall₂_iff_get]
    refine ⟨by simp, ?_⟩
    intro i h h'
    simpa using hx
  have hlen : ¬(List.replicate (window + 1) x).length < window := by
    rw [List.length_replicate]
    omega
  refine ⟨zeroRow window, total ((List.replicate (window + 1) x).drop
    ((List.replicate (window + 1) x).length - window)), notMem_zeroRow window, ?_⟩
  rw [rowRule, hsamples]
  exact if_neg hlen

theorem readingRule_satisfiable (window : Nat) (interval : Float) (index : Nat) :
    (readingRule window interval index).Satisfiable := by
  rcases rowRule_satisfiable window with ⟨text, power, htext, hrule⟩
  refine ⟨text, ⟨readingTime interval index, power⟩, htext, ?_⟩
  rw [readingRule, hrule]
  rfl

theorem preamblePlan_viable : preamblePlan.Viable := by
  refine .line ⟨[], _, List.not_mem_nil, rfl⟩ fun _ => ?_
  refine .line ⟨[':', '0'], _, by decide, rfl⟩ fun _ => ?_
  refine .line ⟨[':'], _, by decide, rfl⟩ fun _ => ?_
  refine .line (rateRule_satisfiable .sampleRate) fun _ => ?_
  refine .line (rateRule_satisfiable .samplesPerSecond) fun _ => ?_
  refine .line (countRule_satisfiable .eventCount) fun _ => ?_
  refine .line (countRule_satisfiable .sampleCount) fun _ => ?_
  exact .line blankRule_satisfiable fun _ => .done _

theorem logPlan_viable (window : Nat) : (logPlan window).Viable := by
  refine preamblePlan_viable.bind fun p => ?_
  refine (Plan.Viable.many (fun _ => eventRule_satisfiable p.startTime) _ _).bind fun events => ?_
  refine .line blankRule_satisfiable fun _ => ?_
  refine (Plan.Viable.many (readingRule_satisfiable window p.readingInterval) _ _).bind ?_
  exact fun readings => .done _

/-! ## The parser -/

/-- A line that does not fit is refused, or it is missing behind the last line. -/
theorem reads_of_misfit {window : Nat} (hw : 0 < window) {lines : List Line} {fault : Option Fault}
    {k : Nat} {part : Part} {cause : Cause}
    (h : (parse window ⟨lines, fault⟩).result = .error (.misfit k part cause)) :
    (∃ used rest, lines = used ++ rest ∧ used.length = k ∧
      (logPlan window).Reads used (.refusal part cause)) ∨
    (k = lines.length + 1 ∧ (logPlan window).Reads lines (.missing part)) := by
  rcases exists_parse_eq_verdict hw lines with ⟨used, rest, outcome, rfl, hreads, hrest, hparse⟩
  rw [hparse] at h
  cases outcome with
  | value session => cases fault <;> cases h
  | refusal part' cause' =>
    cases h
    exact .inl ⟨used, rest, rfl, rfl, hreads⟩
  | missing part' =>
    obtain rfl := hrest part' rfl
    rw [List.append_nil]
    cases fault with
    | some fault => cases h
    | none =>
      cases h
      exact .inr ⟨rfl, hreads⟩

/-- Before a line that does not fit the log can be continued. -/
theorem exists_session_of_missing {window : Nat} (hw : 0 < window) {lines : List Line} {part : Part}
    (h : (logPlan window).Reads lines (.missing part)) :
    ∃ (more : List (List Char)) (session : Session), (∀ text ∈ more, '\n' ∉ text) ∧
      (parse window ⟨lines ++ more.map .text, none⟩).result = .ok session := by
  rcases (logPlan_viable window).exists_continuation h with ⟨more, session, hmore, hreads⟩
  refine ⟨more, session, hmore, ?_⟩
  rw [← List.append_nil (lines ++ _)]
  exact parse_eq_verdict hw hreads none nofun

/-- **A refusal names the first line at which a log cannot be continued**, and depends on nothing
after it: if the line exists, any log with the same lines up to it is refused in the same way, and
the lines before it are continued by some lines of text to a log that is accepted. -/
theorem parse_misfit {window : Nat} (hw : 0 < window) {lines : List Line} {fault : Option Fault}
    {k : Nat} {part : Part} {cause : Cause}
    (h : (parse window ⟨lines, fault⟩).result = .error (.misfit k part cause)) :
    0 < k ∧
    (k ≤ lines.length → ∀ lines' fault', lines'.take k = lines.take k →
      (parse window ⟨lines', fault'⟩).result = .error (.misfit k part cause)) ∧
    ∃ (more : List (List Char)) (session : Session), (∀ text ∈ more, '\n' ∉ text) ∧
      (parse window ⟨lines.take (k - 1) ++ more.map .text, none⟩).result = .ok session := by
  rcases reads_of_misfit hw h with ⟨used, rest, rfl, rfl, hreads⟩ | ⟨rfl, hreads⟩
  -- the line exists and is refused
  · rcases hreads.dropLast_of_refusal with ⟨hne, part', hmissing⟩
    have hlen : used.length - 1 ≤ used.length := Nat.sub_le _ _
    refine ⟨List.length_pos_of_ne_nil hne, ?_, ?_⟩
    · intro _ lines' fault' htake
      rw [List.take_left' rfl] at htake
      rw [← List.take_append_drop used.length lines', htake]
      exact parse_eq_verdict hw hreads fault' nofun
    · rw [List.take_append_of_le_length hlen, ← List.dropLast_eq_take]
      exact exists_session_of_missing hw hmissing
  -- the line is missing, so there is nothing to agree on
  · refine ⟨Nat.succ_pos _, ?_, ?_⟩
    · intro hle
      omega
    · rw [Nat.add_sub_cancel, List.take_length]
      exact exists_session_of_missing hw hreads

/-- Two lines, the second of which has no colon. -/
theorem parse_misfit_noColon :
    (parse 1 ⟨[.text ['a'], .text ['b'], .undecodable], none⟩).result =
        .error (.misfit 2 .preamble (.noName .startTime)) ∧
      (∀ lines' fault', lines'.take 2 = [.text ['a'], .text ['b']] →
        (parse 1 ⟨lines', fault'⟩).result = .error (.misfit 2 .preamble (.noName .startTime))) ∧
      ∃ (more : List (List Char)) (session : Session), (∀ text ∈ more, '\n' ∉ text) ∧
        (parse 1 ⟨[.text ['a']] ++ more.map .text, none⟩).result = .ok session := by
  have h : (parse 1 ⟨[.text ['a'], .text ['b'], .undecodable], none⟩).result =
      .error (.misfit 2 .preamble (.noName .startTime)) := rfl
  rcases parse_misfit (by decide) h with ⟨-, hlocal, hviable⟩
  exact ⟨h, hlocal (by decide), hviable⟩

end PowerCurve.SessionLog
