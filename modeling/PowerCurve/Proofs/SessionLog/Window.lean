import PowerCurve.Proofs.SessionLog.Plan
import PowerCurve.Proofs.Steps

/-!
# Wider windows

A wider window asks for longer rows and for nothing else. Two plans are compared line by line
(`Plan.Looser`): what fits the strict one fits the loose one, and what the loose one refuses the
strict one refuses for the same reason, unless a row is too short for either window. So a strict run
comes to its end only if the loose one does (`Plan.Looser.run_ok`), and where the loose run stops the
strict one has stopped before or stops as well (`Plan.Looser.run_misfit`). The parser has both from
its plan (`parse_wider`).
-/

namespace PowerCurve.SessionLog

open PowerCurve.Text

/-! ## One line -/

/-- A line that does not fit is refused by its rule, or it would be refused by any other rule. -/
theorem take_eq_misfit {α : Type} {c : Cursor} {part part' : Part} {rule : Rule α} {k : Nat}
    {cause : Cause} (h : c.take part rule = .error (.misfit k part' cause)) :
    k = c.consumed + 1 ∧ part' = part ∧
      ((∃ text lines, c.rest.lines = .text text :: lines ∧ rule text = .error cause) ∨
        ∀ {β : Type} (other : Rule β), c.take part other = .error (.misfit k part cause)) := by
  rcases c with ⟨n, lines, fault⟩
  rcases lines with _ | ⟨text | _, lines⟩
  · cases fault with
    | some fault => cases h
    | none =>
      cases h
      exact ⟨rfl, rfl, .inr fun other => rfl⟩
  · cases hrule : rule text with
    | ok a =>
      simp only [Cursor.take, hrule] at h
      cases h
    | error cause' =>
      rw [take_of_error rfl hrule] at h
      cases h
      exact ⟨rfl, rfl, .inl ⟨text, lines, rfl, hrule⟩⟩
  · cases h
    exact ⟨rfl, rfl, .inr fun other => rfl⟩

/-- A run stops behind the place where it begins. -/
theorem Plan.lt_of_run_misfit {α : Type} {plan : Plan α} {c : Cursor} {k : Nat} {part : Part}
    {cause : Cause} (h : plan.run c = .error (.misfit k part cause)) : c.consumed < k := by
  induction plan generalizing c with
  | done a => cases h
  | line part' rule next ih =>
    rw [run_line, bind_eq_error_iff] at h
    rcases h with htake | ⟨⟨b, c'⟩, htake, hrest⟩
    · rw [(take_eq_misfit htake).1]
      exact Nat.lt_succ_self _
    · rcases take_eq_ok_iff.mp htake with ⟨text, lines, -, -, rfl⟩
      exact Nat.lt_of_succ_lt (ih b hrest)

section

variable (v w : Nat)

/-! ## Loose and strict rules -/

/-- The causes are the same, or a row is too short for each of the two windows. -/
inductive Cause.Matches : Cause → Cause → Prop
  | same (cause : Cause) : Matches cause cause
  | shortRow (values : Nat) : Matches (.shortRow values v) (.shortRow values w)

/-- What fits the strict rule fits the loose one, and what they make of it is related. What the loose
rule refuses the strict one refuses as well. -/
structure Rule.Looser {β γ : Type} (S : β → γ → Prop) (loose : Rule β) (strict : Rule γ) : Prop where
  ok : ∀ text c, strict text = .ok c → ∃ b, loose text = .ok b ∧ S b c
  error : ∀ text cause, loose text = .error cause →
    ∃ cause', strict text = .error cause' ∧ cause.Matches v w cause'

theorem Rule.Looser.refl {β : Type} (rule : Rule β) : rule.Looser v w Eq rule where
  ok _ c h := ⟨c, h, rfl⟩
  error _ cause h := ⟨cause, h, .same cause⟩

/-! ## Loose and strict plans -/

/-- Line by line one plan is looser than the other, and what they come to is related. -/
inductive Plan.Looser {α α' : Type} (R : α → α' → Prop) : Plan α → Plan α' → Prop
  | done {a : α} {a' : α'} (h : R a a') : Looser R (.done a) (.done a')
  | line {β γ : Type} {S : β → γ → Prop} {part : Part} {loose : Rule β} {strict : Rule γ}
      {next : β → Plan α} {next' : γ → Plan α'} (hrule : loose.Looser v w S strict)
      (hnext : ∀ b c, S b c → Looser R (next b) (next' c)) :
      Looser R (.line part loose next) (.line part strict next')

namespace Plan

variable {v w} {α α' β β' : Type} {R : α → α' → Prop} {S : β → β' → Prop}

theorem Looser.refl (plan : Plan α) : plan.Looser v w Eq plan := by
  induction plan with
  | done a => exact .done rfl
  | line part rule next ih =>
    refine .line (.refl v w rule) ?_
    rintro b _ rfl
    exact ih b

theorem Looser.bind {loose : Plan β} {strict : Plan β'} {f : β → Plan α} {g : β' → Plan α'}
    (h : loose.Looser v w S strict) (hf : ∀ b c, S b c → (f b).Looser v w R (g c)) :
    (loose.bind f).Looser v w R (strict.bind g) := by
  induction h with
  | done h => exact hf _ _ h
  | line hrule hnext ih => exact .line hrule ih

theorem Looser.many {part : Part} {loose : Nat → Rule β} {strict : Nat → Rule β'}
    (h : ∀ index, (loose index).Looser v w S (strict index)) (count index : Nat) :
    (many part loose count index).Looser v w (List.Forall₂ S) (many part strict count index) := by
  induction count generalizing index with
  | zero => exact .done .nil
  | succ count ih =>
    refine .line (h index) fun b c hbc => ?_
    exact (ih (index + 1)).bind fun bs cs hrest => .done (.cons hbc hrest)

/-! ## Loose and strict runs -/

/-- **A strict run comes to its end only if the loose one does**, at the same place. -/
theorem Looser.run_ok {loose : Plan α} {strict : Plan α'} (h : loose.Looser v w R strict)
    {c c' : Cursor} {a' : α'} (hrun : strict.run c = .ok (a', c')) :
    ∃ a, loose.run c = .ok (a, c') ∧ R a a' := by
  induction h generalizing c with
  | @done a _ h =>
    cases hrun
    exact ⟨a, rfl, h⟩
  | line hrule hnext ih =>
    simp only [run_line, bind_eq_ok_iff] at hrun ⊢
    rcases hrun with ⟨⟨d, c₁⟩, htake, hrest⟩
    rcases take_eq_ok_iff.mp htake with ⟨text, lines, hlines, hstrict, hc⟩
    rcases hrule.ok text d hstrict with ⟨b, hloose, hbd⟩
    rcases ih b d hbd hrest with ⟨a, ha, haa'⟩
    exact ⟨a, ⟨(b, c₁), take_eq_ok_iff.mpr ⟨text, lines, hlines, hloose, hc⟩, ha⟩, haa'⟩

/-- **Where a loose run stops the strict one has stopped before, or it stops as well**, in the same
part of the log and for a matching cause. -/
theorem Looser.run_misfit {loose : Plan α} {strict : Plan α'} (h : loose.Looser v w R strict)
    {c : Cursor} {k : Nat} {part : Part} {cause : Cause}
    (hrun : loose.run c = .error (.misfit k part cause)) :
    ∃ k' part' cause', strict.run c = .error (.misfit k' part' cause') ∧ k' ≤ k ∧
      (k' = k → part' = part ∧ cause.Matches v w cause') := by
  induction h generalizing c with
  | done h => cases hrun
  | @line _ _ _ part' loose strict next next' hrule hnext ih =>
    simp only [run_line, bind_eq_error_iff] at hrun ⊢
    rcases hrun with htake | ⟨⟨b, c₁⟩, htake, hrest⟩
    · -- the loose run stops at this line, and so does the strict one
      rcases take_eq_misfit htake with ⟨rfl, rfl, ⟨text, lines, hlines, hloose⟩ | hany⟩
      · rcases hrule.error text cause hloose with ⟨cause', hstrict, hmatches⟩
        exact ⟨_, _, cause', .inl (take_of_error hlines hstrict), Nat.le_refl _,
          fun _ => ⟨rfl, hmatches⟩⟩
      · exact ⟨_, _, cause, .inl (hany strict), Nat.le_refl _, fun _ => ⟨rfl, .same cause⟩⟩
    · rcases take_eq_ok_iff.mp htake with ⟨text, lines, hlines, hloose, hc⟩
      cases hstrict : strict text with
      | ok d =>
        rcases hrule.ok text d hstrict with ⟨b', hloose', hbd⟩
        obtain rfl := Except.ok.inj (hloose.symm.trans hloose')
        rcases ih b d hbd hrest with ⟨k', part', cause', hrun', hle⟩
        exact ⟨k', part', cause', .inr ⟨(d, c₁),
          take_eq_ok_iff.mpr ⟨text, lines, hlines, hstrict, hc⟩, hrun'⟩, hle⟩
      | error cause' =>
        -- the strict run stops at this line, and the loose one behind it
        have hlt := lt_of_run_misfit hrest
        rw [← hc] at hlt
        refine ⟨_, _, cause', .inl (take_of_error hlines hstrict), Nat.le_of_lt hlt, ?_⟩
        intro heq
        exact absurd heq (Nat.ne_of_lt hlt)

end Plan

/-! ## Rows and logs -/

variable {v w} (h : v ≤ w)

include h

/-- A row that is long enough for the wider window is long enough for the other one. -/
theorem rowRule_looser : (rowRule v).Looser v w (fun _ _ => True) (rowRule w) where
  ok text power hrow := by
    rw [rowRule, bind_eq_ok_iff] at hrow
    rcases hrow with ⟨samples, hsamples, hlength⟩
    split at hlength
    · cases hlength
    · next hlong =>
      refine ⟨total (samples.drop (samples.length - v)), ?_, trivial⟩
      rw [rowRule, hsamples]
      exact if_neg (by omega)
  error text cause hrow := by
    rw [rowRule, bind_eq_error_iff] at hrow
    rcases hrow with hsamples | ⟨samples, hsamples, hlength⟩
    · refine ⟨cause, ?_, .same cause⟩
      rw [rowRule, hsamples]
      rfl
    · split at hlength
      · next hshort =>
        cases hlength
        refine ⟨_, ?_, .shortRow samples.length⟩
        rw [rowRule, hsamples]
        exact if_pos (by omega)
      · cases hlength

theorem readingRule_looser (interval : Float) (index : Nat) :
    (readingRule v interval index).Looser v w (fun r r' => r.time = r'.time)
      (readingRule w interval index) where
  ok text reading hrow := by
    rw [readingRule, bind_eq_ok_iff] at hrow
    rcases hrow with ⟨power, hpower, hreading⟩
    rcases (rowRule_looser h).ok text power hpower with ⟨power', hpower', -⟩
    refine ⟨⟨readingTime interval index, power'⟩, ?_, ?_⟩
    · rw [readingRule, hpower']
      rfl
    · cases hreading
      rfl
  error text cause hrow := by
    rw [readingRule, bind_eq_error_iff] at hrow
    rcases hrow with hpower | ⟨power, -, hreading⟩
    · rcases (rowRule_looser h).error text cause hpower with ⟨cause', hpower', hmatches⟩
      refine ⟨cause', ?_, hmatches⟩
      rw [readingRule, hpower']
      rfl
    · cases hreading

end

/-- The sessions are the same but for the power of their readings. -/
structure AgreeButPower (s s' : Session) : Prop where
  preamble : s.preamble = s'.preamble
  events : s.events = s'.events
  times : s.readings.map Reading.time = s'.readings.map Reading.time

theorem map_time_eq {rs rs' : List Reading}
    (h : List.Forall₂ (fun r r' => r.time = r'.time) rs rs') :
    rs.map Reading.time = rs'.map Reading.time := by
  rwa [← List.forall₂_eq_eq_eq, List.forall₂_map_left_iff, List.forall₂_map_right_iff]

theorem logPlan_looser {v w : Nat} (h : v ≤ w) :
    (logPlan v).Looser v w AgreeButPower (logPlan w) := by
  refine (Plan.Looser.refl preamblePlan).bind ?_
  rintro p _ rfl
  refine (Plan.Looser.refl _).bind ?_
  rintro events _ rfl
  refine .line (.refl v w blankRule) fun _ _ _ => ?_
  refine (Plan.Looser.many (readingRule_looser h p.readingInterval) p.rowCount 0).bind ?_
  exact fun readings readings' htimes => .done ⟨rfl, rfl, map_time_eq htimes⟩

/-- **Parsing is monotone in the window**, whatever arrives. If a log is accepted with the wider
window, it is accepted with the other one, and the sessions differ in nothing but the powers. If it
is refused with the other one, it is refused with the wider one, at the same line or before it; if at
the same line, then in the same section and in the same words, or because the row is too short for
either window. -/
theorem parse_wider {v w : Nat} (hv : 0 < v) (hvw : v ≤ w) (source : Source) :
    (∀ s, (parse w source).result = .ok s → ∃ s', (parse v source).result = .ok s' ∧
      s'.preamble = s.preamble ∧ s'.events = s.events ∧
      s'.readings.length = s.readings.length ∧
      s'.readings.map Reading.time = s.readings.map Reading.time) ∧
    ∀ k part cause, (parse v source).result = .error (.misfit k part cause) →
      ∃ k' part' cause', (parse w source).result = .error (.misfit k' part' cause') ∧ k' ≤ k ∧
        (k' = k → part' = part ∧ (cause'.text = cause.text ∨
          ∃ values, cause = .shortRow values v ∧ cause' = .shortRow values w)) := by
  have hplan := logPlan_looser hvw
  rw [parse_result_eq hv, parse_result_eq (Nat.lt_of_lt_of_le hv hvw)]
  refine ⟨?_, ?_⟩
  · intro s hs
    simp only [bind_eq_ok_iff] at hs ⊢
    rcases hs with ⟨⟨_, c⟩, hrun, ignored, hfinish, ⟨⟩⟩
    rcases hplan.run_ok hrun with ⟨s', hrun', hagree⟩
    have hlength := congrArg List.length hagree.times
    rw [List.length_map, List.length_map] at hlength
    exact ⟨s', ⟨(s', c), hrun', ignored, hfinish, rfl⟩, hagree.preamble, hagree.events, hlength,
      hagree.times⟩
  · intro k part cause h
    simp only [bind_eq_error_iff] at h ⊢
    rcases h with hrun | ⟨⟨s, c⟩, -, hfinish | ⟨ignored, -, ⟨⟩⟩⟩
    · rcases hplan.run_misfit hrun with ⟨k', part', cause', hrun', hle, hsame⟩
      refine ⟨k', part', cause', .inl hrun', hle, ?_⟩
      intro heq
      rcases hsame heq with ⟨hpart, hmatches⟩
      cases hmatches with
      | same => exact ⟨hpart, .inl rfl⟩
      | shortRow values => exact ⟨hpart, .inr ⟨values, rfl, rfl⟩⟩
    · -- at the end of the log only a fault is an error
      rw [Cursor.finish] at hfinish
      split at hfinish <;> cases hfinish

/-- A row of three samples and one of two: both are long enough for a window of two and so for one of
one, and the second one is too short for a window of three and for one of four, with which the log is
not read any further. -/
theorem parse_wider_twoRows :
    let source : Source := ⟨[.text ['a'], .text [':', '0'], .text [':'], .text [':', '1'],
      .text [':', '1'], .text [':', '0'], .text [':', '2'], .text [], .text [],
      .text ['1', ',', '2', ',', '3'], .text ['4', ',', '5']], none⟩
    (∃ s, (parse 2 source).result = .ok s ∧ ∃ s', (parse 1 source).result = .ok s' ∧
      s'.readings.map Reading.time = s.readings.map Reading.time) ∧
    (parse 3 source).result = .error (.misfit 11 .samples (.shortRow 2 3)) ∧
    ∃ k part cause, (parse 4 source).result = .error (.misfit k part cause) ∧ k ≤ 11 := by
  intro source
  have haccepted : ∃ s, (parse 2 source).result = .ok s := ⟨_, rfl⟩
  have hrefused : (parse 3 source).result = .error (.misfit 11 .samples (.shortRow 2 3)) := rfl
  refine ⟨?_, hrefused, ?_⟩
  · rcases haccepted with ⟨s, hs⟩
    rcases (parse_wider (by decide : 0 < 1) (by decide : 1 ≤ 2) source).1 s hs with
      ⟨s', hs', -, -, -, htimes⟩
    exact ⟨s, hs, s', hs', htimes⟩
  · rcases (parse_wider (by decide : 0 < 3) (by decide : 3 ≤ 4) source).2 _ _ _ hrefused with
      ⟨k, part, cause, hk, hle, -⟩
    exact ⟨k, part, cause, hk, hle⟩

end PowerCurve.SessionLog
