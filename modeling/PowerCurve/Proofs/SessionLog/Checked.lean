import Mathlib.Algebra.Order.Floor.Semiring
import Mathlib.Data.Rat.Floor
import PowerCurve.Proofs.SessionLog.Grammar

/-!
# Parsing in checked arithmetic

The parser counts in natural numbers. `parseChecked` is the parser with each of its operations on
numbers checked: a sum that does not fit into 64 bits, or a difference below zero, ends the run
without any result. It also counts the lines that it asks for.

At every place between two lines, the lines before it and the lines that were asked for are equally
many (`Agrees`). So counters stay below the number of lines, indexes below the numbers that the
preamble announces, and no check fails: the run ends with the result of the parser
(`arithmetic_in_range`).
-/

namespace PowerCurve.SessionLog

open PowerCurve.Text

/-! ## Checked runs -/

/-- A sum that fits into 64 bits. -/
def sum? (m n : ℕ) : Option ℕ :=
  if m + n < 2 ^ 64 then some (m + n) else none

/-- A difference that is not below zero. -/
def difference? (m n : ℕ) : Option ℕ :=
  if n ≤ m then some (m - n) else none

/-- A run that counts the lines it asks for, and has no result if a check fails. -/
abbrev Checked : Type → Type := ExceptT LogError (StateT ℕ Option)

/-- One more line is asked for. -/
def Checked.ask : Checked Unit :=
  modify (· + 1)

/-- A rule of which some operations are checked. -/
abbrev CheckedRule (α : Type) := List Char → Option (Except Cause α)

/-- A rule without operations that are checked. -/
def Rule.checked {α : Type} (rule : Rule α) : CheckedRule α := fun line =>
  some (rule line)

/-- The rule of a row of samples: the place where the last samples begin is checked. -/
def rowRuleChecked (window : ℕ) : CheckedRule Float := fun line =>
  match (pieces ',' line).mapM sampleRule with
  | .error cause => some (.error cause)
  | .ok samples =>
    if samples.length < window then some (.error (.shortRow samples.length window))
    else do
      let start ← difference? samples.length window
      return .ok (total (samples.drop start))

/-- The row of the reading with the given index: the number of readings up to it is checked. -/
def readingRuleChecked (window : ℕ) (readingInterval : Float) (index : ℕ) : CheckedRule Reading :=
  fun line => do
    match ← rowRuleChecked window line with
    | .error cause => return .error cause
    | .ok power =>
      let count ← sum? index 1
      return .ok ⟨readingInterval * (UInt64.ofNat count).toFloat, power⟩

/-- Reads one line by a rule. -/
def Cursor.takeChecked {α : Type} (c : Cursor) (part : Part) (rule : CheckedRule α) :
    Checked (α × Cursor) := do
  Checked.ask
  match c.rest.lines with
  | .text line :: lines =>
    let number ← sum? c.consumed 1
    match ← rule line with
    | .ok a => return (a, ⟨number, lines, c.rest.fault⟩)
    | .error cause => throw (.misfit number part cause)
  | .undecodable :: _ =>
    let number ← sum? c.consumed 1
    throw (.misfit number part .undecodable)
  | [] =>
    match c.rest.fault with
    | some fault => throw (.unreadable fault)
    | none =>
      let number ← sum? c.consumed 1
      throw (.misfit number part .endOfInput)

/-- Reads `count` lines by rules that depend on an index, which starts at `index`. -/
def Cursor.takeManyChecked {α : Type} (part : Part) (rule : ℕ → CheckedRule α) :
    (count index : ℕ) → Cursor → Checked (List α × Cursor)
  | 0, _, c => pure ([], c)
  | count + 1, index, c => do
    let next ← sum? index 1
    let (a, c) ← c.takeChecked part (rule index)
    let (as, c) ← Cursor.takeManyChecked part rule count next c
    return (a :: as, c)

/-- Reads the lines at a cursor by a plan. -/
def Plan.runChecked {α : Type} : Plan α → Cursor → Checked (α × Cursor)
  | .done a, c => pure (a, c)
  | .line part rule next, c => do
    let (b, c) ← c.takeChecked part rule.checked
    (next b).runChecked c

/-- The number of rows: a quotient, and one more if there is a remainder. -/
def rowCount? (p : Preamble) : Option ℕ :=
  if p.sampleRate = 0 then some 0
  else if 0 < p.sampleCount.toNat % p.sampleRate.toNat then
    sum? (p.sampleCount.toNat / p.sampleRate.toNat) 1
  else some (p.sampleCount.toNat / p.sampleRate.toNat)

/-- Goes to the end of the log, from a number of lines on that are worth a notice. -/
def finishChecked (fault : Option Fault) : (lines : List Line) → (count : ℕ) → Checked ℕ
  | [], count => do
    Checked.ask
    match fault with
    | some fault => throw (.unreadable fault)
    | none => return count
  | line :: lines, count => do
    Checked.ask
    let count ← if line.isRemarkable then sum? count 1 else some count
    finishChecked fault lines count

/-- Reads the preamble, the events and the rows. -/
def Cursor.takeSessionChecked (window : ℕ) (c : Cursor) : Checked (Session × Cursor) := do
  let (p, c) ← preamblePlan.runChecked c
  let (events, c) ← c.takeManyChecked .events (fun _ => (eventRule p.startTime).checked)
    p.eventCount.toNat 0
  let ((), c) ← c.takeChecked .events blankRule.checked
  let rows ← rowCount? p
  let (readings, c) ← c.takeManyChecked .samples (readingRuleChecked window p.readingInterval) rows 0
  return (⟨p, events, readings⟩, c)

/-- Parses a log. -/
def parseChecked (window : ℕ) (source : Source) : Checked Session :=
  if window = 0 then throw .emptyWindow
  else do
    let (session, c) ← Cursor.takeSessionChecked window ⟨0, source⟩
    let _ ← finishChecked c.rest.fault c.rest.lines 0
    return session

/-! ## Runs and their results -/

variable {α β : Type}

theorem sum?_eq_some {m n : ℕ} (h : m + n < 2 ^ 64) : sum? m n = some (m + n) :=
  if_pos h

/-- After `n` lines were asked for, the run has this result, and then `n'` lines were asked for. -/
def Checked.Gives (x : Checked α) (n : ℕ) (r : Except LogError α) (n' : ℕ) : Prop :=
  x n = some (r, n')

theorem Checked.gives_pure (a : α) (n : ℕ) : (pure a : Checked α).Gives n (.ok a) n := rfl

theorem Checked.Gives.bind {x : Checked α} {f : α → Checked β} {n n' n'' : ℕ} {a : α}
    {r : Except LogError β} (h : x.Gives n (.ok a) n') (hf : (f a).Gives n' r n'') :
    (x >>= f).Gives n r n'' := by
  have hbind : (x >>= f) n = (x n).bind fun rn => ExceptT.bindCont f rn.1 rn.2 := rfl
  rw [Gives, hbind, h]
  exact hf

theorem Checked.Gives.bind_error {x : Checked α} {n n' : ℕ} {e : LogError}
    (h : x.Gives n (.error e) n') (f : α → Checked β) : (x >>= f).Gives n (.error e) n' := by
  have hbind : (x >>= f) n = (x n).bind fun rn => ExceptT.bindCont f rn.1 rn.2 := rfl
  rw [Gives, hbind, h]
  rfl

theorem Checked.gives_ask (n : ℕ) : Checked.ask.Gives n (.ok ()) (n + 1) := rfl

theorem Checked.gives_throw (e : LogError) (n : ℕ) : (throw e : Checked α).Gives n (.error e) n := rfl

/-! ## One line -/

/-- **One line is read in range.** -/
theorem takeChecked_gives {c : Cursor} (hc : c.consumed + 1 < 2 ^ 64) (part : Part) {rule : Rule α}
    {checked : CheckedRule α} (hrule : ∀ line, checked line = some (rule line)) (n : ℕ) :
    (c.takeChecked part checked).Gives n (c.take part rule) (n + 1) := by
  have hnumber : sum? c.consumed 1 = some (c.consumed + 1) := sum?_eq_some hc
  rcases c with ⟨consumed, lines, fault⟩
  rcases lines with _ | ⟨text | _, lines⟩
  · cases fault with
    | some fault => rfl
    | none =>
      simp only [Cursor.takeChecked, hnumber]
      rfl
  · cases hresult : rule text <;>
    · simp only [Cursor.takeChecked, Cursor.take, hnumber, hrule, hresult]
      rfl
  · simp only [Cursor.takeChecked, hnumber]
    rfl

/-- A counter at its limit is noticed. -/
example : (Cursor.takeChecked ⟨2 ^ 64 - 1, ⟨[.text []], none⟩⟩ .events blankRule.checked) 0 = none :=
  rfl

/-! ## Places and runs -/

/-- The place is in a log of `total` lines. -/
def Cursor.IsIn (c : Cursor) (total : ℕ) : Prop :=
  c.consumed + c.rest.lines.length = total

/-- From a cursor on, a checked run has the result of a run that is not checked. Where it ends, as
many lines were asked for as are before that place; if it fails, at most one line more than there
is. -/
inductive Agrees (total : ℕ) (c : Cursor) (x : Checked (α × Cursor)) :
    Except LogError (α × Cursor) → Prop where
  | ok {a : α} {c' : Cursor} (h : x.Gives c.consumed (.ok (a, c')) c'.consumed) (hc : c'.IsIn total) :
      Agrees total c x (.ok (a, c'))
  | error {e : LogError} {asked : ℕ} (h : x.Gives c.consumed (.error e) asked)
      (hle : asked ≤ total + 1) : Agrees total c x (.error e)

variable {total : ℕ} {c : Cursor}

theorem Agrees.pure (hc : c.IsIn total) (a : α) :
    Agrees total c (Pure.pure (a, c)) (Pure.pure (a, c)) :=
  .ok (Checked.gives_pure (a, c) c.consumed) hc

theorem Agrees.bind {x : Checked (α × Cursor)} {r : Except LogError (α × Cursor)}
    {f : α × Cursor → Checked (β × Cursor)} {g : α × Cursor → Except LogError (β × Cursor)}
    (h : Agrees total c x r)
    (hf : ∀ a c', c'.IsIn total → Agrees total c' (f (a, c')) (g (a, c'))) :
    Agrees total c (x >>= f) (r >>= g) := by
  cases h with
  | @ok a c' h hc =>
    have hnext := hf a c' hc
    have hbind : ((Except.ok (a, c') : Except LogError (α × Cursor)) >>= g) = g (a, c') := rfl
    rw [hbind]
    generalize g (a, c') = r' at hnext
    cases hnext with
    | ok h' hc' => exact .ok (h.bind h') hc'
    | error h' hle => exact .error (h.bind h') hle
  | error h hle => exact .error (h.bind_error f) hle

theorem agrees_take (htotal : total + 1 < 2 ^ 64) (hc : c.IsIn total) (part : Part) {rule : Rule α}
    {checked : CheckedRule α} (hrule : ∀ line, checked line = some (rule line)) :
    Agrees total c (c.takeChecked part checked) (c.take part rule) := by
  have hcount : c.consumed + c.rest.lines.length = total := hc
  have hgives := takeChecked_gives (c := c) (by omega) part hrule c.consumed
  cases htake : c.take part rule with
  | ok ac =>
    rcases ac with ⟨a, c'⟩
    rw [htake] at hgives
    rcases take_eq_ok_iff.mp htake with ⟨text, lines, hlines, -, rfl⟩
    rw [hlines, List.length_cons] at hcount
    have hrest : c.consumed + 1 + lines.length = total := by omega
    exact .ok hgives hrest
  | error e =>
    rw [htake] at hgives
    exact .error hgives (by omega)

/-- **A number of lines are read in range**, if the index after them is. -/
theorem agrees_takeMany (htotal : total + 1 < 2 ^ 64) (part : Part) {rule : ℕ → Rule α}
    {checked : ℕ → CheckedRule α} {count index : ℕ} (hindex : index + count < 2 ^ 64)
    (hrule : ∀ i < index + count, ∀ line, checked i line = some (rule i line)) (hc : c.IsIn total) :
    Agrees total c (c.takeManyChecked part checked count index)
      (c.takeMany part rule count index) := by
  induction count generalizing index c with
  | zero => exact .pure hc []
  | succ count ih =>
    have hnext : sum? index 1 = some (index + 1) := sum?_eq_some (by omega)
    have hstep : (c.takeManyChecked part checked (count + 1) index) = (do
        let (a, c) ← c.takeChecked part (checked index)
        let (as, c) ← Cursor.takeManyChecked part checked count (index + 1) c
        return (a :: as, c)) := by
      rw [Cursor.takeManyChecked, hnext]
      rfl
    rw [hstep, Cursor.takeMany]
    refine (agrees_take htotal hc part (hrule index (by omega))).bind fun a c' hc' => ?_
    refine (ih (by omega) (fun i hi => hrule i (by omega)) hc').bind fun as c'' hc'' => ?_
    exact .pure hc'' (a :: as)

/-- **The lines of a plan are read in range.** -/
theorem agrees_run (htotal : total + 1 < 2 ^ 64) (plan : Plan α) (hc : c.IsIn total) :
    Agrees total c (plan.runChecked c) (plan.run c) := by
  induction plan generalizing c with
  | done a => exact .pure hc a
  | line part rule next ih =>
    refine (agrees_take htotal hc part fun line => rfl).bind fun b c' hc' => ?_
    exact ih b hc'

/-! ## Rows -/

/-- The last samples of a row never begin below its first one. -/
theorem rowRuleChecked_eq (window : ℕ) (line : List Char) :
    rowRuleChecked window line = some (rowRule window line) := by
  rw [rowRuleChecked, rowRule]
  cases (pieces ',' line).mapM sampleRule with
  | error cause => rfl
  | ok samples =>
    dsimp only
    rcases Nat.lt_or_ge samples.length window with hshort | hlong
    · exact (if_pos hshort).trans (congrArg some (if_pos hshort)).symm
    · have hstart : difference? samples.length window = some (samples.length - window) :=
        if_pos hlong
      rw [if_neg hlong.not_gt, hstart]
      exact (congrArg some (if_neg hlong.not_gt)).symm

theorem readingRuleChecked_eq (window : ℕ) (interval : Float) {index : ℕ}
    (hindex : index + 1 < 2 ^ 64) (line : List Char) :
    readingRuleChecked window interval index line =
      some (readingRule window interval index line) := by
  have hcount : sum? index 1 = some (index + 1) := sum?_eq_some hindex
  rw [readingRuleChecked, readingRule, rowRuleChecked_eq, hcount]
  cases rowRule window line <;> rfl

/-- **The number of rows is the exact number of samples over the rate, rounded up.** -/
theorem rowCount_eq_ceil (p : Preamble) :
    p.rowCount = ⌈(p.sampleCount.toNat : ℚ) / p.sampleRate.toNat⌉₊ := by
  rcases Nat.eq_zero_or_pos p.sampleRate.toNat with hzero | hpos
  · have hrate : p.sampleRate = 0 := UInt32.toNat_inj.mp hzero
    rw [Preamble.rowCount, if_pos hrate, hzero, Nat.cast_zero, div_zero, Nat.ceil_zero]
  · have hpos' : (0 : ℚ) < p.sampleRate.toNat := Nat.cast_pos.mpr hpos
    rcases isLeast_rowCount hpos with ⟨hcovers, hleast⟩
    refine eq_of_forall_ge_iff fun m => ?_
    rw [Nat.ceil_le, div_le_iff₀ hpos']
    constructor
    · intro hle
      exact_mod_cast hcovers.trans (Nat.mul_le_mul_right _ hle)
    · intro hle
      exact hleast (by exact_mod_cast hle)

theorem add_pred_div {n r : ℕ} (hr : 0 < r) :
    (n + r - 1) / r = if 0 < n % r then n / r + 1 else n / r := by
  have hdiv := Nat.div_add_mod n r
  have hmod := Nat.mod_lt n hr
  generalize n / r = q at *
  generalize n % r = m at *
  split
  · have hsplit : n + r - 1 = r * (q + 1) + (m - 1) := by
      rw [Nat.mul_succ]
      omega
    rw [hsplit, Nat.mul_add_div hr, Nat.div_eq_of_lt (by omega), Nat.add_zero]
  · have hsplit : n + r - 1 = r * q + (r - 1) := by omega
    rw [hsplit, Nat.mul_add_div hr, Nat.div_eq_of_lt (by omega), Nat.add_zero]

/-- **The number of rows is computed in range.** -/
theorem rowCount?_eq (p : Preamble) : rowCount? p = some p.rowCount := by
  have hsamples : p.sampleCount.toNat < 2 ^ 64 := p.sampleCount.toNat_lt
  have hrows := rowCount_le p
  rw [Preamble.rowCount] at hrows ⊢
  rw [rowCount?]
  split
  · rfl
  · next hrate =>
    rw [if_neg hrate] at hrows
    have hpos : 0 < p.sampleRate.toNat :=
      Nat.pos_of_ne_zero fun hzero => hrate (UInt32.toNat_inj.mp hzero)
    rw [add_pred_div hpos] at hrows ⊢
    split
    · next hrest =>
      rw [if_pos hrest] at hrows
      exact sum?_eq_some (hrows.trans_lt hsamples)
    · rfl

/-! ## The whole log -/

/-- What going to the end of a log comes to. -/
def ending (fault : Option Fault) (count : ℕ) : Except LogError ℕ :=
  match fault with
  | some fault => .error (.unreadable fault)
  | none => .ok count

theorem finishChecked_cons (fault : Option Fault) (line : Line) (lines : List Line) {count : ℕ}
    (hcount : count + 1 < 2 ^ 64) :
    finishChecked fault (line :: lines) count = (do
      Checked.ask
      finishChecked fault lines (count + if line.isRemarkable then 1 else 0)) := by
  have hsum : sum? count 1 = some (count + 1) := sum?_eq_some hcount
  rw [finishChecked]
  cases line.isRemarkable with
  | true =>
    rw [if_pos rfl, if_pos rfl, hsum]
    rfl
  | false => rfl

/-- The remaining lines are counted in range. -/
theorem finishChecked_gives (fault : Option Fault) (lines : List Line) (count : ℕ)
    (hcount : count + lines.length < 2 ^ 64) (n : ℕ) :
    (finishChecked fault lines count).Gives n
      (ending fault (count + lines.countP Line.isRemarkable)) (n + (lines.length + 1)) := by
  induction lines generalizing count n with
  | nil => cases fault <;> rfl
  | cons line lines ih =>
    rw [List.length_cons] at hcount
    have hplace : n + (lines.length + 1 + 1) = n + 1 + (lines.length + 1) := by omega
    rw [finishChecked_cons fault line lines (by omega), List.countP_cons,
      Nat.add_comm (lines.countP _), ← Nat.add_assoc, List.length_cons, hplace]
    have hcount' : count + (if line.isRemarkable then 1 else 0) + lines.length < 2 ^ 64 := by
      split <;> omega
    exact (Checked.gives_ask n).bind (ih _ hcount' (n + 1))

theorem finishChecked_eq {c : Cursor} (hc : c.rest.lines.length < 2 ^ 64) (n : ℕ) :
    (finishChecked c.rest.fault c.rest.lines 0).Gives n c.finish
      (n + (c.rest.lines.length + 1)) := by
  have hgives := finishChecked_gives c.rest.fault c.rest.lines 0 (by omega) n
  rw [Nat.zero_add] at hgives
  exact hgives

theorem run_bodyPlan (window : ℕ) (p : Preamble) (c : Cursor) :
    (bodyPlan window p).run c = (do
      let (events, c) ← c.takeMany .events (fun _ => eventRule p.startTime) p.eventCount.toNat 0
      let ((), c) ← c.take .events blankRule
      let (readings, c) ← c.takeMany .samples (readingRule window p.readingInterval) p.rowCount 0
      return (⟨p, events, readings⟩, c)) := by
  simp only [bodyPlan, Plan.run_bind, Plan.run_line, Plan.takeMany_eq]
  rfl

/-- **Preamble, events and rows are read in range.** -/
theorem agrees_takeSession {total : ℕ} (htotal : total + 1 < 2 ^ 64) (window : ℕ) {c : Cursor}
    (hc : c.IsIn total) :
    Agrees total c (c.takeSessionChecked window) ((logPlan window).run c) := by
  rw [logPlan, Plan.run_bind, Cursor.takeSessionChecked]
  refine (agrees_run htotal preamblePlan hc).bind fun p c hc => ?_
  have hevents : p.eventCount.toNat < 2 ^ 64 := p.eventCount.toNat_lt
  have hrows : p.rowCount < 2 ^ 64 := (rowCount_le p).trans_lt p.sampleCount.toNat_lt
  simp only [run_bodyPlan, rowCount?_eq]
  refine (agrees_takeMany htotal .events (by omega) (fun i hi line => rfl) hc).bind
    fun events c hc => ?_
  refine (agrees_take htotal hc .events fun line => rfl).bind fun _ c hc => ?_
  refine (agrees_takeMany htotal .samples (by omega) (fun i hi line => ?_) hc).bind
    fun readings c hc => ?_
  · exact readingRuleChecked_eq window p.readingInterval (by omega) line
  · exact .pure hc _

/-- **No operation on numbers leaves its range.** The number of rows is the exact quotient rounded
up, at most the number of samples. For every log of fewer than 2⁶⁴ - 1 lines and every window, the
checked run ends with the result of the parser, after it asked for at most one line more than the
log has. -/
theorem arithmetic_in_range :
    (∀ p : Preamble, p.rowCount = ⌈(p.sampleCount.toNat : ℚ) / p.sampleRate.toNat⌉₊ ∧
      (p.sampleRate = 0 → p.rowCount = 0) ∧ p.rowCount ≤ p.sampleCount.toNat ∧
      rowCount? p = some p.rowCount) ∧
    ∀ (window : ℕ) (source : Source), source.lines.length < 2 ^ 64 - 1 →
      ∃ asked ≤ source.lines.length + 1,
        (parseChecked window source).Gives 0 (parse window source).result asked := by
  refine ⟨fun p => ⟨rowCount_eq_ceil p, fun hrate => if_pos hrate, rowCount_le p, rowCount?_eq p⟩, ?_⟩
  intro window source hlines
  rcases Nat.eq_zero_or_pos window with rfl | hw
  · exact ⟨0, Nat.zero_le _, Checked.gives_throw .emptyWindow 0⟩
  · have hstart : Cursor.IsIn ⟨0, source⟩ source.lines.length := Nat.zero_add _
    have hagrees := agrees_takeSession (by omega) window hstart
    rw [parse_result_eq hw, parseChecked, if_neg hw.ne']
    generalize (logPlan window).run ⟨0, source⟩ = r at hagrees
    cases hagrees with
    | @ok session c h hc =>
      have hcount : c.consumed + c.rest.lines.length = source.lines.length := hc
      have hfinish := finishChecked_eq (c := c) (by omega) c.consumed
      have hresult : ((Except.ok (session, c) : Except LogError (Session × Cursor)) >>=
          fun sc => sc.2.finish >>= fun _ => pure sc.1) = c.finish >>= fun _ => pure session := rfl
      refine ⟨c.consumed + (c.rest.lines.length + 1), by omega, h.bind ?_⟩
      rw [hresult]
      generalize c.finish = ending at hfinish
      cases ending with
      | ok count => exact hfinish.bind (Checked.gives_pure session _)
      | error e => exact hfinish.bind_error _
    | @error e asked h hle => exact ⟨asked, hle, h.bind_error _⟩

/-- A preamble that announces the greatest number of events, and nothing after it. -/
theorem arithmetic_in_range_allEvents :
    let lines : List Line := [.text ['a'], .text [':', '0'], .text [':'], .text [':', '1'],
      .text [':', '1'], .text ":18446744073709551615".toList, .text [':', '1'], .text []]
    ∃ asked ≤ 9, (parseChecked 6 ⟨lines, none⟩).Gives 0 (.error (.misfit 9 .events .endOfInput)) asked := by
  intro lines
  have hresult : (parse 6 ⟨lines, none⟩).result = .error (.misfit 9 .events .endOfInput) := rfl
  have hlines : (⟨lines, none⟩ : Source).lines.length < 2 ^ 64 - 1 := by decide
  have hrun := arithmetic_in_range.2 6 ⟨lines, none⟩ hlines
  rwa [hresult] at hrun

end PowerCurve.SessionLog
