import Mathlib.Order.Bounds.Basic
import PowerCurve.Proofs.SessionLog.Lines
import PowerCurve.Proofs.SessionLog.Plan
import PowerCurve.Proofs.SessionLog.Rules
import PowerCurve.Proofs.Text.Utf8

/-!
# The grammar of logs

`IsLog` says which lines are the log of which session. It speaks of the lines by their places, with
no order in which they are read, and of what is on a line without the functions that read it; lines
after the last row do not occur in it. The parser accepts exactly these logs and gives exactly these
sessions (`parse_eq_ok_iff`).
-/

namespace PowerCurve.SessionLog

open PowerCurve.Text PowerCurve.Decimal

/-! ## Logs -/

/-- There is such a line, it is UTF-8, and its text has the property. -/
def HasText (line : Option Bytes) (P : List Char → Prop) : Prop :=
  ∃ text, line = some (Utf8.encode text) ∧ P text

/-- The eight lines of a preamble. Lines are counted from zero. -/
structure IsPreamble (lines : List Bytes) (p : Preamble) : Prop where
  description : HasText lines[0]? fun line => line = p.description.toList
  startTime : HasText lines[1]? fun line => IsField line fun text => IsReal text p.startTime
  channels : HasText lines[2]? fun line => IsField line fun text => text = p.channels.toList
  sampleRate : HasText lines[3]? fun line =>
    IsField line fun text => IsNatural UInt32.size text p.sampleRate.toNat
  sampleRate_pos : 0 < p.sampleRate.toNat
  samplesPerSecond : HasText lines[4]? fun line =>
    IsField line fun text => IsNatural UInt32.size text p.samplesPerSecond.toNat
  samplesPerSecond_pos : 0 < p.samplesPerSecond.toNat
  eventCount : HasText lines[5]? fun line =>
    IsField line fun text => IsNatural UInt64.size text p.eventCount.toNat
  sampleCount : HasText lines[6]? fun line =>
    IsField line fun text => IsNatural UInt64.size text p.sampleCount.toNat
  blank : HasText lines[7]? IsBlankLine

/-- The lines of a log and the session that they record. The events start at line 8, and the rows
after the blank line that follows them; there are just enough rows to cover all the samples. -/
structure IsLog (window : Nat) (lines : List Bytes) (s : Session) : Prop where
  preamble : IsPreamble lines s.preamble
  events_length : s.events.length = s.preamble.eventCount.toNat
  events : ∀ i (h : i < s.events.length),
    HasText lines[8 + i]? fun line => IsEvent s.preamble.startTime line s.events[i]
  blank : HasText lines[8 + s.events.length]? IsBlankLine
  readings_length :
    IsLeast {m | s.preamble.sampleCount.toNat ≤ m * s.preamble.sampleRate.toNat} s.readings.length
  readings : ∀ i (h : i < s.readings.length),
    (HasText lines[9 + s.events.length + i]? fun line => IsRow window line s.readings[i].power) ∧
    s.readings[i].time = s.preamble.sampleRate.toFloat / s.preamble.samplesPerSecond.toFloat *
      (UInt64.ofNat (i + 1)).toFloat

/-! ## Plans and places -/

namespace Plan

variable {α β : Type} {lines : List Line}

/-- From line `k` on the lines are what the plan wants, and they say `a`. -/
def SaysAt (lines : List Line) : Plan α → (k : Nat) → (a : α) → Prop
  | .done b, _, a => b = a
  | .line _ rule next, k, a =>
    ∃ text b, lines[k]? = some (.text text) ∧ rule text = .ok b ∧ SaysAt lines (next b) (k + 1) a

theorem saysAt_done {b a : α} {k : Nat} : (Plan.done b).SaysAt lines k a ↔ b = a := .rfl

theorem saysAt_line {part : Part} {rule : Rule β} {next : β → Plan α} {k : Nat} {a : α} :
    (Plan.line part rule next).SaysAt lines k a ↔
      ∃ text b, lines[k]? = some (.text text) ∧ rule text = .ok b ∧
        (next b).SaysAt lines (k + 1) a := .rfl

theorem saysAt_iff {plan : Plan α} {k : Nat} {a : α} :
    plan.SaysAt lines k a ↔
      ∃ used rest, lines.drop k = used ++ rest ∧ plan.Reads used (.value a) := by
  induction plan generalizing k with
  | done b =>
    constructor
    · rintro rfl
      exact ⟨[], lines.drop k, rfl, .done b⟩
    · intro h
      rcases h with ⟨used, rest, hdrop, hreads⟩
      cases hreads
      exact rfl
  | line part rule next ih =>
    simp only [saysAt_line, ih]
    constructor
    · intro h
      rcases h with ⟨text, b, hline, hrule, used, rest, hdrop, hreads⟩
      refine ⟨.text text :: used, rest, ?_, .line hrule hreads⟩
      rcases List.getElem?_eq_some_iff.mp hline with ⟨hk, hget⟩
      rw [List.drop_eq_getElem_cons hk, hget, hdrop, List.cons_append]
    · intro h
      rcases h with ⟨used, rest, hdrop, hreads⟩
      cases hreads with
      | @line _ _ _ _ text b used' _ hrule hnext =>
        refine ⟨text, b, ?_, hrule, used', rest, ?_, hnext⟩
        · rw [← List.head?_drop, hdrop]
          rfl
        · rw [← List.tail_drop, hdrop]
          rfl

theorem bind_bind {γ : Type} (plan : Plan γ) (f : γ → Plan β) (g : β → Plan α) :
    (plan.bind f).bind g = plan.bind fun c => (f c).bind g := by
  induction plan with
  | done c => rfl
  | line part rule next ih =>
    simp only [bind, ih]

/-- The lines of a repeated rule follow each other. -/
theorem saysAt_many_bind {part : Part} {rule : Nat → Rule β} {count index k : Nat}
    {f : List β → Plan α} {a : α} :
    ((many part rule count index).bind f).SaysAt lines k a ↔
      ∃ bs : List β, bs.length = count ∧
        (∀ i (h : i < bs.length), ∃ text, lines[k + i]? = some (.text text) ∧
          rule (index + i) text = .ok bs[i]) ∧
        (f bs).SaysAt lines (k + count) a := by
  induction count generalizing index k f with
  | zero =>
    constructor
    · intro h
      exact ⟨[], rfl, nofun, h⟩
    · rintro ⟨bs, hlen, -, h⟩
      obtain rfl := List.length_eq_zero_iff.mp hlen
      exact h
  | succ count ih =>
    -- the lines after the first one are counted from the next place and index
    have hshift : ∀ n i, n + 1 + i = n + (i + 1) := by
      intro n i
      omega
    simp only [many, bind, saysAt_line, bind_bind, ih, hshift]
    constructor
    · rintro ⟨text, b, hline, hrule, bs, hlen, hbs, h⟩
      refine ⟨b :: bs, by rw [List.length_cons, hlen], ?_, h⟩
      rintro (_ | i) hi
      · exact ⟨text, hline, hrule⟩
      · exact hbs i (Nat.lt_of_succ_lt_succ hi)
    · rintro ⟨_ | ⟨b, bs⟩, hlen, hbs, h⟩
      · cases hlen
      · rcases hbs 0 (Nat.succ_pos _) with ⟨text, hline, hrule⟩
        refine ⟨text, b, hline, hrule, bs, Nat.succ.inj hlen, ?_, h⟩
        intro i hi
        exact hbs (i + 1) (Nat.succ_lt_succ hi)

end Plan

/-! ## The parser accepts exactly the logs -/

theorem getElem?_map_ofBytes {lines : List Bytes} {k : Nat} {text : List Char} :
    (lines.map Line.ofBytes)[k]? = some (.text text) ↔ lines[k]? = some (Utf8.encode text) := by
  have hline : ∀ bytes, Line.ofBytes bytes = .text text ↔ bytes = Utf8.encode text := by
    intro bytes
    rw [← Utf8.decode?_eq_some_iff, Line.ofBytes]
    cases Utf8.decode? bytes <;> simp
  simp only [List.getElem?_map, Option.map_eq_some_iff, hline]
  constructor
  · rintro ⟨bytes, h, rfl⟩
    exact h
  · intro h
    exact ⟨_, h, rfl⟩

/-- The number of rows is the least that covers all the samples. -/
theorem isLeast_rowCount {p : Preamble} (h : 0 < p.sampleRate.toNat) :
    IsLeast {m | p.sampleCount.toNat ≤ m * p.sampleRate.toNat} p.rowCount := by
  have hne : p.sampleRate ≠ 0 := by
    rintro heq
    rw [heq] at h
    exact absurd h (by decide)
  have hle : ∀ m, p.rowCount ≤ m ↔ p.sampleCount.toNat ≤ m * p.sampleRate.toNat := by
    intro m
    rw [Preamble.rowCount, if_neg hne, Nat.div_le_iff_le_mul_add_pred h, Nat.mul_comm m]
    omega
  exact ⟨(hle _).mp (Nat.le_refl _), fun m hm => (hle m).mpr hm⟩

/-- There are no rows exactly if there are no samples. -/
theorem rowCount_eq_zero_iff {p : Preamble} (h : 0 < p.sampleRate.toNat) :
    p.rowCount = 0 ↔ p.sampleCount.toNat = 0 := by
  rcases isLeast_rowCount h with ⟨hcovers, hleast⟩
  constructor
  · intro hrows
    rw [Set.mem_ofPred_eq, hrows, Nat.zero_mul] at hcovers
    exact Nat.le_zero.mp hcovers
  · intro hsamples
    have hzero : p.sampleCount.toNat ≤ 0 * p.sampleRate.toNat := by rw [hsamples, Nat.zero_mul]
    exact Nat.le_zero.mp (hleast hzero)

/-- There are not more rows than samples. -/
theorem rowCount_le (p : Preamble) : p.rowCount ≤ p.sampleCount.toNat := by
  rcases Nat.eq_zero_or_pos p.sampleRate.toNat with hzero | hpos
  · have hrate : p.sampleRate = 0 := UInt32.toNat_inj.mp hzero
    rw [Preamble.rowCount, if_pos hrate]
    exact Nat.zero_le _
  · exact (isLeast_rowCount hpos).2 (Nat.le_mul_of_pos_right _ hpos)

/-- The result without a fault is what the plan says from the first line on. -/
theorem parse_eq_ok_iff_saysAt {window : Nat} (hw : 0 < window) {lines : List Line} {s : Session} :
    (parse window ⟨lines, none⟩).result = .ok s ↔ (logPlan window).SaysAt lines 0 s := by
  rw [Plan.saysAt_iff, List.drop_zero]
  constructor
  · intro h
    rcases exists_parse_eq_verdict hw lines with ⟨used, rest, outcome, rfl, hreads, hrest, hparse⟩
    rw [hparse] at h
    cases outcome <;> cases h
    exact ⟨used, rest, rfl, hreads⟩
  · intro h
    rcases h with ⟨used, rest, rfl, hreads⟩
    exact parse_eq_verdict hw hreads none nofun

/-- The series of a session are as long as its preamble says. -/
theorem lengths_of_parse {window : Nat} (hw : 0 < window) {lines : List Line} {s : Session}
    (h : (parse window ⟨lines, none⟩).result = .ok s) :
    0 < s.preamble.sampleRate.toNat ∧ s.events.length = s.preamble.eventCount.toNat ∧
      s.readings.length = s.preamble.rowCount := by
  rw [parse_eq_ok_iff_saysAt hw] at h
  simp only [logPlan, preamblePlan, bodyPlan, Plan.bind, Plan.saysAt_line, Plan.saysAt_many_bind,
    Plan.saysAt_done, rateRule_eq_ok_iff] at h
  -- of the eight lines of the preamble only that of the sample rate matters here
  rcases h with ⟨_, _, -, -, _, _, -, -, _, _, -, -, _, _, -, ⟨-, hrate⟩, _, _, -, -, _, _, -, -,
    _, _, -, -, _, _, -, -, events, hevents, -, _, _, -, -, readings, hreadings, -, rfl⟩
  exact ⟨hrate, hevents, hreadings⟩

theorem saysAt_line_ofBytes {α β : Type} {lines : List Bytes} {part : Part} {rule : Rule β}
    {next : β → Plan α} {k : Nat} {a : α} :
    (Plan.line part rule next).SaysAt (lines.map Line.ofBytes) k a ↔
      ∃ b, (HasText lines[k]? fun text => rule text = .ok b) ∧
        (next b).SaysAt (lines.map Line.ofBytes) (k + 1) a := by
  simp only [Plan.saysAt_line, getElem?_map_ofBytes, HasText]
  constructor
  · intro h
    rcases h with ⟨text, b, hline, hrule, hnext⟩
    exact ⟨b, ⟨text, hline, hrule⟩, hnext⟩
  · intro h
    rcases h with ⟨b, ⟨text, hline, hrule⟩, hnext⟩
    exact ⟨text, b, hline, hrule, hnext⟩

theorem hasText_and {line : Option Bytes} {P : List Char → Prop} {q : Prop} :
    (HasText line fun text => P text ∧ q) ↔ HasText line P ∧ q := by
  constructor
  · intro h
    rcases h with ⟨text, hline, hP, hq⟩
    exact ⟨⟨text, hline, hP⟩, hq⟩
  · intro h
    rcases h with ⟨⟨text, hline, hP⟩, hq⟩
    exact ⟨text, hline, hP, hq⟩

/-- The plan of the preamble takes the first eight lines. -/
theorem saysAt_preamblePlan_bind {α : Type} {lines : List Bytes} {f : Preamble → Plan α} {a : α} :
    (preamblePlan.bind f).SaysAt (lines.map Line.ofBytes) 0 a ↔
      ∃ p, IsPreamble lines p ∧ (f p).SaysAt (lines.map Line.ofBytes) 8 a := by
  simp only [preamblePlan, Plan.bind, saysAt_line_ofBytes, descriptionRule_eq_ok_iff,
    startRule_eq_ok_iff, channelsRule_eq_ok_iff, rateRule_eq_ok_iff, countRule_eq_ok_iff,
    blankRule_eq_ok_iff, hasText_and]
  constructor
  · intro h
    rcases h with ⟨description, hdescription, startTime, hstart, channels, hchannels, sampleRate,
      ⟨hrate, hpos⟩, samplesPerSecond, ⟨hrate', hpos'⟩, eventCount, hevents, sampleCount, hsamples,
      -, hblank, h⟩
    exact ⟨_, ⟨hdescription, hstart, hchannels, hrate, hpos, hrate', hpos', hevents, hsamples,
      hblank⟩, h⟩
  · intro h
    rcases h with ⟨p, hp, h⟩
    exact ⟨p.description, hp.description, p.startTime, hp.startTime, p.channels, hp.channels,
      p.sampleRate, ⟨hp.sampleRate, hp.sampleRate_pos⟩, p.samplesPerSecond,
      ⟨hp.samplesPerSecond, hp.samplesPerSecond_pos⟩, p.eventCount, hp.eventCount, p.sampleCount,
      hp.sampleCount, (), hp.blank, h⟩

/-- **The parser accepts exactly the logs and gives their sessions.** -/
theorem parse_eq_ok_iff {window : Nat} {bytes : Bytes} {s : Session} :
    (parse window (.ofBytes bytes)).result = .ok s ↔
      0 < window ∧ IsLog window (byteLines bytes) s := by
  rcases Nat.eq_zero_or_pos window with rfl | hw
  · constructor
    · intro h
      cases h
    · intro h
      exact absurd h.1 (Nat.lt_irrefl 0)
  rw [Source.ofBytes_eq, parse_eq_ok_iff_saysAt hw, logPlan, saysAt_preamblePlan_bind]
  -- what the plan says of the body: events, a blank line, readings, and their places
  simp only [bodyPlan, Plan.saysAt_many_bind, saysAt_line_ofBytes, Plan.saysAt_done,
    getElem?_map_ofBytes, eventRule_eq_ok_iff, blankRule_eq_ok_iff, readingRule_eq_ok_iff hw,
    Nat.zero_add]
  constructor
  · intro h
    rcases h with ⟨p, hp, events, hlen, hevents, -, hblank, readings, hrows, hreadings, rfl⟩
    have hplace : 9 + events.length = 8 + p.eventCount.toNat + 1 := by omega
    refine ⟨hw, hp, hlen, hevents, ?_, ?_, ?_⟩
    · rwa [hlen]
    · rw [hrows]
      exact isLeast_rowCount hp.sampleRate_pos
    · intro i hi
      rw [hplace]
      exact hasText_and.mp (hreadings i hi)
  · intro h
    rcases h with ⟨-, h⟩
    have hrows : s.readings.length = s.preamble.rowCount :=
      h.readings_length.unique (isLeast_rowCount h.preamble.sampleRate_pos)
    have hplace : 9 + s.events.length = 8 + s.preamble.eventCount.toNat + 1 := by
      rw [h.events_length]
      omega
    have hblank := h.blank
    rw [h.events_length] at hblank
    refine ⟨s.preamble, h.preamble, s.events, h.events_length, h.events, (), hblank, s.readings,
      hrows, ?_, rfl⟩
    intro i hi
    rw [← hplace]
    exact hasText_and.mpr (h.readings i hi)

/-- A log with one event a second after the start, and one row of seven samples, of which the last
six are summed. -/
theorem parse_eq_ok_iff_oneRow :
    let log := Utf8.encode ("power\nstart: 1e9\nchannels: A\nrate: 10\nper second: 5\n" ++
      "events: 1\nsamples: 7\n\n2e9 | go \n\n1,2,3,4,5,6,7\n").toList
    let s : Session :=
      ⟨⟨"power", 1000000000.0, "A", 10, 5, 1, 7⟩, [⟨1.0, "go"⟩], [⟨2.0, 27.0⟩]⟩
    (parse 6 (.ofBytes log)).result = .ok s ∧ 0 < 6 ∧ IsLog 6 (byteLines log) s := by
  intro log s
  have hparse : (parse 6 (.ofBytes log)).result = .ok s := by decide +kernel
  exact ⟨hparse, parse_eq_ok_iff.mp hparse⟩

end PowerCurve.SessionLog
