import PowerCurve.Proofs.Chart.Extremes
import PowerCurve.Proofs.Decimal.Exact

/-!
# The visible range

The range of the chart begins at the origin and ends beyond both extremes of the session. It always
ends beyond them, since the room that is added is not lost in rounding (`lt_add_of_one_le`), but
where it begins does not depend on them: if the latest event is long before the start, or the highest
power far below zero, nothing is left of the range, and an extreme below zero is never in it
(`Bounds.range_shows`).
-/

namespace PowerCurve

open PowerCurve.Decimal

/-- There is something inside the rectangle. -/
structure Range.IsProper (r : Range) : Prop where
  left_lt_right : r.low.1 < r.high.1
  bottom_lt_top : r.low.2 < r.high.2

/-- The point is in the rectangle, perhaps on its edge. -/
structure Range.Contains (r : Range) (point : Float × Float) : Prop where
  left_le : r.low.1 ≤ point.1
  le_right : point.1 ≤ r.high.1
  bottom_le : r.low.2 ≤ point.2
  le_top : point.2 ≤ r.high.2

/-- A number between -2⁵² and 2⁵². The last place of such a number is not above one. -/
structure IsModerate (x : Float) : Prop where
  low : -4503599627370496.0 ≤ x
  high : x ≤ 4503599627370496.0

/-! ## One axis -/

variable {x : Float}

theorem toRat_limit : toRat 4503599627370496.0 = 2 ^ 52 := by
  have hunpack : toRat 4503599627370496.0 = (2 ^ 52 : ℕ) * 2 ^ (0 : ℤ) := rfl
  rw [hunpack]
  norm_num

theorem IsModerate.isFinite (h : IsModerate x) : x.isFinite = true :=
  isFinite_of_le (x := -4503599627370496.0) (z := 4503599627370496.0) rfl rfl h.low h.high

theorem IsModerate.abs_toRat_le (h : IsModerate x) : |toRat x| ≤ 2 ^ 52 := by
  have hlow := (le_iff_toRat_le (x := -4503599627370496.0) rfl h.isFinite).mp h.low
  have hhigh := (le_iff_toRat_le (y := 4503599627370496.0) h.isFinite rfl).mp h.high
  rw [(toRat_neg rfl).2, toRat_limit] at hlow
  rw [toRat_limit] at hhigh
  exact abs_le.mpr ⟨hlow, hhigh⟩

/-- The room beyond an extreme. -/
structure IsPadding (room : Float) : Prop where
  isFinite : room.isFinite = true
  one_le : 1 ≤ toRat room

theorem isPadding_timePadding : IsPadding timePadding where
  isFinite := rfl
  one_le := by
    have hvalue : toRat timePadding = (2 ^ 52 : ℕ) * 2 ^ (-52 : ℤ) := rfl
    rw [hvalue]
    norm_num

theorem isPadding_powerPadding : IsPadding powerPadding where
  isFinite := rfl
  one_le := by
    have hvalue : toRat powerPadding = (10 * 2 ^ 49 : ℕ) * 2 ^ (-49 : ℤ) := rfl
    rw [hvalue]
    norm_num

/-- Something is left of an axis unless the room does not reach back to zero. -/
theorem IsPadding.zero_lt_add_iff {room : Float} (h : IsPadding room) (hx : IsModerate x) :
    0.0 < x + room ↔ -room < x := by
  rcases toRat_neg h.isFinite with ⟨hneg, hvalue⟩
  rw [add_pos_iff hx.isFinite h.isFinite, lt_iff_toRat_lt hneg hx.isFinite, hvalue,
    neg_lt_iff_pos_add]

/-- An axis ends beyond the extreme. -/
theorem IsPadding.lt_add {room : Float} (h : IsPadding room) (hx : IsModerate x) : x < x + room :=
  lt_add_of_one_le hx.isFinite h.isFinite hx.abs_toRat_le h.one_le

/-! ## Both axes -/

theorem Bounds.isGreatestNumber_of_ofSession {s : Session} {b : Bounds}
    (h : Bounds.ofSession s = .ok b) :
    IsGreatestNumber (s.events.map Event.time) b.latestEvent ∧
      IsGreatestNumber (s.readings.map Reading.power) b.highestReading := by
  have hevents : s.events ≠ [] := by
    intro hnone
    rw [ofSession_of_noEvents hnone] at h
    cases h
  have hreadings : s.readings ≠ [] := by
    intro hnone
    rw [ofSession_of_noReadings hevents hnone] at h
    cases h
  rcases exists_ofSession hevents hreadings with ⟨b', hb', hlatest, hhighest, -⟩
  obtain rfl := Except.ok.inj (h.symm.trans hb')
  exact ⟨hlatest, hhighest⟩

/-- **What the visible range shows.** It ends beyond all events and above all readings. It is proper
exactly if the room that is added reaches beyond zero on both axes, and it shows the latest event and
the highest reading exactly if neither is below zero. -/
theorem Bounds.range_shows {s : Session} {b : Bounds} (h : Bounds.ofSession s = .ok b)
    (hx : IsModerate b.latestEvent) (hy : IsModerate b.highestReading) :
    (b.range.IsProper ↔ -timePadding < b.latestEvent ∧ -powerPadding < b.highestReading) ∧
    (b.range.Contains (b.latestEvent, b.highestReading) ↔
      0.0 ≤ b.latestEvent ∧ 0.0 ≤ b.highestReading) ∧
    (∀ e ∈ s.events, e.time.isNaN = false → e.time < b.range.high.1) ∧
    ∀ r ∈ s.readings, r.power.isNaN = false → r.power < b.range.high.2 := by
  rcases isGreatestNumber_of_ofSession h with ⟨hlatest, hhighest⟩
  have hright : b.latestEvent < b.range.high.1 := isPadding_timePadding.lt_add hx
  have htop : b.highestReading < b.range.high.2 := isPadding_powerPadding.lt_add hy
  refine ⟨?_, ?_, ?_, ?_⟩
  · rw [← isPadding_timePadding.zero_lt_add_iff hx, ← isPadding_powerPadding.zero_lt_add_iff hy]
    constructor
    · intro hproper
      exact ⟨hproper.left_lt_right, hproper.bottom_lt_top⟩
    · intro hproper
      exact ⟨hproper.1, hproper.2⟩
  · constructor
    · intro hcontains
      exact ⟨hcontains.left_le, hcontains.bottom_le⟩
    · intro hcontains
      exact ⟨hcontains.1, float_le_of_lt (isNaN_of_isFinite hx.isFinite) hright, hcontains.2,
        float_le_of_lt (isNaN_of_isFinite hy.isFinite) htop⟩
  · intro e he hnumber
    exact float_lt_of_le_of_lt (hlatest.le e.time (List.mem_map_of_mem he) hnumber) hright
  · intro r hr hnumber
    exact float_lt_of_le_of_lt (hhighest.le r.power (List.mem_map_of_mem hr) hnumber) htop

/-- Two events, both before the start: the range ends before it begins. -/
theorem Bounds.range_shows_beforeStart :
    let s : Session := ⟨default, [⟨-3.0, "e"⟩, ⟨-1.5, "e"⟩], [⟨0.1, 2.0⟩]⟩
    ∃ b, ofSession s = .ok b ∧ ¬ b.range.IsProper ∧ (-3.0 : Float) < b.range.high.1 := by
  intro s
  have hb : ofSession s = .ok ⟨-1.5, 2.0⟩ := rfl
  have hx : IsModerate (-1.5) := ⟨by decide, by decide⟩
  have hy : IsModerate 2.0 := ⟨by decide, by decide⟩
  rcases range_shows hb hx hy with ⟨hproper, -, hevents, -⟩
  refine ⟨_, hb, ?_, hevents ⟨-3.0, "e"⟩ List.mem_cons_self rfl⟩
  rw [hproper, not_and_or]
  exact .inl (by decide)

/-- **The extremes are not always shown.** -/
theorem Bounds.range_misses_extremes :
    let s : Session := ⟨default, [⟨-3.0, "e"⟩], [⟨0.1, 2.0⟩]⟩
    ∃ b, ofSession s = .ok b ∧ IsModerate b.latestEvent ∧ IsModerate b.highestReading ∧
      ¬ b.range.IsProper ∧ ¬ b.range.Contains (b.latestEvent, b.highestReading) := by
  refine ⟨⟨-3.0, 2.0⟩, rfl, ⟨by decide, by decide⟩, ⟨by decide, by decide⟩, ?_, ?_⟩
  · intro hproper
    have hlt : (0.0 : Float) < -3.0 + timePadding := hproper.left_lt_right
    exact absurd hlt (by decide)
  · intro hcontains
    have hle : (0.0 : Float) ≤ -3.0 := hcontains.left_le
    exact absurd hle (by decide)

end PowerCurve
