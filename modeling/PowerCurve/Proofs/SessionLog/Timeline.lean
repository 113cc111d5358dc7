import PowerCurve.Proofs.Decimal.Exact
import PowerCurve.Proofs.SessionLog.Grammar

/-!
# The times of the readings

The time of a reading is the interval of one reading times the number of readings up to it, and the
interval is a quotient of two rates. None of these is zero in a log that is accepted, and none is so
large or so small that it is lost in rounding: rates are below 2³², numbers of readings below 2⁶⁴. So
all times are finite and positive, and since rounding keeps the order, they do not fall
(`times_run_forward`).
-/

namespace PowerCurve.SessionLog

open PowerCurve.Decimal

/-! ## Intervals and times -/

/-- A rate that is not zero. -/
theorem toRat_rate {n : UInt32} (hn : 0 < n.toNat) :
    n.toFloat.isFinite = true ∧ 2 ^ (0 : ℤ) ≤ toRat n.toFloat ∧ toRat n.toFloat ≤ 2 ^ (32 : ℤ) := by
  refine (roundsTo_uInt32 n).between_two_zpow (by decide) (by decide) ?_ ?_
  · rw [zpow_zero]
    exact Nat.one_le_cast.mpr hn
  · have hlt : n.toNat ≤ 2 ^ 32 := n.toNat_lt.le
    exact_mod_cast hlt

/-- The number of readings up to one of them is rounded to a number that is not zero. -/
theorem roundsTo_count {i : ℕ} (hi : i + 1 < 2 ^ 64) :
    RoundsTo (i + 1 : ℕ) (UInt64.ofNat (i + 1)).toFloat := by
  have hcount := roundsTo_uInt64 (UInt64.ofNat (i + 1))
  rwa [UInt64.toNat_ofNat_of_lt' hi] at hcount

theorem toRat_count {i : ℕ} (hi : i + 1 < 2 ^ 64) :
    (UInt64.ofNat (i + 1)).toFloat.isFinite = true ∧
      2 ^ (0 : ℤ) ≤ toRat (UInt64.ofNat (i + 1)).toFloat ∧
      toRat (UInt64.ofNat (i + 1)).toFloat ≤ 2 ^ (64 : ℤ) := by
  refine (roundsTo_count hi).between_two_zpow (by decide) (by decide) ?_ ?_
  · rw [zpow_zero]
    exact Nat.one_le_cast.mpr (Nat.succ_pos i)
  · exact_mod_cast hi.le

/-- A number that can be the quotient of two rates. -/
structure IsInterval (interval : Float) : Prop where
  isFinite : interval.isFinite = true
  low : 2 ^ (-32 : ℤ) ≤ toRat interval
  high : toRat interval ≤ 2 ^ (32 : ℤ)

variable {interval : Float}

theorem IsInterval.toRat_pos (h : IsInterval interval) : 0 < toRat interval :=
  (zpow_pos two_pos _).trans_le h.low

theorem isInterval_readingInterval {p : Preamble} (hrate : 0 < p.sampleRate.toNat)
    (hrate' : 0 < p.samplesPerSecond.toNat) : IsInterval p.readingInterval := by
  rcases toRat_rate hrate with ⟨hfinite, hlow, hhigh⟩
  rcases toRat_rate hrate' with ⟨hfinite', hlow', hhigh'⟩
  have hpos : 0 < toRat p.samplesPerSecond.toFloat := (zpow_pos two_pos _).trans_le hlow'
  have hbounds := (roundsTo_div hfinite hfinite' hpos.ne').between_two_zpow (j := -32) (k := 32)
    (by decide) (by decide) ?_ ?_
  · exact ⟨hbounds.1, hbounds.2.1, hbounds.2.2⟩
  · rw [le_div_iff₀ hpos]
    calc (2 : ℚ) ^ (-32 : ℤ) * toRat p.samplesPerSecond.toFloat
        ≤ 2 ^ (-32 : ℤ) * 2 ^ (32 : ℤ) := mul_le_mul_of_nonneg_left hhigh' (zpow_pos two_pos _).le
      _ = 2 ^ (0 : ℤ) := (zpow_add₀ two_ne_zero _ _).symm
      _ ≤ toRat p.sampleRate.toFloat := hlow
  · rw [div_le_iff₀ hpos]
    calc toRat p.sampleRate.toFloat ≤ 2 ^ (32 : ℤ) * 2 ^ (0 : ℤ) := by rwa [zpow_zero, mul_one]
      _ ≤ 2 ^ (32 : ℤ) * toRat p.samplesPerSecond.toFloat :=
        mul_le_mul_of_nonneg_left hlow' (zpow_pos two_pos _).le

/-- **The time of a reading is finite and positive.** -/
theorem readingTime_pos (h : IsInterval interval) {i : ℕ} (hi : i + 1 < 2 ^ 64) :
    (readingTime interval i).isFinite = true ∧ 0.0 < readingTime interval i := by
  rcases toRat_count hi with ⟨hfinite, hlow, hhigh⟩
  have hpos : 0 < toRat (UInt64.ofNat (i + 1)).toFloat := (zpow_pos two_pos _).trans_le hlow
  have hbounds := (roundsTo_mul h.isFinite hfinite).between_two_zpow (j := -32) (k := 96)
    (by decide) (by decide) ?_ ?_
  · have hpos' : toRat 0.0 < toRat (interval * (UInt64.ofNat (i + 1)).toFloat) :=
      toRat_zero.trans_lt ((zpow_pos two_pos _).trans_le hbounds.2.1)
    exact ⟨hbounds.1, (lt_iff_toRat_lt (x := 0.0) rfl hbounds.1).mpr hpos'⟩
  · rw [zpow_zero] at hlow
    exact h.low.trans (le_mul_of_one_le_right h.toRat_pos.le hlow)
  · calc toRat interval * toRat (UInt64.ofNat (i + 1)).toFloat
        ≤ 2 ^ (32 : ℤ) * 2 ^ (64 : ℤ) := mul_le_mul h.high hhigh hpos.le (zpow_pos two_pos _).le
      _ = 2 ^ (96 : ℤ) := (zpow_add₀ two_ne_zero _ _).symm

/-- **Later readings are not earlier.** -/
theorem readingTime_le (h : IsInterval interval) {i j : ℕ} (hij : i ≤ j) (hj : j + 1 < 2 ^ 64) :
    readingTime interval i ≤ readingTime interval j := by
  have hi : i + 1 < 2 ^ 64 := by omega
  have hfinite := (toRat_count hi).1
  have hfinite' := (toRat_count hj).1
  have hcount : (UInt64.ofNat (i + 1)).toFloat ≤ (UInt64.ofNat (j + 1)).toFloat :=
    (roundsTo_count hi).le (roundsTo_count hj) (Nat.cast_le.mpr (Nat.succ_le_succ hij))
  refine (roundsTo_mul h.isFinite hfinite).le (roundsTo_mul h.isFinite hfinite') ?_
  exact mul_le_mul_of_nonneg_left ((le_iff_toRat_le hfinite hfinite').mp hcount) h.toRat_pos.le

/-! ## Accepted logs -/

/-- A log that cannot be read to its end is not accepted. -/
theorem fault_eq_none_of_parse {window : ℕ} {source : Source} {s : Session}
    (h : (parse window source).result = .ok s) : 0 < window ∧ source.fault = none := by
  rcases Nat.eq_zero_or_pos window with rfl | hw
  · cases h
  · refine ⟨hw, ?_⟩
    rcases exists_parse_eq_verdict hw source.lines with ⟨used, rest, outcome, -, -, -, hparse⟩
    rw [hparse source.fault] at h
    cases hfault : source.fault with
    | none => rfl
    | some fault =>
      rw [hfault] at h
      cases outcome <;> cases h

/-- What the parser has checked of the preamble when it accepts a log, and the times of the
readings. -/
theorem times_of_parse {window : ℕ} {source : Source} {s : Session}
    (h : (parse window source).result = .ok s) :
    0 < s.preamble.sampleRate.toNat ∧ 0 < s.preamble.samplesPerSecond.toNat ∧
      s.readings.length = s.preamble.rowCount ∧
      ∀ i (hi : i < s.readings.length),
        s.readings[i].time = readingTime s.preamble.readingInterval i := by
  rcases fault_eq_none_of_parse h with ⟨hw, hfault⟩
  rcases source with ⟨lines, fault⟩
  obtain rfl : fault = none := hfault
  rw [parse_eq_ok_iff_saysAt hw] at h
  simp only [logPlan, preamblePlan, bodyPlan, Plan.bind, Plan.saysAt_line, Plan.saysAt_many_bind,
    Plan.saysAt_done, rateRule_eq_ok_iff, readingRule_eq_ok_iff hw, Nat.zero_add] at h
  -- of the lines of the preamble only those of the two rates matter here
  rcases h with ⟨_, _, -, -, _, _, -, -, _, _, -, -, _, _, -, ⟨-, hrate⟩, _, _, -, ⟨-, hrate'⟩,
    _, _, -, -, _, _, -, -, _, _, -, -, _, -, -, _, _, -, -, readings, hlength, hreadings, rfl⟩
  refine ⟨hrate, hrate', hlength, fun i hi => ?_⟩
  rcases hreadings i hi with ⟨_, -, -, htime⟩
  exact htime

/-- A session ends with its last reading. -/
theorem endTime_eq {s : Session} (h : 0 < s.readings.length) :
    s.endTime = s.readings[s.readings.length - 1].time := by
  have hlast : s.readings.getLast? = some s.readings[s.readings.length - 1] := by
    rw [List.getLast?_eq_getElem?]
    exact List.getElem?_eq_getElem _
  rw [Session.endTime, hlast]

/-- **The time axis of a session runs forward.** All times are finite and positive, they do not fall
in the order of the log, the end of the session is not before any of them, and it is zero exactly if
there are no readings. -/
theorem times_run_forward {window : ℕ} {source : Source} {s : Session}
    (h : (parse window source).result = .ok s) :
    (∀ r ∈ s.readings, r.time.isFinite = true ∧ 0.0 < r.time) ∧
      s.readings.Pairwise (fun r r' => r.time ≤ r'.time) ∧
      (∀ r ∈ s.readings, r.time ≤ s.endTime) ∧
      ((s.endTime == 0.0) = true ↔ s.readings = []) := by
  rcases times_of_parse h with ⟨hrate, hrate', hlength, htime⟩
  have hinterval := isInterval_readingInterval hrate hrate'
  -- the number of readings is below the limit of the number of samples
  have hcount : ∀ i < s.readings.length, i + 1 < 2 ^ 64 := by
    intro i hi
    have hrows := rowCount_le s.preamble
    have hsamples : s.preamble.sampleCount.toNat < 2 ^ 64 := s.preamble.sampleCount.toNat_lt
    omega
  have hpos : ∀ r ∈ s.readings, r.time.isFinite = true ∧ 0.0 < r.time := by
    intro r hr
    rcases List.getElem_of_mem hr with ⟨i, hi, rfl⟩
    rw [htime i hi]
    exact readingTime_pos hinterval (hcount i hi)
  have hle : ∀ i j (hi : i < s.readings.length) (hj : j < s.readings.length), i ≤ j →
      s.readings[i].time ≤ s.readings[j].time := by
    intro i j hi hj hij
    rw [htime i hi, htime j hj]
    exact readingTime_le hinterval hij (hcount j hj)
  refine ⟨hpos, ?_, ?_, ?_⟩
  · exact List.pairwise_iff_getElem.mpr fun i j hi hj hij => hle i j hi hj hij.le
  · intro r hr
    rcases List.getElem_of_mem hr with ⟨i, hi, rfl⟩
    rw [endTime_eq (Nat.zero_lt_of_lt hi)]
    exact hle i _ hi _ (Nat.le_sub_one_of_lt hi)
  · constructor
    · intro hzero
      by_contra hreadings
      have hlast := hpos _ (List.getElem_mem (Nat.sub_one_lt_of_lt (List.length_pos_iff.mpr hreadings)))
      rw [← endTime_eq (List.length_pos_iff.mpr hreadings)] at hlast
      rcases hlast with ⟨hfinite, hlt⟩
      have hnumber := isNaN_of_isFinite hfinite
      rw [beq_iff_rank_eq hnumber rfl] at hzero
      rw [lt_iff_rank_lt (x := 0.0) rfl hnumber] at hlt
      exact hlt.ne' hzero
    · intro hreadings
      rw [Session.endTime, hreadings]
      rfl

/-- A log of three readings at 20 and 30 samples per reading and second: the first two full, the last
one with one sample. -/
theorem times_run_forward_threeRows :
    let lines : List Line := [.text ['a'], .text [':', '0'], .text [':'], .text [':', '2', '0'],
      .text [':', '3', '0'], .text [':', '0'], .text [':', '4', '1'], .text [], .text [],
      .text ['5'], .text ['7'], .text ['2']]
    ∃ s, (parse 1 ⟨lines, none⟩).result = .ok s ∧ s.readings.length = 3 ∧
      s.readings.Pairwise (fun r r' => r.time ≤ r'.time) ∧
      ¬ (s.endTime == 0.0) = true := by
  intro lines
  have hs : ∃ s, (parse 1 ⟨lines, none⟩).result = .ok s ∧ s.readings.length = 3 := ⟨_, rfl, rfl⟩
  rcases hs with ⟨s, hs, hlength⟩
  rcases times_run_forward hs with ⟨-, hpairwise, -, hzero⟩
  refine ⟨s, hs, hlength, hpairwise, ?_⟩
  rw [hzero, ← List.length_eq_zero_iff, hlength]
  decide

end PowerCurve.SessionLog
