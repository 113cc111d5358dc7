import Mathlib.Order.Monotone.Basic
import PowerCurve.Proofs.Decimal.Binary
import PowerCurve.Proofs.Decimal.Shortest

/-!
# Floating-point numbers in their order

The bits of a number below its sign, read as a natural number, count the magnitudes of a width from
zero on (`Magnitude.nth`). Where the interval of one magnitude ends that of the next begins
(`Magnitude.top_nth`), and since the significands are in turn even and odd, only one of the two holds
the number between them. So nothing rounds to two magnitudes (`Magnitude.nth_unique`), and a number
that rounds to a floating-point number tells its bits (`Binary.ofBits_unique`).
-/

namespace PowerCurve.Decimal

section

variable (fractionBits : Nat) (lowest : Int)

/-- The magnitude with a given exponent field and fraction. -/
def Magnitude.ofFields (field fraction : Nat) : Magnitude :=
  if field = 0 then ⟨fraction, lowest, false⟩
  else
    ⟨2 ^ fractionBits + fraction, lowest + (field - 1), decide (fraction = 0 ∧ 1 < field)⟩

/-- The magnitudes of a width in their order. -/
def Magnitude.nth (n : Nat) : Magnitude :=
  ofFields fractionBits lowest (n / 2 ^ fractionBits) (n % 2 ^ fractionBits)

variable {fractionBits lowest}

theorem Magnitude.nth_eq_ofFields {field fraction : Nat} (hfraction : fraction < 2 ^ fractionBits) :
    nth fractionBits lowest (2 ^ fractionBits * field + fraction) =
      ofFields fractionBits lowest field fraction := by
  rw [nth, Nat.mul_add_div (Nat.two_pow_pos _), Nat.mul_add_mod, Nat.div_eq_of_lt hfraction,
    Nat.mod_eq_of_lt hfraction, Nat.add_zero]

/-! ## Neighbours -/

theorem Magnitude.ofFields_zero (fraction : Nat) :
    ofFields fractionBits lowest 0 fraction = ⟨fraction, lowest, false⟩ := rfl

theorem Magnitude.ofFields_succ (field fraction : Nat) :
    ofFields fractionBits lowest (field + 1) fraction =
      ⟨2 ^ fractionBits + fraction, lowest + field, decide (fraction = 0 ∧ 0 < field)⟩ := by
  rw [ofFields, if_neg (Nat.succ_ne_zero field), Nat.cast_succ, add_sub_cancel_right]
  simp only [Nat.lt_add_left_iff_pos]

/-- The interval of a magnitude ends where that of the next one with the same exponent begins. -/
theorem Magnitude.top_ofFields (field fraction : Nat) :
    (ofFields fractionBits lowest field fraction).top =
      (ofFields fractionBits lowest field (fraction + 1)).bottom := by
  cases field with
  | zero => rfl
  | succ field =>
    rw [ofFields_succ, ofFields_succ]
    rfl

/-- The interval of the last magnitude with an exponent ends where the first one with the next
exponent begins. -/
theorem Magnitude.top_ofFields_last {fraction : Nat} (hlast : fraction + 1 = 2 ^ fractionBits)
    (field : Nat) :
    (ofFields fractionBits lowest field fraction).top =
      (ofFields fractionBits lowest (field + 1) 0).bottom := by
  cases field with
  | zero =>
    rw [ofFields_succ, ofFields_zero, ← hlast]
    simp only [Nat.cast_zero, add_zero]
    rfl
  | succ field =>
    -- the last place of the next magnitude is twice as large
    have hquarter : (2 : ℚ) ^ (lowest + (field + 1 : Nat) - 2) = 2 ^ (lowest + field - 2) * 2 := by
      rw [← zpow_add_one₀ (by decide)]
      congr 1
      omega
    have hhalf : decide (0 = 0 ∧ 0 < field + 1) = true := decide_eq_true ⟨rfl, Nat.succ_pos field⟩
    have hlow : 4 * (fraction + 1 + 0) - 1 = 4 * fraction + 3 := by omega
    rw [ofFields_succ, ofFields_succ, ← hlast, hhalf]
    simp only [top, bottom, interval, quarter, hquarter, if_true, hlow]
    push_cast
    ring

theorem Magnitude.top_nth (n : Nat) :
    (nth fractionBits lowest n).top = (nth fractionBits lowest (n + 1)).bottom := by
  have hfraction := Nat.mod_lt n (Nat.two_pow_pos fractionBits)
  rw [← Nat.div_add_mod n (2 ^ fractionBits), nth_eq_ofFields hfraction]
  rcases Nat.lt_or_eq_of_le (Nat.succ_le_of_lt hfraction) with hnext | hlast
  · rw [top_ofFields, Nat.add_assoc, nth_eq_ofFields hnext]
  · have hnext : 2 ^ fractionBits * (n / 2 ^ fractionBits) + n % 2 ^ fractionBits + 1 =
        2 ^ fractionBits * (n / 2 ^ fractionBits + 1) + 0 := by
      rw [Nat.mul_succ, Nat.add_assoc, Nat.add_zero]
      exact congrArg _ hlast
    rw [top_ofFields_last hlast, hnext, nth_eq_ofFields (Nat.two_pow_pos _)]

theorem Magnitude.bottom_lt_top (m : Magnitude) : m.bottom < m.top := by
  have hlow : m.interval.low < m.interval.high := by
    simp only [interval]
    omega
  exact mul_lt_mul_of_pos_right (Nat.cast_lt.mpr hlow) m.quarter_pos

/-- The intervals follow one another. -/
theorem Magnitude.bottom_nth_strictMono :
    StrictMono fun n => (nth fractionBits lowest n).bottom := by
  refine strictMono_nat_of_lt_succ fun n => ?_
  rw [← top_nth]
  exact bottom_lt_top _

variable (lowest) in
/-- Even and odd significands take turns. -/
theorem Magnitude.significand_nth (hbits : 0 < fractionBits) (n : Nat) :
    (nth fractionBits lowest n).significand % 2 = n % 2 := by
  have htwo : 2 ∣ 2 ^ fractionBits := dvd_pow_self 2 hbits.ne'
  have hmod : n % 2 ^ fractionBits % 2 = n % 2 := Nat.mod_mod_of_dvd n htwo
  rw [nth, ofFields]
  split
  · exact hmod
  · rw [← hmod]
    simp only
    omega

/-! ## Rounding -/

theorem Magnitude.not_encloses_of_lt (hbits : 0 < fractionBits) {n n' : Nat} (h : n < n') {q : ℚ}
    (hq : (nth fractionBits lowest n).Encloses q) : ¬ (nth fractionBits lowest n').Encloses q := by
  intro hq'
  have hle : (nth fractionBits lowest (n + 1)).bottom ≤ (nth fractionBits lowest n').bottom :=
    bottom_nth_strictMono.monotone h
  -- there is only room for the number where the two intervals touch
  have hbottom : (nth fractionBits lowest n').bottom = (nth fractionBits lowest (n + 1)).bottom :=
    le_antisymm (hq'.bottom_le.trans (hq.le_top.trans_eq (top_nth n))) hle
  obtain rfl : n' = n + 1 := bottom_nth_strictMono.injective hbottom
  -- one of the two significands is odd
  have hparity := significand_nth lowest hbits n
  have hparity' := significand_nth lowest hbits (n + 1)
  rcases Nat.mod_two_eq_zero_or_one n with heven | hodd
  · have hlt := (hq'.inside (by omega)).1
    exact hlt.not_ge (hq.le_top.trans_eq (top_nth n))
  · have hlt := (hq.inside (by omega)).2
    exact (hlt.trans_eq (top_nth n)).not_ge hq'.bottom_le

/-- **Nothing rounds to two magnitudes of a width.** -/
theorem Magnitude.nth_unique (hbits : 0 < fractionBits) {n n' : Nat} {q : ℚ}
    (hq : (nth fractionBits lowest n).Encloses q) (hq' : (nth fractionBits lowest n').Encloses q) :
    n = n' := by
  rcases Nat.lt_trichotomy n n' with hlt | heq | hgt
  · exact absurd hq' (not_encloses_of_lt hbits hlt hq)
  · exact heq
  · exact absurd hq (not_encloses_of_lt hbits hgt hq')

end

/-! ## Bits -/

/-- A finite number consists of its sign and the place of its magnitude. -/
theorem Binary.ofBits_eq_finite {exponentBits fractionBits bits : Nat} {negative : Bool}
    {m : Magnitude} (h : ofBits exponentBits fractionBits bits = .finite negative m) :
    negative = decide (bits / 2 ^ (fractionBits + exponentBits) % 2 = 1) ∧
      m = .nth fractionBits (2 - Nat.pow 2 (exponentBits - 1) - fractionBits)
        (bits % 2 ^ (fractionBits + exponentBits)) := by
  have hfield : bits % 2 ^ (fractionBits + exponentBits) / 2 ^ fractionBits =
      bits / 2 ^ fractionBits % 2 ^ exponentBits := by
    rw [Nat.pow_add, Nat.mod_mul_right_div_self]
  have hfraction : bits % 2 ^ (fractionBits + exponentBits) % 2 ^ fractionBits =
      bits % 2 ^ fractionBits := by
    rw [Nat.pow_add, Nat.mod_mul_right_mod]
  rw [Magnitude.nth, Magnitude.ofFields, hfield, hfraction]
  simp only [ofBits, Nat.pow_eq] at h ⊢
  split at h
  · split at h <;> cases h
  · split at h
    · next hzero =>
      cases h
      exact ⟨rfl, (if_pos hzero).symm⟩
    · next hzero =>
      cases h
      exact ⟨rfl, (if_neg hzero).symm⟩

/-- **A number that rounds to a floating-point number of a sign tells its bits.** -/
theorem Binary.ofBits_unique {exponentBits fractionBits : Nat} (hbits : 0 < fractionBits)
    {bits bits' : Nat} (hlt : bits < 2 ^ (fractionBits + exponentBits + 1))
    (hlt' : bits' < 2 ^ (fractionBits + exponentBits + 1)) {negative : Bool} {m m' : Magnitude}
    (h : ofBits exponentBits fractionBits bits = .finite negative m)
    (h' : ofBits exponentBits fractionBits bits' = .finite negative m') {q : ℚ}
    (hq : m.Encloses q) (hq' : m'.Encloses q) : bits = bits' := by
  rcases ofBits_eq_finite h with ⟨hsign, rfl⟩
  rcases ofBits_eq_finite h' with ⟨hsign', rfl⟩
  have hplace := Magnitude.nth_unique hbits hq hq'
  rw [Nat.pow_succ] at hlt hlt'
  have hdiv := Nat.div_lt_of_lt_mul hlt
  have hdiv' := Nat.div_lt_of_lt_mul hlt'
  rw [hsign, decide_eq_decide, Nat.mod_eq_of_lt hdiv, Nat.mod_eq_of_lt hdiv'] at hsign'
  have hsigns : bits / 2 ^ (fractionBits + exponentBits) =
      bits' / 2 ^ (fractionBits + exponentBits) := by
    generalize bits / 2 ^ (fractionBits + exponentBits) = s at *
    generalize bits' / 2 ^ (fractionBits + exponentBits) = s' at *
    omega
  rw [← Nat.div_add_mod bits (2 ^ (fractionBits + exponentBits)), hsigns, hplace, Nat.div_add_mod]

end PowerCurve.Decimal
