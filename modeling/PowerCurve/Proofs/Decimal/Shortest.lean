import Mathlib.Algebra.Order.Field.Rat
import Mathlib.Algebra.Order.Field.Power
import Mathlib.Tactic.FieldSimp
import Mathlib.Tactic.Linarith
import Mathlib.Tactic.Positivity
import Mathlib.Tactic.Ring
import PowerCurve.Decimal.Shortest

/-!
# What the shortest decimal denotes

The search for the shortest decimal of a magnitude never leaves the interval of the reals that round
to the magnitude (`Magnitude.encloses_shortest`). So what is not zero is not written as zero.
-/

namespace PowerCurve.Decimal

/-! ## Points of an interval -/

theorem Interval.holds_iff {i : Interval} {x : Nat} :
    i.holds x = true ↔
      i.low ≤ x ∧ x ≤ i.high ∧ (i.closed = false → i.low < x ∧ x < i.high) := by
  cases hclosed : i.closed with
  | false =>
    rw [holds, if_neg (hclosed ▸ Bool.false_ne_true), Bool.and_eq_true, decide_eq_true_eq,
      decide_eq_true_eq]
    exact ⟨fun h => ⟨h.1.le, h.2.le, fun _ => h⟩, fun h => h.2.2 rfl⟩
  | true =>
    rw [holds, if_pos hclosed, Bool.and_eq_true, decide_eq_true_eq, decide_eq_true_eq]
    exact ⟨fun h => ⟨h.1, h.2, nofun⟩, fun h => ⟨h.1, h.2.1⟩⟩

/-- The multiple that is found lies in the interval. -/
theorem Interval.holds_of_multiple? {i : Interval} {unit n : Nat} (h : i.multiple? unit = some n) :
    i.holds (n * unit) = true := by
  rw [multiple?] at h
  split at h
  · next hbelow habove =>
    obtain rfl := Option.some.inj h
    split
    · exact hbelow
    · exact habove
  · next hbelow _ =>
    obtain rfl := Option.some.inj h
    exact hbelow
  · next _ habove =>
    obtain rfl := Option.some.inj h
    exact habove
  · cases h

/-! ## Rational numbers -/

/-- The number that a decimal denotes. -/
def Scaled.toRat (x : Scaled) : ℚ :=
  x.coefficient * 10 ^ x.exponent

/-- A quarter of the last place of a magnitude, which is the unit of its interval. -/
def Magnitude.quarter (m : Magnitude) : ℚ :=
  2 ^ (m.exponent - 2)

theorem Magnitude.quarter_pos (m : Magnitude) : 0 < m.quarter :=
  zpow_pos (by decide) _

/-- The smallest number that may round to a magnitude. -/
def Magnitude.bottom (m : Magnitude) : ℚ :=
  m.interval.low * m.quarter

/-- The greatest number that may round to a magnitude. -/
def Magnitude.top (m : Magnitude) : ℚ :=
  m.interval.high * m.quarter

/-- A number rounds to a magnitude. The ends of the interval only do if the significand is even. -/
structure Magnitude.Encloses (m : Magnitude) (q : ℚ) : Prop where
  bottom_le : m.bottom ≤ q
  le_top : q ≤ m.top
  inside : m.significand % 2 = 1 → m.bottom < q ∧ q < m.top

/-- A power with an exponent of any sign, as one with natural exponents on both sides. -/
theorem zpow_mul_pow_toNat {a : ℚ} (ha : a ≠ 0) (k : ℤ) : a ^ k * a ^ (-k).toNat = a ^ k.toNat := by
  rw [← zpow_natCast, ← zpow_natCast, ← zpow_add₀ ha]
  congr 1
  omega

/-- Multiples of a quarter of the last place and of `10 ^ k`, in the unit that they share. -/
theorem Magnitude.compare_grid (m : Magnitude) (k : Int) (x n : Nat) :
    (x * (Nat.pow 10 (-k).toNat * Nat.pow 2 (m.exponent - 2).toNat) ≤
        n * (Nat.pow 10 k.toNat * Nat.pow 2 (2 - m.exponent).toNat) ↔
      x * m.quarter ≤ Scaled.toRat ⟨n, k⟩) ∧
    (n * (Nat.pow 10 k.toNat * Nat.pow 2 (2 - m.exponent).toNat) ≤
        x * (Nat.pow 10 (-k).toNat * Nat.pow 2 (m.exponent - 2).toNat) ↔
      Scaled.toRat ⟨n, k⟩ ≤ x * m.quarter) := by
  have hten : (10 : ℚ) ^ k * 10 ^ (-k).toNat = 10 ^ k.toNat := zpow_mul_pow_toNat (by decide) k
  have htwo : m.quarter * 2 ^ (2 - m.exponent).toNat = 2 ^ (m.exponent - 2).toNat := by
    rw [quarter, ← neg_sub m.exponent 2]
    exact zpow_mul_pow_toNat (by decide) _
  -- both sides are multiplied by the denominators
  have hunit : (0 : ℚ) < 10 ^ (-k).toNat * 2 ^ (2 - m.exponent).toNat := by positivity
  have hx : ((x * (Nat.pow 10 (-k).toNat * Nat.pow 2 (m.exponent - 2).toNat) : Nat) : ℚ) =
      x * m.quarter * (10 ^ (-k).toNat * 2 ^ (2 - m.exponent).toNat) := by
    rw [Nat.pow_eq, Nat.pow_eq]
    push_cast
    rw [← htwo]
    ring
  have hn : ((n * (Nat.pow 10 k.toNat * Nat.pow 2 (2 - m.exponent).toNat) : Nat) : ℚ) =
      Scaled.toRat ⟨n, k⟩ * (10 ^ (-k).toNat * 2 ^ (2 - m.exponent).toNat) := by
    rw [Nat.pow_eq, Nat.pow_eq, Scaled.toRat]
    push_cast
    rw [← hten]
    ring
  have hcast (a b : Nat) : a ≤ b ↔ (a : ℚ) ≤ b := Nat.cast_le.symm
  rw [hcast, hcast, hx, hn, mul_le_mul_iff_left₀ hunit, mul_le_mul_iff_left₀ hunit]
  exact ⟨.rfl, .rfl⟩

/-- A point of a grid that is found rounds to the magnitude. -/
theorem Magnitude.encloses_of_onGrid? {m : Magnitude} {k : Int} {n : Nat}
    (h : m.onGrid? k = some n) : m.Encloses (Scaled.toRat ⟨n, k⟩) := by
  rcases Interval.holds_iff.mp (Interval.holds_of_multiple? h) with ⟨hlow, hhigh, hopen⟩
  have hbottom := m.compare_grid k m.interval.low n
  have htop := m.compare_grid k m.interval.high n
  refine ⟨hbottom.1.mp hlow, htop.2.mp hhigh, fun hodd => ?_⟩
  have hclosed : m.interval.closed = false := by
    simp only [interval, decide_eq_false_iff_not]
    omega
  rcases hopen hclosed with ⟨hlow, hhigh⟩
  exact ⟨(lt_iff_lt_of_le_iff_le hbottom.2).mp hlow, (lt_iff_lt_of_le_iff_le htop.1).mp hhigh⟩

/-- The exact value of a magnitude is four quarters for each unit of the significand. -/
theorem Magnitude.exact_toRat (m : Magnitude) :
    m.exact.toRat = (4 * m.significand : Nat) * m.quarter := by
  have hquarter : 4 * m.quarter = 2 ^ m.exponent := by
    rw [quarter, zpow_sub₀ (by decide)]
    norm_num
    ring
  have hexact : (2 : ℚ) ^ m.exponent.toNat * 5 ^ (-m.exponent).toNat * 10 ^ min m.exponent 0 =
      2 ^ m.exponent := by
    rcases Int.le_total 0 m.exponent with hsign | hsign
    · have hzero : (-m.exponent).toNat = 0 := by omega
      rw [min_eq_right hsign, hzero, ← zpow_natCast, Int.toNat_of_nonneg hsign, pow_zero,
        zpow_zero, mul_one, mul_one]
    · have hzero : m.exponent.toNat = 0 := by omega
      have hfive : (5 : ℚ) ^ m.exponent * 5 ^ (-m.exponent).toNat = 5 ^ m.exponent.toNat :=
        zpow_mul_pow_toNat (by decide) _
      rw [hzero, pow_zero] at hfive ⊢
      rw [min_eq_left hsign, show (10 : ℚ) = 2 * 5 by norm_num, mul_zpow, one_mul, mul_left_comm,
        mul_comm (5 ^ _), hfive, mul_one]
  rw [Scaled.toRat, exact, Nat.pow_eq, Nat.pow_eq]
  push_cast
  rw [mul_assoc, mul_assoc, ← mul_assoc (2 ^ _), hexact, ← hquarter]
  ring

theorem Magnitude.encloses_exact (m : Magnitude) : m.Encloses m.exact.toRat := by
  have hlow : m.interval.low ≤ 4 * m.significand := Nat.sub_le _ _
  have hhigh : 4 * m.significand < m.interval.high := Nat.lt_add_of_pos_right (by decide)
  rw [exact_toRat]
  refine ⟨mul_le_mul_of_nonneg_right (Nat.cast_le.mpr hlow) m.quarter_pos.le,
    mul_le_mul_of_nonneg_right (Nat.cast_le.mpr hhigh.le) m.quarter_pos.le, fun hodd => ?_⟩
  have hlow' : m.interval.low < 4 * m.significand := by
    simp only [interval]
    split <;> omega
  exact ⟨mul_lt_mul_of_pos_right (Nat.cast_lt.mpr hlow') m.quarter_pos,
    mul_lt_mul_of_pos_right (Nat.cast_lt.mpr hhigh) m.quarter_pos⟩

theorem Magnitude.encloses_search (m : Magnitude) (steps : Nat) (k : Int) :
    m.Encloses (m.search steps k).toRat := by
  induction steps generalizing k with
  | zero => exact m.encloses_exact
  | succ steps ih =>
    rw [search]
    split
    · next hgrid => exact encloses_of_onGrid? hgrid
    · exact ih (k - 1)

/-- **The shortest decimal of a magnitude rounds to it.** -/
theorem Magnitude.encloses_shortest (m : Magnitude) : m.Encloses m.shortest.toRat :=
  m.encloses_search 24 m.ceiling

/-- The shortest decimal of a number that is not zero is not zero. -/
theorem Magnitude.shortest_coefficient_ne_zero {m : Magnitude} (hm : m.significand ≠ 0) :
    m.shortest.coefficient ≠ 0 := by
  intro hzero
  have hlow : 0 < m.interval.low := by
    simp only [interval]
    split <;> omega
  have hbottom : 0 < m.bottom := mul_pos (Nat.cast_pos.mpr hlow) m.quarter_pos
  apply hbottom.not_ge
  have hle := m.encloses_shortest.bottom_le
  rwa [Scaled.toRat, hzero, Nat.cast_zero, zero_mul] at hle

end PowerCurve.Decimal
