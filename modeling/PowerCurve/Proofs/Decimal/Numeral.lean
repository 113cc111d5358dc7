import PowerCurve.Decimal.Numeral
import PowerCurve.Proofs.Decimal.Digits
import PowerCurve.Proofs.Decimal.Nearest

/-!
# The number nearest to a numeral

A numeral denotes a magnitude (`Numeral.toRat`) with a sign. Small significands are multiplied or
divided by a power of ten that is exact (`toRat_powersOfTen`), and others are rounded from the exact
product or quotient; both ways give the nearest number (`isNearest_ofScientific`). `nearest` decides
first whether the number is too large or too small, which changes nothing (`isNearest_nearest`). So a
numeral is read as the number nearest to what it denotes (`isNearest_toFloat`).
-/

namespace PowerCurve.Decimal

open Float.Model Float.Model.UnpackedFloat

variable {x : Float} {m : ℕ}

/-! ## Exact powers of ten -/

/-- A positive number in units of `2 ^ (-52)`, if its exponent is not below that of the units. -/
def unitsOf : UnpackedFloat → Option ℕ
  | .finite .positive m e _ => if -52 ≤ e then some (m * 2 ^ (e + 52).toNat) else none
  | _ => none

theorem toRat_of_unitsOf {n : ℕ} (h : unitsOf x.toModel.unpack = some n) :
    x.isFinite = true ∧ toRat x * 2 ^ 52 = n := by
  have hfinite : x.isFinite = x.toModel.unpack.isFinite := rfl
  rw [hfinite, toRat]
  generalize x.toModel.unpack = u at h ⊢
  unfold unitsOf at h
  split at h
  · next m e hm =>
    split at h
    · next he =>
      obtain rfl := Option.some.inj h
      have hpower : (2 : ℚ) ^ e * 2 ^ 52 = 2 ^ (e + 52).toNat := by
        rw [← zpow_natCast, ← zpow_natCast, ← zpow_add₀ (by decide)]
        congr 1
        omega
      refine ⟨rfl, ?_⟩
      rw [unpackedToRat, signed, mul_assoc, hpower]
      push_cast
      rfl
    · cases h
  · cases h

theorem unitsOf_powersOfTen (k : Fin 23) :
    unitsOf Float.exactlyRepresentablePowersOfTen[k].toModel.unpack =
      some (10 ^ k.val * 2 ^ 52) := by
  revert k
  decide +kernel

/-- **The powers of ten in the table are exact.** -/
theorem toRat_powersOfTen {k : ℕ} (hk : k < 23) :
    Float.exactlyRepresentablePowersOfTen[k].isFinite = true ∧
      toRat Float.exactlyRepresentablePowersOfTen[k] = 10 ^ k := by
  rcases toRat_of_unitsOf (unitsOf_powersOfTen ⟨k, hk⟩) with ⟨hfinite, hunits⟩
  refine ⟨hfinite, mul_right_cancel₀ (pow_ne_zero 52 two_ne_zero) (hunits.trans ?_)⟩
  push_cast
  rfl

theorem ten_zpow_pos (e : ℤ) : (0 : ℚ) < 10 ^ e :=
  zpow_pos (by decide) e

theorem toRat_toUInt64 (hlt : m < 2 ^ 53) :
    m.toUInt64.toFloat.isFinite = true ∧ toRat m.toUInt64.toFloat = m := by
  have hm : m.toUInt64.toNat = m := UInt64.toNat_ofNat_of_lt' (hlt.trans (by decide))
  have hexact := toRat_uInt64 (n := m.toUInt64) (hm.trans_le hlt.le)
  rwa [hm] at hexact

/-- Products and quotients by an exact power of ten. -/
theorem isNearest_powersOfTen (hm : 0 < m) (hlt : m < 2 ^ 53) {k : ℕ} (hk : k < 23) :
    IsNearest false (m * 10 ^ (k : ℤ))
        (m.toUInt64.toFloat * Float.exactlyRepresentablePowersOfTen[k]) ∧
      IsNearest false (m * 10 ^ (-k : ℤ))
        (m.toUInt64.toFloat / Float.exactlyRepresentablePowersOfTen[k]) := by
  rcases toRat_toUInt64 hlt with ⟨hfinite, hvalue⟩
  rcases toRat_powersOfTen hk with ⟨hfinite', hvalue'⟩
  have hm' : (0 : ℚ) < m := Nat.cast_pos.mpr hm
  constructor
  · have hrounded := roundedTo_mul (isFinite_unpack hfinite) (isFinite_unpack hfinite')
    rw [← toRat, ← toRat, hvalue, hvalue', ← zpow_natCast] at hrounded
    exact .of_roundedTo hrounded (mul_pos hm' (ten_zpow_pos k)) rfl
  · have hne : unpackedToRat (Float.exactlyRepresentablePowersOfTen[k]).toModel.unpack ≠ 0 := by
      rw [← toRat, hvalue']
      exact pow_ne_zero k (by decide)
    have hrounded := roundedTo_div (isFinite_unpack hfinite) (isFinite_unpack hfinite') hne
    rw [← toRat, ← toRat, hvalue, hvalue', ← zpow_natCast, div_eq_mul_inv, ← zpow_neg] at hrounded
    exact .of_roundedTo hrounded (mul_pos hm' (ten_zpow_pos (-k))) rfl

/-! ## Powers of ten beyond all numbers -/

theorem overflow_le_ten_zpow {e : ℤ} (he : 309 ≤ e) : overflow ≤ 10 ^ e := by
  have hpower : 2 ^ 1024 ≤ 10 ^ 309 := by decide +kernel
  calc overflow ≤ 2 ^ 1024 := overflow_lt.le
    _ ≤ 10 ^ (309 : ℕ) := by exact_mod_cast hpower
    _ = 10 ^ (309 : ℤ) := (zpow_natCast 10 309).symm
    _ ≤ 10 ^ e := zpow_le_zpow_right₀ (by decide) he

theorem ten_zpow_le {e : ℤ} (he : e ≤ -324) : (10 : ℚ) ^ e ≤ 2 ^ (-1075 : ℤ) := by
  have hpower : 2 ^ 1075 ≤ 10 ^ 324 := by decide +kernel
  calc (10 : ℚ) ^ e ≤ 10 ^ (-324 : ℤ) := zpow_le_zpow_right₀ (by decide) he
    _ = (10 ^ (324 : ℕ))⁻¹ := zpow_neg_coe_of_pos 10 (by decide)
    _ ≤ (2 ^ (1075 : ℕ))⁻¹ := inv_anti₀ (pow_pos two_pos _) (by exact_mod_cast hpower)
    _ = 2 ^ (-1075 : ℤ) := (zpow_neg_coe_of_pos 2 (by decide)).symm

/-- Negative powers of ten are below those of two. -/
theorem mul_ten_zpow_le {e : ℤ} (he : e < -(2 ^ 11 + m.log2)) :
    (m : ℚ) * 10 ^ e ≤ 2 ^ (-1075 : ℤ) := by
  obtain ⟨k, rfl⟩ : ∃ k : ℕ, e = -k := ⟨(-e).toNat, by omega⟩
  have hm : (m : ℚ) ≤ 2 ^ (m.log2 + 1) := by exact_mod_cast Nat.lt_log2_self.le
  have hpower : ((10 : ℚ) ^ k)⁻¹ ≤ (2 ^ k)⁻¹ :=
    inv_anti₀ (pow_pos two_pos k) (pow_le_pow_left₀ zero_le_two (by decide) k)
  calc (m : ℚ) * 10 ^ (-k : ℤ) = m * (10 ^ k)⁻¹ := by rw [zpow_neg, zpow_natCast]
    _ ≤ 2 ^ (m.log2 + 1) * (2 ^ k)⁻¹ :=
        mul_le_mul hm hpower (inv_pos.mpr (pow_pos (by decide) k)).le (pow_pos two_pos _).le
    _ = 2 ^ ((m.log2 + 1 : ℕ) - k : ℤ) := by
        rw [zpow_sub₀ (by decide), zpow_natCast, zpow_natCast, div_eq_mul_inv]
    _ ≤ 2 ^ (-1075 : ℤ) := zpow_le_zpow_right₀ one_le_two (by omega)

/-! ## Scientific notation -/

/-- The product with a power of ten. The significand is shifted before it is multiplied, so that no
bit is missing. -/
theorem rounded_mul_ten {k : ℕ} (hm : 0 < m <<< 53) (hk : 0 < 10 ^ k) :
    Rounded .positive (m * 10 ^ k) (UnpackedFloat.mul .binary64
      (.finite .positive (m <<< 53) (-53) hm) (.finite .positive (10 ^ k) 0 hk)) := by
  have hshift : ((m <<< 53 : ℕ) : ℚ) * 2 ^ (-53 : ℤ) = m := by
    have hshift := shiftLeft_mul_zpow m 53 0
    rwa [zpow_zero, mul_one] at hshift
  have hbits : 2 ^ 52 ≤ m <<< 53 * 10 ^ k := by
    rw [Nat.shiftLeft_eq] at hm ⊢
    calc 2 ^ 52 ≤ 1 * 2 ^ 53 * 1 := by decide
      _ ≤ m * 2 ^ 53 * 10 ^ k :=
        Nat.mul_le_mul (Nat.mul_le_mul_right _ (Nat.pos_of_mul_pos_right hm)) hk
  have hlog := (Nat.le_log2 (Nat.mul_pos hm hk).ne').mpr hbits
  have htarget : (-53 : ℤ) + (0 : ℤ) ≤ targetOf (m <<< 53 * 10 ^ k) (-53 + 0) := by
    rw [targetOf_eq]
    omega
  have hrounded := rounded_mul .positive .positive hm hk htarget
  rwa [hshift, zpow_zero, mul_one, Nat.cast_pow, Nat.cast_ofNat] at hrounded

/-- The quotient by a power of ten. -/
theorem rounded_div_ten {k : ℕ} (hm : 0 < m) (hk : 0 < 10 ^ k) :
    Rounded .positive (m * 10 ^ (-k : ℤ)) (UnpackedFloat.div .binary64
      (.finite .positive m 0 hm) (.finite .positive (10 ^ k) 0 hk)) := by
  have hrounded := rounded_div .positive .positive 0 0 hm hk
  rwa [zpow_zero, mul_one, mul_one, Nat.cast_pow, Nat.cast_ofNat, div_eq_mul_inv, ← zpow_natCast,
    ← zpow_neg] at hrounded

/-- Any significand times any power of ten. -/
theorem isNearest_ofModel (hm : 0 < m) (e : ℤ) :
    IsNearest false (m * 10 ^ e) (.ofModel (Float.Model.ofScientific m e)) := by
  have hx : (Float.ofModel (Float.Model.ofScientific m e)).toModel.unpack =
      UnpackedFloat.unpack .binary64
        (UnpackedFloat.pack .binary64 (UnpackedFloat.ofScientific .binary64 m e)) := rfl
  rw [UnpackedFloat.ofScientific, dif_neg hm.ne'] at hx
  split at hx
  · next hlarge =>
    have hinfinity : Float.ofModel (Float.Model.ofScientific m e) = infinity := eq_of_unpack_eq hx
    have hlarge' : 309 ≤ e := le_trans (by decide) (le_of_lt hlarge)
    have hm' : (1 : ℚ) ≤ m := Nat.one_le_cast.mpr hm
    rw [hinfinity]
    exact isNearest_infinity ((overflow_le_ten_zpow hlarge').trans
      (le_mul_of_one_le_left (ten_zpow_pos e).le hm'))
  · split at hx
    · next hsmall =>
      have hzero : Float.ofModel (Float.Model.ofScientific m e) = 0.0 := eq_of_unpack_eq hx
      rw [hzero]
      exact isNearest_zero (mul_nonneg (Nat.cast_nonneg m) (ten_zpow_pos e).le)
        (mul_ten_zpow_le hsmall)
    · split at hx
      · next he =>
        have hpower : (10 : ℚ) ^ e = 10 ^ e.toNat := by
          rw [← zpow_natCast, Int.toNat_of_nonneg he]
        rw [hpower]
        exact .of_rounded (rounded_mul_ten _ _) hx
      · next he =>
        have hexponent : e = -((-e).toNat : ℤ) := by omega
        have hrounded := rounded_div_ten hm (Nat.pow_pos (by decide) : 0 < 10 ^ (-e).toNat)
        rw [← hexponent] at hrounded
        exact .of_rounded hrounded hx

/-- **Scientific notation gives the nearest number.** -/
theorem isNearest_ofScientific (hm : 0 < m) (negative : Bool) (k : ℕ) :
    IsNearest false (m * 10 ^ (if negative then -(k : ℤ) else k))
      (Float.ofScientific m negative k) := by
  rw [Float.ofScientific]
  by_cases hsmall : m < 2 ^ 53 ∧ k ≤ 22
  · have hboth := isNearest_powersOfTen hm hsmall.1 (Nat.lt_succ_of_le hsmall.2)
    rw [dif_pos hsmall]
    cases negative with
    | false => exact hboth.1
    | true => exact hboth.2
  · have hexponent : (if negative = true then Int.negOfNat k else Int.ofNat k) =
        if negative then -(k : ℤ) else k := by
      rw [Int.negOfNat_eq]
      rfl
    rw [dif_neg hsmall]
    dsimp only
    rw [hexponent]
    exact isNearest_ofModel hm _

/-- **The number that `nearest` finds is nearest.** -/
theorem isNearest_nearest (m : ℕ) (e : ℤ) : IsNearest false (m * 10 ^ e) (nearest m e) := by
  rw [nearest]
  split
  · next hzero =>
    rw [hzero, Nat.cast_zero, zero_mul]
    exact isNearest_zero le_rfl (zpow_pos two_pos _).le
  · next hne =>
    rcases exists_length_digits hne with ⟨k, hlength, hlow, hhigh⟩
    have hlow' : (10 : ℚ) ^ k ≤ m := by exact_mod_cast hlow
    have hhigh' : (m : ℚ) ≤ 10 ^ (k + 1) := by exact_mod_cast hhigh.le
    have hpower := (ten_zpow_pos e).le
    rw [hlength]
    dsimp only
    split
    · next hlarge =>
      refine isNearest_infinity ?_
      calc overflow ≤ 10 ^ (k + e) := overflow_le_ten_zpow (by omega)
        _ = 10 ^ k * 10 ^ e := by rw [zpow_add₀ (by decide), zpow_natCast]
        _ ≤ m * 10 ^ e := mul_le_mul_of_nonneg_right hlow' hpower
    · split
      · next hsmall =>
        refine isNearest_zero (mul_nonneg (Nat.cast_nonneg m) hpower) ?_
        calc (m : ℚ) * 10 ^ e ≤ 10 ^ (k + 1) * 10 ^ e := mul_le_mul_of_nonneg_right hhigh' hpower
          _ = 10 ^ ((k + 1 : ℕ) + e) := by rw [zpow_add₀ (by decide), zpow_natCast]
          _ ≤ 2 ^ (-1075 : ℤ) := ten_zpow_le hsmall
      · have hnearest :=
          isNearest_ofScientific (Nat.pos_of_ne_zero hne) (decide (e < 0)) e.natAbs
        have hexponent : (if decide (e < 0) = true then -(e.natAbs : ℤ) else e.natAbs) = e := by
          simp only [decide_eq_true_eq]
          split <;> omega
        rwa [hexponent] at hnearest

/-! ## Numerals -/

/-- The magnitude of the number that a numeral denotes. -/
def Numeral.toRat (n : Numeral) : ℚ :=
  denoted (n.whole ++ n.fraction) * 10 ^ (n.exponent.getD 0 - n.fraction.length)

theorem Numeral.toRat_eq (n : Numeral) : n.toRat = n.significand * 10 ^ n.scale := by
  rw [toRat, significand, scale, value_eq_denoted]

/-- **A numeral is read as the nearest number.** -/
theorem isNearest_toFloat (n : Numeral) : IsNearest n.negative n.toRat n.toFloat := by
  have hnearest := isNearest_nearest n.significand n.scale
  rw [← Numeral.toRat_eq] at hnearest
  rw [Numeral.toFloat]
  cases n.negative with
  | false => exact hnearest
  | true => exact hnearest.neg

end PowerCurve.Decimal
