import PowerCurve.Proofs.Decimal.Rounding

/-!
# Arithmetic on the built-in numbers

What a finite built-in number denotes is a rational number (`toRat`). `RoundsTo q x` says that `x`
is the correctly rounded `q`, which is an infinity if `q` is too large. Sums, products, quotients and
converted integers are correctly rounded (`roundsTo_add`, `roundsTo_mul`, `roundsTo_div`,
`roundsTo_uInt64`), and rounding keeps the order (`RoundsTo.le`).
-/

namespace PowerCurve.Decimal

open Float.Model Float.Model.UnpackedFloat

/-! ## What numbers denote -/

/-- A number with the sign. -/
def signed (s : Sign) (q : ℚ) : ℚ :=
  match s with
  | .negative => -q
  | .positive => q

/-- What a number that is taken apart denotes, if it is finite. -/
def unpackedToRat : UnpackedFloat → ℚ
  | .finite s m e _ => signed s (m * 2 ^ e)
  | _ => 0

/-- What a finite built-in number denotes. -/
def toRat (x : Float) : ℚ :=
  unpackedToRat x.toModel.unpack

theorem unpackedToRat_zero (s : Sign) : unpackedToRat (.zero s) = 0 := rfl

theorem signed_zero (s : Sign) : signed s 0 = 0 := by
  cases s
  · exact neg_zero
  · rfl

theorem signed_neg (s : Sign) (q : ℚ) : signed (-s) q = -signed s q := by
  cases s
  · exact (neg_neg q).symm
  · rfl

theorem signed_mul (s s' : Sign) (q q' : ℚ) :
    signed (s * s') (q * q') = signed s q * signed s' q' := by
  cases s <;> cases s'
  · exact (neg_mul_neg q q').symm
  · exact neg_mul_eq_neg_mul q q'
  · exact neg_mul_eq_mul_neg q q'
  · rfl

theorem signed_div (s s' : Sign) (q q' : ℚ) :
    signed (s / s') (q / q') = signed s q / signed s' q' := by
  cases s <;> cases s'
  · exact (neg_div_neg_eq q q').symm
  · exact (neg_div q' q).symm
  · exact (div_neg q).symm
  · rfl

theorem signed_mul_right (s : Sign) (q q' : ℚ) : signed s (q * q') = signed s q * q' := by
  cases s
  · exact neg_mul_eq_neg_mul q q'
  · rfl

theorem cast_apply (s : Sign) (n : ℕ) : ((s.apply n : ℤ) : ℚ) = signed s n := by
  cases s <;> simp [Sign.apply, signed]

/-! ## Exact results -/

/-- A number that is taken apart is what the exact number rounds to. -/
def RoundedTo (q : ℚ) (u : UnpackedFloat) : Prop :=
  ∃ s a, q = signed s a ∧ Rounded s a u

theorem exact_zero : (magnitude 0).exact.toRat = 0 := by
  have hexact := toRat_magnitude canonical_zero
  rwa [Nat.cast_zero, zero_mul] at hexact

theorem encloses_zero : (magnitude 0).Encloses 0 := by
  have hexact := (magnitude 0).encloses_exact
  rwa [exact_zero] at hexact

theorem roundedTo_zero (s : Sign) : RoundedTo 0 (.zero s) :=
  ⟨s, 0, (signed_zero s).symm, .zero encloses_zero⟩

theorem roundedTo_exact (s : Sign) {m : ℕ} {e : ℤ} (hm : 0 < m) (h : Canonical m e) :
    RoundedTo (unpackedToRat (.finite s m e hm)) (.finite s m e hm) := by
  have hexact := (magnitude (placeOf m e)).encloses_exact
  rw [toRat_magnitude h] at hexact
  exact ⟨s, m * 2 ^ e, rfl, .finite hm h hexact⟩

theorem roundedTo_normalize (k e : ℤ) (s : Sign) :
    RoundedTo (k * 2 ^ e) (UnpackedFloat.normalize .binary64 k e s) := by
  rw [UnpackedFloat.normalize]
  rcases lt_trichotomy k 0 with hneg | rfl | hpos
  · have hcast : ((-k).toNat : ℤ) = -k := Int.toNat_of_nonneg (by omega)
    have hcast' : ((-k).toNat : ℚ) = -k := by exact_mod_cast hcast
    have hrounded := rounded_round .negative (m := (-k).toNat) (by omega) e
    rw [Int.compare_eq_lt.mpr hneg]
    refine ⟨.negative, (-k).toNat * 2 ^ e, ?_, hrounded⟩
    rw [signed, hcast']
    ring
  · rw [Int.cast_zero, zero_mul]
    exact roundedTo_zero s
  · have hcast : (k.toNat : ℤ) = k := Int.toNat_of_nonneg hpos.le
    have hcast' : (k.toNat : ℚ) = k := by exact_mod_cast hcast
    have hrounded := rounded_round .positive (m := k.toNat) (by omega) e
    rw [Int.compare_eq_gt.mpr hpos]
    refine ⟨.positive, k.toNat * 2 ^ e, ?_, hrounded⟩
    rw [signed, hcast']

/-- What is taken apart is finite. -/
inductive IsFinite : UnpackedFloat → Prop where
  | zero (s : Sign) : IsFinite (.zero s)
  | finite (s : Sign) {m : ℕ} {e : ℤ} (hm : 0 < m) (h : Canonical m e) (he : e ≤ 971) :
      IsFinite (.finite s m e hm)

theorem IsFinite.isNumber {u : UnpackedFloat} (h : IsFinite u) : IsNumber u := by
  cases h with
  | zero s => exact .zero s
  | finite s hm h he => exact .finite s hm h he

theorem IsFinite.roundedTo {u : UnpackedFloat} (h : IsFinite u) : RoundedTo (unpackedToRat u) u := by
  cases h with
  | zero s => exact roundedTo_zero s
  | finite s hm h he => exact roundedTo_exact s hm h

theorem shiftLeft_mul_min {m : ℕ} {e e' : ℤ} (h : e' ≤ e) :
    ((m <<< (e - e').toNat : ℕ) : ℚ) * 2 ^ e' = m * 2 ^ e := by
  have hshift := shiftLeft_mul_zpow m (e - e').toNat e
  rwa [Int.toNat_of_nonneg (sub_nonneg.mpr h), sub_sub_cancel] at hshift

/-- **Sums are correctly rounded.** -/
theorem roundedTo_add {a b : UnpackedFloat} (ha : IsFinite a) (hb : IsFinite b) :
    RoundedTo (unpackedToRat a + unpackedToRat b) (UnpackedFloat.add .binary64 a b) := by
  cases ha with
  | zero s =>
    rw [unpackedToRat_zero, zero_add]
    cases hb with
    | zero s' =>
      rw [UnpackedFloat.add]
      split
      · exact roundedTo_zero s
      · exact roundedTo_zero .positive
    | finite s' hm' h' he' => exact roundedTo_exact s' hm' h'
  | @finite s m e hm h he =>
    cases hb with
    | zero s' =>
      rw [unpackedToRat_zero, add_zero]
      exact roundedTo_exact s hm h
    | @finite s' m' e' hm' h' he' =>
      -- both significands are brought to the smaller exponent
      have hsum : unpackedToRat (.finite s m e hm) + unpackedToRat (.finite s' m' e' hm') =
          ((s.apply ((m <<< (e - min e e').toNat : ℕ) : ℤ) +
            s'.apply ((m' <<< (e' - min e e').toNat : ℕ) : ℤ) : ℤ) : ℚ) * 2 ^ min e e' := by
        rw [Int.cast_add, cast_apply, cast_apply, add_mul, ← signed_mul_right, ← signed_mul_right,
          shiftLeft_mul_min (min_le_left e e'), shiftLeft_mul_min (min_le_right e e')]
        rfl
      rw [hsum]
      exact roundedTo_normalize _ _ _

theorem le_targetOf_mul {m m' : ℕ} {e e' : ℤ} (hm : 0 < m) (hm' : 0 < m') (h : Canonical m e)
    (h' : Canonical m' e') : e + e' ≤ targetOf (m * m') (e + e') := by
  have hlog (hle : 2 ^ 52 ≤ m * m') : 52 ≤ (m * m').log2 :=
    (Nat.le_log2 (Nat.mul_pos hm hm').ne').mpr hle
  rw [targetOf_eq]
  rcases h.full with hfull | hlow
  · have := hlog (hfull.trans (Nat.le_mul_of_pos_right m hm'))
    omega
  · rcases h'.full with hfull' | hlow'
    · have := hlog (hfull'.trans (Nat.le_mul_of_pos_left m' hm))
      omega
    · omega

/-- A product of significands is rounded correctly if it has all the bits that are wanted. -/
theorem rounded_mul (s s' : Sign) {m m' : ℕ} {e e' : ℤ} (hm : 0 < m) (hm' : 0 < m')
    (h : e + e' ≤ targetOf (m * m') (e + e')) :
    Rounded (s * s') (m * 2 ^ e * (m' * 2 ^ e'))
      (UnpackedFloat.mul .binary64 (.finite s m e hm) (.finite s' m' e' hm')) := by
  have hproduct : ((m * m' : ℕ) : ℚ) * 2 ^ (e + e') = m * 2 ^ e * (m' * 2 ^ e') := by
    rw [zpow_add₀ (by decide), Nat.cast_mul]
    ring
  have hrounded := rounded_roundWithAccuracy (s * s') (extends_exact (m * m') (e + e')) h
  rwa [hproduct] at hrounded

/-- **Products are correctly rounded.** -/
theorem roundedTo_mul {a b : UnpackedFloat} (ha : IsFinite a) (hb : IsFinite b) :
    RoundedTo (unpackedToRat a * unpackedToRat b) (UnpackedFloat.mul .binary64 a b) := by
  cases ha with
  | zero s =>
    rw [unpackedToRat_zero, zero_mul]
    cases hb <;> exact roundedTo_zero _
  | @finite s m e hm h he =>
    cases hb with
    | zero s' =>
      rw [unpackedToRat_zero, mul_zero]
      exact roundedTo_zero _
    | @finite s' m' e' hm' h' he' =>
      exact ⟨s * s', _, (signed_mul s s' _ _).symm,
        rounded_mul s s' hm hm' (le_targetOf_mul hm hm' h h')⟩

/-- A quotient and what its remainder says about the rest stand for the exact fraction. -/
theorem extends_accuracyOfFraction (n : ℕ) {d : ℕ} (hd : 0 < d) (e : ℤ) :
    Extends (.ofMantissaAndAccuracy (n / d) (accuracyOfFraction (n % d) d)) e (n / d * 2 ^ e) := by
  have hd' : (0 : ℚ) < d := Nat.cast_pos.mpr hd
  have hpos : (0 : ℚ) < 2 ^ (e - 1) := zpow_pos (by decide) _
  have hfraction : (n : ℚ) / d * 2 ^ e =
      (2 * (n / d : ℕ) : ℕ) * 2 ^ (e - 1) + (2 * (n % d) : ℕ) / d * 2 ^ (e - 1) := by
    have hdiv : (d : ℚ) * (n / d : ℕ) + (n % d : ℕ) = n := by exact_mod_cast Nat.div_add_mod n d
    rw [← two_mul_zpow, ← hdiv]
    push_cast
    field_simp
  have hlt : (2 * (n % d) : ℕ) / (d : ℚ) * 2 ^ (e - 1) < 2 * 2 ^ (e - 1) := by
    refine mul_lt_mul_of_pos_right ?_ hpos
    rw [div_lt_iff₀ hd']
    exact_mod_cast Nat.mul_lt_mul_of_pos_left (Nat.mod_lt n hd) (by decide : 0 < 2)
  rw [hfraction]
  unfold Extends accuracyOfFraction
  split
  · next hzero =>
    have hhalves : halves (.ofMantissaAndAccuracy (n / d) .exact) = 2 * (n / d) := rfl
    refine lies_exact.mpr ?_
    rw [hhalves, hzero, Nat.mul_zero, Nat.cast_zero, zero_div, zero_mul, add_zero]
  · next hne =>
    have hrest : (0 : ℚ) < (2 * (n % d) : ℕ) / (d : ℚ) * 2 ^ (e - 1) := by
      have hmod : (0 : ℚ) < (2 * (n % d) : ℕ) := Nat.cast_pos.mpr (by omega)
      positivity
    -- the rest is compared with half a unit
    rcases lt_trichotomy (2 * (n % d)) d with hlow | heq | hhigh
    · have hhalves : halves (.ofMantissaAndAccuracy (n / d) (.inexact .lt)) = 2 * (n / d) := rfl
      have hhalf : (2 * (n % d) : ℕ) / (d : ℚ) * 2 ^ (e - 1) < 2 ^ (e - 1) := by
        refine mul_lt_of_lt_one_left hpos ?_
        rw [div_lt_one hd']
        exact_mod_cast hlow
      rw [Nat.compare_eq_lt.mpr hlow]
      refine lies_beyond.mpr ?_
      rw [hhalves, add_mul, one_mul]
      constructor <;> linarith
    · have hhalves : halves (.ofMantissaAndAccuracy (n / d) (.inexact .eq)) = 2 * (n / d) + 1 := rfl
      rw [Nat.compare_eq_eq.mpr heq]
      refine lies_exact.mpr ?_
      rw [hhalves, heq, div_self hd'.ne', Nat.cast_succ, add_mul]
    · have hhalves : halves (.ofMantissaAndAccuracy (n / d) (.inexact .gt)) = 2 * (n / d) + 1 := rfl
      have hhalf : 2 ^ (e - 1) < (2 * (n % d) : ℕ) / (d : ℚ) * 2 ^ (e - 1) := by
        refine lt_mul_of_one_lt_left hpos ?_
        rw [one_lt_div hd']
        exact_mod_cast hhigh
      rw [Nat.compare_eq_gt.mpr hhigh]
      refine lies_beyond.mpr ?_
      rw [hhalves, Nat.cast_succ, add_mul, add_mul, one_mul]
      constructor <;> linarith

/-- The exponent at which the significands are divided. -/
def quotientExponent (m : ℕ) (e : ℤ) (m' : ℕ) (e' : ℤ) : ℤ :=
  min (e - e') (Format.binary64.targetExponent (totalExponent m e - totalExponent m' e'))

theorem quotientExponent_le (m : ℕ) (e : ℤ) (m' : ℕ) (e' : ℤ) :
    quotientExponent m e m' e' ≤ e - e' ∧
      (quotientExponent m e m' e' ≤ -1074 ∨
        quotientExponent m e m' e' ≤ m.log2 + e - (m'.log2 + e') - 53) := by
  have htarget : quotientExponent m e m' e' =
      min (e - e') (max (((m.log2 : ℤ) + 1 + e) - (m'.log2 + 1 + e') - 53) (-1074)) := rfl
  rw [htarget]
  omega

/-- The divided significand has all the bits that are wanted. -/
theorem le_targetOf_div {m m' : ℕ} (hm : 0 < m) (hm' : 0 < m') (e e' : ℤ) :
    quotientExponent m e m' e' ≤
      targetOf ((m <<< (e - e' - quotientExponent m e m' e').toNat) / m')
        (quotientExponent m e m' e') := by
  rcases quotientExponent_le m e m' e' with ⟨hle, hcases⟩
  generalize quotientExponent m e m' e' = t at *
  generalize hk : (e - e' - t).toNat = k
  rw [targetOf_eq]
  rcases hcases with hlow | hhigh
  · exact hlow.trans (le_max_right _ _)
  · have hbits : 2 ^ 52 ≤ m <<< k / m' := by
      rw [Nat.le_div_iff_mul_le hm', Nat.shiftLeft_eq]
      calc 2 ^ 52 * m' ≤ 2 ^ 52 * 2 ^ (m'.log2 + 1) := Nat.mul_le_mul_left _ Nat.lt_log2_self.le
        _ = 2 ^ (m'.log2 + 53) := by rw [← Nat.pow_add]; congr 1; omega
        _ ≤ 2 ^ (m.log2 + k) := Nat.pow_le_pow_right (by decide) (by omega)
        _ = 2 ^ m.log2 * 2 ^ k := Nat.pow_add _ _ _
        _ ≤ m * 2 ^ k := Nat.mul_le_mul_right _ (Nat.log2_self_le hm.ne')
    have hne : m <<< k / m' ≠ 0 := (Nat.lt_of_lt_of_le (by decide) hbits).ne'
    have hlog : 52 ≤ (m <<< k / m').log2 := (Nat.le_log2 hne).mpr hbits
    omega

/-- A quotient of significands is rounded correctly. -/
theorem rounded_div (s s' : Sign) {m m' : ℕ} (e e' : ℤ) (hm : 0 < m) (hm' : 0 < m') :
    Rounded (s / s') (m * 2 ^ e / (m' * 2 ^ e'))
      (UnpackedFloat.div .binary64 (.finite s m e hm) (.finite s' m' e' hm')) := by
  have hrounded := rounded_roundWithAccuracy (s / s')
    (extends_accuracyOfFraction (m <<< (e - e' - quotientExponent m e m' e').toNat) hm'
      (quotientExponent m e m' e')) (le_targetOf_div hm hm' e e')
  have hquotient : ((m <<< (e - e' - quotientExponent m e m' e').toNat : ℕ) : ℚ) / m' *
      2 ^ quotientExponent m e m' e' = m * 2 ^ e / (m' * 2 ^ e') := by
    rw [div_mul_eq_mul_div, shiftLeft_mul_min (quotientExponent_le m e m' e').1,
      zpow_sub₀ (by decide), mul_div_assoc', div_div, mul_comm (2 ^ e')]
  rwa [hquotient] at hrounded

/-- **Quotients are correctly rounded.** -/
theorem roundedTo_div {a b : UnpackedFloat} (ha : IsFinite a) (hb : IsFinite b)
    (hne : unpackedToRat b ≠ 0) :
    RoundedTo (unpackedToRat a / unpackedToRat b) (UnpackedFloat.div .binary64 a b) := by
  cases hb with
  | zero s' => exact absurd rfl hne
  | @finite s' m' e' hm' h' he' =>
    cases ha with
    | zero s =>
      rw [unpackedToRat_zero, zero_div]
      exact roundedTo_zero _
    | @finite s m e hm h he =>
      exact ⟨s / s', _, (signed_div s s' _ _).symm, rounded_div s s' e e' hm hm'⟩

/-! ## The built-in operations -/

/-- A built-in number is the correctly rounded exact number. Magnitudes behind that of the infinities
become infinite. -/
structure RoundsTo (q : ℚ) (x : Float) : Prop where
  isNaN : x.isNaN = false
  exists_place : ∃ (s : Sign) (a : ℚ) (n : ℕ), q = signed s a ∧ (magnitude n).Encloses a ∧
    index x = s.apply (min n infinitePlace : ℕ)

variable {x y : Float} {q q' : ℚ}

theorem RoundsTo.of_unpacked {u : UnpackedFloat} (h : RoundedTo q u)
    (hx : x.toModel.unpack =
      UnpackedFloat.unpack .binary64 (UnpackedFloat.pack .binary64 u)) : RoundsTo q x := by
  rcases h with ⟨s, a, rfl, hrounded⟩
  cases hrounded with
  | zero h =>
    rw [unpack_pack_zero] at hx
    have hindex : index x = 0 := congrArg unpackedIndex hx
    have hnan : x.isNaN = false := congrArg UnpackedFloat.isNaN hx
    refine ⟨hnan, s, a, 0, rfl, h, ?_⟩
    rw [hindex]
    cases s <;> rfl
  | @finite m e hm hc h =>
    rw [unpack_pack_finite s hm hc] at hx
    by_cases he : e ≤ 971
    · rw [if_pos he] at hx
      have hindex : index x = s.apply (placeOf m e) := congrArg unpackedIndex hx
      have hnan : x.isNaN = false := congrArg UnpackedFloat.isNaN hx
      have hlt := (placeOf_lt_infinitePlace_iff hc).mpr he
      refine ⟨hnan, s, a, placeOf m e, rfl, h, ?_⟩
      rw [hindex, min_eq_left hlt.le]
    · rw [if_neg he] at hx
      have hindex : index x = s.apply infinitePlace := congrArg unpackedIndex hx
      have hnan : x.isNaN = false := congrArg UnpackedFloat.isNaN hx
      have hle := not_lt.mp (mt (placeOf_lt_infinitePlace_iff hc).mp he)
      refine ⟨hnan, s, a, placeOf m e, rfl, h, ?_⟩
      rw [hindex, min_eq_right hle]

theorem isFinite_unpack (hx : x.isFinite = true) : IsFinite x.toModel.unpack := by
  have hfinite : x.toModel.unpack.isFinite = true := hx
  have hnumber := isNumber_toModel_unpack (isNaN_of_isFinite hx)
  generalize x.toModel.unpack = u at *
  cases hnumber with
  | infinity s => cases hfinite
  | zero s => exact .zero s
  | finite s hm h he => exact .finite s hm h he

/-- **Addition is correctly rounded.** -/
theorem roundsTo_add (hx : x.isFinite = true) (hy : y.isFinite = true) :
    RoundsTo (toRat x + toRat y) (x + y) :=
  .of_unpacked (roundedTo_add (isFinite_unpack hx) (isFinite_unpack hy)) rfl

/-- **Multiplication is correctly rounded.** -/
theorem roundsTo_mul (hx : x.isFinite = true) (hy : y.isFinite = true) :
    RoundsTo (toRat x * toRat y) (x * y) :=
  .of_unpacked (roundedTo_mul (isFinite_unpack hx) (isFinite_unpack hy)) rfl

/-- **Division is correctly rounded.** -/
theorem roundsTo_div (hx : x.isFinite = true) (hy : y.isFinite = true) (hne : toRat y ≠ 0) :
    RoundsTo (toRat x / toRat y) (x / y) :=
  .of_unpacked (roundedTo_div (isFinite_unpack hx) (isFinite_unpack hy) hne) rfl

theorem roundedTo_ofNat (n : ℕ) : RoundedTo n (UnpackedFloat.ofNat .binary64 n) := by
  have hnormalized := roundedTo_normalize n 0 .positive
  rwa [zpow_zero, mul_one, Int.cast_natCast] at hnormalized

/-- **The conversion of integers is correctly rounded.** -/
theorem roundsTo_uInt64 (n : UInt64) : RoundsTo n.toNat n.toFloat :=
  .of_unpacked (roundedTo_ofNat n.toNat) rfl

theorem roundsTo_uInt32 (n : UInt32) : RoundsTo n.toNat n.toFloat :=
  .of_unpacked (roundedTo_ofNat n.toNat) rfl

/-- A finite number is its own rounding. -/
theorem roundsTo_toRat (hx : x.isFinite = true) : RoundsTo (toRat x) x :=
  .of_unpacked (isFinite_unpack hx).roundedTo (isFinite_unpack hx).isNumber.unpack_pack.symm

/-! ## The order of rounded numbers -/

theorem eq_zero_of_encloses_zero {n : ℕ} (h : (magnitude n).Encloses 0) : n = 0 :=
  Magnitude.nth_unique (by decide) h encloses_zero

theorem nonneg_of_encloses {n : ℕ} {a : ℚ} (h : (magnitude n).Encloses a) : 0 ≤ a :=
  le_trans (mul_nonneg (Nat.cast_nonneg _) (Magnitude.quarter_pos _).le) h.bottom_le

theorem bottom_magnitude_le {n n' : ℕ} (h : n ≤ n') :
    (magnitude n).bottom ≤ (magnitude n').bottom :=
  Magnitude.bottom_nth_strictMono.monotone h

/-- Greater numbers round to later places. -/
theorem le_of_encloses {n n' : ℕ} {a a' : ℚ} (h : (magnitude n).Encloses a)
    (h' : (magnitude n').Encloses a') (hle : a ≤ a') : n ≤ n' := by
  refine le_of_not_gt fun hlt => ?_
  rcases hle.lt_or_eq with hless | rfl
  · -- the interval of the later place would begin below that of the earlier one
    have hbottom : (magnitude n').top ≤ (magnitude n).bottom := by
      have htop : (magnitude n').top = (magnitude (n' + 1)).bottom := Magnitude.top_nth n'
      rw [htop]
      exact bottom_magnitude_le hlt
    exact hless.not_ge ((h'.le_top.trans hbottom).trans h.bottom_le)
  · exact Magnitude.not_encloses_of_lt (by decide) hlt h' h

/-- **Rounding keeps the order.** -/
theorem RoundsTo.le (h : RoundsTo q x) (h' : RoundsTo q' y) (hle : q ≤ q') : x ≤ y := by
  rcases h with ⟨hnan, s, a, n, rfl, ha, hindex⟩
  rcases h' with ⟨hnan', s', a', n', rfl, ha', hindex'⟩
  have hpos := nonneg_of_encloses ha
  have hpos' := nonneg_of_encloses ha'
  rw [le_iff_index_le hnan hnan', hindex, hindex']
  cases s with
  | negative =>
    cases s' with
    | negative =>
      have hplace := le_of_encloses ha' ha (neg_le_neg_iff.mp hle)
      simp only [Sign.apply]
      omega
    | positive =>
      simp only [Sign.apply]
      omega
  | positive =>
    cases s' with
    | negative =>
      -- both are zero
      have hle' : a ≤ -a' := hle
      obtain rfl : a = 0 := by linarith
      obtain rfl : a' = 0 := by linarith
      rw [eq_zero_of_encloses_zero ha, eq_zero_of_encloses_zero ha']
      rfl
    | positive =>
      have hplace := le_of_encloses ha ha' hle
      simp only [Sign.apply]
      omega

/-- The exact numbers from which on rounding gives an infinity. -/
def overflow : ℚ :=
  2 ^ 1024 - 2 ^ 970

theorem bottom_infinitePlace : (magnitude infinitePlace).bottom = overflow := by
  have hcanonical : Canonical (2 ^ 52) 972 := ⟨by decide, by decide, .inl le_rfl⟩
  have hplace : infinitePlace = placeOf (2 ^ 52) 972 := rfl
  have hhalf : decide ((2 ^ 52 : ℕ) = 2 ^ 52 ∧ (-1074 : ℤ) < 972) = true := by decide
  have hlow : ((4 * 2 ^ 52 - 1 : ℕ) : ℚ) = 2 ^ 54 - 1 := by norm_num
  have hquarter : (2 : ℚ) ^ ((972 : ℤ) - 2) = 2 ^ 970 := zpow_natCast 2 970
  rw [hplace, Magnitude.bottom, magnitude_placeOf hcanonical, Magnitude.quarter, hquarter, hhalf]
  simp only [Magnitude.interval, if_true]
  rw [hlow, overflow, sub_mul, one_mul, ← pow_add]

theorem encloses_overflow : (magnitude infinitePlace).Encloses overflow := by
  rw [← bottom_infinitePlace]
  refine ⟨le_rfl, (Magnitude.bottom_lt_top _).le, fun hodd => ?_⟩
  rw [significand_magnitude] at hodd
  exact absurd hodd (by decide)

theorem lt_infinitePlace_iff {n : ℕ} {a : ℚ} (h : (magnitude n).Encloses a) :
    n < infinitePlace ↔ a < overflow := by
  constructor
  · intro hlt
    refine lt_of_not_ge fun hle => ?_
    exact (le_of_encloses encloses_overflow h hle).not_gt hlt
  · intro hlt
    refine lt_of_not_ge fun hle => ?_
    have hbottom := bottom_magnitude_le hle
    rw [bottom_infinitePlace] at hbottom
    exact ((hbottom.trans h.bottom_le).trans_lt hlt).false

theorem abs_signed {a : ℚ} (ha : 0 ≤ a) (s : Sign) : |signed s a| = a := by
  cases s
  · exact (abs_neg a).trans (abs_of_nonneg ha)
  · exact abs_of_nonneg ha

/-- **Rounding gives a finite number** unless the exact number is too large. -/
theorem RoundsTo.isFinite_iff (h : RoundsTo q x) : x.isFinite = true ↔ |q| < overflow := by
  rcases h with ⟨hnan, s, a, n, rfl, ha, hindex⟩
  rw [isFinite_iff_index hnan, hindex, natAbs_apply, abs_signed (nonneg_of_encloses ha),
    ← lt_infinitePlace_iff ha]
  omega

/-- What a finite number denotes is the magnitude in its place, with its sign. -/
theorem toRat_eq (hx : x.isFinite = true) :
    toRat x = (index x).sign * (magnitude (index x).natAbs).exact.toRat := by
  have hfinite := isFinite_unpack hx
  unfold toRat index
  generalize x.toModel.unpack = u at hfinite ⊢
  cases hfinite with
  | zero s => simp [unpackedToRat, unpackedIndex]
  | @finite s m e hm h he =>
    have hplace : ((placeOf m e : ℤ)).sign = 1 :=
      Int.sign_eq_one_of_pos (Int.natCast_pos.mpr (placeOf_pos hm e))
    cases s with
    | negative =>
      simp only [unpackedToRat, unpackedIndex, signed, Sign.apply, Int.sign_neg, hplace,
        Int.natAbs_neg, Int.natAbs_natCast, toRat_magnitude h]
      push_cast
      ring
    | positive =>
      simp only [unpackedToRat, unpackedIndex, signed, Sign.apply, hplace, Int.natAbs_natCast,
        toRat_magnitude h, Int.cast_one, one_mul]

/-- **The built-in order of finite numbers is that of what they denote.** -/
theorem le_iff_toRat_le (hx : x.isFinite = true) (hy : y.isFinite = true) :
    x ≤ y ↔ toRat x ≤ toRat y := by
  have hnan := isNaN_of_isFinite hx
  have hnan' := isNaN_of_isFinite hy
  constructor
  · intro hle
    refine le_of_not_gt fun hlt => ?_
    -- both numbers are in the same place, and so they denote the same
    have hle' := (roundsTo_toRat hy).le (roundsTo_toRat hx) hlt.le
    have hindex := le_antisymm ((le_iff_index_le hnan hnan').mp hle)
      ((le_iff_index_le hnan' hnan).mp hle')
    rw [toRat_eq hx, toRat_eq hy, hindex] at hlt
    exact hlt.false
  · exact (roundsTo_toRat hx).le (roundsTo_toRat hy)

theorem lt_iff_toRat_lt (hx : x.isFinite = true) (hy : y.isFinite = true) :
    x < y ↔ toRat x < toRat y := by
  have hnan := isNaN_of_isFinite hx
  have hnan' := isNaN_of_isFinite hy
  rw [← not_le, ← le_iff_toRat_le hy hx, le_iff_index_le hnan' hnan, lt_iff_index_lt hnan hnan',
    not_le]

end PowerCurve.Decimal
