import PowerCurve.Proofs.Decimal.Places

/-!
# How exact results are rounded

The built-in operations find an exact result first, as a significand with two more bits: whether the
result reaches the middle between this significand and the next one, and whether there is anything
beyond. `Extends` says what such a significand stands for. Shifting it keeps that
(`Extends.shiftRight`), and what is rounded in the end encloses the exact result
(`Extends.encloses`). So every exact result is rounded to the magnitude that encloses it
(`rounded_roundWithAccuracy`, `rounded_round`).
-/

namespace PowerCurve.Decimal

open Float.Model Float.Model.UnpackedFloat

/-! ## Significands with two more bits -/

/-- A number is `k` units, or lies between `k` and `k + 1` of them if there is something beyond. -/
def Lies (k : ℕ) (beyond : Bool) (unit q : ℚ) : Prop :=
  if beyond = true then k * unit < q ∧ q < (k + 1) * unit else q = k * unit

theorem lies_exact {k : ℕ} {unit q : ℚ} : Lies k false unit q ↔ q = k * unit := by
  rw [Lies, if_neg Bool.false_ne_true]

theorem lies_beyond {k : ℕ} {unit q : ℚ} :
    Lies k true unit q ↔ k * unit < q ∧ q < (k + 1) * unit := by
  rw [Lies, if_pos rfl]

/-- The same number in a unit that is twice as large. -/
theorem Lies.double {m : ℕ} {odd beyond : Bool} {unit q : ℚ} (hunit : 0 < unit)
    (h : Lies (2 * m + odd.toNat) beyond unit q) : Lies m (odd || beyond) (2 * unit) q := by
  have hcount : ((2 * m + odd.toNat : ℕ) : ℚ) * unit = m * (2 * unit) + odd.toNat * unit := by
    push_cast
    ring
  have hnext : (m + 1) * (2 * unit) = m * (2 * unit) + 2 * unit := by ring
  cases beyond with
  | false =>
    rw [lies_exact, hcount] at h
    cases odd with
    | false =>
      rw [Bool.or_self, lies_exact, h, Bool.toNat_false, Nat.cast_zero, zero_mul, add_zero]
    | true =>
      -- what was half a unit is now something beyond
      rw [Bool.toNat_true, Nat.cast_one, one_mul] at h
      rw [Bool.true_or, lies_beyond, hnext, h]
      constructor <;> linarith
  | true =>
    rw [lies_beyond, add_mul, hcount, one_mul] at h
    rw [Bool.or_true, lies_beyond, hnext]
    have hodd : (0 : ℚ) ≤ odd.toNat * unit := mul_nonneg (Nat.cast_nonneg _) hunit.le
    have hodd' : (odd.toNat : ℚ) * unit ≤ unit :=
      mul_le_of_le_one_left hunit.le (Nat.cast_le_one.mpr odd.toNat_le)
    constructor <;> linarith

/-- The number of half units in a significand. -/
def halves (em : ExtendedMantissa) : ℕ :=
  2 * em.mantissa + em.roundBit.toNat

/-- What a significand with its two bits stands for: the first bit counts half a unit, and the second
one says whether there is something beyond. -/
def Extends (em : ExtendedMantissa) (e : ℤ) (q : ℚ) : Prop :=
  Lies (halves em) em.stickyBit (2 ^ (e - 1)) q

theorem two_mul_zpow (e : ℤ) : 2 * (2 : ℚ) ^ (e - 1) = 2 ^ e := by
  rw [← zpow_one_add₀ (by decide), add_sub_cancel]

theorem extends_exact (m : ℕ) (e : ℤ) :
    Extends (.ofMantissaAndAccuracy m .exact) e (m * 2 ^ e) := by
  have hhalves : halves (.ofMantissaAndAccuracy m .exact) = 2 * m := rfl
  have hexact : Lies (2 * m) false (2 ^ (e - 1)) (m * 2 ^ e) := by
    rw [lies_exact, ← two_mul_zpow]
    push_cast
    ring
  rw [← hhalves] at hexact
  exact hexact

theorem Extends.shiftRightOne {em : ExtendedMantissa} {e : ℤ} {q : ℚ} (h : Extends em e q) :
    Extends em.shiftRightOne (e + 1) q := by
  have hhalves : halves em.shiftRightOne = em.mantissa := by
    have hdiv := Nat.div_add_mod em.mantissa 2
    rcases Nat.mod_two_eq_zero_or_one em.mantissa with hmod | hmod
    · simp only [halves, ExtendedMantissa.shiftRightOne, hmod] at hdiv ⊢
      exact hdiv
    · simp only [halves, ExtendedMantissa.shiftRightOne, hmod] at hdiv ⊢
      exact hdiv
  have hunit : (2 : ℚ) ^ (e + 1 - 1) = 2 * 2 ^ (e - 1) := by
    rw [two_mul_zpow, add_sub_cancel_right]
  rw [Extends, hhalves, hunit]
  exact Lies.double (zpow_pos (by decide) _) h

theorem Extends.shiftRight {em : ExtendedMantissa} {e : ℤ} {q : ℚ} (h : Extends em e q) (n : ℕ) :
    Extends (em >>> n) (e + n) q := by
  induction n with
  | zero => rwa [Nat.cast_zero, add_zero]
  | succ n ih =>
    have hstep : em >>> (n + 1) = (em >>> n).shiftRightOne := rfl
    rw [hstep, Nat.cast_succ, ← add_assoc]
    exact ih.shiftRightOne

theorem mantissa_shiftRight (em : ExtendedMantissa) (n : ℕ) :
    (em >>> n).mantissa = em.mantissa / 2 ^ n := by
  induction n with
  | zero => exact (Nat.div_one _).symm
  | succ n ih =>
    have hstep : (em >>> (n + 1)).mantissa = (em >>> n).mantissa / 2 := rfl
    rw [hstep, ih, Nat.div_div_eq_div_mul, Nat.pow_succ]

/-! ## Rounding to a neighbour -/

theorem toRat_magnitude {m : ℕ} {e : ℤ} (h : Canonical m e) :
    (magnitude (placeOf m e)).exact.toRat = m * 2 ^ e := by
  have hquarter : (2 : ℚ) ^ e = 2 * (2 * 2 ^ (e - 2)) := by
    rw [← two_mul_zpow e, ← two_mul_zpow (e - 1), sub_sub]
    rfl
  rw [Magnitude.exact_toRat, magnitude_placeOf h, Magnitude.quarter, hquarter]
  push_cast
  ring

/-- The middle between a magnitude and the next one. -/
theorem top_magnitude {m : ℕ} {e : ℤ} (h : Canonical m e) :
    (magnitude (placeOf m e)).top = (2 * m + 1) * 2 ^ (e - 1) := by
  have hquarter : (2 : ℚ) ^ (e - 1) = 2 * 2 ^ (e - 2) := by
    rw [← two_mul_zpow (e - 1), sub_sub]
    rfl
  rw [Magnitude.top, magnitude_placeOf h, Magnitude.interval, Magnitude.quarter, hquarter]
  push_cast
  ring

theorem canonical_carry {e : ℤ} (he : -1074 ≤ e) : Canonical (2 ^ 52) (e + 1) :=
  ⟨by decide, by omega, .inl le_rfl⟩

theorem placeOf_carry {e : ℤ} (he : -1074 ≤ e) : placeOf (2 ^ 52) (e + 1) = placeOf (2 ^ 53) e := by
  rw [placeOf, placeOf]
  omega

theorem toRat_magnitude_succ {m : ℕ} {e : ℤ} (h : Canonical m e) :
    (magnitude (placeOf m e + 1)).exact.toRat = (m + 1) * 2 ^ e := by
  have hplace : placeOf m e + 1 = placeOf (m + 1) e := rfl
  rcases Nat.lt_or_eq_of_le (Nat.succ_le_of_lt h.lt) with hlt | heq
  · have hnext : Canonical (m + 1) e := ⟨hlt, h.lowest_le, h.full.imp_left Nat.le_succ_of_le⟩
    rw [hplace, toRat_magnitude hnext, Nat.cast_succ]
  · -- there is one bit too many, so the exponent grows
    have heq' : m + 1 = 2 ^ 53 := heq
    have hcast : (m : ℚ) + 1 = 2 ^ 52 * 2 := by
      rw [← Nat.cast_succ, heq]
      norm_num
    rw [hplace, heq', ← placeOf_carry h.lowest_le, toRat_magnitude (canonical_carry h.lowest_le),
      zpow_add_one₀ (by decide), hcast]
    push_cast
    ring

theorem significand_magnitude (n : ℕ) : (magnitude n).significand % 2 = n % 2 :=
  Magnitude.significand_nth (-1074) (by decide) n

theorem placeOf_mod_two (m : ℕ) (e : ℤ) : placeOf m e % 2 = m % 2 := by
  rw [placeOf]
  omega

/-- What lies at most half a unit above a magnitude rounds to it; the middle itself only does if the
significand is even. -/
theorem encloses_of_le_top {m : ℕ} {e : ℤ} (h : Canonical m e) {q : ℚ} (hlow : m * 2 ^ e ≤ q)
    (hhigh : q ≤ (2 * m + 1) * 2 ^ (e - 1)) (hodd : m % 2 = 1 → q < (2 * m + 1) * 2 ^ (e - 1)) :
    (magnitude (placeOf m e)).Encloses q := by
  have hexact := (magnitude (placeOf m e)).encloses_exact
  rw [toRat_magnitude h] at hexact
  rw [← top_magnitude h] at hhigh hodd
  refine ⟨hexact.bottom_le.trans hlow, hhigh, fun hparity => ?_⟩
  have hparity' : m % 2 = 1 := by rw [← placeOf_mod_two m e, ← significand_magnitude, hparity]
  exact ⟨(hexact.inside hparity).1.trans_le hlow, hodd hparity'⟩

/-- What lies at least half a unit above a magnitude rounds to the next one; the middle itself only
does if the significand is odd. -/
theorem encloses_succ_of_top_le {m : ℕ} {e : ℤ} (h : Canonical m e) {q : ℚ}
    (hlow : (2 * m + 1) * 2 ^ (e - 1) ≤ q) (hhigh : q ≤ (m + 1) * 2 ^ e)
    (heven : m % 2 = 0 → (2 * m + 1) * 2 ^ (e - 1) < q) :
    (magnitude (placeOf m e + 1)).Encloses q := by
  have hexact := (magnitude (placeOf m e + 1)).encloses_exact
  have hbottom : (magnitude (placeOf m e + 1)).bottom = (2 * m + 1) * 2 ^ (e - 1) := by
    rw [← top_magnitude h]
    exact (Magnitude.top_nth _).symm
  rw [toRat_magnitude_succ h] at hexact
  rw [← hbottom] at hlow heven
  refine ⟨hlow, hhigh.trans hexact.le_top, fun hparity => ?_⟩
  have hparity' : m % 2 = 0 := by
    rw [significand_magnitude, Nat.add_mod, placeOf_mod_two] at hparity
    omega
  exact ⟨heven hparity', hhigh.trans_lt (hexact.inside hparity).2⟩

/-- **Rounding gives the magnitude that encloses the exact number.** -/
theorem Extends.encloses {em : ExtendedMantissa} {e : ℤ} {q : ℚ} (h : Extends em e q)
    (hc : Canonical em.mantissa e) : (magnitude (placeOf em.roundedMantissa e)).Encloses q := by
  rcases em with ⟨m, r, s⟩
  have hpos : (0 : ℚ) < 2 ^ (e - 1) := zpow_pos (by decide) _
  have hunit : (m : ℚ) * 2 ^ e = 2 * m * 2 ^ (e - 1) := by
    rw [← two_mul_zpow]
    ring
  have hmiddle : (2 * (m : ℚ) + 1) * 2 ^ (e - 1) = m * 2 ^ e + 2 ^ (e - 1) := by
    rw [hunit]
    ring
  have hnext : ((m : ℚ) + 1) * 2 ^ e = (2 * m + 1) * 2 ^ (e - 1) + 2 ^ (e - 1) := by
    rw [add_mul, one_mul, hunit, ← two_mul_zpow e]
    ring
  unfold Extends at h
  cases r with
  | false =>
    have hrounded : ExtendedMantissa.roundedMantissa ⟨m, false, s⟩ = m := by cases s <;> rfl
    have hhalves : ((halves ⟨m, false, s⟩ : ℕ) : ℚ) * 2 ^ (e - 1) = m * 2 ^ e := by
      rw [hunit, halves, Bool.toNat_false, add_zero, Nat.cast_mul, Nat.cast_two]
    rw [hrounded]
    cases s with
    | false =>
      -- the significand is exact
      rw [lies_exact, hhalves] at h
      exact encloses_of_le_top hc (by linarith) (by linarith) (fun _ => by linarith)
    | true =>
      rw [lies_beyond, add_mul, hhalves, one_mul, ← hmiddle] at h
      exact encloses_of_le_top hc h.1.le h.2.le fun _ => h.2
  | true =>
    have hhalves : ((halves ⟨m, true, s⟩ : ℕ) : ℚ) * 2 ^ (e - 1) = (2 * m + 1) * 2 ^ (e - 1) := by
      rw [halves, Bool.toNat_true, Nat.cast_succ, Nat.cast_mul, Nat.cast_two]
    cases s with
    | false =>
      -- in the middle the even neighbour is taken
      rw [lies_exact, hhalves] at h
      have hrounded : ExtendedMantissa.roundedMantissa ⟨m, true, false⟩ = m + m % 2 := rfl
      rw [hrounded]
      rcases Nat.mod_two_eq_zero_or_one m with heven | hodd
      · rw [heven, add_zero]
        exact encloses_of_le_top hc (by linarith) h.le fun hodd => absurd (heven.symm.trans hodd) nofun
      · rw [hodd]
        exact encloses_succ_of_top_le hc h.ge (by linarith) fun heven =>
          absurd (heven.symm.trans hodd) nofun
    | true =>
      rw [lies_beyond, add_mul, hhalves, one_mul, ← hnext] at h
      have hrounded : ExtendedMantissa.roundedMantissa ⟨m, true, true⟩ = m + 1 := rfl
      rw [hrounded]
      exact encloses_succ_of_top_le hc h.1.le h.2.le fun _ => h.1

/-! ## Rounding to the room that there is -/

/-- The exponent at which a significand has as many bits as there is room for. -/
def targetOf (m : ℕ) (e : ℤ) : ℤ :=
  Format.binary64.targetExponent (totalExponent m e)

theorem targetOf_eq (m : ℕ) (e : ℤ) : targetOf m e = max (m.log2 + e - 52) (-1074) := by
  have htarget : targetOf m e = max ((m.log2 : ℤ) + 1 + e - 53) (-1074) := rfl
  rw [htarget]
  congr 1
  omega

/-- Shifted to its target, a significand has as many bits as there is room for. -/
theorem canonical_targetOf {m : ℕ} {e : ℤ} (he : e ≤ targetOf m e) :
    Canonical (m / 2 ^ (targetOf m e - e).toNat) (targetOf m e) := by
  rw [targetOf_eq] at he ⊢
  generalize hshift : (max ((m.log2 : ℤ) + e - 52) (-1074) - e).toNat = n
  have hlt : m < 2 ^ 53 * 2 ^ n := by
    refine Nat.lt_log2_self.trans_le ?_
    rw [← Nat.pow_add]
    exact Nat.pow_le_pow_right (by decide) (by omega)
  refine ⟨Nat.div_lt_of_lt_mul (by rwa [Nat.mul_comm]), le_max_right _ _, ?_⟩
  rcases le_or_gt ((m.log2 : ℤ) + e - 52) (-1074) with hlow | hhigh
  · exact .inr (max_eq_right hlow)
  · have hlog : m.log2 = 52 + n := by omega
    have hm : m ≠ 0 := by
      rintro rfl
      rw [Nat.log2_zero] at hlog
      omega
    have hle : 2 ^ 52 * 2 ^ n ≤ m := by
      rw [← Nat.pow_add, ← hlog]
      exact Nat.log2_self_le hm
    exact .inl ((Nat.le_div_iff_mul_le (Nat.two_pow_pos n)).mpr hle)

theorem shiftToTargetExponent_eq {m : ℕ} {e : ℤ} (he : e ≤ targetOf m e) (accuracy : Accuracy) :
    shiftToTargetExponent .binary64 m e accuracy =
      (ExtendedMantissa.ofMantissaAndAccuracy m accuracy >>> (targetOf m e - e).toNat, targetOf m e) := by
  have hexponent : e + ((targetOf m e - e).toNat : ℤ) = targetOf m e := by omega
  have hshift : shiftToTargetExponent .binary64 m e accuracy =
      (ExtendedMantissa.ofMantissaAndAccuracy m accuracy >>> (targetOf m e - e).toNat,
        e + ((targetOf m e - e).toNat : ℤ)) := rfl
  rw [hshift, hexponent]

theorem targetOf_le {m : ℕ} {e : ℤ} (h : Canonical m e) : targetOf m e ≤ e := by
  rcases h with ⟨hlt, hlow, hfull⟩
  have hlog : m.log2 < 53 := by
    rcases Nat.eq_zero_or_pos m with rfl | hm
    · rw [Nat.log2_zero]
      decide
    · exact (Nat.log2_lt hm.ne').mpr hlt
  rw [targetOf_eq]
  omega

/-- After rounding there may be one bit too many, and then the exponent grows. -/
theorem exists_shiftToTargetExponent_exact {m : ℕ} {e : ℤ} (hm : m ≤ 2 ^ 53) (he : -1074 ≤ e)
    (hfull : 2 ^ 52 ≤ m ∨ e = -1074) :
    ∃ m' e', Canonical m' e' ∧ placeOf m' e' = placeOf m e ∧
      shiftToTargetExponent .binary64 m e .exact = (.ofMantissaAndAccuracy m' .exact, e') := by
  rcases Nat.lt_or_eq_of_le hm with hlt | rfl
  · have hc : Canonical m e := ⟨hlt, he, hfull⟩
    have hle := targetOf_le hc
    have hshift : (targetOf m e - e).toNat = 0 := by omega
    have heq : shiftToTargetExponent .binary64 m e .exact =
        (ExtendedMantissa.ofMantissaAndAccuracy m .exact >>> (targetOf m e - e).toNat,
          e + ((targetOf m e - e).toNat : ℤ)) := rfl
    refine ⟨m, e, hc, rfl, ?_⟩
    rw [heq, hshift, Nat.cast_zero, add_zero]
    rfl
  · have htarget : targetOf (2 ^ 53) e = e + 1 := by
      rw [targetOf_eq, Nat.log2_two_pow]
      omega
    have hshift : (targetOf (2 ^ 53) e - e).toNat = 1 := by omega
    refine ⟨2 ^ 52, e + 1, canonical_carry he, placeOf_carry he, ?_⟩
    rw [shiftToTargetExponent_eq (htarget ▸ (Int.lt_succ e).le), hshift, htarget]
    rfl

/-- A number that is taken apart is what an exact magnitude rounds to. -/
inductive Rounded (s : Sign) (q : ℚ) : UnpackedFloat → Prop where
  | zero (h : (magnitude 0).Encloses q) : Rounded s q (.zero s)
  | finite {m : ℕ} {e : ℤ} (hm : 0 < m) (hc : Canonical m e)
      (h : (magnitude (placeOf m e)).Encloses q) : Rounded s q (.finite s m e hm)

theorem roundedMantissa_le (em : ExtendedMantissa) :
    em.mantissa ≤ em.roundedMantissa ∧ em.roundedMantissa ≤ em.mantissa + 1 := by
  rcases em with ⟨m, r, s⟩
  have hmod := Nat.mod_lt m (by decide : 0 < 2)
  cases r <;> cases s <;>
    simp only [ExtendedMantissa.roundedMantissa, ExtendedMantissa.accuracy,
      Accuracy.roundToNearestEven] <;> omega

/-- **Rounding is correct**, whatever exact number the significand stands for. -/
theorem rounded_roundWithAccuracy (s : Sign) {m : ℕ} {e : ℤ} {accuracy : Accuracy} {q : ℚ}
    (h : Extends (.ofMantissaAndAccuracy m accuracy) e q) (he : e ≤ targetOf m e) :
    Rounded s q (roundWithAccuracy .binary64 s m e accuracy) := by
  have hmantissa : (ExtendedMantissa.ofMantissaAndAccuracy m accuracy).mantissa = m := by
    rcases accuracy with _ | (_ | _ | _) <;> rfl
  generalize hem : ExtendedMantissa.ofMantissaAndAccuracy m accuracy >>> (targetOf m e - e).toNat = em
  have hexact : Extends em (targetOf m e) q := by
    have hshifted := h.shiftRight (targetOf m e - e).toNat
    rwa [hem, Int.toNat_of_nonneg (sub_nonneg.mpr he), add_sub_cancel] at hshifted
  have hcanonical : Canonical em.mantissa (targetOf m e) := by
    rw [← hem, mantissa_shiftRight, hmantissa]
    exact canonical_targetOf he
  have hrounded := roundedMantissa_le em
  rcases exists_shiftToTargetExponent_exact (hrounded.2.trans hcanonical.lt) hcanonical.lowest_le
    (hcanonical.full.imp_left fun hle => hle.trans hrounded.1) with ⟨m', e', hc, hplace, hcarry⟩
  have hencloses : (magnitude (placeOf m' e')).Encloses q := hplace ▸ hexact.encloses hcanonical
  rw [roundWithAccuracy, shiftToTargetExponent_eq he, hem]
  dsimp only
  rw [hcarry]
  dsimp only
  split
  · next hzero =>
    have hzero' : m' = 0 := hzero
    subst hzero'
    have he' : e' = -1074 := hc.full.resolve_left (by decide)
    subst he'
    exact .zero hencloses
  · next hzero => exact .finite (Nat.pos_of_ne_zero hzero) hc hencloses

theorem log2_shiftLeft {m : ℕ} (hm : 0 < m) (k : ℕ) : (m <<< k).log2 = m.log2 + k := by
  have hpos := Nat.two_pow_pos k
  rw [Nat.shiftLeft_eq, Nat.log2_eq_iff (Nat.mul_pos hm hpos).ne']
  constructor
  · rw [Nat.pow_add]
    exact Nat.mul_le_mul_right _ (Nat.log2_self_le hm.ne')
  · rw [Nat.add_right_comm, Nat.pow_add]
    exact Nat.mul_lt_mul_of_pos_right Nat.lt_log2_self hpos

theorem shiftLeft_mul_zpow (m k : ℕ) (e : ℤ) :
    ((m <<< k : ℕ) : ℚ) * 2 ^ (e - k) = m * 2 ^ e := by
  have hexponent : (2 : ℚ) ^ k * 2 ^ (e - k) = 2 ^ e := by
    rw [← zpow_natCast, ← zpow_add₀ (by decide), add_sub_cancel]
  rw [Nat.shiftLeft_eq, Nat.cast_mul, Nat.cast_pow, Nat.cast_two, mul_assoc, hexponent]

/-- A significand with any exponent is rounded correctly, after it is given all its bits. -/
theorem rounded_round (s : Sign) {m : ℕ} (hm : 0 < m) (e : ℤ) :
    Rounded s (m * 2 ^ e) (UnpackedFloat.round .binary64 s m e) := by
  generalize hk : (e - targetOf m e).toNat = k
  have hround : UnpackedFloat.round .binary64 s m e =
      roundWithAccuracy .binary64 s (m <<< (e - targetOf m e).toNat)
        (e - ((e - targetOf m e).toNat : ℤ)) .exact := rfl
  have htarget : targetOf (m <<< k) (e - k) = targetOf m e := by
    rw [targetOf_eq, targetOf_eq, log2_shiftLeft hm, Nat.cast_add]
    congr 1
    omega
  have hexact := extends_exact (m <<< k) (e - k)
  rw [shiftLeft_mul_zpow] at hexact
  rw [hround, hk]
  exact rounded_roundWithAccuracy s hexact (by omega)

end PowerCurve.Decimal
