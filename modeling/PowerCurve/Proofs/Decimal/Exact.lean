import PowerCurve.Proofs.Decimal.Arithmetic

/-!
# Numbers that need no rounding

An integer of at most 53 bits times a power of two is denoted by a built-in number, unless it is too
large or too fine (`exists_toRat_eq`), and every finite number is of this form
(`exists_significand`). An exact number of this form is its own rounding (`RoundsTo.toRat_eq`), and
it bounds what other numbers round to (`RoundsTo.between`). Sums are therefore positive exactly if
they are so before they are rounded (`add_pos_iff`).
-/

namespace PowerCurve.Decimal

open Float.Model Float.Model.UnpackedFloat

variable {x y z : Float} {q : ℚ}

/-! ## The built-in order -/

/-- Only numbers are in an order. -/
theorem isNaN_of_le (h : x ≤ y) : x.isNaN = false ∧ y.isNaN = false := by
  have hle : (x.toModel.unpack.compare y.toModel.unpack).any (·.isLE) = true := of_decide_eq_true h
  have hx : x.isNaN = x.toModel.unpack.isNaN := rfl
  have hy : y.isNaN = y.toModel.unpack.isNaN := rfl
  rw [hx, hy]
  generalize x.toModel.unpack = a at hle ⊢
  generalize y.toModel.unpack = b at hle ⊢
  rcases a with _ | _ | _ | _ <;> rcases b with _ | _ | _ | _ <;> try exact ⟨rfl, rfl⟩
  all_goals cases hle

theorem float_le_of_lt (hx : x.isNaN = false) (h : x < y) : x ≤ y := by
  have hy : y.isNaN = false := Bool.eq_false_iff.mpr fun hnan => not_lt_of_isNaN hnan h
  exact (le_iff_index_le hx hy).mpr ((lt_iff_index_lt hx hy).mp h).le

theorem float_lt_of_lt_of_le (hx : x.isNaN = false) (h : x < y) (h' : y ≤ z) : x < z := by
  rcases isNaN_of_le h' with ⟨hy, hz⟩
  rw [lt_iff_index_lt hx hz]
  exact ((lt_iff_index_lt hx hy).mp h).trans_le ((le_iff_index_le hy hz).mp h')

theorem float_lt_of_le_of_lt (h : x ≤ y) (h' : y < z) : x < z := by
  rcases isNaN_of_le h with ⟨hx, hy⟩
  have hz : z.isNaN = false := Bool.eq_false_iff.mpr fun hnan => not_lt_of_isNaN hnan h'
  rw [lt_iff_index_lt hx hz]
  exact ((le_iff_index_le hx hy).mp h).trans_lt ((lt_iff_index_lt hy hz).mp h')

theorem natAbs_index_lt (hx : x.isFinite = true) : (index x).natAbs < infinitePlace :=
  (isFinite_iff_index (isNaN_of_isFinite hx)).mp hx

/-- What lies between finite numbers is finite. -/
theorem isFinite_of_le (hx : x.isFinite = true) (hz : z.isFinite = true) (hxy : x ≤ y)
    (hyz : y ≤ z) : y.isFinite = true := by
  rcases isNaN_of_le hxy with ⟨hnan, hnan'⟩
  have hlow := (le_iff_index_le hnan hnan').mp hxy
  have hhigh := (le_iff_index_le hnan' (isNaN_of_le hyz).2).mp hyz
  have hplace := natAbs_index_lt hx
  have hplace' := natAbs_index_lt hz
  rw [isFinite_iff_index hnan']
  omega

/-! ## Integers times powers of two -/

/-- A number of at most 53 bits is canonical after it is given all its bits. -/
theorem exists_canonical {n : ℕ} {e : ℤ} (hn : 0 < n) (hle : n ≤ 2 ^ 53) (he : -1074 ≤ e) :
    ∃ m e', 0 < m ∧ Canonical m e' ∧ (m : ℚ) * 2 ^ e' = n * 2 ^ e := by
  rcases Nat.lt_or_eq_of_le hle with hlt | rfl
  · have hlog : n.log2 < 53 := (Nat.log2_lt hn.ne').mpr hlt
    generalize hd : min (52 - n.log2) (e + 1074).toNat = d
    have hpos : 0 < n <<< d := by
      rw [Nat.shiftLeft_eq]
      exact Nat.mul_pos hn (Nat.two_pow_pos d)
    have hshifted := log2_shiftLeft hn d
    refine ⟨n <<< d, e - d, hpos, ⟨?_, ?_, ?_⟩, shiftLeft_mul_zpow n d e⟩
    · exact (Nat.log2_lt hpos.ne').mp (by omega)
    · omega
    · rcases Nat.le_total (52 - n.log2) (e + 1074).toNat with hroom | hlow
      · exact .inl ((Nat.le_log2 hpos.ne').mp (by omega))
      · exact .inr (by omega)
  · refine ⟨2 ^ 52, e + 1, by decide, canonical_carry he, ?_⟩
    rw [zpow_add_one₀ (by decide)]
    push_cast
    ring

theorem Canonical.le_of_lt {m : ℕ} {e : ℤ} (h : Canonical m e) (hlt : (m : ℚ) * 2 ^ e < 2 ^ 1024) :
    e ≤ 971 := by
  refine le_of_not_gt fun hhigh => hlt.not_ge ?_
  have hfull : 2 ^ 52 ≤ m := h.full.resolve_right (by omega)
  have hfull' : (2 : ℚ) ^ 52 ≤ m := by exact_mod_cast hfull
  have hpower : (2 : ℚ) ^ (972 : ℤ) ≤ 2 ^ e := zpow_le_zpow_right₀ one_le_two hhigh
  have hsplit : (2 : ℚ) ^ 1024 = 2 ^ 52 * 2 ^ (972 : ℤ) := pow_add 2 52 972
  rw [hsplit]
  exact mul_le_mul hfull' hpower (zpow_pos (by decide) _).le (Nat.cast_nonneg m)

/-- What is put together as a finite number is one. -/
theorem exists_toRat_signed (s : Sign) {m : ℕ} {e : ℤ} (hm : 0 < m) (h : Canonical m e)
    (he : e ≤ 971) : ∃ x : Float, x.isFinite = true ∧ toRat x = signed s (m * 2 ^ e) := by
  have hunpack := unpack_pack_finite s hm h
  rw [if_pos he] at hunpack
  refine ⟨.ofModel (Float.Model.pack (.finite s m e hm)), ?_, ?_⟩
  · exact congrArg UnpackedFloat.isFinite hunpack
  · exact congrArg unpackedToRat hunpack

/-- **A number of at most 53 bits is denoted by a built-in number**, if it is neither too large nor
too fine. -/
theorem exists_toRat_eq {k e : ℤ} (hk : k.natAbs ≤ 2 ^ 53) (he : -1074 ≤ e)
    (hlt : |(k : ℚ) * 2 ^ e| < 2 ^ 1024) : ∃ x : Float, x.isFinite = true ∧ toRat x = k * 2 ^ e := by
  have habs : |(k : ℚ) * 2 ^ e| = k.natAbs * 2 ^ e := by
    rw [abs_mul, abs_of_pos (zpow_pos (by decide) e : (0 : ℚ) < 2 ^ e), Nat.cast_natAbs, Int.cast_abs]
  rcases Nat.eq_zero_or_pos k.natAbs with hzero | hpos
  · refine ⟨0.0, rfl, ?_⟩
    rw [Int.natAbs_eq_zero.mp hzero, Int.cast_zero, zero_mul]
    rfl
  · rcases exists_canonical hpos hk he with ⟨m, e', hm, hcanonical, hvalue⟩
    rw [habs, ← hvalue] at hlt
    rcases Int.natAbs_eq k with hk' | hk'
    · rcases exists_toRat_signed .positive hm hcanonical (hcanonical.le_of_lt hlt) with ⟨x, hx, hx'⟩
      refine ⟨x, hx, hx'.trans ?_⟩
      rw [hk', signed, hvalue, Int.cast_natCast]
    · rcases exists_toRat_signed .negative hm hcanonical (hcanonical.le_of_lt hlt) with ⟨x, hx, hx'⟩
      refine ⟨x, hx, hx'.trans ?_⟩
      rw [hk', signed, hvalue, Int.cast_neg, Int.cast_natCast, neg_mul]

/-- Every finite number is an integer of at most 53 bits times a power of two. It has all its bits
unless the power is the lowest one. -/
theorem exists_significand (hx : x.isFinite = true) :
    ∃ k e : ℤ, k.natAbs < 2 ^ 53 ∧ -1074 ≤ e ∧ (2 ^ 52 ≤ k.natAbs ∨ e = -1074) ∧
      toRat x = k * 2 ^ e := by
  have hfinite := isFinite_unpack hx
  unfold toRat
  generalize x.toModel.unpack = u at hfinite ⊢
  cases hfinite with
  | zero s =>
    refine ⟨0, -1074, by decide, le_rfl, .inr rfl, ?_⟩
    rw [Int.cast_zero, zero_mul]
    rfl
  | @finite s m e hm h he =>
    refine ⟨s.apply m, e, ?_, h.lowest_le, ?_, ?_⟩
    · rw [natAbs_apply]
      exact h.lt
    · rw [natAbs_apply]
      exact h.full
    · rw [cast_apply, ← signed_mul_right]
      rfl

/-- The negative of a number is exact. -/
theorem toRat_neg (hx : x.isFinite = true) :
    (-x).isFinite = true ∧ toRat (-x) = -toRat x := by
  have hisFinite : (-x).isFinite = (-x).toModel.unpack.isFinite := rfl
  have hfinite := isFinite_unpack hx
  rw [hisFinite, toRat, toRat, unpack_neg (isNaN_of_isFinite hx)]
  generalize x.toModel.unpack = u at hfinite ⊢
  cases hfinite with
  | zero s => exact ⟨rfl, neg_zero.symm⟩
  | finite s hm h he => exact ⟨rfl, signed_neg s _⟩

/-! ## Rounding next to exact numbers -/

theorem abs_toRat_lt (hx : x.isFinite = true) : |toRat x| < overflow :=
  (roundsTo_toRat hx).isFinite_iff.mp hx

/-- **Finite numbers bound what is rounded between them.** -/
theorem RoundsTo.between (h : RoundsTo q y) (hx : x.isFinite = true) (hz : z.isFinite = true)
    (hxq : toRat x ≤ q) (hqz : q ≤ toRat z) :
    y.isFinite = true ∧ toRat x ≤ toRat y ∧ toRat y ≤ toRat z := by
  have hxy := (roundsTo_toRat hx).le h hxq
  have hyz := h.le (roundsTo_toRat hz) hqz
  have hy := isFinite_of_le hx hz hxy hyz
  exact ⟨hy, (le_iff_toRat_le hx hy).mp hxy, (le_iff_toRat_le hy hz).mp hyz⟩

/-- The powers of two are numbers. -/
theorem exists_toRat_two_zpow {k : ℤ} (hlow : -1074 ≤ k) (hhigh : k < 1024) :
    ∃ x : Float, x.isFinite = true ∧ toRat x = 2 ^ k := by
  have hlt : |((1 : ℤ) : ℚ) * 2 ^ k| < 2 ^ 1024 := by
    rw [Int.cast_one, one_mul, abs_of_pos (zpow_pos (by decide) _)]
    exact zpow_lt_zpow_right₀ one_lt_two hhigh
  rcases exists_toRat_eq (by decide) hlow hlt with ⟨x, hx, hvalue⟩
  rw [Int.cast_one, one_mul] at hvalue
  exact ⟨x, hx, hvalue⟩

/-- What lies between powers of two does so after rounding. -/
theorem RoundsTo.between_two_zpow (h : RoundsTo q y) {j k : ℤ} (hj : -1074 ≤ j) (hk : k < 1024)
    (hle : 2 ^ j ≤ q) (hle' : q ≤ 2 ^ k) :
    y.isFinite = true ∧ 2 ^ j ≤ toRat y ∧ toRat y ≤ 2 ^ k := by
  have hjk : j ≤ k := (zpow_le_zpow_iff_right₀ one_lt_two).mp (hle.trans hle')
  rcases exists_toRat_two_zpow hj (hjk.trans_lt hk) with ⟨x, hx, hx'⟩
  rcases exists_toRat_two_zpow (hj.trans hjk) hk with ⟨z, hz, hz'⟩
  rw [← hx'] at hle ⊢
  rw [← hz'] at hle' ⊢
  exact h.between hx hz hle hle'

/-- An exact number is its own rounding. -/
theorem RoundsTo.toRat_eq (h : RoundsTo q y) (hx : x.isFinite = true) (hq : toRat x = q) :
    y.isFinite = true ∧ toRat y = q := by
  rcases h.between hx hx hq.le hq.ge with ⟨hy, hle, hge⟩
  exact ⟨hy, (le_antisymm hge hle).trans hq⟩

/-- Small integers are converted exactly. -/
theorem toRat_uInt64 {n : UInt64} (hn : n.toNat ≤ 2 ^ 53) :
    n.toFloat.isFinite = true ∧ toRat n.toFloat = n.toNat := by
  have hnatAbs : (n.toNat : ℤ).natAbs ≤ 2 ^ 53 := by rwa [Int.natAbs_natCast]
  have hcast : (n.toNat : ℚ) ≤ 2 ^ 53 := by exact_mod_cast hn
  have hlt : |((n.toNat : ℤ) : ℚ) * 2 ^ (0 : ℤ)| < 2 ^ 1024 := by
    rw [zpow_zero, mul_one, Int.cast_natCast, abs_of_nonneg (Nat.cast_nonneg _)]
    exact hcast.trans_lt (pow_lt_pow_right₀ one_lt_two (by decide))
  rcases exists_toRat_eq hnatAbs (by decide) hlt with ⟨x, hx, hvalue⟩
  rw [zpow_zero, mul_one, Int.cast_natCast] at hvalue
  exact (roundsTo_uInt64 n).toRat_eq hx hvalue

/-! ## Infinity -/

theorem overflow_pos : 0 < overflow :=
  sub_pos.mpr (pow_lt_pow_right₀ one_lt_two (by decide))

theorem unpack_of_infinitePlace_le (hx : x.isNaN = false) (h : infinitePlace ≤ index x) :
    x.toModel.unpack = .infinity .positive := by
  have hnumber := isNumber_toModel_unpack hx
  have hpos := infinitePlace_pos
  unfold index at h
  generalize x.toModel.unpack = u at *
  cases hnumber with
  | infinity s =>
    cases s with
    | negative =>
      simp only [unpackedIndex, Sign.apply] at h
      omega
    | positive => rfl
  | zero s =>
    simp only [unpackedIndex] at h
    omega
  | @finite s m e hm hc he =>
    have hlt := (placeOf_lt_infinitePlace_iff hc).mpr he
    cases s <;>
    · simp only [unpackedIndex, Sign.apply] at h
      omega

/-- What is too large becomes infinite. -/
theorem RoundsTo.unpack_of_overflow (h : RoundsTo q x) (hq : overflow ≤ q) :
    x.toModel.unpack = .infinity .positive := by
  rcases h with ⟨hnan, s, a, n, rfl, ha, hindex⟩
  have hpos := nonneg_of_encloses ha
  refine unpack_of_infinitePlace_le hnan ?_
  cases s with
  | negative => exact absurd (hq.trans (neg_nonpos.mpr hpos)) overflow_pos.not_ge
  | positive =>
    have hplace := not_lt.mp (mt (lt_infinitePlace_iff ha).mp hq.not_gt)
    rw [hindex, min_eq_right hplace]
    rfl

/-- Nothing is above infinity, and finite numbers are below it. -/
theorem le_of_unpack_infinity (hx : x.isNaN = false) (hy : y.toModel.unpack = .infinity .positive) :
    x ≤ y ∧ (x.isFinite = true → x < y) ∧ y.isFinite = false := by
  have hnan : y.isNaN = false := congrArg UnpackedFloat.isNaN hy
  have hindex : index y = infinitePlace := congrArg unpackedIndex hy
  refine ⟨?_, fun hfinite => ?_, congrArg UnpackedFloat.isFinite hy⟩
  · rw [le_iff_index_le hx hnan, hindex]
    refine le_of_not_gt fun hlt => ?_
    have hsame : index x = infinitePlace := congrArg unpackedIndex (unpack_of_infinitePlace_le hx hlt.le)
    exact hlt.ne' hsame
  · have hplace := natAbs_index_lt hfinite
    rw [lt_iff_index_lt hx hnan, hindex]
    omega

/-! ## Multiples of powers of two -/

theorem overflow_lt : overflow < 2 ^ 1024 :=
  sub_lt_self _ (pow_pos two_pos _)

/-- **What is bounded by a multiple is so after rounding**, if the factor is a power of two. -/
theorem RoundsTo.toRat_le_mul_two_pow (h : RoundsTo q y) (hy : y.isFinite = true)
    (hx : x.isFinite = true) (hpos : 0 ≤ toRat x) {k : ℕ} (hle : q ≤ toRat x * 2 ^ k) :
    toRat y ≤ toRat x * 2 ^ k := by
  rcases exists_significand hx with ⟨m, e, hm, he, -, hvalue⟩
  have hmultiple : toRat x * 2 ^ k = m * 2 ^ (e + k) := by
    rw [hvalue, zpow_add₀ (by decide), zpow_natCast, mul_assoc]
  rcases lt_or_ge |(m : ℚ) * 2 ^ (e + k)| (2 ^ 1024) with hlt | hge
  · -- the multiple is a number itself
    rcases exists_toRat_eq hm.le (by omega) hlt with ⟨z, hz, hvalue'⟩
    rw [hmultiple, ← hvalue'] at hle ⊢
    exact (le_iff_toRat_le hy hz).mp (h.le (roundsTo_toRat hz) hle)
  · -- no finite number reaches the multiple
    rw [← hmultiple, abs_of_nonneg (mul_nonneg hpos (pow_nonneg zero_le_two k))] at hge
    calc toRat y ≤ |toRat y| := le_abs_self _
      _ ≤ overflow := (abs_toRat_lt hy).le
      _ ≤ 2 ^ 1024 := overflow_lt.le
      _ ≤ toRat x * 2 ^ k := hge

/-! ## Sums -/

/-- What finite numbers denote are multiples of the least positive number. -/
theorem exists_toRat_eq_mul (hx : x.isFinite = true) : ∃ k : ℤ, toRat x = k * 2 ^ (-1074 : ℤ) := by
  rcases exists_significand hx with ⟨k, e, -, he, -, hvalue⟩
  refine ⟨k * 2 ^ (e + 1074).toNat, ?_⟩
  have hsplit : e = ((e + 1074).toNat : ℤ) + -1074 := by omega
  have hpower : (2 : ℚ) ^ e = 2 ^ (e + 1074).toNat * 2 ^ (-1074 : ℤ) := by
    rw [← zpow_natCast, ← zpow_add₀ (by decide), ← hsplit]
  rw [hvalue, hpower, Int.cast_mul, Int.cast_pow, Int.cast_ofNat, mul_assoc]

theorem toRat_zero : toRat 0.0 = 0 := rfl

theorem roundsTo_zero : RoundsTo 0 0.0 :=
  toRat_zero ▸ roundsTo_toRat (x := 0.0) rfl

/-- **A sum is positive exactly if it is so before rounding.** -/
theorem add_pos_iff (hx : x.isFinite = true) (hy : y.isFinite = true) :
    0.0 < x + y ↔ 0 < toRat x + toRat y := by
  have hsum := roundsTo_add hx hy
  constructor
  · intro hlt
    refine lt_of_not_ge fun hle => ?_
    have hself := float_lt_of_lt_of_le roundsTo_zero.isNaN hlt (hsum.le roundsTo_zero hle)
    exact ((lt_iff_index_lt roundsTo_zero.isNaN roundsTo_zero.isNaN).mp hself).false
  · intro hpos
    -- the exact sum is not below the least positive number, which is its own rounding
    rcases exists_toRat_eq_mul hx with ⟨k, hk⟩
    rcases exists_toRat_eq_mul hy with ⟨k', hk'⟩
    rcases exists_toRat_two_zpow (le_refl (-1074)) (by decide) with ⟨z, hz, hleast⟩
    have hunit : (0 : ℚ) < 2 ^ (-1074 : ℤ) := zpow_pos (by decide) _
    have hexact : toRat x + toRat y = (k + k' : ℤ) * 2 ^ (-1074 : ℤ) := by
      rw [hk, hk', Int.cast_add, add_mul]
    have hcount : 1 ≤ k + k' := by
      rw [hexact, mul_pos_iff_of_pos_right hunit] at hpos
      exact_mod_cast hpos
    have hle : toRat z ≤ toRat x + toRat y := by
      rw [hleast, hexact]
      exact le_mul_of_one_le_left hunit.le (by exact_mod_cast hcount)
    have hzero_lt : (0.0 : Float) < z := by
      rw [lt_iff_toRat_lt rfl hz, toRat_zero, hleast]
      exact hunit
    exact float_lt_of_lt_of_le roundsTo_zero.isNaN hzero_lt ((roundsTo_toRat hz).le hsum hle)

/-- The last place of a number that is not large is not above one. -/
theorem zpow_le_one_of_significand {k e : ℤ} (hfull : 2 ^ 52 ≤ k.natAbs ∨ e = -1074)
    (h : |(k : ℚ) * 2 ^ e| ≤ 2 ^ 52) : (2 : ℚ) ^ e ≤ 1 := by
  rcases hfull with hfull | rfl
  · have hpower : (0 : ℚ) < 2 ^ e := zpow_pos (by decide) e
    have habs : (2 : ℚ) ^ 52 ≤ |(k : ℚ)| := by
      rw [← Int.cast_abs, Int.abs_eq_natAbs]
      exact_mod_cast hfull
    rw [abs_mul, abs_of_pos hpower] at h
    refine le_of_not_gt fun hgt => h.not_gt ?_
    calc (2 : ℚ) ^ 52 = 2 ^ 52 * 1 := (mul_one _).symm
      _ < |(k : ℚ)| * 2 ^ e := mul_lt_mul' habs hgt zero_le_one (habs.trans_lt' (by decide))
  · exact zpow_le_one_of_nonpos₀ one_le_two (by decide)

/-- **One more is more**, as long as the last place is not above one. -/
theorem lt_add_of_one_le (hx : x.isFinite = true) (hy : y.isFinite = true)
    (hsmall : |toRat x| ≤ 2 ^ 52) (hone : 1 ≤ toRat y) : x < x + y := by
  have hsum := roundsTo_add hx hy
  rcases exists_significand hx with ⟨k, e, hk, he, hfull, hvalue⟩
  have hpower : (0 : ℚ) < 2 ^ e := zpow_pos (by decide) e
  have hunit : (2 : ℚ) ^ e ≤ 1 := zpow_le_one_of_significand hfull (hvalue ▸ hsmall)
  have hnext : ((k + 1 : ℤ) : ℚ) * 2 ^ e = toRat x + 2 ^ e := by
    rw [hvalue, Int.cast_add, Int.cast_one, add_mul, one_mul]
  have hlt : |((k + 1 : ℤ) : ℚ) * 2 ^ e| < 2 ^ 1024 := by
    rw [hnext]
    calc |toRat x + 2 ^ e| ≤ |toRat x| + |(2 : ℚ) ^ e| := abs_add_le _ _
      _ ≤ 2 ^ 52 + 1 := add_le_add hsmall ((abs_of_pos hpower).trans_le hunit)
      _ < 2 ^ 53 := by norm_num
      _ < 2 ^ 1024 := pow_lt_pow_right₀ one_lt_two (by decide)
  -- the next number with the same last place lies between them
  rcases exists_toRat_eq (by omega) he hlt with ⟨z, hz, hvalue'⟩
  have hxz : x < z := by
    rw [lt_iff_toRat_lt hx hz, hvalue', hnext]
    exact lt_add_of_pos_right _ hpower
  have hzy : z ≤ x + y := by
    refine (roundsTo_toRat hz).le hsum ?_
    rw [hvalue', hnext]
    exact add_le_add_right (hunit.trans hone) _
  exact float_lt_of_lt_of_le (isNaN_of_isFinite hx) hxz hzy

end PowerCurve.Decimal
