import PowerCurve.Decimal.Numeral
import PowerCurve.Proofs.Decimal.Exact

/-!
# The number nearest to a magnitude

Correct rounding leaves nothing open but the sign of a zero. So there is just one number that is
nearest to a magnitude and has a given sign (`IsNearest.unique`), and its negative is nearest with
the other sign (`IsNearest.neg`). What is too large is nearest to infinity and what is too small to
zero (`isNearest_infinity`, `isNearest_zero`). No finite number is nearer to what is rounded than the
result (`RoundsTo.abs_sub_le`).
-/

namespace PowerCurve.Decimal

open Float.Model Float.Model.UnpackedFloat

variable {x y : Float} {q : ℚ}

/-! ## Signs -/

/-- Whether the sign bit of a number is set. -/
def signBit (x : Float) : Bool :=
  decide (2 ^ 63 ≤ x.toBits.toNat)

/-- The sign of a number that is taken apart. -/
def signOf : UnpackedFloat → Sign
  | .infinity s => s
  | .zero s => s
  | .finite s _ _ _ => s
  | .notANumber => .positive

/-- Places count magnitudes, and the sign is apart from them. -/
theorem IsNumber.eq_of_index_eq {u v : UnpackedFloat} (hu : IsNumber u) (hv : IsNumber v)
    (h : unpackedIndex u = unpackedIndex v)
    (hsign : signOf u = .negative ↔ signOf v = .negative) : u = v := by
  have hs {s s' : Sign} (h : s = .negative ↔ s' = .negative) : s = s' := by
    cases s <;> cases s' <;> simp_all
  have hplace := congrArg Int.natAbs h
  cases hu with
  | infinity s =>
    rw [natAbs_index_infinity] at hplace
    cases hv with
    | infinity s' => exact congrArg _ (hs hsign)
    | zero s' => exact absurd hplace infinitePlace_pos.ne'
    | finite s' hm' h' he' =>
      rw [natAbs_index_finite] at hplace
      exact absurd hplace ((placeOf_lt_infinitePlace_iff h').mpr he').ne'
  | zero s =>
    cases hv with
    | infinity s' =>
      rw [natAbs_index_infinity] at hplace
      exact absurd hplace infinitePlace_pos.ne
    | zero s' => exact congrArg _ (hs hsign)
    | finite s' hm' h' he' =>
      rw [natAbs_index_finite] at hplace
      exact absurd hplace (placeOf_pos hm' _).ne
  | @finite s m e hm hc he =>
    rw [natAbs_index_finite] at hplace
    cases hv with
    | infinity s' =>
      rw [natAbs_index_infinity] at hplace
      exact absurd hplace ((placeOf_lt_infinitePlace_iff hc).mpr he).ne
    | zero s' => exact absurd hplace (placeOf_pos hm _).ne'
    | @finite s' m' e' hm' hc' he' =>
      rw [natAbs_index_finite] at hplace
      rcases placeOf_inj hc hc' hplace with ⟨rfl, rfl⟩
      obtain rfl : s = s' := hs hsign
      rfl

theorem signOf_unpack {b : BitVec Format.binary64.numBits}
    (h : (UnpackedFloat.unpack .binary64 b).isNaN = false) :
    signOf (UnpackedFloat.unpack .binary64 b) = .ofBitVec (unpackSign b) := by
  unfold UnpackedFloat.unpack at h ⊢
  dsimp only at h ⊢
  split at h
  · next hall =>
    rw [if_pos hall]
    split at h
    · next hzero =>
      rw [if_pos hzero]
      rfl
    · cases h
  · next hall =>
    rw [if_neg hall]
    split
    · split <;> rfl
    · rfl

theorem ofBitVec_unpackSign {b : BitVec Format.binary64.numBits} :
    Sign.ofBitVec (unpackSign b) = .negative ↔ 2 ^ 63 ≤ b.toNat := by
  have hlt : b.toNat < 2 ^ 64 := b.isLt
  have hbit : (unpackSign b).toNat = b.toNat / 2 ^ 63 % 2 := by
    rw [unpackSign_def, BitVec.extractLsb'_toNat, Nat.shiftRight_eq_div_pow]
    rfl
  have hzero : unpackSign b = 0#1 ↔ b.toNat / 2 ^ 63 % 2 = 0 := by
    rw [← BitVec.toNat_inj, hbit, BitVec.toNat_ofNat]
  rw [Sign.ofBitVec]
  split
  · next h =>
    have hbit := hzero.mp h
    exact iff_of_false nofun (by omega)
  · next h =>
    have hbit := mt hzero.mpr h
    exact iff_of_true rfl (by omega)

theorem signOf_unpack_eq_negative_iff {b : BitVec Format.binary64.numBits}
    (h : (UnpackedFloat.unpack .binary64 b).isNaN = false) :
    signOf (UnpackedFloat.unpack .binary64 b) = .negative ↔ 2 ^ 63 ≤ b.toNat := by
  rw [signOf_unpack h, ofBitVec_unpackSign]

theorem signBit_iff (hx : x.isNaN = false) :
    signBit x = true ↔ signOf x.toModel.unpack = .negative := by
  rw [signBit, decide_eq_true_iff]
  exact (signOf_unpack_eq_negative_iff hx).symm

theorem eq_of_unpack_eq (h : x.toModel.unpack = y.toModel.unpack) : x = y := by
  rw [← Float.toBits_inj, ← UInt64.toBitVec_inj]
  exact (unpack_inj_of_valid x.toModel.valid y.toModel.valid).mp h

/-- A number is its place and its sign. -/
theorem eq_of_index_eq (hx : x.isNaN = false) (hy : y.isNaN = false) (h : index x = index y)
    (hsign : signBit x = signBit y) : x = y := by
  have hsign' : signOf x.toModel.unpack = .negative ↔ signOf y.toModel.unpack = .negative := by
    rw [← signBit_iff hx, ← signBit_iff hy, hsign]
  exact eq_of_unpack_eq
    ((isNumber_toModel_unpack hx).eq_of_index_eq (isNumber_toModel_unpack hy) h hsign')

theorem unpack_of_isNaN (hx : x.isNaN = true) : x.toModel.unpack = .notANumber := by
  have hnan : x.toModel.unpack.isNaN = true := hx
  cases hu : x.toModel.unpack with
  | notANumber => rfl
  | _ =>
    rw [hu] at hnan
    cases hnan

/-- There is only one value that is not a number. -/
theorem eq_of_isNaN (hx : x.isNaN = true) (hy : y.isNaN = true) : x = y :=
  eq_of_unpack_eq ((unpack_of_isNaN hx).trans (unpack_of_isNaN hy).symm)

theorem unpack_of_isInf (hx : x.isInf = true) :
    x.toModel.unpack = .infinity (if signBit x then .negative else .positive) := by
  have hinf : x.toModel.unpack.isInf = true := hx
  cases hu : x.toModel.unpack with
  | infinity s =>
    have hnan : x.isNaN = false := congrArg UnpackedFloat.isNaN hu
    have hsign := signBit_iff hnan
    rw [hu] at hsign
    cases s with
    | negative => rw [if_pos (hsign.mpr rfl)]
    | positive => rw [if_neg (mt hsign.mp nofun)]
  | _ =>
    rw [hu] at hinf
    cases hinf

/-- Infinities are told apart by their sign. -/
theorem eq_of_isInf (hx : x.isInf = true) (hy : y.isInf = true) (hsign : signBit x = signBit y) :
    x = y := by
  refine eq_of_unpack_eq ((unpack_of_isInf hx).trans ?_)
  rw [hsign]
  exact (unpack_of_isInf hy).symm

/-! ## The number nearest to a magnitude -/

/-- A number is the correctly rounded magnitude and has the sign, which says more than rounding only
for a zero. -/
structure IsNearest (negative : Bool) (q : ℚ) (x : Float) : Prop where
  roundsTo : RoundsTo (if negative then -q else q) x
  signBit_eq : signBit x = negative

theorem RoundsTo.index_eq (h : RoundsTo q x) (h' : RoundsTo q y) : index x = index y :=
  le_antisymm ((le_iff_index_le h.isNaN h'.isNaN).mp (h.le h' le_rfl))
    ((le_iff_index_le h'.isNaN h.isNaN).mp (h'.le h le_rfl))

/-- **There is only one nearest number.** -/
theorem IsNearest.unique {negative : Bool} (h : IsNearest negative q x)
    (h' : IsNearest negative q y) : x = y :=
  eq_of_index_eq h.roundsTo.isNaN h'.roundsTo.isNaN (h.roundsTo.index_eq h'.roundsTo)
    (h.signBit_eq.trans h'.signBit_eq.symm)

theorem signBit_eq_false (hx : x.isNaN = false) (hsign : signOf x.toModel.unpack = .positive) :
    signBit x = false := by
  rw [← Bool.not_eq_true, signBit_iff hx, hsign]
  exact nofun

/-- What is rounded with a positive sign keeps it, even as a zero. -/
theorem IsNearest.of_rounded {u : UnpackedFloat} (h : Rounded .positive q u)
    (hx : x.toModel.unpack = UnpackedFloat.unpack .binary64 (UnpackedFloat.pack .binary64 u)) :
    IsNearest false q x := by
  have hrounds : RoundsTo q x := .of_unpacked ⟨.positive, q, rfl, h⟩ hx
  refine ⟨hrounds, signBit_eq_false hrounds.isNaN ?_⟩
  rw [hx]
  cases h with
  | zero h => rfl
  | @finite m e hm hc h =>
    rw [unpack_pack_finite .positive hm hc]
    split <;> rfl

/-- A positive number is rounded with a positive sign. -/
theorem IsNearest.of_roundedTo {u : UnpackedFloat} (h : RoundedTo q u) (hq : 0 < q)
    (hx : x.toModel.unpack = UnpackedFloat.unpack .binary64 (UnpackedFloat.pack .binary64 u)) :
    IsNearest false q x := by
  rcases h with ⟨s, a, rfl, hrounded⟩
  cases s with
  | negative =>
    have hpos : 0 ≤ a := by
      cases hrounded with
      | zero h => exact nonneg_of_encloses h
      | finite hm hc h => exact nonneg_of_encloses h
    exact absurd (neg_nonpos.mpr hpos) hq.not_ge
  | positive => exact .of_rounded hrounded hx

/-! ## Negatives -/

theorem apply_neg (s : Sign) (n : ℤ) : (-s).apply n = -s.apply n := by
  cases s with
  | negative => exact (neg_neg n).symm
  | positive => rfl

theorem IsNumber.index_neg {u : UnpackedFloat} (h : IsNumber u) :
    unpackedIndex (UnpackedFloat.neg u) = -unpackedIndex u := by
  cases h with
  | infinity s => exact apply_neg s _
  | zero s => rfl
  | finite s hm h he => exact apply_neg s _

theorem RoundsTo.neg (h : RoundsTo q x) : RoundsTo (-q) (-x) := by
  have hnumber := isNumber_toModel_unpack h.isNaN
  rcases h with ⟨hnan, s, a, n, rfl, ha, hindex⟩
  have hunpack := unpack_neg hnan
  refine ⟨?_, -s, a, n, (signed_neg s a).symm, ha, ?_⟩
  · have hnan' : (-x).isNaN = (-x).toModel.unpack.isNaN := rfl
    rw [hnan', hunpack]
    exact hnumber.neg.isNaN
  · rw [apply_neg, ← hindex, index, hunpack]
    exact hnumber.index_neg

theorem IsNumber.signOf_neg {u : UnpackedFloat} (h : IsNumber u) :
    signOf (UnpackedFloat.neg u) = -signOf u := by
  cases h <;> rfl

/-- The negative of the nearest number is nearest with the other sign. -/
theorem IsNearest.neg (h : IsNearest false q x) : IsNearest true q (-x) := by
  have hrounds := h.roundsTo.neg
  refine ⟨hrounds, (signBit_iff hrounds.isNaN).mpr ?_⟩
  have hsign : signOf x.toModel.unpack ≠ .negative := by
    refine mt (signBit_iff h.roundsTo.isNaN).mpr ?_
    rw [h.signBit_eq]
    exact Bool.false_ne_true
  rw [unpack_neg h.roundsTo.isNaN, (isNumber_toModel_unpack h.roundsTo.isNaN).signOf_neg]
  cases hs : signOf x.toModel.unpack with
  | negative => exact absurd hs hsign
  | positive => rfl

/-- Negative zero is neutral for the addition of all numbers, and of what is not a number. -/
theorem neg_zero_add (x : Float) : -0.0 + x = x := by
  have hadd : (-0.0 + x).toModel.unpack = UnpackedFloat.unpack .binary64
      (UnpackedFloat.pack .binary64
        (UnpackedFloat.add .binary64 (.zero .negative) x.toModel.unpack)) := rfl
  refine eq_of_unpack_eq (hadd.trans ?_)
  cases hx : x.isNaN with
  | true =>
    rw [unpack_of_isNaN hx]
    rfl
  | false =>
    have hnumber := isNumber_toModel_unpack hx
    have hneutral : UnpackedFloat.add .binary64 (.zero .negative) x.toModel.unpack =
        x.toModel.unpack := by
      generalize x.toModel.unpack = u at hnumber ⊢
      cases hnumber with
      | zero s => cases s <;> rfl
      | infinity s => rfl
      | finite s hm h he => rfl
    rw [hneutral]
    exact hnumber.unpack_pack

/-! ## Magnitudes beyond all numbers -/

theorem unpack_infinity : infinity.toModel.unpack = .infinity .positive := rfl

theorem signBit_infinity : signBit infinity = false := rfl

/-- Every magnitude has its place. -/
theorem exists_encloses (hq : 0 ≤ q) : ∃ n, (magnitude n).Encloses q := by
  rcases hq.lt_or_eq with hpos | rfl
  · have hnum : 0 < q.num.toNat := by
      have := Rat.num_pos.mpr hpos
      omega
    have hrounded := rounded_div .positive .positive 0 0 hnum q.den_pos
    have hquotient : (q.num.toNat : ℚ) * 2 ^ (0 : ℤ) / (q.den * 2 ^ (0 : ℤ)) = q := by
      have hcast : ((q.num.toNat : ℤ) : ℚ) = q.num :=
        congrArg Int.cast (Int.toNat_of_nonneg (Rat.num_nonneg.mpr hq))
      rw [zpow_zero, mul_one, mul_one, ← Int.cast_natCast, hcast, Rat.num_div_den]
    rw [hquotient] at hrounded
    generalize UnpackedFloat.div .binary64 _ _ = u at hrounded
    cases hrounded with
    | zero h => exact ⟨_, h⟩
    | finite hm hc h => exact ⟨_, h⟩
  · exact ⟨0, encloses_zero⟩

/-- Nothing but infinity is nearest to what is too large. -/
theorem isNearest_infinity (hq : overflow ≤ q) : IsNearest false q infinity := by
  rcases exists_encloses (overflow_pos.le.trans hq) with ⟨n, hn⟩
  have hplace := not_lt.mp (mt (lt_infinitePlace_iff hn).mp hq.not_gt)
  refine ⟨⟨rfl, .positive, q, n, rfl, hn, ?_⟩, signBit_infinity⟩
  rw [min_eq_right hplace, index, unpack_infinity]
  rfl

/-- What is at most half the least positive number is nearest to zero. -/
theorem isNearest_zero (hq : 0 ≤ q) (hle : q ≤ 2 ^ (-1075 : ℤ)) : IsNearest false q 0.0 := by
  have hencloses : (magnitude 0).Encloses q := by
    refine encloses_of_le_top canonical_zero ?_ ?_ nofun
    · rwa [Nat.cast_zero, zero_mul]
    · rwa [Nat.cast_zero, mul_zero, zero_add, one_mul]
  exact ⟨⟨rfl, .positive, q, 0, rfl, hencloses, rfl⟩, rfl⟩

/-! ## Distances -/

theorem exists_placeOf_eq (n : ℕ) : ∃ m e, Canonical m e ∧ placeOf m e = n := by
  rcases lt_or_ge n (2 ^ 52) with hlow | hfull
  · exact ⟨n, -1074, ⟨by omega, le_rfl, .inr rfl⟩, by rw [placeOf]; omega⟩
  · refine ⟨2 ^ 52 + n % 2 ^ 52, n / 2 ^ 52 - 1 - 1074, ⟨by omega, by omega, .inl (by omega)⟩, ?_⟩
    rw [placeOf]
    omega

theorem exact_lt_succ (n : ℕ) : (magnitude n).exact.toRat < (magnitude (n + 1)).exact.toRat := by
  rcases exists_placeOf_eq n with ⟨m, e, hc, rfl⟩
  rw [toRat_magnitude hc, toRat_magnitude_succ hc]
  exact mul_lt_mul_of_pos_right (lt_add_one _) (zpow_pos two_pos e)

theorem exact_mono {n n' : ℕ} (h : n ≤ n') :
    (magnitude n).exact.toRat ≤ (magnitude n').exact.toRat :=
  (strictMono_nat_of_lt_succ exact_lt_succ).monotone h

/-- An interval ends in the middle between its number and the next one. -/
theorem two_mul_top (n : ℕ) :
    2 * (magnitude n).top = (magnitude n).exact.toRat + (magnitude (n + 1)).exact.toRat := by
  rcases exists_placeOf_eq n with ⟨m, e, hc, rfl⟩
  rw [toRat_magnitude hc, toRat_magnitude_succ hc, top_magnitude hc, ← two_mul_zpow e]
  ring

theorem abs_exact_sub_le {n : ℕ} {a : ℚ} (h : (magnitude n).Encloses a) (n' : ℕ) :
    |(magnitude n).exact.toRat - a| ≤ |(magnitude n').exact.toRat - a| := by
  rcases lt_trichotomy n' n with hlt | rfl | hgt
  · -- the number before this one is not nearer, and the others are before that
    obtain ⟨k, rfl⟩ : ∃ k, n = k + 1 := ⟨n - 1, by omega⟩
    have hbottom : (magnitude k).top ≤ a := (Magnitude.top_nth k).trans_le h.bottom_le
    have hmiddle := two_mul_top k
    have hstep := exact_lt_succ k
    have hfar := exact_mono (Nat.le_of_lt_succ hlt)
    calc |(magnitude (k + 1)).exact.toRat - a| ≤ a - (magnitude k).exact.toRat := by
          rw [abs_le]
          constructor <;> linarith
      _ ≤ a - (magnitude n').exact.toRat := sub_le_sub_left hfar a
      _ ≤ |(magnitude n').exact.toRat - a| := by
          rw [abs_sub_comm]
          exact le_abs_self _
  · exact le_rfl
  · have htop := h.le_top
    have hmiddle := two_mul_top n
    have hstep := exact_lt_succ n
    have hfar := exact_mono (Nat.succ_le_of_lt hgt)
    calc |(magnitude n).exact.toRat - a| ≤ (magnitude (n + 1)).exact.toRat - a := by
          rw [abs_le]
          constructor <;> linarith
      _ ≤ (magnitude n').exact.toRat - a := sub_le_sub_right hfar a
      _ ≤ |(magnitude n').exact.toRat - a| := le_abs_self _

/-- What a finite number denotes, from its place. -/
theorem toRat_of_index (hx : x.isFinite = true) {s : Sign} {n : ℕ} (h : index x = s.apply n) :
    toRat x = signed s (magnitude n).exact.toRat := by
  rw [toRat_eq hx, h, natAbs_apply]
  rcases n.eq_zero_or_pos with rfl | hn
  · rw [exact_zero, mul_zero, signed_zero]
  · have hsign : (n : ℤ).sign = 1 := Int.sign_eq_one_of_pos (Int.natCast_pos.mpr hn)
    cases s with
    | negative =>
      rw [Sign.apply, Int.sign_neg, hsign, Int.cast_neg, Int.cast_one, neg_one_mul]
      rfl
    | positive =>
      rw [Sign.apply, hsign, Int.cast_one, one_mul]
      rfl

theorem exists_index_eq (x : Float) : ∃ (s : Sign) (n : ℕ), index x = s.apply n := by
  rcases Int.natAbs_eq (index x) with hpos | hneg
  · exact ⟨.positive, _, hpos⟩
  · exact ⟨.negative, _, hneg⟩

/-- **No finite number is nearer** than the one that is rounded to. -/
theorem RoundsTo.abs_sub_le (h : RoundsTo q x) (hx : x.isFinite = true) (hy : y.isFinite = true) :
    |toRat x - q| ≤ |toRat y - q| := by
  have hplace := natAbs_index_lt hx
  rcases h with ⟨hnan, s, a, n, rfl, ha, hindex⟩
  rw [hindex, natAbs_apply] at hplace
  rw [min_eq_left (by omega)] at hindex
  rcases exists_index_eq y with ⟨s', n', hindex'⟩
  have hexact (k : ℕ) : 0 ≤ (magnitude k).exact.toRat :=
    exact_zero.symm.trans_le (exact_mono k.zero_le)
  rw [toRat_of_index hx hindex, toRat_of_index hy hindex']
  calc |signed s (magnitude n).exact.toRat - signed s a| = |(magnitude n).exact.toRat - a| := by
        cases s with
        | negative => exact (congrArg _ (neg_sub_neg _ _)).trans (abs_sub_comm _ _)
        | positive => rfl
    _ ≤ |(magnitude n').exact.toRat - a| := abs_exact_sub_le ha n'
    _ = |(|signed s' (magnitude n').exact.toRat| - |signed s a|)| := by
        rw [abs_signed (hexact n'), abs_signed (nonneg_of_encloses ha)]
    _ ≤ |signed s' (magnitude n').exact.toRat - signed s a| := abs_abs_sub_abs_le _ _

end PowerCurve.Decimal
