import Mathlib
import PowerCurve.Proofs.Decimal.Neighbours
import PowerCurve.Proofs.Decimal.Order

/-!
# Places of the built-in numbers

A number that is taken apart has as many bits as there is room for unless its exponent is the lowest
(`Canonical`, `isNumber_unpack`), so its significand and its exponent tell its place among the
magnitudes. Places with a sign count the numbers in their order (`lt_iff_index_lt`,
`le_iff_index_le`). Packing keeps the place, except that there is nothing beyond the infinities
(`unpack_pack_finite`).
-/

namespace PowerCurve.Decimal

open Float.Model Float.Model.UnpackedFloat

/-! ## Significands and exponents -/

/-- A significand with an exponent as the built-in numbers have them. -/
structure Canonical (m : ℕ) (e : ℤ) : Prop where
  lt : m < 2 ^ 53
  lowest_le : -1074 ≤ e
  full : 2 ^ 52 ≤ m ∨ e = -1074

theorem canonical_zero : Canonical 0 (-1074) :=
  ⟨by decide, le_rfl, .inr rfl⟩

/-- The place of a magnitude among the magnitudes of 64-bit numbers. -/
def placeOf (m : ℕ) (e : ℤ) : ℕ :=
  2 ^ 52 * (e + 1074).toNat + m

/-- The magnitude in a place. -/
def magnitude (n : ℕ) : Magnitude :=
  .nth 52 (-1074) n

/-- The place of the infinities, behind the greatest number. -/
def infinitePlace : ℕ :=
  2 ^ 52 * 2047

theorem magnitude_placeOf {m : ℕ} {e : ℤ} (h : Canonical m e) :
    magnitude (placeOf m e) = ⟨m, e, decide (m = 2 ^ 52 ∧ -1074 < e)⟩ := by
  have hlow := h.lowest_le
  rcases lt_or_ge m (2 ^ 52) with hm | hm
  · -- only the lowest exponent goes with fewer bits
    have he : e = -1074 := h.full.resolve_left (Nat.not_le.mpr hm)
    subst he
    have hhalf : decide (m = 2 ^ 52 ∧ (-1074 : ℤ) < -1074) = false := by simp
    rw [magnitude, placeOf, Magnitude.nth_eq_ofFields hm, hhalf]
    exact Magnitude.ofFields_zero m
  · have hlt := h.lt
    have hplace : placeOf m e = 2 ^ 52 * ((e + 1074).toNat + 1) + (m - 2 ^ 52) := by
      rw [placeOf]
      omega
    have hfraction : m - 2 ^ 52 < 2 ^ 52 := by omega
    have hsignificand : 2 ^ 52 + (m - 2 ^ 52) = m := Nat.add_sub_cancel' hm
    have hexponent : -1074 + ((e + 1074).toNat : ℤ) = e := by omega
    have hhalf : (m - 2 ^ 52 = 0 ∧ 0 < (e + 1074).toNat) ↔ (m = 2 ^ 52 ∧ -1074 < e) := by omega
    rw [magnitude, hplace, Magnitude.nth_eq_ofFields hfraction, Magnitude.ofFields_succ,
      hsignificand, hexponent, decide_eq_decide.mpr hhalf]

theorem placeOf_lt_infinitePlace_iff {m : ℕ} {e : ℤ} (h : Canonical m e) :
    placeOf m e < infinitePlace ↔ e ≤ 971 := by
  rcases h with ⟨hlt, hlow, hfull⟩
  rw [placeOf, infinitePlace]
  omega

/-- Places count exponents first. -/
theorem placeOf_lt_iff {m m' : ℕ} {e e' : ℤ} (h : Canonical m e) (h' : Canonical m' e') :
    placeOf m e < placeOf m' e' ↔ e < e' ∨ (e = e' ∧ m < m') := by
  rcases h with ⟨hlt, hlow, hfull⟩
  rcases h' with ⟨hlt', hlow', hfull'⟩
  rw [placeOf, placeOf]
  omega

theorem placeOf_inj {m m' : ℕ} {e e' : ℤ} (h : Canonical m e) (h' : Canonical m' e')
    (heq : placeOf m e = placeOf m' e') : m = m' ∧ e = e' := by
  have hlt := placeOf_lt_iff h h'
  have hgt := placeOf_lt_iff h' h
  omega

theorem placeOf_pos {m : ℕ} (hm : 0 < m) (e : ℤ) : 0 < placeOf m e :=
  Nat.add_pos_right _ hm

/-! ## Numbers that are taken apart -/

/-- The numbers that are taken apart from bits. -/
inductive IsNumber : UnpackedFloat → Prop where
  | infinity (s : Sign) : IsNumber (.infinity s)
  | zero (s : Sign) : IsNumber (.zero s)
  | finite (s : Sign) {m : ℕ} {e : ℤ} (hm : 0 < m) (h : Canonical m e) (he : e ≤ 971) :
      IsNumber (.finite s m e hm)

/-- The place of a number among all numbers, with its sign. Both zeros are in the middle. -/
def unpackedIndex : UnpackedFloat → ℤ
  | .infinity s => s.apply infinitePlace
  | .finite s m e _ => s.apply (placeOf m e)
  | .zero _ => 0
  | .notANumber => 0

theorem natAbs_apply (s : Sign) (n : ℕ) : (s.apply (n : ℤ)).natAbs = n := by
  cases s with
  | negative => exact (Int.natAbs_neg _).trans (Int.natAbs_natCast n)
  | positive => exact Int.natAbs_natCast n

theorem natAbs_index_infinity (s : Sign) : (unpackedIndex (.infinity s)).natAbs = infinitePlace :=
  natAbs_apply s _

theorem natAbs_index_finite (s : Sign) {m : ℕ} {e : ℤ} (hm : 0 < m) :
    (unpackedIndex (.finite s m e hm)).natAbs = placeOf m e :=
  natAbs_apply s _

theorem infinitePlace_pos : 0 < infinitePlace := by
  decide

theorem rank_lt_iff_index_lt {a b : UnpackedFloat} (ha : IsNumber a) (hb : IsNumber b) :
    unpackedRank a < unpackedRank b ↔ unpackedIndex a < unpackedIndex b := by
  have hinf := infinitePlace_pos
  rcases ha with (_ | _) | _ | @⟨_ | _, m, e, hm, h, he⟩ <;>
    rcases hb with (_ | _) | _ | @⟨_ | _, m', e', hm', h', he'⟩ <;>
    simp only [unpackedRank, unpackedIndex, Sign.apply, Prod.Lex.toLex_lt_toLex]
  all_goals grind [placeOf_pos, → placeOf_lt_infinitePlace_iff, → placeOf_lt_iff]

theorem IsNumber.isFinite_iff {u : UnpackedFloat} (h : IsNumber u) :
    u.isFinite = true ↔ (unpackedIndex u).natAbs < infinitePlace := by
  cases h with
  | infinity s =>
    rw [natAbs_index_infinity]
    exact iff_of_false Bool.false_ne_true (lt_irrefl _)
  | zero s => exact iff_of_true rfl infinitePlace_pos
  | @finite s m e hm h he =>
    rw [natAbs_index_finite]
    exact iff_of_true rfl ((placeOf_lt_infinitePlace_iff h).mpr he)

theorem toNat_one_append {w : ℕ} (b : BitVec w) : (1#1 ++ b).toNat = 2 ^ w + b.toNat := by
  rw [BitVec.toNat_append, ← Nat.shiftLeft_add_eq_or_of_lt b.isLt, Nat.shiftLeft_eq]
  simp

/-- Bits are taken apart into a number or nothing. -/
theorem isNumber_unpack {b : BitVec Format.binary64.numBits}
    (h : (UnpackedFloat.unpack .binary64 b).isNaN = false) : IsNumber (UnpackedFloat.unpack .binary64 b) := by
  have hfraction : (unpackMantissa b).toNat < 2 ^ 52 := (unpackMantissa b).isLt
  have hfield : (unpackExponent b).toNat < 2 ^ 11 := (unpackExponent b).isLt
  have hsignificand : (1#1 ++ unpackMantissa b).toNat = 2 ^ 52 + (unpackMantissa b).toNat :=
    toNat_one_append _
  have hbias : (Format.binary64.exponentBias : ℤ) + (52 : ℕ) = 1075 := rfl
  unfold UnpackedFloat.unpack at h ⊢
  simp only [hbias] at h ⊢
  split at h
  · next hall =>
    rw [if_pos hall]
    split at h
    · next hzero =>
      rw [if_pos hzero]
      exact .infinity _
    · cases h
  · next hall =>
    rw [if_neg hall]
    split
    · next hlow =>
      have hlow' : (unpackExponent b).toNat = 0 := by rw [hlow, BitVec.toNat_zero]
      split
      · exact .zero _
      · exact .finite _ _ ⟨by omega, by omega, by omega⟩ (by omega)
    · next hlow =>
      have hall' : (unpackExponent b).toNat ≠ 2047 := fun heq => hall (BitVec.eq_of_toNat_eq heq)
      have hlow' : (unpackExponent b).toNat ≠ 0 := fun heq => hlow (BitVec.eq_of_toNat_eq heq)
      exact .finite _ _ ⟨by omega, by omega, by omega⟩ (by omega)

/-! ## Putting numbers together -/

theorem unpack_packedInfinity (s : Sign) :
    UnpackedFloat.unpack .binary64 (packedInfinity .binary64 s) = .infinity s := by
  cases s <;> rfl

theorem unpack_pack_zero (s : Sign) :
    UnpackedFloat.unpack .binary64 (UnpackedFloat.pack .binary64 (.zero s)) = .zero s := by
  cases s <;> rfl

/-- A number with the lowest exponent that does not have all its bits. -/
theorem unpack_packComponents_low (s : Sign) {m : ℕ} (hm : 0 < m) (hlt : m < 2 ^ 52) :
    UnpackedFloat.unpack .binary64 (packComponents .binary64 s 0#11 (BitVec.ofNat 52 m)) =
      .finite s m (-1074) hm := by
  have hfraction : (BitVec.ofNat 52 m).toNat = m := by
    rw [BitVec.toNat_ofNat, Nat.mod_eq_of_lt hlt]
  have hzero : BitVec.ofNat 52 m ≠ 0#52 := by
    intro heq
    rw [heq] at hfraction
    exact hm.ne hfraction
  unfold UnpackedFloat.unpack
  simp only [unpackExponent_packComponents, unpackMantissa_packComponents,
    unpackSign_packComponents, Sign.ofBitVec_toBitVec, hzero, hfraction]
  rfl

/-- A number that has all its bits. -/
theorem unpack_packComponents_full (s : Sign) {m field : ℕ} (hm : 0 < m) (hlt : m < 2 ^ 53)
    (hle : 2 ^ 52 ≤ m) (hfield : 0 < field) (hfield' : field < 2047) :
    UnpackedFloat.unpack .binary64
        (packComponents .binary64 s (BitVec.ofNat 11 field) (BitVec.ofNat 52 m)) =
      .finite s m (field - 1075) hm := by
  have hexponent : (BitVec.ofNat 11 field).toNat = field := by
    rw [BitVec.toNat_ofNat, Nat.mod_eq_of_lt (by omega)]
  have hall : BitVec.ofNat 11 field ≠ -1#11 := by
    intro heq
    rw [heq] at hexponent
    exact hfield'.ne' hexponent
  have hlow : BitVec.ofNat 11 field ≠ 0#11 := by
    intro heq
    rw [heq] at hexponent
    exact hfield.ne hexponent
  have hsignificand : (1#1 ++ BitVec.ofNat 52 m).toNat = m := by
    rw [toNat_one_append, BitVec.toNat_ofNat]
    omega
  unfold UnpackedFloat.unpack
  simp only [unpackExponent_packComponents, unpackMantissa_packComponents,
    unpackSign_packComponents, Sign.ofBitVec_toBitVec, hall, hlow, hexponent, hsignificand]
  rfl

/-- **What is put together from bits is the same number again**, or an infinity if it is too
large. -/
theorem unpack_pack_finite (s : Sign) {m : ℕ} {e : ℤ} (hm : 0 < m) (h : Canonical m e) :
    UnpackedFloat.unpack .binary64 (UnpackedFloat.pack .binary64 (.finite s m e hm)) =
      if e ≤ 971 then .finite s m e hm else .infinity s := by
  rcases h with ⟨hlt, hlow, hfull⟩
  have hbias : e + (Format.binary64.exponentBias : ℤ) + (52 : ℕ) = e + 1075 := by
    rw [add_assoc]
    rfl
  rw [UnpackedFloat.pack]
  simp only [hbias]
  by_cases he : e ≤ 971
  · rw [if_pos he, if_neg (by omega)]
    rcases lt_or_ge m (2 ^ 52) with hm' | hm'
    · obtain rfl := hfull.resolve_left (Nat.not_le.mpr hm')
      have hlog : m.log2 < 52 := (Nat.log2_lt hm.ne').mpr hm'
      have hbits : m.log2 + 1 ≠ Format.binary64.mantissaBits := (Nat.succ_lt_succ hlog).ne
      rw [if_neg hbits]
      exact unpack_packComponents_low s hm hm'
    · have hlog : m.log2 = 52 := (Nat.log2_eq_iff hm.ne').mpr ⟨hm', hlt⟩
      have hbits : m.log2 + 1 = Format.binary64.mantissaBits := by rw [hlog]; rfl
      have hexponent : ((e + 1075).toNat : ℤ) - 1075 = e := by omega
      rw [if_pos hbits]
      refine (unpack_packComponents_full s hm hlt hm' (by omega) (by omega)).trans ?_
      congr 1
  · rw [if_neg he, if_pos (by omega)]
    exact unpack_packedInfinity s

theorem IsNumber.unpack_pack {u : UnpackedFloat} (h : IsNumber u) :
    UnpackedFloat.unpack .binary64 (UnpackedFloat.pack .binary64 u) = u := by
  cases h with
  | infinity s => exact unpack_packedInfinity s
  | zero s => exact unpack_pack_zero s
  | finite s hm h he => rw [unpack_pack_finite s hm h, if_pos he]

theorem IsNumber.isNaN {u : UnpackedFloat} (h : IsNumber u) : u.isNaN = false := by
  cases h <;> rfl

theorem IsNumber.neg {u : UnpackedFloat} (h : IsNumber u) : IsNumber (UnpackedFloat.neg u) := by
  cases h with
  | infinity s => exact .infinity (-s)
  | zero s => exact .zero (-s)
  | finite s hm h he => exact .finite (-s) hm h he

/-! ## The built-in numbers -/

/-- The place of a built-in number among all numbers. -/
def index (x : Float) : ℤ :=
  unpackedIndex x.toModel.unpack

variable {x y : Float}

theorem isNumber_toModel_unpack (h : x.isNaN = false) : IsNumber x.toModel.unpack :=
  isNumber_unpack h

theorem unpack_neg (h : x.isNaN = false) :
    (-x).toModel.unpack = UnpackedFloat.neg x.toModel.unpack :=
  (isNumber_toModel_unpack h).neg.unpack_pack

theorem isNaN_of_isFinite (h : x.isFinite = true) : x.isNaN = false := by
  have hfinite : x.toModel.unpack.isFinite = true := h
  have hnan : x.isNaN = x.toModel.unpack.isNaN := rfl
  rw [hnan]
  cases hx : x.toModel.unpack with
  | notANumber =>
    rw [hx] at hfinite
    cases hfinite
  | _ => rfl

/-- **The built-in order is that of the places.** -/
theorem lt_iff_index_lt (hx : x.isNaN = false) (hy : y.isNaN = false) :
    x < y ↔ index x < index y :=
  (lt_iff_rank_lt hx hy).trans
    (rank_lt_iff_index_lt (isNumber_toModel_unpack hx) (isNumber_toModel_unpack hy))

theorem le_iff_index_le (hx : x.isNaN = false) (hy : y.isNaN = false) :
    x ≤ y ↔ index x ≤ index y := by
  rw [le_iff_rank_le hx hy, ← not_lt, ← not_lt]
  exact not_congr (rank_lt_iff_index_lt (isNumber_toModel_unpack hy) (isNumber_toModel_unpack hx))

theorem isFinite_iff_index (hx : x.isNaN = false) :
    x.isFinite = true ↔ (index x).natAbs < infinitePlace :=
  (isNumber_toModel_unpack hx).isFinite_iff

end PowerCurve.Decimal
