import PowerCurve.Decimal.Binary

/-!
# The built-in numbers, taken apart

A built-in number is finite exactly if it has a significand and an exponent
(`exists_ofFloat_eq_finite_iff`, `exists_ofFloat32_eq_finite_iff`): the exponent field lies where the
built-in operations look for it.
-/

namespace PowerCurve.Decimal

open Float.Model Float.Model.UnpackedFloat

section

variable {spec : Format} {b : BitVec spec.numBits}

theorem toNat_unpackExponent :
    (unpackExponent b).toNat =
      b.toNat / Nat.pow 2 spec.mantissaBitsWithoutImplicit % Nat.pow 2 spec.exponentBits := by
  have hwidth : spec.mantissaBitsWithoutImplicit + spec.exponentBits - 1 -
      spec.mantissaBitsWithoutImplicit + 1 = spec.exponentBits := by
    have := spec.he
    omega
  simp [unpackExponent, BitVec.extractLsb, BitVec.extractLsb'_toNat, Nat.shiftRight_eq_div_pow,
    hwidth]

/-- A number is finite unless all bits of its exponent field are set. -/
theorem isFinite_unpack_iff : (unpack spec b).isFinite = true ↔ unpackExponent b ≠ -1#_ := by
  by_cases hall : unpackExponent b = -1#_
  · refine iff_of_false ?_ (not_not_intro hall)
    have hunpack : unpack spec b = _ := if_pos hall
    by_cases hzero : unpackMantissa b = 0#_
    · rw [hunpack.trans (if_pos hzero)]
      exact Bool.false_ne_true
    · rw [hunpack.trans (if_neg hzero)]
      exact Bool.false_ne_true
  · refine iff_of_true ?_ hall
    have hunpack : unpack spec b = _ := if_neg hall
    by_cases hlow : unpackExponent b = 0#_
    · by_cases hzero : unpackMantissa b = 0#_
      · rw [hunpack.trans ((if_pos hlow).trans (dif_pos hzero))]
        rfl
      · rw [hunpack.trans ((if_pos hlow).trans (dif_neg hzero))]
        rfl
    · rw [hunpack.trans (if_neg hlow)]
      rfl

/-- Exactly the finite numbers have a significand and an exponent. -/
theorem Binary.exists_ofBits_eq_finite_iff :
    (∃ negative m, Binary.ofBits spec.exponentBits spec.mantissaBitsWithoutImplicit b.toNat =
      .finite negative m) ↔ (unpack spec b).isFinite = true := by
  rw [isFinite_unpack_iff, ne_eq, ← BitVec.toNat_inj, toNat_unpackExponent,
    BitVec.neg_one_eq_allOnes, BitVec.toNat_allOnes, Binary.ofBits]
  split
  · next hall =>
    refine iff_of_false ?_ (not_not_intro hall)
    split <;> rintro ⟨_, _, ⟨⟩⟩
  · next hne =>
    refine iff_of_true ?_ hne
    split <;> exact ⟨_, _, rfl⟩

end

theorem Binary.exists_ofFloat_eq_finite_iff {x : Float} :
    (∃ negative m, Binary.ofFloat x = .finite negative m) ↔ x.isFinite = true :=
  @exists_ofBits_eq_finite_iff Format.binary64 x.toBits.toBitVec

theorem Binary.exists_ofFloat32_eq_finite_iff {x : Float32} :
    (∃ negative m, Binary.ofFloat32 x = .finite negative m) ↔ x.isFinite = true :=
  @exists_ofBits_eq_finite_iff Format.binary32 x.toBits.toBitVec

end PowerCurve.Decimal
