import PowerCurve.Chart
import PowerCurve.Proofs.Decimal.Exact

/-!
# The heights of the labels

The height of a label is the highest reading, or zero if that is greater, times the row of the label
divided by the number of rows and one. The product comes first. Unless it is too large for a number,
the label stands between zero and the highest reading; if it is too large, the label stands at
infinity (`labelLevel_course`). Either way later rows are not below earlier ones
(`labelLevel_rows`).
-/

namespace PowerCurve

open PowerCurve.Decimal Float.Model

/-- The product from which the height of a label comes, before it is rounded. -/
def labelProduct (index : ℕ) (highest : Float) : ℚ :=
  toRat (greater highest 0.0) * (index % labelRowCount + 1 : ℕ)

/-! ## One label -/

variable {y : Float}

/-- The height over which the labels are spread. -/
theorem greater_zero (hy : y.isFinite = true) :
    (greater y 0.0).isFinite = true ∧ 0 ≤ toRat (greater y 0.0) := by
  rw [greater]
  split
  · next h =>
    rw [Bool.or_eq_true, decide_eq_true_iff] at h
    rcases h with hlt | hnan
    · have hpos := (lt_iff_toRat_lt (x := 0.0) rfl hy).mp hlt
      rw [toRat_zero] at hpos
      exact ⟨hy, hpos.le⟩
    · cases hnan
  · exact ⟨rfl, toRat_zero.ge⟩

theorem toRat_row {n : ℕ} (hn : n ≤ labelRowCount + 1) :
    (UInt64.ofNat n).toFloat.isFinite = true ∧ toRat (UInt64.ofNat n).toFloat = n := by
  have hcast : (UInt64.ofNat n).toNat = n :=
    UInt64.toNat_ofNat_of_lt' (hn.trans_lt (by decide))
  have hexact := toRat_uInt64 (n := UInt64.ofNat n) (by rw [hcast]; exact hn.trans (by decide))
  rwa [hcast] at hexact

theorem row_le (index : ℕ) : index % labelRowCount + 1 ≤ labelRowCount :=
  Nat.mod_lt index (by decide)

theorem labelProduct_nonneg (hy : y.isFinite = true) (index : ℕ) : 0 ≤ labelProduct index y :=
  mul_nonneg (greater_zero hy).2 (Nat.cast_nonneg _)

/-- **How the height of a label comes about.** The product is rounded and then divided, or it is too
large, and then the height is infinite. -/
theorem labelLevel_course (hy : y.isFinite = true) (index : ℕ) :
    (labelProduct index y < overflow ∧ ∃ product : Float, product.isFinite = true ∧
      RoundsTo (labelProduct index y) product ∧
      RoundsTo (toRat product / (labelRowCount + 1 : ℕ)) (labelLevel index y)) ∨
    (overflow ≤ labelProduct index y ∧
      (labelLevel index y).toModel.unpack = .infinity .positive) := by
  rcases greater_zero hy with ⟨htop, -⟩
  rcases toRat_row ((row_le index).trans (Nat.le_succ _)) with ⟨hrow, hrow'⟩
  rcases toRat_row le_rfl with ⟨hcount, hcount'⟩
  have hproduct := roundsTo_mul htop hrow
  rw [hrow'] at hproduct
  rcases lt_or_ge (labelProduct index y) overflow with hlt | hge
  · have habs : |labelProduct index y| < overflow := by
      rwa [abs_of_nonneg (labelProduct_nonneg hy index)]
    have hfinite := hproduct.isFinite_iff.mpr habs
    have hne : toRat (UInt64.ofNat (labelRowCount + 1)).toFloat ≠ 0 := by
      rw [hcount']
      exact Nat.cast_ne_zero.mpr (Nat.succ_ne_zero _)
    have hquotient := roundsTo_div hfinite hcount hne
    rw [hcount'] at hquotient
    exact .inl ⟨hlt, _, hfinite, hproduct, hquotient⟩
  · -- infinity divided by a number is infinity
    have hinfinity := hproduct.unpack_of_overflow hge
    have hunpack : (labelLevel index y).toModel.unpack =
        UnpackedFloat.unpack .binary64 (UnpackedFloat.pack .binary64 (UnpackedFloat.div .binary64
          (greater y 0.0 * (UInt64.ofNat (index % labelRowCount + 1)).toFloat).toModel.unpack
          (UInt64.ofNat (labelRowCount + 1)).toFloat.toModel.unpack)) := rfl
    rw [hunpack, hinfinity]
    exact .inr ⟨hge, rfl⟩

/-! ## Rows -/

/-- A label with a finite height is not above the highest reading. -/
theorem level_le_of_product {product level : Float} {index : ℕ} (hy : y.isFinite = true)
    (hproduct : RoundsTo (labelProduct index y) product) (hfinite : product.isFinite = true)
    (hlevel : RoundsTo (toRat product / (labelRowCount + 1 : ℕ)) level) :
    0.0 ≤ level ∧ level ≤ greater y 0.0 := by
  rcases greater_zero hy with ⟨htop, hpos⟩
  have hcount : (0 : ℚ) < (labelRowCount + 1 : ℕ) := Nat.cast_pos.mpr (Nat.succ_pos _)
  constructor
  · have hproduct_nonneg : 0 ≤ toRat product := by
      have hle := roundsTo_zero.le hproduct (labelProduct_nonneg hy index)
      rwa [le_iff_toRat_le rfl hfinite, toRat_zero] at hle
    exact roundsTo_zero.le hlevel (div_nonneg hproduct_nonneg hcount.le)
  · -- there are eight rows, so the product is bounded by a multiple that is not rounded
    have hrow : ((index % labelRowCount + 1 : ℕ) : ℚ) ≤ 2 ^ 3 := by
      exact_mod_cast row_le index
    have hbound := hproduct.toRat_le_mul_two_pow hfinite htop hpos (k := 3)
      (mul_le_mul_of_nonneg_left hrow hpos)
    refine hlevel.le (roundsTo_toRat htop) ?_
    rw [div_le_iff₀ hcount]
    refine hbound.trans (mul_le_mul_of_nonneg_left ?_ hpos)
    norm_num [labelRowCount]

/-- Later rows are not below earlier ones. -/
theorem labelLevel_le (hy : y.isFinite = true) {i j : ℕ}
    (hrow : i % labelRowCount ≤ j % labelRowCount) : labelLevel i y ≤ labelLevel j y := by
  have hproducts : labelProduct i y ≤ labelProduct j y :=
    mul_le_mul_of_nonneg_left (Nat.cast_le.mpr (Nat.succ_le_succ hrow)) (greater_zero hy).2
  rcases labelLevel_course hy j with ⟨hlt, q, hq, hproduct, hlevel⟩ | ⟨hge, hinfinity⟩
  · rcases labelLevel_course hy i with ⟨-, p, hp, hproduct', hlevel'⟩ | ⟨hge, -⟩
    · refine hlevel'.le hlevel (div_le_div_of_nonneg_right ?_ (Nat.cast_nonneg _))
      exact (le_iff_toRat_le hp hq).mp (hproduct'.le hproduct hproducts)
    · exact absurd (hproducts.trans_lt hlt) hge.not_gt
  · have hnumber : (labelLevel i y).isNaN = false := by
      rcases labelLevel_course hy i with ⟨-, p, hp, -, hlevel'⟩ | ⟨-, hinfinity'⟩
      · exact hlevel'.isNaN
      · exact congrArg UnpackedFloat.isNaN hinfinity'
    exact (le_of_unpack_infinity hnumber hinfinity).1

/-- **Where the labels stand.** The height depends on the row alone and does not fall with it. It is
never below zero. If the product is small enough for a number, the height is finite and at most the
highest reading; otherwise it is infinite, above the highest reading. -/
theorem labelLevel_rows (hy : y.isFinite = true) :
    (∀ i j, i % labelRowCount = j % labelRowCount → labelLevel i y = labelLevel j y) ∧
    (∀ i j, i % labelRowCount ≤ j % labelRowCount → labelLevel i y ≤ labelLevel j y) ∧
    ∀ i, 0.0 ≤ labelLevel i y ∧
      (labelProduct i y < overflow →
        (labelLevel i y).isFinite = true ∧ labelLevel i y ≤ greater y 0.0) ∧
      (overflow ≤ labelProduct i y →
        (labelLevel i y).isFinite = false ∧ greater y 0.0 < labelLevel i y) := by
  rcases greater_zero hy with ⟨htop, hpos⟩
  refine ⟨?_, fun i j => labelLevel_le hy, fun i => ?_⟩
  · intro i j hrow
    rw [labelLevel, labelLevel, hrow]
  · rcases labelLevel_course hy i with ⟨hlt, p, hp, hproduct, hlevel⟩ | ⟨hge, hinfinity⟩
    · rcases level_le_of_product hy hproduct hp hlevel with ⟨hlow, hhigh⟩
      have hfinite := isFinite_of_le (x := 0.0) rfl htop hlow hhigh
      exact ⟨hlow, fun _ => ⟨hfinite, hhigh⟩, fun hge => absurd hlt hge.not_gt⟩
    · have hzero := le_of_unpack_infinity (x := 0.0) rfl hinfinity
      have hbeyond := le_of_unpack_infinity (isNaN_of_isFinite htop) hinfinity
      exact ⟨hzero.1, fun hlt => absurd hlt hge.not_gt, fun _ => ⟨hbeyond.2.2, hbeyond.2.1 htop⟩⟩

/-- The labels of a chart whose highest reading is 90. -/
theorem labelLevel_rows_ninety :
    labelLevel 3 90.0 = labelLevel 11 90.0 ∧ labelLevel 3 90.0 ≤ labelLevel 12 90.0 ∧
      0.0 ≤ labelLevel 3 90.0 := by
  rcases labelLevel_rows (y := 90.0) rfl with ⟨hsame, hle, hbounds⟩
  exact ⟨hsame 3 11 (by decide), hle 3 12 (by decide), (hbounds 3).1⟩

/-- **The greatest number puts a label at infinity**, although two ninths of it are a number. -/
theorem labelLevel_overflows :
    let highest := Float.ofBits 0x7fefffffffffffff
    highest.isFinite = true ∧ (labelLevel 1 highest).isFinite = false ∧
      ¬ labelLevel 1 highest ≤ greater highest 0.0 := by
  decide

end PowerCurve
