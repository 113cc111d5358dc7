import PowerCurve.Json.Number
import PowerCurve.Proofs.Decimal.Neighbours
import PowerCurve.Proofs.Decimal.Numeral

/-!
# What a printed number tells

In either notation the numeral of a decimal denotes that decimal (`numeralOf_toRat`), and the shortest
decimal of a floating-point number rounds to it. So a number that is printed tells all of its bits,
unless it is not finite (`Value.ofFloat_eq_iff`).
-/

namespace PowerCurve.Decimal

/-! ## Numerals -/

theorem value_append (ds es : List Digit) :
    value (ds ++ es) = value ds * 10 ^ es.length + value es := by
  conv_lhs => rw [value, List.foldl_append, value_foldl]
  rfl

theorem value_replicate_zero (n : Nat) : value (List.replicate n 0) = 0 := by
  induction n with
  | zero => rfl
  | succ n ih => rw [List.replicate_succ, value_cons, ih, Fin.val_zero, Nat.zero_mul]

end PowerCurve.Decimal

namespace PowerCurve.Json

open PowerCurve.Decimal

theorem positionalNumeral_toRat (negative : Bool) (ds : List Digit) (exponent : Int) :
    (positionalNumeral negative ds exponent).toRat = value ds * 10 ^ exponent := by
  rw [positionalNumeral]
  split
  · next hexponent =>
    -- zeros stand behind the digits
    have hzero : value [0] = 0 := rfl
    have hpower : (10 : ℚ) ^ exponent = 10 ^ exponent.toNat := by
      rw [← zpow_natCast, Int.toNat_of_nonneg hexponent]
    simp only [Numeral.toRat_eq, Numeral.significand, Numeral.scale, value_append,
      value_replicate_zero, hzero, List.length_replicate, List.length_singleton, Option.getD_none,
      hpower]
    push_cast
    norm_num
    ring
  · next hexponent =>
    split
    · next hpoint =>
      -- the point stands between the digits
      have hscale : (0 : Int) - (ds.drop (ds.length + exponent).toNat).length = exponent := by
        rw [List.length_drop]
        omega
      simp only [Numeral.toRat_eq, Numeral.significand, Numeral.scale, List.take_append_drop,
        Option.getD_none, hscale]
    · next hpoint =>
      -- zeros stand in front of the digits
      have hzero : value [0] = 0 := rfl
      have hscale : (0 : Int) -
          (List.replicate (-(ds.length + exponent)).toNat (0 : Digit) ++ ds).length = exponent := by
        rw [List.length_append, List.length_replicate]
        omega
      simp only [Numeral.toRat_eq, Numeral.significand, Numeral.scale, Option.getD_none, hscale,
        value_append, value_replicate_zero, hzero, Nat.zero_mul, Nat.zero_add]

theorem exponentNumeral_toRat (negative : Bool) {ds : List Digit} (hds : ds ≠ []) (exponent : Int) :
    (exponentNumeral negative ds exponent).toRat = value ds * 10 ^ exponent := by
  have hlength := List.length_pos_iff.mpr hds
  have hscale : (ds.length : Int) - 1 + exponent - (ds.drop 1).length = exponent := by
    rw [List.length_drop]
    omega
  simp only [exponentNumeral, Numeral.toRat_eq, Numeral.significand, Numeral.scale,
    List.take_append_drop, Option.getD_some, hscale]

/-- The numeral of a decimal denotes it. -/
theorem numeralOf_toRat (positional : PositionalRange) (negative : Bool) (x : Scaled) :
    (numeralOf positional negative x).toRat = x.toRat := by
  rw [numeralOf, Scaled.toRat]
  conv_rhs => rw [← value_digits x.coefficient]
  split
  · exact positionalNumeral_toRat _ _ _
  · exact exponentNumeral_toRat _ (digits_ne_nil _) _

theorem numeralOf_negative (positional : PositionalRange) (negative : Bool) (x : Scaled) :
    (numeralOf positional negative x).negative = negative := by
  rw [numeralOf]
  split
  · rw [positionalNumeral]
    split
    · rfl
    · split <;> rfl
  · rfl

/-! ## Floating-point numbers -/

/-- A finite number is written as a numeral that has its sign and rounds to it. -/
theorem Value.exists_ofBinary_finite (positional : PositionalRange) (negative : Bool)
    (m : Magnitude) :
    ∃ n, ofBinary positional (.finite negative m) = .number n ∧ n.negative = negative ∧
      m.Encloses n.toRat := by
  rw [ofBinary]
  split
  · next hzero =>
    refine ⟨_, rfl, rfl, ?_⟩
    have hexact := m.encloses_exact
    have hvalue : value ([0] ++ [0]) = 0 := rfl
    rw [Magnitude.exact_toRat, hzero, Nat.mul_zero, Nat.cast_zero, zero_mul] at hexact
    rwa [Numeral.toRat_eq, Numeral.significand, hvalue, Nat.cast_zero, zero_mul]
  · refine ⟨_, rfl, numeralOf_negative _ _ _, ?_⟩
    rw [numeralOf_toRat]
    exact m.encloses_shortest

/-- Exactly what is not finite has no notation. -/
theorem Value.ofBinary_eq_null_iff {positional : PositionalRange} {b : Binary} :
    ofBinary positional b = .null ↔ ¬ ∃ negative m, b = .finite negative m := by
  cases b with
  | finite negative m =>
    rcases exists_ofBinary_finite positional negative m with ⟨n, hn, -⟩
    rw [hn]
    exact iff_of_false nofun (not_not_intro ⟨negative, m, rfl⟩)
  | infinite negative => exact iff_of_true rfl nofun
  | notANumber => exact iff_of_true rfl nofun

theorem Value.ofFloat_eq_null_iff {x : Float} : ofFloat x = .null ↔ x.isFinite = false := by
  rw [← Bool.not_eq_true, ← Binary.exists_ofFloat_eq_finite_iff]
  exact ofBinary_eq_null_iff

theorem Value.ofFloat32_eq_null_iff {x : Float32} : ofFloat32 x = .null ↔ x.isFinite = false := by
  rw [← Bool.not_eq_true, ← Binary.exists_ofFloat32_eq_finite_iff]
  exact ofBinary_eq_null_iff

/-- Finite numbers that are written as the same numeral have the same bits. -/
theorem Value.toBits_eq_of_ofFloat_eq {x y : Float} (hx : x.isFinite = true)
    (hy : y.isFinite = true) (h : ofFloat x = ofFloat y) : x.toBits = y.toBits := by
  rcases Binary.exists_ofFloat_eq_finite_iff.mpr hx with ⟨negative, m, hm⟩
  rcases Binary.exists_ofFloat_eq_finite_iff.mpr hy with ⟨negative', m', hm'⟩
  rcases exists_ofBinary_finite positional64 negative m with ⟨n, hn, hsign, hround⟩
  rcases exists_ofBinary_finite positional64 negative' m' with ⟨n', hn', hsign', hround'⟩
  rw [ofFloat, ofFloat, hm, hm', hn, hn'] at h
  obtain rfl := Value.number.inj h
  obtain rfl := hsign.symm.trans hsign'
  exact UInt64.toNat_inj.mp (Binary.ofBits_unique (by decide) x.toBits.toNat_lt y.toBits.toNat_lt
    hm hm' hround hround')

/-- Numbers that are written alike: they have the same bits, or none of them is finite. -/
inductive WrittenAlike (x y : Float) : Prop where
  | finite (hx : x.isFinite = true) (hy : y.isFinite = true) (h : x.toBits = y.toBits)
  | notFinite (hx : x.isFinite = false) (hy : y.isFinite = false)

/-- **A number that is printed tells its bits**, unless it is not finite. -/
theorem Value.ofFloat_eq_iff {x y : Float} : ofFloat x = ofFloat y ↔ WrittenAlike x y := by
  constructor
  · intro h
    by_cases hx : x.isFinite = false
    · exact .notFinite hx (ofFloat_eq_null_iff.mp (h.symm.trans (ofFloat_eq_null_iff.mpr hx)))
    · have hy : ¬ y.isFinite = false := by rwa [← ofFloat_eq_null_iff, ← h, ofFloat_eq_null_iff]
      rw [Bool.not_eq_false] at hx hy
      exact .finite hx hy (toBits_eq_of_ofFloat_eq hx hy h)
  · intro h
    cases h with
    | finite _ _ h => rw [ofFloat, ofFloat, Binary.ofFloat, Binary.ofFloat, h]
    | notFinite hx hy => rw [ofFloat_eq_null_iff.mpr hx, ofFloat_eq_null_iff.mpr hy]

/-- The two zeros are told apart. -/
example : ¬ WrittenAlike 0.0 (-0.0) := by
  rintro (⟨-, -, h⟩ | ⟨h, -⟩)
  · exact absurd h (by decide)
  · exact absurd h (by decide)

end PowerCurve.Json
