import Mathlib.Algebra.Order.Group.Int
import Mathlib.Algebra.Order.Group.Unbundled.Int
import Mathlib.Data.Prod.Lex
import Mathlib.Order.Compare

/-!
# The order of the built-in numbers

What is not a number is neither below nor above anything. All numbers, the infinities included, have
a rank in a linear order, and the built-in comparisons compare ranks (`lt_iff_rank_lt`,
`le_iff_rank_le`, `beq_iff_rank_eq`). The two zeros have the same rank.
-/

namespace PowerCurve.Decimal

open Float.Model Float.Model.UnpackedFloat

/-- The rank of a number that is taken apart: its class, its exponent and its significand. Among
negative numbers, a greater exponent or significand makes a number smaller. -/
def unpackedRank : UnpackedFloat → ℤ ×ₗ ℤ ×ₗ ℤ
  | .infinity .negative => toLex (-2, toLex (0, 0))
  | .finite .negative m e _ => toLex (-1, toLex (-e, -m))
  | .zero _ => toLex (0, toLex (0, 0))
  | .finite .positive m e _ => toLex (1, toLex (e, m))
  | .infinity .positive => toLex (2, toLex (0, 0))
  | .notANumber => toLex (0, toLex (0, 0))

theorem compare_natCast (m m' : ℕ) : compare (m : ℤ) (m' : ℤ) = compare m m' := by
  rw [← cmp_eq_compare, ← cmp_eq_compare, Int.natCast_strictMono.cmp_map_eq]

theorem compare_neg (a b : ℤ) : compare (-a) (-b) = (compare a b).swap := by
  have hanti : StrictAnti fun n : ℤ => -n := fun _ _ => Int.neg_lt_neg
  rw [← cmp_eq_compare, ← cmp_eq_compare, cmp_swap, hanti.cmp_map_eq]

/-- The built-in comparison of numbers that are taken apart is that of their ranks. -/
theorem compare_eq_compare_rank {a b : UnpackedFloat} (ha : a.isNaN = false) (hb : b.isNaN = false) :
    a.compare b = some (compare (unpackedRank a) (unpackedRank b)) := by
  rcases a with (_ | _) | _ | _ | ⟨_ | _, m, e, _⟩ <;>
    rcases b with (_ | _) | _ | _ | ⟨_ | _, m', e', _⟩ <;> try first | rfl | contradiction
  -- what is left are two negative and two positive numbers
  · have hrank : compare (unpackedRank (.finite .negative m e ‹_›))
        (unpackedRank (.finite .negative m' e' ‹_›)) =
          (compare (-e) (-e')).then (compare (-m : ℤ) (-m' : ℤ)) := rfl
    rw [hrank, compare_neg, compare_neg, compare_natCast, ← Ordering.swap_then]
    rfl
  · have hrank : compare (unpackedRank (.finite .positive m e ‹_›))
        (unpackedRank (.finite .positive m' e' ‹_›)) =
          (compare e e').then (compare (m : ℤ) (m' : ℤ)) := rfl
    rw [hrank, compare_natCast]
    rfl

/-- The rank of a number. -/
def rank (x : Float) : ℤ ×ₗ ℤ ×ₗ ℤ :=
  unpackedRank x.toModel.unpack

variable {x y : Float}

theorem compare_unpack (hx : x.isNaN = false) (hy : y.isNaN = false) :
    x.toModel.unpack.compare y.toModel.unpack = some (compare (rank x) (rank y)) :=
  compare_eq_compare_rank hx hy

theorem lt_iff_rank_lt (hx : x.isNaN = false) (hy : y.isNaN = false) :
    x < y ↔ rank x < rank y := by
  have hlt : x < y ↔ x.toModel.unpack.compare y.toModel.unpack = some .lt := by
    rw [← beq_iff_eq]
    exact decide_eq_true_iff
  rw [hlt, compare_unpack hx hy, Option.some.injEq, compare_lt_iff_lt]

theorem le_iff_rank_le (hx : x.isNaN = false) (hy : y.isNaN = false) :
    x ≤ y ↔ rank x ≤ rank y := by
  have hle : x ≤ y ↔ (x.toModel.unpack.compare y.toModel.unpack).any (·.isLE) = true :=
    decide_eq_true_iff
  rw [hle, compare_unpack hx hy, Option.any_some, ← compare_le_iff_le, Ordering.isLE_iff_ne_gt]

theorem beq_iff_rank_eq (hx : x.isNaN = false) (hy : y.isNaN = false) :
    (x == y) = true ↔ rank x = rank y := by
  have hbeq : (x == y) = (x.toModel.unpack.compare y.toModel.unpack == some .eq) := rfl
  rw [hbeq, compare_unpack hx hy, beq_iff_eq, Option.some.injEq, compare_eq_iff_eq]

/-- Nothing is below what is not a number. -/
theorem not_lt_of_isNaN (hx : x.isNaN = true) : ¬ y < x := by
  have hlt : y < x ↔ (y.toModel.unpack.compare x.toModel.unpack == some .lt) = true :=
    decide_eq_true_iff
  have hx' : x.toModel.unpack.isNaN = true := hx
  rw [hlt]
  cases hunpack : x.toModel.unpack with
  | notANumber => cases y.toModel.unpack <;> nofun
  | _ =>
    rw [hunpack] at hx'
    cases hx'

end PowerCurve.Decimal
