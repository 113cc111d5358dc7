import Mathlib.Data.Nat.Digits.Defs
import PowerCurve.Decimal.Digits

/-!
# Digits and the numbers that they denote

`spanDigits` finds all the digits at the front of a text (`spanDigits_eq_iff`). What digits are read
as is what they denote in base ten (`value_eq_denoted`), and the digits that are written for a number
denote that number (`value_digits`).
-/

namespace PowerCurve.Decimal

/-! ## Digits in a text -/

theorem Digit.ofChar?_eq_some_iff {c : Char} {d : Digit} :
    Digit.ofChar? c = some d ↔ c = d.toChar := by
  constructor
  · intro h
    unfold Digit.ofChar? at h
    split at h
    · next hc =>
      obtain rfl := Option.some.inj h
      rw [Digit.toChar, Nat.add_sub_cancel' hc.1, Char.ofNat_toNat]
    · cases h
  · rintro rfl
    exact Digit.ofChar?_toChar d

/-- No digit stands at the front of a text. -/
def NoDigitFirst (text : List Char) : Prop :=
  ∀ c rest, text = c :: rest → Digit.ofChar? c = none

theorem noDigitFirst_nil : NoDigitFirst [] := fun _ _ h => nomatch h

theorem noDigitFirst_cons {c : Char} (h : Digit.ofChar? c = none) (rest : List Char) :
    NoDigitFirst (c :: rest) := by
  rintro c' rest' heq
  rcases List.cons.inj heq with ⟨rfl, rfl⟩
  exact h

@[simp] theorem digitText_nil : digitText [] = [] := rfl

@[simp] theorem digitText_cons (d : Digit) (ds : List Digit) :
    digitText (d :: ds) = d.toChar :: digitText ds := rfl

theorem spanDigits_of_noDigitFirst {text : List Char} (h : NoDigitFirst text) :
    spanDigits text = ([], text) := by
  cases text with
  | nil => rfl
  | cons c rest => simp [spanDigits, h c rest rfl]

/-- The digits at the front of a text are as many as there are. -/
theorem spanDigits_eq_iff {text rest : List Char} {ds : List Digit} :
    spanDigits text = (ds, rest) ↔ text = digitText ds ++ rest ∧ NoDigitFirst rest := by
  induction text generalizing ds with
  | nil =>
    constructor
    · intro h
      rcases Prod.mk.inj h with ⟨rfl, rfl⟩
      exact ⟨rfl, noDigitFirst_nil⟩
    · rintro ⟨h, -⟩
      rcases List.nil_eq_append_iff.mp h with ⟨hds, rfl⟩
      obtain rfl := List.map_eq_nil_iff.mp hds
      rfl
  | cons c text ih =>
    -- the first character decides whether there is a first digit
    cases hc : Digit.ofChar? c with
    | none =>
      rw [spanDigits_of_noDigitFirst (noDigitFirst_cons hc text), Prod.mk.injEq]
      constructor
      · intro h
        rcases h with ⟨rfl, rfl⟩
        exact ⟨rfl, noDigitFirst_cons hc text⟩
      · intro h
        rcases h with ⟨heq, -⟩
        cases ds with
        | nil => exact ⟨rfl, heq⟩
        | cons d ds =>
          rcases List.cons.inj heq with ⟨rfl, -⟩
          rw [Digit.ofChar?_toChar] at hc
          cases hc
    | some d =>
      obtain rfl := Digit.ofChar?_eq_some_iff.mp hc
      simp only [spanDigits, hc, Prod.mk.injEq]
      constructor
      · intro h
        rcases h with ⟨rfl, rfl⟩
        rcases ih.mp rfl with ⟨heq, hrest⟩
        exact ⟨by rw [digitText_cons, List.cons_append, ← heq], hrest⟩
      · intro h
        rcases h with ⟨heq, hrest⟩
        cases ds with
        | nil =>
          rw [hrest _ _ heq.symm] at hc
          cases hc
        | cons d' ds =>
          rcases List.cons.inj heq with ⟨hd, htext⟩
          have hd' : some d = some d' := by
            rw [← Digit.ofChar?_toChar d, hd, Digit.ofChar?_toChar]
          rw [Option.some.inj hd', ih.mpr ⟨htext, hrest⟩]
          exact ⟨rfl, rfl⟩

/-! ## The value of digits -/

theorem value_foldl (n : Nat) (ds : List Digit) :
    ds.foldl (fun n d => 10 * n + d.val) n = n * 10 ^ ds.length + value ds := by
  induction ds generalizing n with
  | nil => simp [value]
  | cons d ds ih =>
    rw [value, List.foldl_cons, ih, List.foldl_cons, ih (10 * 0 + d.val)]
    simp only [List.length_cons, Nat.pow_succ]
    grind

theorem value_cons (d : Digit) (ds : List Digit) :
    value (d :: ds) = d.val * 10 ^ ds.length + value ds := by
  rw [value, List.foldl_cons, value_foldl]
  simp

theorem value_writeDigits {fuel n : Nat} (written : List Digit) (h : n < fuel) :
    value (writeDigits fuel n written) = n * 10 ^ written.length + value written := by
  induction fuel generalizing n written with
  | zero => omega
  | succ fuel ih =>
    rw [writeDigits]
    split
    · rename_i hn
      rw [value_cons]
      simp [Nat.mod_eq_of_lt hn]
    · rw [ih _ (by omega), value_cons]
      simp only [List.length_cons, Nat.pow_succ]
      generalize 10 ^ written.length = p
      have hn : n * p = (10 * (n / 10) + n % 10) * p := by rw [Nat.div_add_mod]
      rw [hn]
      grind

/-- The number that a digit string denotes in base ten. -/
def denoted (ds : List Digit) : Nat :=
  Nat.ofDigits 10 (ds.map Fin.val).reverse

theorem value_eq_denoted (ds : List Digit) : value ds = denoted ds := by
  induction ds with
  | nil => rfl
  | cons d ds ih =>
    rw [value_cons, ih, denoted, denoted, List.map_cons, List.reverse_cons, Nat.ofDigits_append,
      Nat.ofDigits_singleton, List.length_reverse, List.length_map, Nat.add_comm, Nat.mul_comm]

/-- The digits of a number denote that number. -/
theorem value_digits (n : Nat) : value (digits n) = n := by
  rw [digits, value_writeDigits [] (Nat.lt_succ_self n)]
  simp [value]

/-! ## The first digit -/

theorem exists_writeDigits {fuel n : Nat} (written : List Digit) (h : n < fuel) (hn : n ≠ 0) :
    ∃ d ds, writeDigits fuel n written = d :: ds ∧ d.val ≠ 0 := by
  induction fuel generalizing n written with
  | zero => omega
  | succ fuel ih =>
    rw [writeDigits]
    split
    · next hlt =>
      have hlast : n % 10 ≠ 0 := by omega
      exact ⟨_, written, rfl, hlast⟩
    · exact ih _ (by omega) (by omega)

/-- No zero stands in front of the digits of a number. -/
theorem exists_digits {n : Nat} (hn : n ≠ 0) : ∃ d ds, digits n = d :: ds ∧ d.val ≠ 0 :=
  exists_writeDigits [] n.lt_succ_self hn

theorem digits_ne_nil (n : Nat) : digits n ≠ [] := by
  by_cases hn : n = 0
  · rw [hn]
    exact List.cons_ne_nil _ _
  · rcases exists_digits hn with ⟨d, ds, hds, -⟩
    rw [hds]
    exact List.cons_ne_nil d ds

/-! ## The number of digits -/

theorem value_lt (ds : List Digit) : value ds < 10 ^ ds.length := by
  induction ds with
  | nil => exact Nat.one_pos
  | cons d ds ih =>
    have hdigit : d.val * 10 ^ ds.length ≤ 9 * 10 ^ ds.length :=
      Nat.mul_le_mul_right _ (Nat.le_of_lt_succ d.isLt)
    rw [value_cons, List.length_cons, Nat.pow_succ]
    omega

/-- A number is as long as its order of magnitude tells. -/
theorem exists_length_digits {n : Nat} (hn : n ≠ 0) :
    ∃ k, (digits n).length = k + 1 ∧ 10 ^ k ≤ n ∧ n < 10 ^ (k + 1) := by
  rcases exists_digits hn with ⟨d, ds, hdigits, hd⟩
  have hvalue : value (d :: ds) = n := hdigits ▸ value_digits n
  refine ⟨ds.length, by rw [hdigits, List.length_cons], ?_, ?_⟩
  · rw [← hvalue, value_cons]
    exact Nat.le_add_right_of_le (Nat.le_mul_of_pos_left _ (Nat.pos_of_ne_zero hd))
  · rw [← hvalue]
    exact value_lt (d :: ds)

end PowerCurve.Decimal
