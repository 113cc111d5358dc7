import PowerCurve.Bounds
import PowerCurve.Proofs.Decimal.Order

/-!
# The extremes of a session

The greatest number of a series is found by going through it once, and what is not a number loses
against every number. Whatever has been seen, the number that is held is the greatest of it
(`IsGreatestNumber.greater`). So neither the order of the series nor the values in it that are no
numbers have an influence (`IsGreatestNumber.sameNumber`), and both hold for the extremes of a session
(`Bounds.ofSession_greatest`).
-/

namespace PowerCurve

open PowerCurve.Decimal

/-! ## The greatest number of a series -/

/-- An element of a series that no number in it exceeds. It is a number unless there is none in the
series. -/
structure IsGreatestNumber (xs : List Float) (x : Float) : Prop where
  mem : x ∈ xs
  isNaN : x.isNaN = true → ∀ y ∈ xs, y.isNaN = true
  le : ∀ y ∈ xs, y.isNaN = false → y ≤ x

/-- The same number up to the sign of a zero, or no number either time. -/
def SameNumber (x y : Float) : Prop :=
  (x == y) = true ∨ (x.isNaN = true ∧ y.isNaN = true)

/-- The series `ys` holds what `xs` holds, in some order, and besides it only values that are no
numbers. -/
def Rearranges (ys xs : List Float) : Prop :=
  ∃ extra, (∀ x ∈ extra, x.isNaN = true) ∧ ys.Perm (xs ++ extra)

theorem greater_cases (x y : Float) :
    (greater x y = x ∧ (y.isNaN = true ∨ y < x)) ∨
    (greater x y = y ∧ y.isNaN = false ∧ ¬ y < x) := by
  rw [greater]
  split
  · next h =>
    rw [Bool.or_eq_true, decide_eq_true_iff] at h
    exact .inl ⟨rfl, h.symm⟩
  · next h =>
    rw [Bool.or_eq_true, decide_eq_true_iff, not_or, Bool.not_eq_true] at h
    exact .inr ⟨rfl, h.2, h.1⟩

theorem isGreatestNumber_singleton (x : Float) : IsGreatestNumber [x] x where
  mem := List.mem_singleton_self x
  isNaN h := List.forall_mem_singleton.mpr h
  le := List.forall_mem_singleton.mpr fun h => (le_iff_rank_le h h).mpr (le_refl _)

/-- **One more value is taken into account.** -/
theorem IsGreatestNumber.greater {xs : List Float} {x : Float} (h : IsGreatestNumber xs x)
    (y : Float) : IsGreatestNumber (xs ++ [y]) (greater x y) := by
  rcases greater_cases x y with ⟨heq, hy⟩ | ⟨heq, hy, hlt⟩
  · -- the new value is no number or a smaller one
    rw [heq]
    refine ⟨List.mem_append_left _ h.mem, ?_, ?_⟩
    · intro hx
      rw [List.forall_mem_append, List.forall_mem_singleton]
      exact ⟨h.isNaN hx, hy.resolve_right (not_lt_of_isNaN hx)⟩
    · rw [List.forall_mem_append, List.forall_mem_singleton]
      refine ⟨h.le, fun hy' => ?_⟩
      rcases hy with hy | hlt
      · rw [hy] at hy'
        cases hy'
      · have hx : x.isNaN = false := Bool.eq_false_iff.mpr fun hx => not_lt_of_isNaN hx hlt
        exact (le_iff_rank_le hy' hx).mpr (le_of_lt ((lt_iff_rank_lt hy' hx).mp hlt))
  · -- the new value is a number and not smaller
    rw [heq]
    refine ⟨List.mem_append_right _ (List.mem_singleton_self y), ?_, ?_⟩
    · intro hy'
      rw [hy] at hy'
      cases hy'
    · rw [List.forall_mem_append, List.forall_mem_singleton]
      refine ⟨fun z hz hz' => ?_, fun _ => (le_iff_rank_le hy hy).mpr (le_refl _)⟩
      cases hx : x.isNaN with
      | true =>
        rw [h.isNaN hx z hz] at hz'
        cases hz'
      | false =>
        rw [lt_iff_rank_lt hy hx, not_lt] at hlt
        exact (le_iff_rank_le hz' hy).mpr (le_trans ((le_iff_rank_le hz' hx).mp (h.le z hz hz')) hlt)

theorem IsGreatestNumber.foldl {xs : List Float} {x : Float} (h : IsGreatestNumber xs x)
    (ys : List Float) : IsGreatestNumber (xs ++ ys) (ys.foldl PowerCurve.greater x) := by
  induction ys generalizing xs x with
  | nil => rwa [List.append_nil]
  | cons y ys ih =>
    rw [List.foldl_cons, List.append_cons]
    exact ih (h.greater y)

/-- A series with a value has a greatest number. -/
theorem exists_greatest {xs : List Float} (h : xs ≠ []) :
    ∃ x, greatest xs = some x ∧ IsGreatestNumber xs x := by
  cases xs with
  | nil => exact absurd rfl h
  | cons x xs => exact ⟨_, rfl, (isGreatestNumber_singleton x).foldl xs⟩

/-- **The greatest number does not depend on the order**, nor on values that are no numbers. -/
theorem IsGreatestNumber.sameNumber {xs ys : List Float} {x y : Float} (h : IsGreatestNumber xs x)
    (h' : IsGreatestNumber ys y) (hxy : Rearranges ys xs) : SameNumber x y := by
  rcases hxy with ⟨extra, hextra, hperm⟩
  have hmem : ∀ z, z ∈ ys ↔ z ∈ xs ∨ z ∈ extra := by
    intro z
    rw [hperm.mem_iff, List.mem_append]
  have hx := (hmem x).mpr (.inl h.mem)
  cases hnan : x.isNaN with
  | true =>
    refine .inr ⟨hnan, ?_⟩
    rcases (hmem y).mp h'.mem with hy | hy
    · exact h.isNaN hnan y hy
    · exact hextra y hy
  | false =>
    have hnan' : y.isNaN = false := by
      refine Bool.eq_false_iff.mpr fun hy => ?_
      rw [h'.isNaN hy x hx] at hnan
      cases hnan
    have hy : y ∈ xs := by
      refine ((hmem y).mp h'.mem).resolve_right fun hy => ?_
      rw [hextra y hy] at hnan'
      cases hnan'
    refine .inl ((beq_iff_rank_eq hnan hnan').mpr (le_antisymm ?_ ?_))
    · exact (le_iff_rank_le hnan hnan').mp (h'.le x hx hnan)
    · exact (le_iff_rank_le hnan' hnan).mp (h.le y hy hnan')

/-! ## Both extremes -/

theorem Bounds.ofSession_of_noEvents {s : Session} (h : s.events = []) :
    ofSession s = .error noEvents := by
  rw [ofSession, h]
  rfl

theorem Bounds.ofSession_of_noReadings {s : Session} (h : s.events ≠ [])
    (h' : s.readings = []) : ofSession s = .error noReadings := by
  rcases exists_greatest (List.map_eq_nil_iff.not.mpr h) with ⟨latest, hlatest, -⟩
  rw [ofSession, hlatest, Session.highestPower, h']
  rfl

/-- The extremes of a session are the greatest numbers of its series. -/
theorem Bounds.exists_ofSession {s : Session} (h : s.events ≠ []) (h' : s.readings ≠ []) :
    ∃ b, ofSession s = .ok b ∧ IsGreatestNumber (s.events.map Event.time) b.latestEvent ∧
      IsGreatestNumber (s.readings.map Reading.power) b.highestReading ∧
      s.highestPower = some b.highestReading := by
  rcases exists_greatest (List.map_eq_nil_iff.not.mpr h) with ⟨latest, hlatest, hx⟩
  rcases exists_greatest (List.map_eq_nil_iff.not.mpr h') with ⟨highest, hhighest, hy⟩
  have hpower : s.highestPower = some highest := hhighest
  refine ⟨⟨latest, highest⟩, ?_, hx, hy, hpower⟩
  rw [ofSession, hlatest, hpower]

theorem Rearranges.ne_nil {xs ys : List Float} (h : Rearranges ys xs) (hxs : xs ≠ []) :
    ys ≠ [] := by
  rintro rfl
  rcases h with ⟨extra, -, hperm⟩
  exact hxs (List.append_eq_nil_iff.mp hperm.nil_eq.symm).1

/-- **The extremes of a session are true maxima**, whatever the order of its series and whatever in
them is no number. -/
theorem Bounds.ofSession_greatest {s : Session} (hevents : s.events ≠ [])
    (hreadings : s.readings ≠ []) :
    ∃ b, ofSession s = .ok b ∧
      IsGreatestNumber (s.events.map Event.time) b.latestEvent ∧
      IsGreatestNumber (s.readings.map Reading.power) b.highestReading ∧
      s.highestPower = some b.highestReading ∧
      ∀ s' : Session, Rearranges (s'.events.map Event.time) (s.events.map Event.time) →
        Rearranges (s'.readings.map Reading.power) (s.readings.map Reading.power) →
        ∃ b', ofSession s' = .ok b' ∧ SameNumber b.latestEvent b'.latestEvent ∧
          SameNumber b.highestReading b'.highestReading := by
  rcases exists_ofSession hevents hreadings with ⟨b, hb, hlatest, hhighest, hpower⟩
  refine ⟨b, hb, hlatest, hhighest, hpower, ?_⟩
  intro s' hevents' hreadings'
  have hne := List.map_eq_nil_iff.not.mp (hevents'.ne_nil (List.map_eq_nil_iff.not.mpr hevents))
  have hne' := List.map_eq_nil_iff.not.mp (hreadings'.ne_nil (List.map_eq_nil_iff.not.mpr hreadings))
  rcases exists_ofSession hne hne' with ⟨b', hb', hlatest', hhighest', -⟩
  exact ⟨b', hb', hlatest.sameNumber hlatest' hevents', hhighest.sameNumber hhighest' hreadings'⟩

/-- Three events, one of them at no time that is a number, and readings of minus infinity and of
negative zero; then the same in another order, with one more event and one more reading that count
for nothing. -/
theorem Bounds.ofSession_greatest_mixed :
    let session (times powers : List Float) : Session :=
      ⟨default, times.map (⟨·, "e"⟩), powers.map (⟨0.0, ·⟩)⟩
    let s := session [notANumber, 2.5, -1.5] [-infinity, -0.0]
    let s' := session [-1.5, notANumber, notANumber, 2.5] [-0.0, -infinity, notANumber]
    ∃ b b', ofSession s = .ok b ∧ ofSession s' = .ok b' ∧ (2.5 : Float) ≤ b.latestEvent ∧
      s.highestPower = some b.highestReading ∧ SameNumber b.latestEvent b'.latestEvent ∧
      SameNumber b.highestReading b'.highestReading := by
  intro session s s'
  have hevents : s.events ≠ [] := List.cons_ne_nil _ _
  have hreadings : s.readings ≠ [] := List.cons_ne_nil _ _
  have hnan : ∀ x ∈ [notANumber], x.isNaN = true := by decide
  have htimes : Rearranges (s'.events.map Event.time) (s.events.map Event.time) :=
    ⟨[notANumber], hnan, by decide⟩
  have hpowers : Rearranges (s'.readings.map Reading.power) (s.readings.map Reading.power) :=
    ⟨[notANumber], hnan, by decide⟩
  rcases ofSession_greatest hevents hreadings with ⟨b, hb, hlatest, -, hpower, hrearranged⟩
  rcases hrearranged s' htimes hpowers with ⟨b', hb', hsame, hsame'⟩
  have hmem : (2.5 : Float) ∈ s.events.map Event.time := List.mem_cons_of_mem _ List.mem_cons_self
  exact ⟨b, b', hb, hb', hlatest.le 2.5 hmem (by decide), hpower, hsame, hsame'⟩

end PowerCurve
