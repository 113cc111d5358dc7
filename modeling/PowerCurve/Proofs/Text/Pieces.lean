import Mathlib.Tactic.Common
import PowerCurve.Text.Pieces

/-!
# What the pieces of a list are

`pieces` is the library's `List.splitOn`. Hence it is the inverse of writing separators between
pieces that hold none (`pieces_eq_iff`), and `afterFirst` finds the first separator
(`afterFirst_eq_some_iff`).
-/

namespace PowerCurve.Text

variable {α : Type} [DecidableEq α] {sep : α}

theorem pieces_eq_splitOn (sep : α) (l : List α) : pieces sep l = l.splitOn sep := by
  induction l with
  | nil => rw [pieces_nil, List.splitOn_nil]
  | cons a l ih =>
    rw [pieces_cons, ih, List.splitOn_cons_eq_if_modifyHead]
    simp only [pushPiece, beq_iff_eq]
    split
    · rfl
    · cases h : l.splitOn sep with
      | nil => exact absurd h (List.splitOn_ne_nil sep l)
      | cons p ps => rfl

/-- No piece holds a separator. -/
theorem notMem_of_mem_pieces {l p : List α} (h : p ∈ pieces sep l) : sep ∉ p := by
  induction l generalizing p with
  | nil =>
    rw [pieces_nil, List.mem_singleton] at h
    simp [h]
  | cons a l ih =>
    rw [pieces_cons] at h
    unfold pushPiece at h
    split at h
    · rcases List.mem_cons.mp h with rfl | h
      · exact List.not_mem_nil
      · exact ih h
    · next ha =>
      cases hps : pieces sep l with
      | nil => exact absurd hps (pieces_ne_nil sep l)
      | cons q ps =>
        rw [hps] at h ih
        rcases List.mem_cons.mp h with rfl | h
        · have hq : sep ∉ q := ih List.mem_cons_self
          simpa [hq] using Ne.symm ha
        · exact ih (List.mem_cons_of_mem q h)

/-- **The pieces are the only lists without a separator that give the list when joined.** -/
theorem pieces_eq_iff {l : List α} {ps : List (List α)} :
    pieces sep l = ps ↔ ps ≠ [] ∧ (∀ p ∈ ps, sep ∉ p) ∧ l = [sep].intercalate ps := by
  constructor
  · rintro rfl
    refine ⟨pieces_ne_nil sep l, fun p => notMem_of_mem_pieces, ?_⟩
    rw [pieces_eq_splitOn, List.intercalate_splitOn]
  · intro h
    rcases h with ⟨hne, hps, rfl⟩
    rw [pieces_eq_splitOn, List.splitOn_intercalate sep hps hne]

/-- There are two pieces exactly when there is one separator. -/
theorem pieces_eq_pair_iff {l p q : List α} :
    pieces sep l = [p, q] ↔ l = p ++ sep :: q ∧ sep ∉ p ∧ sep ∉ q := by
  rw [pieces_eq_iff]
  constructor
  · intro h
    rcases h with ⟨-, hps, rfl⟩
    exact ⟨by simp [List.intercalate_cons_cons], hps p (by simp), hps q (by simp)⟩
  · intro h
    rcases h with ⟨rfl, hp, hq⟩
    refine ⟨by simp, ?_, by simp [List.intercalate_cons_cons]⟩
    intro r hr
    simp only [List.mem_cons, List.not_mem_nil, or_false] at hr
    rcases hr with rfl | rfl
    · exact hp
    · exact hq

/-! ## Joining pieces -/

omit [DecidableEq α] in
theorem joinPieces_eq_intercalate (sep : α) (ps : List (List α)) :
    joinPieces sep ps = [sep].intercalate ps := by
  induction ps with
  | nil => rfl
  | cons p ps ih =>
    cases ps with
    | nil => simp [joinPieces]
    | cons q ps =>
      rw [joinPieces, ih, List.intercalate_cons_cons, List.append_assoc, List.singleton_append]
      exact List.cons_ne_nil q ps

omit [DecidableEq α] in
theorem joinPieces_append {ps qs : List (List α)} (hps : ps ≠ []) (hqs : qs ≠ []) :
    joinPieces sep (ps ++ qs) = joinPieces sep ps ++ sep :: joinPieces sep qs := by
  induction ps with
  | nil => exact absurd rfl hps
  | cons p ps ih =>
    cases ps with
    | nil =>
      cases qs with
      | nil => exact absurd rfl hqs
      | cons q qs => rfl
    | cons p' ps =>
      have hrest := ih (List.cons_ne_nil p' ps)
      rw [List.cons_append] at hrest
      simp only [List.cons_append, joinPieces, hrest, List.append_assoc]

omit [DecidableEq α] in
theorem joinPieces_cons {p : List α} {ps : List (List α)} (hps : ps ≠ []) :
    joinPieces sep (p :: ps) = p ++ sep :: joinPieces sep ps :=
  joinPieces_append (List.cons_ne_nil p []) hps

/-- Pieces without a separator are found again after joining. -/
theorem pieces_joinPieces {ps : List (List α)} (hne : ps ≠ []) (hps : ∀ p ∈ ps, sep ∉ p) :
    pieces sep (joinPieces sep ps) = ps :=
  pieces_eq_iff.mpr ⟨hne, hps, joinPieces_eq_intercalate sep ps⟩

/-! ## After the first separator -/

theorem afterFirst_nil (sep : α) : afterFirst sep [] = none := rfl

theorem afterFirst_cons (sep a : α) (l : List α) :
    afterFirst sep (a :: l) = if a = sep then some l else afterFirst sep l := by
  by_cases ha : a = sep
  · simp [afterFirst, ha]
  · simp [afterFirst, ha]

/-- What follows the first separator, with a front that holds none. -/
theorem afterFirst_eq_some_iff {l rest : List α} :
    afterFirst sep l = some rest ↔ ∃ p, l = p ++ sep :: rest ∧ sep ∉ p := by
  induction l with
  | nil => simp [afterFirst_nil]
  | cons a l ih =>
    rw [afterFirst_cons]
    constructor
    · intro h
      split at h
      · next ha =>
        obtain rfl := Option.some.inj h
        exact ⟨[], by simp [ha], List.not_mem_nil⟩
      · next ha =>
        rcases ih.mp h with ⟨p, rfl, hp⟩
        exact ⟨a :: p, rfl, by simpa [hp] using Ne.symm ha⟩
    · intro h
      rcases h with ⟨p, heq, hp⟩
      cases p with
      | nil =>
        rcases List.cons.inj heq with ⟨rfl, rfl⟩
        rw [if_pos rfl]
      | cons b p =>
        rcases List.cons.inj heq with ⟨rfl, rfl⟩
        rw [List.mem_cons, not_or] at hp
        rw [if_neg (Ne.symm hp.1)]
        exact ih.mpr ⟨p, rfl, hp.2⟩

end PowerCurve.Text
