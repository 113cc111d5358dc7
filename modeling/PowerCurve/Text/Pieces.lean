/-!
# Pieces between separators

A list is cut at every occurrence of a separator. There is always one piece more than there are
separators, so the empty list has one empty piece.
-/

namespace PowerCurve.Text

variable {α : Type} [DecidableEq α]

/-- Puts one more element in front of a list of pieces: a separator opens a new piece, any other
element joins the first one. -/
def pushPiece (sep a : α) (ps : List (List α)) : List (List α) :=
  if a = sep then [] :: ps
  else match ps with
    | [] => [[a]]
    | p :: rest => (a :: p) :: rest

/-- The pieces of a list between the occurrences of `sep`. -/
def pieces (sep : α) (l : List α) : List (List α) :=
  l.foldr (pushPiece sep) [[]]

/-- Writes pieces one after the other with `sep` between them. -/
def joinPieces (sep : α) : List (List α) → List α
  | [] => []
  | [p] => p
  | p :: rest => p ++ sep :: joinPieces sep rest

/-- What follows the first occurrence of `sep`, if there is one. -/
def afterFirst (sep : α) (l : List α) : Option (List α) :=
  match l.dropWhile (· ≠ sep) with
  | [] => none
  | _ :: rest => some rest

@[simp] theorem pieces_nil (sep : α) : pieces sep [] = [[]] := rfl

theorem pieces_cons (sep a : α) (l : List α) :
    pieces sep (a :: l) = pushPiece sep a (pieces sep l) := rfl

/-- No list is without a piece. -/
theorem pieces_ne_nil (sep : α) (l : List α) : pieces sep l ≠ [] := by
  cases l with
  | nil => simp
  | cons a l =>
    rw [pieces_cons]
    unfold pushPiece
    split
    · simp
    · split <;> simp

/-- Joining the pieces gives the list back. -/
theorem joinPieces_pieces (sep : α) (l : List α) : joinPieces sep (pieces sep l) = l := by
  induction l with
  | nil => rfl
  | cons a l ih =>
    rw [pieces_cons]
    unfold pushPiece
    cases h : pieces sep l with
    | nil => exact absurd h (pieces_ne_nil sep l)
    | cons p rest =>
      rw [h] at ih
      split
      · rename_i ha
        simp [joinPieces, ih, ha]
      · cases rest with
        | nil => simpa [joinPieces] using ih
        | cons q rest => simpa [joinPieces] using ih

end PowerCurve.Text
