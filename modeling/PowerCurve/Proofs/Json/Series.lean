import PowerCurve.Proofs.Text.Pieces

/-!
# Parts with commas between them

The items of a list and the members of a record are written in the same way, and read in the same
way: one part after the other, up to what closes them. If what is read always starts with a part,
then all of it is parts (`sound_succ`). If each part is read before a comma and before what closes
the series, then so are all (`reader_textOf`).
-/

namespace PowerCurve.Json

open PowerCurve.Text

/-- How the parts of a list or of a record are written, what they denote, and how they are read. -/
structure Series (α β : Type) where
  /-- The text of a part. -/
  text : α → List Char
  /-- What a part denotes. -/
  value : α → β
  /-- What closes the series. -/
  close : Char
  /-- Reads parts up to what closes them. -/
  reader : (fuel : Nat) → List Char → Option (List β × List Char)

namespace Series

variable {α β : Type} (s : Series α β)

/-- The text of parts. -/
def textOf (parts : List α) : List Char :=
  joinPieces ',' (parts.map s.text)

theorem textOf_singleton (a : α) : s.textOf [a] = s.text a := rfl

theorem textOf_cons (a : α) {parts : List α} (h : parts ≠ []) :
    s.textOf (a :: parts) = s.text a ++ ',' :: s.textOf parts := by
  have hmap : parts.map s.text ≠ [] := by simpa using h
  exact joinPieces_cons hmap

/-! ## What is read is parts -/

/-- Whatever is read with this much fuel is parts of a kind. -/
def Sound (P : α → Prop) (fuel : Nat) : Prop :=
  ∀ whole values rest, s.reader fuel whole = some (values, rest) →
    ∃ parts : List α, parts ≠ [] ∧ (∀ a ∈ parts, P a) ∧ values = parts.map s.value ∧
      whole = s.textOf parts ++ s.close :: rest

/-- Whatever is read with one more unit of fuel starts with a part of a kind, and the reader goes on
behind a comma. -/
def StartsWithPart (P : α → Prop) (fuel : Nat) : Prop :=
  ∀ whole values rest, s.reader (fuel + 1) whole = some (values, rest) →
    ∃ a, P a ∧
      ((∃ tail others, whole = s.text a ++ ',' :: tail ∧
        s.reader fuel tail = some (others, rest) ∧ values = s.value a :: others) ∨
      (whole = s.text a ++ s.close :: rest ∧ values = [s.value a]))

theorem sound_succ {P : α → Prop} {fuel : Nat} (hstart : s.StartsWithPart P fuel)
    (h : s.Sound P fuel) : s.Sound P (fuel + 1) := by
  intro whole values rest hread
  rcases hstart whole values rest hread with
    ⟨a, ha, ⟨tail, others, rfl, hothers, rfl⟩ | ⟨rfl, rfl⟩⟩
  · rcases h tail others rest hothers with ⟨parts, hne, hparts, rfl, rfl⟩
    refine ⟨a :: parts, List.cons_ne_nil a parts, List.forall_mem_cons.mpr ⟨ha, hparts⟩, rfl, ?_⟩
    rw [textOf_cons s a hne, List.append_assoc, List.cons_append]
  · exact ⟨[a], List.cons_ne_nil a [], List.forall_mem_singleton.mpr ha, rfl, rfl⟩

/-! ## Parts are read -/

/-- A part is read before a comma, and before what closes the series. -/
def ReadsPart (a : α) : Prop :=
  ∀ fuel rest, 2 * (s.text a).length ≤ fuel →
    s.reader (fuel + 1) (s.text a ++ ',' :: rest) =
      (s.reader fuel rest).map (fun r => (s.value a :: r.1, r.2)) ∧
    s.reader (fuel + 1) (s.text a ++ s.close :: rest) = some ([s.value a], rest)

theorem reader_textOf {parts : List α} (hne : parts ≠ []) (h : ∀ a ∈ parts, s.ReadsPart a)
    {fuel : Nat} (hfuel : 2 * (s.textOf parts).length + 1 ≤ fuel) (rest : List Char) :
    s.reader fuel (s.textOf parts ++ s.close :: rest) = some (parts.map s.value, rest) := by
  -- each part takes one unit of fuel, which its comma or what closes the series pays for
  induction parts generalizing fuel with
  | nil => exact absurd rfl hne
  | cons a parts ih =>
    obtain ⟨fuel, rfl⟩ : ∃ n, fuel = n + 1 := ⟨fuel - 1, by omega⟩
    have hfirst := h a List.mem_cons_self fuel
    by_cases hlast : parts = []
    · subst hlast
      rw [textOf_singleton] at hfuel ⊢
      exact (hfirst rest (by omega)).2
    · rw [textOf_cons s a hlast] at hfuel ⊢
      simp only [List.length_append, List.length_cons] at hfuel
      have hfuel' : 2 * (s.textOf parts).length + 1 ≤ fuel := by omega
      have hothers := ih hlast (fun b hb => h b (List.mem_cons_of_mem a hb)) hfuel'
      rw [List.append_assoc, List.cons_append, (hfirst _ (by omega)).1, hothers]
      rfl

end Series

end PowerCurve.Json
