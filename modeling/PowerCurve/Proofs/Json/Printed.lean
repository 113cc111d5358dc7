import PowerCurve.Proofs.Json.Number
import PowerCurve.Proofs.Json.RoundTrip

/-!
# Values that are printed

A finite number that is not zero is never printed as zero, and no superfluous zero stands in front of
a printed number. So whatever the program makes of numbers and texts is plain, and reads back once it
is printed.
-/

namespace PowerCurve.Json

open PowerCurve.Decimal PowerCurve.Text

/-! ## Printed numbers -/

theorem positionalNumeral_isPlain (negative : Bool) {d : Digit} (hd : d.val ≠ 0) (ds : List Digit)
    (exponent : Int) : IsPlainNumeral (positionalNumeral negative (d :: ds) exponent) := by
  rw [positionalNumeral]
  split
  · exact ⟨d, _, rfl, fun _ => hd⟩
  · split
    · next hpoint =>
      obtain ⟨n, hn⟩ : ∃ n, ((d :: ds).length + exponent).toNat = n + 1 :=
        ⟨((d :: ds).length + exponent).toNat - 1, by omega⟩
      rw [hn, List.take_succ_cons]
      exact ⟨d, _, rfl, fun _ => hd⟩
    · exact ⟨_, [], rfl, absurd rfl⟩

theorem numeralOf_isPlain (positional : PositionalRange) (negative : Bool) {x : Scaled}
    (hx : x.coefficient ≠ 0) : IsPlainNumeral (numeralOf positional negative x) := by
  rcases exists_digits hx with ⟨d, ds, hds, hd⟩
  rw [numeralOf, hds]
  split
  · exact positionalNumeral_isPlain negative hd ds x.exponent
  · exact ⟨d, [], rfl, absurd rfl⟩

theorem Value.ofBinary_isPlain (positional : PositionalRange) (b : Binary) :
    (ofBinary positional b).IsPlain := by
  cases b with
  | finite negative m =>
    rw [ofBinary]
    split
    · exact .number ⟨_, [], rfl, absurd rfl⟩
    · next hm => exact .number (numeralOf_isPlain _ _ (Magnitude.shortest_coefficient_ne_zero hm))
  | infinite negative => exact .null
  | notANumber => exact .null

theorem Value.ofFloat_isPlain (x : Float) : (ofFloat x).IsPlain :=
  ofBinary_isPlain _ _

theorem Value.ofFloat32_isPlain (x : Float32) : (ofFloat32 x).IsPlain :=
  ofBinary_isPlain _ _

theorem Value.ofNat_isPlain (n : Nat) : (ofNat n).IsPlain := by
  by_cases hn : n = 0
  · rw [hn]
    exact .number ⟨_, [], rfl, absurd rfl⟩
  · rcases exists_digits hn with ⟨d, ds, hds, hd⟩
    exact .number ⟨d, ds, hds, fun _ => hd⟩

/-! ## Texts and records -/

theorem Value.ofString_isPlain (s : String) : (ofString s).IsPlain :=
  .string s.toList

theorem Value.record_isPlain {members : List (String × Value)}
    (h : ∀ m ∈ members, m.2.IsPlain) : (record members).IsPlain := by
  refine .object ?_ ?_
  · intro m hmem
    rcases List.mem_map.mp hmem with ⟨m', -, rfl⟩
    exact ⟨m'.1.toList, rfl⟩
  · intro m hmem
    rcases List.mem_map.mp hmem with ⟨m', hmem', rfl⟩
    exact h m' hmem'

end PowerCurve.Json
