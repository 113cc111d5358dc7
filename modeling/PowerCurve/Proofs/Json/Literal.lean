import Mathlib.Data.List.TakeWhile
import PowerCurve.Json.Reader
import PowerCurve.Proofs.Decimal.Literal

/-!
# What counts as a string and as a number in JSON

The notations of the parts of JSON that have no parts of their own, as relations between a text and
what it denotes: `IsString` for what stands between two quotes, `IsNumber` for numbers. The readers
find exactly these notations at the front of a text (`string?_eq_some_iff`, `exists_isNumber`,
`numeral?_of_isNumber`); a number ends where the text does not go on with a part of one
(`EndsNumber`).
-/

namespace PowerCurve.Json

open PowerCurve.Decimal

/-! ## Blanks -/

/-- All characters are blanks of JSON. -/
def AllSpace (text : List Char) : Prop :=
  ∀ c ∈ text, isSpace c = true

theorem allSpace_nil : AllSpace [] := nofun

theorem skipSpace_append {blanks : List Char} (h : AllSpace blanks) (text : List Char) :
    skipSpace (blanks ++ text) = skipSpace text := by
  rw [skipSpace, skipSpace, List.dropWhile_append_of_pos h]

theorem skipSpace_cons {c : Char} (h : isSpace c = false) (text : List Char) :
    skipSpace (c :: text) = c :: text :=
  List.dropWhile_cons_of_neg (by simp [h])

/-- What is skipped is all blanks. -/
theorem exists_blanks (text : List Char) :
    ∃ blanks, AllSpace blanks ∧ text = blanks ++ skipSpace text :=
  ⟨text.takeWhile isSpace, fun _ => List.mem_takeWhile_imp, List.takeWhile_append_dropWhile.symm⟩

/-! ## Strings -/

/-- One unit of a string and the glyph that it stands for. -/
inductive IsUnit : List Char → Glyph → Prop where
  /-- A character as it is. -/
  | plain {c : Char} (hquote : c ≠ '"') (hslash : c ≠ '\\') (hcontrol : 0x20 ≤ c.toNat) :
    IsUnit [c] (.char c)
  /-- An escape of one letter. -/
  | escape {e c : Char} (h : escaped? e = some c) : IsUnit ['\\', e] (.char c)
  /-- Four hexadecimal digits. -/
  | code {a b c d : Char} {unit : Nat} (h : unit? a b c d = some unit) :
    IsUnit ['\\', 'u', a, b, c, d] (.ofUnit unit)

/-- The units of a string one after the other. -/
inductive AreUnits : List Char → List Glyph → Prop where
  | nil : AreUnits [] []
  | cons {unit text : List Char} {glyph : Glyph} {glyphs : List Glyph} (first : IsUnit unit glyph)
      (others : AreUnits text glyphs) : AreUnits (unit ++ text) (glyph :: glyphs)

/-- A string between its quotes: the halves of surrogate pairs count as one character. -/
def IsString (text : List Char) (glyphs : List Glyph) : Prop :=
  ∃ units, AreUnits text units ∧ pairUp units = glyphs

theorem units?_of_isUnit {unit : List Char} {glyph : Glyph} (h : IsUnit unit glyph)
    (rest : List Char) :
    units? (unit ++ rest) = (units? rest).map fun read => (glyph :: read.1, read.2) := by
  cases h with
  | @plain c hquote hslash hcontrol =>
    rw [List.singleton_append, units?]
    · rw [if_neg (Nat.not_lt.mpr hcontrol)]
      cases units? rest <;> rfl
    · exact fun heq => hquote heq
    · exact fun _ _ _ _ _ heq _ => hslash heq
    · exact fun _ _ heq _ => hslash heq
  | @escape e c h =>
    have hu : e ≠ 'u' := by
      rintro rfl
      cases h
    rw [List.cons_append, List.cons_append, List.nil_append, units?, h]
    · cases units? rest <;> rfl
    · intro _ _ _ _ _ heq
      exact absurd heq hu
  | @code a b c d n h =>
    simp only [List.cons_append, List.nil_append, units?, h, bind, Option.bind_some, pure]
    cases units? rest <;> rfl

/-- One unit more stands in front of a string. -/
theorem exists_areUnits_cons {unit text rest : List Char} {glyph : Glyph} {glyphs : List Glyph}
    (first : IsUnit unit glyph)
    (others : ∃ body, AreUnits body glyphs ∧ text = body ++ '"' :: rest) :
    ∃ body, AreUnits body (glyph :: glyphs) ∧ unit ++ text = body ++ '"' :: rest := by
  rcases others with ⟨body, hbody, rfl⟩
  exact ⟨unit ++ body, .cons first hbody, (List.append_assoc _ _ _).symm⟩

theorem exists_areUnits {text rest : List Char} {glyphs : List Glyph}
    (h : units? text = some (glyphs, rest)) :
    ∃ body, AreUnits body glyphs ∧ text = body ++ '"' :: rest := by
  fun_induction units? text generalizing glyphs with
  | case1 => cases h
  | case2 rest' =>
    cases h
    exact ⟨[], .nil, rfl⟩
  | case3 a b c d rest' ih =>
    simp only [bind, Option.bind_eq_some_iff, pure, Option.some.injEq, Prod.mk.injEq] at h
    rcases h with ⟨unit, hunit, ⟨others, rest''⟩, hothers, rfl, rfl⟩
    exact exists_areUnits_cons (.code hunit) (ih hothers)
  | case4 e rest' _ ih =>
    simp only [bind, Option.bind_eq_some_iff, pure, Option.some.injEq, Prod.mk.injEq] at h
    rcases h with ⟨c, hc, ⟨others, rest''⟩, hothers, rfl, rfl⟩
    exact exists_areUnits_cons (.escape hc) (ih hothers)
  | case5 => cases h
  | case6 c rest' hquote _ hescape hcontrol ih =>
    simp only [bind, Option.bind_eq_some_iff, pure, Option.some.injEq, Prod.mk.injEq] at h
    rcases h with ⟨⟨others, rest''⟩, hothers, rfl, rfl⟩
    -- a backslash that nothing follows would end the text
    have hslash : c ≠ '\\' := by
      rintro rfl
      cases rest' with
      | nil => cases hothers
      | cons e rest' => exact hescape e rest' rfl rfl
    exact exists_areUnits_cons (.plain hquote hslash (Nat.not_lt.mp hcontrol)) (ih hothers)

theorem units?_of_areUnits {text : List Char} {glyphs : List Glyph} (h : AreUnits text glyphs)
    (rest : List Char) : units? (text ++ '"' :: rest) = some (glyphs, rest) := by
  induction h with
  | nil => rfl
  | cons first others ih => rw [List.append_assoc, units?_of_isUnit first, ih, Option.map_some]

theorem string?_eq_some_iff {text rest : List Char} {glyphs : List Glyph} :
    string? text = some (glyphs, rest) ↔
      ∃ body, IsString body glyphs ∧ text = body ++ '"' :: rest := by
  constructor
  · intro h
    simp only [string?, bind, Option.bind_eq_some_iff, pure, Option.some.injEq,
      Prod.mk.injEq] at h
    rcases h with ⟨⟨units, rest'⟩, hunits, rfl, rfl⟩
    rcases exists_areUnits hunits with ⟨body, hbody, rfl⟩
    exact ⟨body, ⟨units, hbody, rfl⟩, rfl⟩
  · rintro ⟨body, ⟨units, hunits, rfl⟩, rfl⟩
    simp only [string?, units?_of_areUnits hunits, bind, Option.bind_some, pure]

/-! ## Numbers -/

/-- There is a digit before the point, and it is no zero unless it is the only one. -/
def IsPlainNumeral (n : Numeral) : Prop :=
  ∃ (d : Digit) (ds : List Digit), n.whole = d :: ds ∧ (ds ≠ [] → d.val ≠ 0)

/-- The sign of a number. -/
def signText (negative : Bool) : List Char :=
  if negative then ['-'] else []

/-- The digits after the point, with the point if there are any. -/
def fractionText (fraction : List Digit) : List Char :=
  if fraction = [] then [] else '.' :: digitText fraction

/-- A number: a minus sign or none, digits, digits after a point if there is one, and at most one
exponent. -/
inductive IsNumber : List Char → Numeral → Prop where
  | intro {n : Numeral} {power : List Char} (hn : IsPlainNumeral n)
      (hpower : IsExponent power n.exponent) :
    IsNumber (signText n.negative ++ (digitText n.whole ++ (fractionText n.fraction ++ power))) n

/-- The text does not go on with a part of a number. -/
def EndsNumber (rest : List Char) : Prop :=
  ∀ c tail, rest = c :: tail → Digit.ofChar? c = none ∧ c ≠ '.' ∧ c ≠ 'e' ∧ c ≠ 'E'

theorem endsNumber_nil : EndsNumber [] := nofun

theorem endsNumber_cons {c : Char} (h : Digit.ofChar? c = none ∧ c ≠ '.' ∧ c ≠ 'e' ∧ c ≠ 'E')
    (tail : List Char) : EndsNumber (c :: tail) := by
  rintro c' tail' ⟨⟩
  exact h

theorem endsNumber_append {blanks : List Char} (h : AllSpace blanks) {rest : List Char}
    (hrest : EndsNumber rest) : EndsNumber (blanks ++ rest) := by
  cases blanks with
  | nil => exact hrest
  | cons c blanks =>
    refine endsNumber_cons ?_ (blanks ++ rest)
    have hc := h c List.mem_cons_self
    simp only [isSpace, Bool.or_eq_true, decide_eq_true_eq] at hc
    rcases hc with ((rfl | rfl) | rfl) | rfl <;> decide

theorem EndsNumber.noDigitFirst {rest : List Char} (h : EndsNumber rest) : NoDigitFirst rest :=
  fun c tail heq => (h c tail heq).1

/-! ### Exponents -/

theorem exists_isExponent {text rest : List Char} {e : Option Int}
    (h : exponent? text = some (e, rest)) : ∃ power, IsExponent power e ∧ text = power ++ rest := by
  unfold exponent? at h
  split at h
  · cases h
    exact ⟨[], .none, rfl⟩
  · next c text =>
    split at h
    · next hc =>
      rcases Option.map_eq_some_iff.mp h with ⟨⟨e', rest'⟩, hspan, heq⟩
      cases heq
      rcases spanExponent?_eq_some_iff.mp hspan with ⟨sign, negative, ds, hs, hds, rfl, -, rfl⟩
      exact ⟨_, .power hc hs hds, by simp⟩
    · cases h
      exact ⟨[], .none, rfl⟩

theorem exponent?_of_isExponent {power : List Char} {e : Option Int} (h : IsExponent power e)
    {rest : List Char} (hrest : EndsNumber rest) : exponent? (power ++ rest) = some (e, rest) := by
  cases h with
  | none =>
    cases rest with
    | nil => rfl
    | cons c tail =>
      rcases hrest c tail rfl with ⟨-, -, he, hE⟩
      rw [List.nil_append, exponent?, if_neg (not_or.mpr ⟨he, hE⟩)]
  | @power c sign negative ds hc hs hds =>
    have hspan : spanExponent? (sign ++ digitText ds ++ rest) =
        some (if negative then -(denoted ds : Int) else denoted ds, rest) :=
      spanExponent?_eq_some_iff.mpr
        ⟨sign, negative, ds, hs, hds, List.append_assoc _ _ _, hrest.noDigitFirst, rfl⟩
    rw [List.cons_append, exponent?, if_pos hc, hspan, Option.map_some]

/-- What may follow the digits of a number starts with a letter, or ends it. -/
theorem isExponent_append_cases {power : List Char} {e : Option Int} (h : IsExponent power e)
    {rest : List Char} (hrest : EndsNumber rest) :
    NoDigitFirst (power ++ rest) ∧ ∀ tail, power ++ rest ≠ '.' :: tail := by
  cases h with
  | none => exact ⟨hrest.noDigitFirst, fun tail heq => (hrest '.' tail heq).2.1 rfl⟩
  | power hc hs hds =>
    rcases hc with rfl | rfl
    · exact ⟨noDigitFirst_cons rfl _, nofun⟩
    · exact ⟨noDigitFirst_cons rfl _, nofun⟩

/-! ### Fractions -/

theorem eq_of_fraction? {text rest : List Char} {fraction : List Digit}
    (h : fraction? text = some (fraction, rest)) : text = fractionText fraction ++ rest := by
  unfold fraction? at h
  split at h
  · next text =>
    split at h
    · cases h
    · next ds rest' hds hspan =>
      cases h
      rw [fractionText, if_neg hds]
      rw [(spanDigits_eq_iff.mp hspan).1, List.cons_append]
  · cases h
    rfl

theorem fraction?_append (fraction : List Digit) {rest : List Char} (hdigit : NoDigitFirst rest)
    (hpoint : ∀ tail, rest ≠ '.' :: tail) :
    fraction? (fractionText fraction ++ rest) = some (fraction, rest) := by
  cases fraction with
  | nil =>
    rw [fractionText, if_pos rfl, List.nil_append, fraction?]
    exact hpoint
  | cons d ds =>
    have hspan : spanDigits (digitText (d :: ds) ++ rest) = (d :: ds, rest) :=
      spanDigits_eq_iff.mpr ⟨rfl, hdigit⟩
    rw [fractionText, if_neg (List.cons_ne_nil d ds), List.cons_append, fraction?, hspan]

/-! ### Whole numbers -/

/-- A number after its sign. -/
def unsignedNumeral? (negative : Bool) (body : List Char) : Option (Numeral × List Char) := do
  let (whole, rest) ← match spanDigits body with
    | ([], _) => none
    | (0 :: _ :: _, _) => none
    | (ds, rest) => some (ds, rest)
  let (fraction, rest) ← fraction? rest
  let (exponent, rest) ← exponent? rest
  return (⟨negative, whole, fraction, exponent⟩, rest)

theorem numeral?_append {body : List Char} (h : ∀ tail, body ≠ '-' :: tail) (negative : Bool) :
    numeral? (signText negative ++ body) = unsignedNumeral? negative body := by
  cases negative with
  | true => rfl
  | false =>
    rw [signText, if_neg Bool.false_ne_true, List.nil_append, numeral?]
    · rfl
    · exact h

/-- Every text is read with a sign of its own. -/
theorem exists_signText (text : List Char) :
    ∃ negative body, text = signText negative ++ body ∧
      numeral? text = unsignedNumeral? negative body := by
  by_cases hminus : ∃ tail, text = '-' :: tail
  · rcases hminus with ⟨tail, rfl⟩
    exact ⟨true, tail, rfl, rfl⟩
  · have hbody : ∀ tail, text ≠ '-' :: tail := fun tail heq => hminus ⟨tail, heq⟩
    exact ⟨false, text, rfl, numeral?_append hbody false⟩

/-- The digits before the point are not none, and none of them is superfluous. -/
theorem exists_unsigned {negative : Bool} {text rest : List Char} {n : Numeral}
    (h : unsignedNumeral? negative text = some (n, rest)) :
    IsPlainNumeral n ∧ n.negative = negative ∧ ∃ power, IsExponent power n.exponent ∧
      text = digitText n.whole ++ (fractionText n.fraction ++ (power ++ rest)) := by
  unfold unsignedNumeral? at h
  split at h
  · cases h
  · cases h
  · next whole afterWhole hnil hzero hspan =>
    simp only [bind, Option.bind_some, Option.bind_eq_some_iff, pure, Option.some.injEq,
      Prod.mk.injEq] at h
    rcases h with ⟨⟨fraction, afterFraction⟩, hfraction, ⟨exponent, afterExponent⟩, hexponent,
      rfl, rfl⟩
    rcases exists_isExponent hexponent with ⟨power, hpower, hrest⟩
    refine ⟨?_, rfl, power, hpower, ?_⟩
    · cases whole with
      | nil => exact absurd rfl hnil
      | cons d ds =>
        refine ⟨d, ds, rfl, ?_⟩
        -- a zero before another digit is refused
        intro hds hd
        obtain ⟨d', ds', rfl⟩ := List.exists_cons_of_ne_nil hds
        obtain rfl : d = 0 := Fin.ext hd
        exact hzero d' ds' rfl
    · rw [← hrest, ← eq_of_fraction? hfraction]
      exact (spanDigits_eq_iff.mp hspan).1

theorem unsignedNumeral?_append {n : Numeral} (hn : IsPlainNumeral n) {power rest : List Char}
    (hpower : IsExponent power n.exponent) (hrest : EndsNumber rest) :
    unsignedNumeral? n.negative
      (digitText n.whole ++ (fractionText n.fraction ++ (power ++ rest))) = some (n, rest) := by
  rcases isExponent_append_cases hpower hrest with ⟨hdigit, hpoint⟩
  have hspan : spanDigits (digitText n.whole ++ (fractionText n.fraction ++ (power ++ rest))) =
      (n.whole, fractionText n.fraction ++ (power ++ rest)) := by
    refine spanDigits_eq_iff.mpr ⟨rfl, ?_⟩
    rw [fractionText]
    split
    · exact hdigit
    · exact noDigitFirst_cons rfl _
  have hfraction := fraction?_append n.fraction hdigit hpoint
  have hexponent := exponent?_of_isExponent hpower hrest
  rw [unsignedNumeral?, hspan]
  rcases hn with ⟨d, ds, hds, hd⟩
  rw [hds]
  split
  · next heq => cases heq
  · next heq =>
    cases heq
    exact absurd rfl (hd (List.cons_ne_nil _ _))
  · next heq =>
    cases heq
    simp only [bind, Option.bind_some, hfraction, hexponent, pure]
    rw [← hds]

/-- What is read as a number is one, with nothing in front of it. -/
theorem exists_isNumber {text rest : List Char} {n : Numeral}
    (h : numeral? text = some (n, rest)) : ∃ body, IsNumber body n ∧ text = body ++ rest := by
  rcases exists_signText text with ⟨negative, body, rfl, hbody⟩
  rw [hbody] at h
  rcases exists_unsigned h with ⟨hn, rfl, power, hpower, rfl⟩
  exact ⟨_, .intro hn hpower, by simp only [List.append_assoc]⟩

/-- A number is read before anything that is no part of it. -/
theorem numeral?_of_isNumber {text rest : List Char} {n : Numeral} (h : IsNumber text n)
    (hrest : EndsNumber rest) : numeral? (text ++ rest) = some (n, rest) := by
  cases h with
  | @intro _ power hn hpower =>
    have hminus : ∀ tail, digitText n.whole ++ (fractionText n.fraction ++ (power ++ rest)) ≠
        '-' :: tail := by
      rcases hn with ⟨d, ds, hds, -⟩
      rw [hds]
      intro tail heq
      exact (toChar_ne_sign d).1 (List.cons.inj heq).1
    simp only [List.append_assoc]
    rw [numeral?_append hminus, unsignedNumeral?_append hn hpower hrest]

/-- A number starts with a minus sign or a digit. -/
theorem IsNumber.exists_cons {text : List Char} {n : Numeral} (h : IsNumber text n) :
    ∃ c tail, text = c :: tail ∧ (c = '-' ∨ ∃ d : Digit, c = d.toChar) := by
  rcases h with ⟨⟨d, ds, hds, -⟩, -⟩
  rw [hds, digitText_cons, signText]
  split
  · exact ⟨'-', _, rfl, .inl rfl⟩
  · exact ⟨d.toChar, _, rfl, .inr ⟨d, rfl⟩⟩

end PowerCurve.Json
