import PowerCurve.Decimal.Real
import PowerCurve.Proofs.Decimal.Numeral

/-!
# What counts as a number in a text

The notations of numbers, as relations between a text and what it denotes: `IsNatural` for natural
numbers below a limit, `IsReal` for real numbers, of which the nearest 64-bit number is taken. The
readers accept exactly these notations and give these numbers (`readNatural?_eq_some_iff`,
`readReal?_eq_some_iff`).
-/

namespace PowerCurve.Decimal

/-! ## Notations -/

/-- A natural number below `limit`: one digit or more, after at most one plus sign. -/
def IsNatural (limit : Nat) (text : List Char) (n : Nat) : Prop :=
  ∃ ds : List Digit, ds ≠ [] ∧ (text = digitText ds ∨ text = '+' :: digitText ds) ∧
    denoted ds = n ∧ n < limit

/-- At most one sign; whether it is a minus. -/
inductive IsSign : List Char → (negative : Bool) → Prop where
  | none : IsSign [] false
  | plus : IsSign ['+'] false
  | minus : IsSign ['-'] true

/-- At most one point, with any number of digits after it. -/
inductive IsFraction : List Char → List Digit → Prop where
  | none : IsFraction [] []
  | point (ds : List Digit) : IsFraction ('.' :: digitText ds) ds

/-- At most one exponent, which has at least one digit. -/
inductive IsExponent : List Char → Option Int → Prop where
  | none : IsExponent [] none
  | power {e : Char} {sign : List Char} {negative : Bool} {ds : List Digit}
      (he : e = 'e' ∨ e = 'E') (hs : IsSign sign negative) (hds : ds ≠ []) :
      IsExponent (e :: (sign ++ digitText ds))
        (some (if negative then -(denoted ds : Int) else denoted ds))

/-- Digits with at most one point among them, then at most one exponent. -/
inductive IsNumeral (negative : Bool) : List Char → Numeral → Prop where
  | intro {whole fraction : List Digit} {exponent : Option Int} {point power : List Char}
      (hds : whole ≠ [] ∨ fraction ≠ []) (hp : IsFraction point fraction)
      (he : IsExponent power exponent) :
      IsNumeral negative (digitText whole ++ (point ++ power)) ⟨negative, whole, fraction, exponent⟩

/-- The words for what has no digits, in any case. Only infinities have a sign. -/
inductive IsWord (negative : Bool) : List Char → Float → Prop where
  | infinite {word : List Char} {x : Float}
      (h : word.map Char.toLower = ['i', 'n', 'f'] ∨
        word.map Char.toLower = ['i', 'n', 'f', 'i', 'n', 'i', 't', 'y'])
      (hx : x.isInf = true) (hs : signBit x = negative) : IsWord negative word x
  | nan {word : List Char} {x : Float} (h : word.map Char.toLower = ['n', 'a', 'n'])
      (hx : x.isNaN = true) : IsWord negative word x

/-- A real number: a sign, and a word or a numeral, which is read as the nearest 64-bit number. -/
inductive IsReal : List Char → Float → Prop where
  | word {sign body : List Char} {negative : Bool} {x : Float} (hs : IsSign sign negative)
      (hw : IsWord negative body x) : IsReal (sign ++ body) x
  | numeral {sign body : List Char} {negative : Bool} {n : Numeral} {x : Float}
      (hs : IsSign sign negative) (hn : IsNumeral negative body n)
      (hx : IsNearest negative n.toRat x) : IsReal (sign ++ body) x

/-! ## Natural numbers -/

theorem toChar_ne_sign (d : Digit) : d.toChar ≠ '-' ∧ d.toChar ≠ '+' := by
  revert d
  decide

theorem toChar_ne_letter (d : Digit) : ¬(d.toChar.toLower = 'i' ∨ d.toChar.toLower = 'n') := by
  revert d
  decide

/-- A natural number without a sign. -/
def unsigned? (limit : Nat) (text : List Char) : Option Nat :=
  match spanDigits text with
  | (d :: ds, []) => if value (d :: ds) < limit then some (value (d :: ds)) else none
  | _ => none

theorem unsigned?_eq_some_iff {limit n : Nat} {text : List Char} :
    unsigned? limit text = some n ↔
      ∃ ds : List Digit, ds ≠ [] ∧ text = digitText ds ∧ denoted ds = n ∧ n < limit := by
  simp only [← value_eq_denoted]
  unfold unsigned?
  constructor
  · intro h
    split at h
    · next d ds hspan =>
      rcases spanDigits_eq_iff.mp hspan with ⟨rfl, -⟩
      split at h
      · next hlt =>
        obtain rfl := Option.some.inj h
        exact ⟨d :: ds, by simp, by simp, rfl, hlt⟩
      · cases h
    · cases h
  · intro h
    rcases h with ⟨ds, hds, rfl, rfl, hlt⟩
    have hspan : spanDigits (digitText ds) = (ds, []) :=
      spanDigits_eq_iff.mpr ⟨by simp, noDigitFirst_nil⟩
    cases ds with
    | nil => exact absurd rfl hds
    | cons d ds => simp only [hspan, hlt, if_true]

theorem readNatural?_plus (limit : Nat) (rest : List Char) :
    readNatural? limit ('+' :: rest) = unsigned? limit rest := rfl

theorem readNatural?_of_noPlus {limit : Nat} {text : List Char}
    (h : ∀ rest, text ≠ '+' :: rest) : readNatural? limit text = unsigned? limit text := by
  unfold readNatural?
  split
  · next rest => exact absurd rfl (h rest)
  · rfl

/-- **The reader of natural numbers accepts exactly their notation.** -/
theorem readNatural?_eq_some_iff {limit n : Nat} {text : List Char} :
    readNatural? limit text = some n ↔ IsNatural limit text n := by
  by_cases hplus : ∃ rest, text = '+' :: rest
  · rcases hplus with ⟨rest, rfl⟩
    rw [readNatural?_plus, unsigned?_eq_some_iff]
    constructor
    · intro h
      rcases h with ⟨ds, hds, rfl, hn⟩
      exact ⟨ds, hds, .inr rfl, hn⟩
    · rintro ⟨ds, hds, heq | heq, hn⟩
      · cases ds with
        | nil => exact absurd rfl hds
        | cons d ds => exact absurd (List.cons.inj heq).1.symm (toChar_ne_sign d).2
      · exact ⟨ds, hds, (List.cons.inj heq).2, hn⟩
  · rw [readNatural?_of_noPlus fun rest h => hplus ⟨rest, h⟩, unsigned?_eq_some_iff]
    constructor
    · intro h
      rcases h with ⟨ds, hds, rfl, hn⟩
      exact ⟨ds, hds, .inl rfl, hn⟩
    · rintro ⟨ds, hds, rfl | rfl, hn⟩
      · exact ⟨ds, hds, rfl, hn⟩
      · exact absurd ⟨digitText ds, rfl⟩ hplus

/-! ## Real numbers -/

/-- No sign stands at the front of a text. -/
def NoSignFirst (text : List Char) : Prop :=
  ∀ rest, text ≠ '-' :: rest ∧ text ≠ '+' :: rest

theorem spanSign_append {sign body : List Char} {negative : Bool} (hs : IsSign sign negative)
    (hb : NoSignFirst body) : spanSign (sign ++ body) = (negative, body) := by
  cases hs with
  | none =>
    rw [List.nil_append]
    unfold spanSign
    split
    · next rest => exact absurd rfl (hb rest).1
    · next rest => exact absurd rfl (hb rest).2
    · rfl
  | plus => rfl
  | minus => rfl

theorem exists_sign (text : List Char) :
    ∃ sign, IsSign sign (spanSign text).1 ∧ text = sign ++ (spanSign text).2 := by
  unfold spanSign
  split
  · exact ⟨['-'], .minus, rfl⟩
  · exact ⟨['+'], .plus, rfl⟩
  · exact ⟨[], .none, rfl⟩

theorem noSignFirst_digitText {ds : List Digit} (h : ds ≠ []) (rest : List Char) :
    NoSignFirst (digitText ds ++ rest) := by
  cases ds with
  | nil => exact absurd rfl h
  | cons d ds =>
    intro rest'
    exact ⟨fun h => (toChar_ne_sign d).1 (List.cons.inj h).1,
      fun h => (toChar_ne_sign d).2 (List.cons.inj h).1⟩

/-- The digits of an exponent are as many as there are. -/
theorem spanExponent?_eq_some_iff {text rest : List Char} {e : Int} :
    spanExponent? text = some (e, rest) ↔
      ∃ sign negative ds, IsSign sign negative ∧ ds ≠ [] ∧
        text = sign ++ (digitText ds ++ rest) ∧ NoDigitFirst rest ∧
        e = if negative then -(denoted ds : Int) else denoted ds := by
  simp only [← value_eq_denoted]
  constructor
  · intro h
    rcases exists_sign text with ⟨sign, hs, htext⟩
    unfold spanExponent? at h
    split at h
    · cases h
    · next ds rest' hne hspan =>
      rcases Prod.mk.inj (Option.some.inj h) with ⟨he, rfl⟩
      rcases spanDigits_eq_iff.mp hspan with ⟨hdigits, hrest⟩
      refine ⟨sign, (spanSign text).1, ds, hs, ?_, ?_, hrest, he.symm⟩
      · rintro rfl
        exact hne rfl
      · rw [← hdigits]
        exact htext
  · rintro ⟨sign, negative, ds, hs, hds, rfl, hrest, rfl⟩
    have hspan : spanDigits (digitText ds ++ rest) = (ds, rest) :=
      spanDigits_eq_iff.mpr ⟨rfl, hrest⟩
    unfold spanExponent?
    rw [spanSign_append hs (noSignFirst_digitText hds rest), hspan]
    cases ds with
    | nil => exact absurd rfl hds
    | cons d ds => rfl

theorem exponentPart?_eq_some_iff {text : List Char} {e : Option Int} :
    exponentPart? text = some e ↔ IsExponent text e := by
  constructor
  · intro h
    unfold exponentPart? at h
    split at h
    · obtain rfl := Option.some.inj h
      exact .none
    · next c rest =>
      split at h
      · next hc =>
        split at h
        · next e' hspan =>
          obtain rfl := Option.some.inj h
          rcases spanExponent?_eq_some_iff.mp hspan with
            ⟨sign, negative, ds, hs, hds, rfl, -, rfl⟩
          rw [List.append_nil]
          exact .power hc hs hds
        · cases h
      · cases h
  · intro h
    cases h with
    | none => rfl
    | @power c sign negative ds hc hs hds =>
      have hspan := spanExponent?_eq_some_iff.mpr
        ⟨sign, negative, ds, hs, hds, rfl, noDigitFirst_nil, rfl⟩
      rw [List.append_nil] at hspan
      simp only [exponentPart?, hc, if_true, hspan]

/-- What may follow the digits of a numeral starts with a letter. -/
theorem IsExponent.letterFirst {text : List Char} {e : Option Int} (h : IsExponent text e) :
    NoDigitFirst text ∧ ∀ rest, text ≠ '.' :: rest := by
  cases h with
  | none => exact ⟨noDigitFirst_nil, fun rest h => by cases h⟩
  | power he hs hds =>
    rcases he with rfl | rfl
    · exact ⟨noDigitFirst_cons (by decide) _, fun rest h => by cases h⟩
    · exact ⟨noDigitFirst_cons (by decide) _, fun rest h => by cases h⟩

theorem spanFraction_append {point power : List Char} {fraction : List Digit}
    {e : Option Int} (hp : IsFraction point fraction) (he : IsExponent power e) :
    spanFraction (point ++ power) = (fraction, power) := by
  cases hp with
  | none =>
    rw [List.nil_append]
    unfold spanFraction
    split
    · next rest => exact absurd rfl (he.letterFirst.2 rest)
    · rfl
  | point ds =>
    exact spanDigits_eq_iff.mpr ⟨rfl, he.letterFirst.1⟩

theorem exists_fraction (text : List Char) :
    ∃ point, IsFraction point (spanFraction text).1 ∧ text = point ++ (spanFraction text).2 := by
  unfold spanFraction
  split
  · next rest =>
    refine ⟨'.' :: digitText (spanDigits rest).1, .point _, ?_⟩
    rw [List.cons_append, ← (spanDigits_eq_iff.mp rfl).1]
  · exact ⟨[], .none, rfl⟩

theorem numeral?_eq_some_iff {negative : Bool} {text : List Char} {n : Numeral} :
    numeral? negative text = some n ↔ IsNumeral negative text n := by
  constructor
  · intro h
    rcases spanDigits_eq_iff.mp (rfl : spanDigits text = _) with ⟨htext, -⟩
    rcases exists_fraction (spanDigits text).2 with ⟨point, hp, hrest⟩
    simp only [numeral?] at h
    split at h
    · cases h
    · next hds =>
      rcases Option.map_eq_some_iff.mp h with ⟨e, he, rfl⟩
      have hn : IsNumeral negative _ _ :=
        .intro (by simpa only [not_and_or] using hds) hp (exponentPart?_eq_some_iff.mp he)
      rwa [← hrest, ← htext] at hn
  · intro h
    rcases h with ⟨hds, hp, he⟩
    next whole fraction exponent point power =>
    -- what follows the whole digits cannot be taken for one more of them
    have hfirst : NoDigitFirst (point ++ power) := by
      cases hp with
      | none => exact he.letterFirst.1
      | point ds => exact noDigitFirst_cons (by decide) _
    have hwhole : spanDigits (digitText whole ++ (point ++ power)) = (whole, point ++ power) :=
      spanDigits_eq_iff.mpr ⟨rfl, hfirst⟩
    simp only [numeral?, hwhole, spanFraction_append hp he, exponentPart?_eq_some_iff.mpr he]
    rw [if_neg (by simpa only [not_and_or] using hds)]
    rfl

/-! ## Words -/

/-- The words are read as their values, and then the sign is put in front. -/
theorem isWord_iff {negative : Bool} {text : List Char} {x : Float} :
    IsWord negative text x ↔
      ∃ y, wordReal? text = some y ∧ x = if negative then -y else y := by
  have hinf : "inf".toList = ['i', 'n', 'f'] := rfl
  have hinfinity : "infinity".toList = ['i', 'n', 'f', 'i', 'n', 'i', 't', 'y'] := rfl
  have hnan : "nan".toList = ['n', 'a', 'n'] := rfl
  simp only [wordReal?, hinf, hinfinity, hnan]
  constructor
  · intro h
    cases h with
    | infinite hw hx hs =>
      refine ⟨infinity, if_pos hw, eq_of_isInf hx ?_ (hs.trans ?_)⟩
      · cases negative <;> rfl
      · cases negative <;> rfl
    | nan hw hx =>
      have hfirst : ¬(text.map Char.toLower = ['i', 'n', 'f'] ∨
          text.map Char.toLower = ['i', 'n', 'f', 'i', 'n', 'i', 't', 'y']) := by
        rw [hw]
        decide
      refine ⟨notANumber, (if_neg hfirst).trans (if_pos hw), eq_of_isNaN hx ?_⟩
      cases negative <;> rfl
  · rintro ⟨y, h, rfl⟩
    split at h
    · next hw =>
      obtain rfl := Option.some.inj h
      cases negative with
      | false => exact .infinite hw rfl rfl
      | true => exact .infinite hw rfl rfl
    · split at h
      · next hw =>
        obtain rfl := Option.some.inj h
        cases negative with
        | false => exact .nan hw rfl
        | true => exact .nan hw rfl
      · cases h

/-- A word starts with a letter. -/
theorem IsWord.exists_cons {negative : Bool} {text : List Char} {x : Float}
    (h : IsWord negative text x) :
    ∃ c rest, text = c :: rest ∧ (c.toLower = 'i' ∨ c.toLower = 'n') := by
  have first_of {c' : Char} {rest' : List Char} (hw : text.map Char.toLower = c' :: rest') :
      ∃ c rest, text = c :: rest ∧ c.toLower = c' := by
    rcases List.map_eq_cons_iff.mp hw with ⟨c, rest, rfl, hc, -⟩
    exact ⟨c, rest, rfl, hc⟩
  cases h with
  | infinite hw =>
    rcases hw with hw | hw
    · rcases first_of hw with ⟨c, rest, h, hc⟩
      exact ⟨c, rest, h, .inl hc⟩
    · rcases first_of hw with ⟨c, rest, h, hc⟩
      exact ⟨c, rest, h, .inl hc⟩
  | nan hw =>
    rcases first_of hw with ⟨c, rest, h, hc⟩
    exact ⟨c, rest, h, .inr hc⟩

theorem IsWord.noSignFirst {negative : Bool} {text : List Char} {x : Float}
    (h : IsWord negative text x) : NoSignFirst text := by
  rcases h.exists_cons with ⟨c, rest, rfl, hc⟩
  intro rest'
  constructor
  · intro heq
    obtain rfl := (List.cons.inj heq).1
    revert hc
    decide
  · intro heq
    obtain rfl := (List.cons.inj heq).1
    revert hc
    decide

theorem IsNumeral.negative_eq {negative : Bool} {text : List Char} {n : Numeral}
    (h : IsNumeral negative text n) : n.negative = negative := by
  cases h
  rfl

/-- A numeral starts with a digit or a point. -/
theorem IsNumeral.exists_cons {negative : Bool} {text : List Char} {n : Numeral}
    (h : IsNumeral negative text n) :
    ∃ c rest, text = c :: rest ∧ (c = '.' ∨ ∃ d : Digit, c = d.toChar) := by
  rcases h with ⟨hds, hp, he⟩
  next whole fraction exponent point power =>
  cases whole with
  | cons d whole => exact ⟨_, _, rfl, .inr ⟨d, rfl⟩⟩
  | nil =>
    cases hp with
    | none => exact absurd hds (by simp)
    | point ds => exact ⟨_, _, rfl, .inl rfl⟩

theorem IsNumeral.noSignFirst {negative : Bool} {text : List Char} {n : Numeral}
    (h : IsNumeral negative text n) : NoSignFirst text := by
  rcases h.exists_cons with ⟨c, rest, rfl, hc⟩
  have hsign : c ≠ '-' ∧ c ≠ '+' := by
    rcases hc with rfl | ⟨d, rfl⟩
    · decide
    · exact toChar_ne_sign d
  intro rest'
  exact ⟨fun h => hsign.1 (List.cons.inj h).1, fun h => hsign.2 (List.cons.inj h).1⟩

/-- A numeral is not a word. -/
theorem IsNumeral.wordReal?_eq_none {negative : Bool} {text : List Char} {n : Numeral}
    (h : IsNumeral negative text n) : wordReal? text = none := by
  rcases h.exists_cons with ⟨c, rest, rfl, hc⟩
  have hletter : ¬(c.toLower = 'i' ∨ c.toLower = 'n') := by
    rcases hc with rfl | ⟨d, rfl⟩
    · decide
    · exact toChar_ne_letter d
  cases hx : wordReal? (c :: rest) with
  | none => rfl
  | some x =>
    have hword : IsWord false (c :: rest) x := isWord_iff.mpr ⟨x, hx, rfl⟩
    rcases hword.exists_cons with ⟨c', rest', heq, hc'⟩
    obtain rfl := (List.cons.inj heq).1
    exact absurd hc' hletter

theorem readReal?_eq (text : List Char) :
    readReal? text =
      match wordReal? (spanSign text).2 with
      | some x => some (if (spanSign text).1 then -x else x)
      | none => (numeral? (spanSign text).1 (spanSign text).2).map Numeral.toFloat := rfl

/-- **The reader of real numbers accepts exactly their notation.** -/
theorem readReal?_eq_some_iff {text : List Char} {x : Float} :
    readReal? text = some x ↔ IsReal text x := by
  constructor
  · intro h
    rcases exists_sign text with ⟨sign, hs, htext⟩
    rw [readReal?_eq] at h
    split at h
    · next y hy =>
      have hx := IsReal.word hs (isWord_iff.mpr ⟨y, hy, (Option.some.inj h).symm⟩)
      rwa [← htext] at hx
    · rcases Option.map_eq_some_iff.mp h with ⟨n, hn, rfl⟩
      have hnumeral := numeral?_eq_some_iff.mp hn
      have hx := IsReal.numeral hs hnumeral (hnumeral.negative_eq ▸ isNearest_toFloat n)
      rwa [← htext] at hx
  · intro h
    cases h with
    | word hs hw =>
      rcases isWord_iff.mp hw with ⟨y, hy, rfl⟩
      simp only [readReal?_eq, spanSign_append hs hw.noSignFirst, hy]
    | @numeral _ _ _ n _ hs hn hx =>
      -- words are tried first, and no numeral is one
      have hnearest := isNearest_toFloat n
      rw [hn.negative_eq] at hnearest
      simp only [readReal?_eq, spanSign_append hs hn.noSignFirst, hn.wordReal?_eq_none,
        numeral?_eq_some_iff.mpr hn, Option.map_some, hnearest.unique hx]

end PowerCurve.Decimal
