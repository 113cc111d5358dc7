import Mathlib.Data.Fintype.Basic
import Mathlib.Tactic.FinCases
import PowerCurve.Proofs.Json.Literal
import PowerCurve.Proofs.Json.Series

/-!
# What counts as JSON

The notation of values as a relation between a text and what it denotes (`IsValue`), and that of
whole documents (`IsDocument`): blanks stand around documents, items, names and values, commas only
between items and between members. The reader accepts exactly the documents
(`read?_eq_some_iff`): whatever it reads is a value (`sound`), and a value is read wherever it
stands (`IsValue.isRead`).
-/

namespace PowerCurve.Json

open PowerCurve.Decimal PowerCurve.Text

/-! ## Notations -/

/-- A text between blanks. -/
structure Padded where
  /-- The blanks in front. -/
  before : List Char
  /-- What stands between the blanks. -/
  body : List Char
  /-- The blanks behind. -/
  after : List Char
  blankBefore : AllSpace before
  blankAfter : AllSpace after

/-- The text with its blanks. -/
def Padded.text (p : Padded) : List Char :=
  p.before ++ (p.body ++ p.after)

/-- A string in quotes. -/
inductive IsQuoted : List Char → List Glyph → Prop where
  | intro {text : List Char} {glyphs : List Glyph} (h : IsString text glyphs) :
    IsQuoted ('"' :: (text ++ ['"'])) glyphs

/-- An item of a list. -/
structure Item where
  /-- How it is written. -/
  padded : Padded
  /-- What it denotes. -/
  value : Value

/-- A member of a record. -/
structure Member where
  /-- How the name is written. -/
  paddedName : Padded
  /-- The name. -/
  name : List Glyph
  isName : IsQuoted paddedName.body name
  /-- The value. -/
  item : Item

/-- The text of an item. -/
def Item.text (i : Item) : List Char :=
  i.padded.text

/-- The text of a member: its name, a colon and its value. -/
def Member.text (m : Member) : List Char :=
  m.paddedName.text ++ ':' :: m.item.text

/-- What a member denotes. -/
def Member.entry (m : Member) : List Glyph × Value :=
  (m.name, m.item.value)

/-- A value, with no blanks around it. -/
inductive IsValue : List Char → Value → Prop where
  /-- The words for what is no number, string, list or record. -/
  | null : IsValue ['n', 'u', 'l', 'l'] .null
  | isTrue : IsValue ['t', 'r', 'u', 'e'] (.bool true)
  | isFalse : IsValue ['f', 'a', 'l', 's', 'e'] (.bool false)
  /-- A number. -/
  | number {text : List Char} {n : Numeral} (h : IsNumber text n) : IsValue text (.number n)
  /-- A string. -/
  | string {text : List Char} {glyphs : List Glyph} (h : IsQuoted text glyphs) :
    IsValue text (.string glyphs)
  /-- A list, which may be empty. -/
  | noItems {blanks : List Char} (h : AllSpace blanks) :
    IsValue ('[' :: (blanks ++ [']'])) (.list [])
  | items {items : List Item} (hne : items ≠ [])
      (h : ∀ i ∈ items, IsValue i.padded.body i.value) :
    IsValue ('[' :: (joinPieces ',' (items.map Item.text) ++ [']'])) (.list (items.map Item.value))
  /-- A record, which may be empty. -/
  | noMembers {blanks : List Char} (h : AllSpace blanks) :
    IsValue ('\x7b' :: (blanks ++ ['\x7d'])) (.object [])
  | members {members : List Member} (hne : members ≠ [])
      (h : ∀ m ∈ members, IsValue m.item.padded.body m.item.value) :
    IsValue ('\x7b' :: (joinPieces ',' (members.map Member.text) ++ ['\x7d']))
      (.object (members.map Member.entry))

/-- A document: one value between blanks. -/
def IsDocument (text : List Char) (v : Value) : Prop :=
  ∃ p : Padded, text = p.text ∧ IsValue p.body v

/-! ## Blanks -/

/-- Blanks before a value are passed over. -/
theorem value?_append {blanks : List Char} (h : AllSpace blanks) (fuel : Nat) (text : List Char) :
    value? fuel (blanks ++ text) = value? fuel text := by
  cases fuel with
  | zero => rfl
  | succ fuel => rw [value?.eq_2, value?.eq_2, skipSpace_append h]

theorem items?_skipSpace (fuel : Nat) (text : List Char) :
    items? fuel (skipSpace text) = items? fuel text := by
  rcases exists_blanks text with ⟨blanks, hblanks, htext⟩
  cases fuel with
  | zero => rfl
  | succ fuel =>
    have hvalue : value? fuel text = value? fuel (skipSpace text) := by
      conv_lhs => rw [htext, value?_append hblanks]
    rw [items?.eq_2, items?.eq_2, hvalue]

theorem members?_skipSpace (fuel : Nat) (text : List Char) :
    members? fuel (skipSpace text) = members? fuel text := by
  rcases exists_blanks text with ⟨blanks, hblanks, htext⟩
  cases fuel with
  | zero => rfl
  | succ fuel =>
    have hskip : skipSpace (skipSpace text) = skipSpace text := by
      conv_rhs => rw [htext, skipSpace_append hblanks]
    rw [members?.eq_2, members?.eq_2, hskip]

/-! ## Items and members -/

/-- The items of a list. -/
def itemSeries : Series Item Value := ⟨Item.text, Item.value, ']', items?⟩

/-- The members of a record. -/
def memberSeries : Series Member (List Glyph × Value) := ⟨Member.text, Member.entry, '\x7d', members?⟩

/-- The text of an item is one of its value. -/
def Item.IsWritten (i : Item) : Prop :=
  IsValue i.padded.body i.value

/-- The text of a member is one of its name and its value. -/
def Member.IsWritten (m : Member) : Prop :=
  m.item.IsWritten

/-! ## What is read is a value -/

/-- Whatever is read with this much fuel as a value is one, behind blanks. -/
def SoundValue (fuel : Nat) : Prop :=
  ∀ text v rest, value? fuel text = some (v, rest) →
    ∃ before body, AllSpace before ∧ IsValue body v ∧ text = before ++ (body ++ rest)

theorem soundValue_succ {fuel : Nat} (hitems : itemSeries.Sound Item.IsWritten fuel)
    (hmembers : memberSeries.Sound Member.IsWritten fuel) : SoundValue (fuel + 1) := by
  intro text v rest h
  rcases exists_blanks text with ⟨before, hbefore, htext⟩
  rw [value?.eq_2] at h
  suffices hbody : ∃ body, IsValue body v ∧ skipSpace text = body ++ rest by
    rcases hbody with ⟨body, hbody, heq⟩
    exact ⟨before, body, hbefore, hbody, by rw [htext, heq]⟩
  generalize skipSpace text = t at h
  -- the first character behind the blanks says what is read
  split at h
  · cases h
    exact ⟨_, .null, rfl⟩
  · cases h
    exact ⟨_, .isTrue, rfl⟩
  · cases h
    exact ⟨_, .isFalse, rfl⟩
  · rcases Option.map_eq_some_iff.mp h with ⟨⟨glyphs, rest'⟩, hread, heq⟩
    cases heq
    rcases string?_eq_some_iff.mp hread with ⟨body, hbody, rfl⟩
    exact ⟨_, .string (.intro hbody), by simp⟩
  · next inside =>
    split at h
    · next rest' hclose =>
      cases h
      rcases exists_blanks inside with ⟨blanks, hblanks, hinside⟩
      exact ⟨_, .noItems hblanks, by rw [hinside, hclose]; simp⟩
    · rw [items?_skipSpace] at h
      rcases Option.map_eq_some_iff.mp h with ⟨⟨vs, rest'⟩, hread, heq⟩
      cases heq
      rcases hitems _ _ _ hread with ⟨parts, hne, hparts, rfl, rfl⟩
      exact ⟨_, .items hne hparts, by simp [Series.textOf, itemSeries]⟩
  · next inside =>
    split at h
    · next rest' hclose =>
      cases h
      rcases exists_blanks inside with ⟨blanks, hblanks, hinside⟩
      exact ⟨_, .noMembers hblanks, by rw [hinside, hclose]; simp⟩
    · rw [members?_skipSpace] at h
      rcases Option.map_eq_some_iff.mp h with ⟨⟨ms, rest'⟩, hread, heq⟩
      cases heq
      rcases hmembers _ _ _ hread with ⟨parts, hne, hparts, rfl, rfl⟩
      exact ⟨_, .members hne hparts, by simp [Series.textOf, memberSeries]⟩
  · rcases Option.map_eq_some_iff.mp h with ⟨⟨n, rest'⟩, hread, heq⟩
    cases heq
    rcases exists_isNumber hread with ⟨body, hbody, rfl⟩
    exact ⟨body, .number hbody, rfl⟩

/-- The blanks behind what is read belong to it. -/
theorem SoundValue.exists_item {fuel : Nat} (hvalue : SoundValue fuel) {text rest : List Char}
    {v : Value} (h : value? fuel text = some (v, rest)) :
    ∃ i : Item, i.IsWritten ∧ i.value = v ∧ text = i.text ++ skipSpace rest := by
  rcases hvalue text v rest h with ⟨before, body, hbefore, hbody, rfl⟩
  rcases exists_blanks rest with ⟨after, hafter, hrest⟩
  refine ⟨⟨⟨before, body, after, hbefore, hafter⟩, v⟩, hbody, rfl, ?_⟩
  conv_lhs => rw [hrest]
  simp only [Item.text, Padded.text, List.append_assoc]

theorem items_startsWithPart {fuel : Nat} (hvalue : SoundValue fuel) :
    itemSeries.StartsWithPart Item.IsWritten fuel := by
  intro text vs rest h
  have hread : items? (fuel + 1) text = some (vs, rest) := h
  rw [items?.eq_2] at hread
  split at hread
  · cases hread
  · next v afterValue hv =>
    rcases hvalue.exists_item hv with ⟨i, hi, rfl, rfl⟩
    refine ⟨i, hi, ?_⟩
    split at hread
    · next tail hcomma =>
      rcases Option.map_eq_some_iff.mp hread with ⟨⟨others, rest'⟩, hothers, heq⟩
      cases heq
      rw [hcomma]
      exact .inl ⟨tail, others, rfl, hothers, rfl⟩
    · next rest' hclose =>
      cases hread
      rw [hclose]
      exact .inr ⟨rfl, rfl⟩
    · cases hread

theorem members_startsWithPart {fuel : Nat} (hvalue : SoundValue fuel) :
    memberSeries.StartsWithPart Member.IsWritten fuel := by
  intro text ms rest h
  have hread : members? (fuel + 1) text = some (ms, rest) := h
  rcases exists_blanks text with ⟨before, hbefore, htext⟩
  rw [members?.eq_2] at hread
  split at hread
  · next afterQuote hquote =>
    split at hread
    · cases hread
    · next name afterName hname =>
      rcases string?_eq_some_iff.mp hname with ⟨body, hbody, rfl⟩
      rcases exists_blanks afterName with ⟨between, hbetween, hafterName⟩
      split at hread
      · next afterColon hcolon =>
        split at hread
        · cases hread
        · next v afterValue hv =>
          rcases hvalue.exists_item hv with ⟨i, hi, rfl, rfl⟩
          let m : Member :=
            ⟨⟨before, '"' :: (body ++ ['"']), between, hbefore, hbetween⟩, name, .intro hbody, i⟩
          have hm : text = m.text ++ skipSpace afterValue := by
            rw [htext, hquote, hafterName, hcolon]
            simp [m, Member.text, Padded.text]
          refine ⟨m, hi, ?_⟩
          -- now it is read like an item
          split at hread
          · next tail hcomma =>
            rcases Option.map_eq_some_iff.mp hread with ⟨⟨others, rest'⟩, hothers, heq⟩
            cases heq
            rw [hcomma] at hm
            exact .inl ⟨tail, others, hm, hothers, rfl⟩
          · next rest' hclose =>
            cases hread
            rw [hclose] at hm
            exact .inr ⟨hm, rfl⟩
          · cases hread
      · cases hread
  · cases hread

/-- **Whatever is read is a value.** -/
theorem sound (fuel : Nat) :
    SoundValue fuel ∧ itemSeries.Sound Item.IsWritten fuel ∧ memberSeries.Sound Member.IsWritten fuel := by
  induction fuel with
  | zero => exact ⟨nofun, nofun, nofun⟩
  | succ fuel ih =>
    rcases ih with ⟨hvalue, hitems, hmembers⟩
    exact ⟨soundValue_succ hitems hmembers, itemSeries.sound_succ (items_startsWithPart hvalue) hitems,
      memberSeries.sound_succ (members_startsWithPart hvalue) hmembers⟩

/-! ## A value is read -/

/-- What stands between two quotes is read up to the second one. -/
theorem exists_quoted {text : List Char} {glyphs : List Glyph} (h : IsQuoted text glyphs) :
    ∃ inside, (∀ rest, string? (inside ++ '"' :: rest) = some (glyphs, rest)) ∧
      text = '"' :: (inside ++ ['"']) := by
  cases h with
  | @intro inside _ hstring =>
    exact ⟨inside, fun rest => string?_eq_some_iff.mpr ⟨inside, hstring, rfl⟩, rfl⟩

/-- The text is read as the value wherever it stands. -/
def IsRead (text : List Char) (v : Value) : Prop :=
  ∀ fuel rest, EndsNumber rest → 2 * text.length ≤ fuel →
    value? fuel (text ++ rest) = some (v, rest)

/-- A value starts with no blank and with nothing that closes a list. -/
theorem IsValue.exists_cons {text : List Char} {v : Value} (h : IsValue text v) :
    ∃ c tail, text = c :: tail ∧ isSpace c = false ∧ c ≠ ']' := by
  cases h with
  | number hn =>
    rcases hn.exists_cons with ⟨c, tail, htext, hc⟩
    refine ⟨c, tail, htext, ?_⟩
    rcases hc with rfl | ⟨d, rfl⟩
    · exact ⟨rfl, by decide⟩
    · clear htext
      revert d
      decide
  | string hs =>
    cases hs with
    | intro _ => exact ⟨_, _, rfl, rfl, by decide⟩
  | _ => exact ⟨_, _, rfl, rfl, by decide⟩

theorem endsNumber_after (p : Padded) {c : Char}
    (hc : c = ',' ∨ c = ']' ∨ c = '\x7d') (rest : List Char) :
    EndsNumber (p.after ++ c :: rest) := by
  refine endsNumber_append p.blankAfter (endsNumber_cons ?_ rest)
  rcases hc with rfl | rfl | rfl <;> decide

/-- An item is read up to the blanks behind it. -/
theorem Item.value?_text {i : Item} (h : IsRead i.padded.body i.value) {fuel : Nat}
    {rest : List Char} (hrest : EndsNumber (i.padded.after ++ rest))
    (hfuel : 2 * i.text.length ≤ fuel) :
    value? fuel (i.text ++ rest) = some (i.value, i.padded.after ++ rest) := by
  have hlength : i.padded.body.length ≤ i.text.length := by
    simp only [Item.text, Padded.text, List.length_append]
    omega
  have hread := h fuel (i.padded.after ++ rest) hrest (by omega)
  rw [Item.text, Padded.text, List.append_assoc, List.append_assoc,
    value?_append i.padded.blankBefore, hread]

theorem items_readsPart {i : Item} (h : IsRead i.padded.body i.value) : itemSeries.ReadsPart i := by
  intro fuel rest hfuel
  have hfuel' : 2 * i.text.length ≤ fuel := hfuel
  have hcomma := i.value?_text h (endsNumber_after i.padded (.inl rfl) rest) hfuel'
  have hclose := i.value?_text h (endsNumber_after i.padded (.inr (.inl rfl)) rest) hfuel'
  refine ⟨?_, ?_⟩
  · simp only [itemSeries, items?.eq_2, hcomma, skipSpace_append i.padded.blankAfter,
      skipSpace_cons (rfl : isSpace ',' = false)]
  · simp only [itemSeries, items?.eq_2, hclose, skipSpace_append i.padded.blankAfter,
      skipSpace_cons (rfl : isSpace ']' = false)]

theorem members_readsPart {m : Member} (h : IsRead m.item.padded.body m.item.value) :
    memberSeries.ReadsPart m := by
  intro fuel rest hfuel
  have hfuel' : 2 * m.item.text.length ≤ fuel := by
    simp only [memberSeries, Member.text, List.length_append, List.length_cons] at hfuel
    omega
  have hcomma := m.item.value?_text h (endsNumber_after m.item.padded (.inl rfl) rest) hfuel'
  have hclose := m.item.value?_text h
    (endsNumber_after m.item.padded (.inr (.inr rfl)) rest) hfuel'
  rcases exists_quoted m.isName with ⟨inside, hinside, hname⟩
  -- the reader stands at the quote in front of the name
  have hquote : ∀ tail, skipSpace (m.text ++ tail) =
      '"' :: (inside ++ '"' :: (m.paddedName.after ++ ':' :: (m.item.text ++ tail))) := by
    intro tail
    simp only [Member.text, Padded.text, hname, List.append_assoc, List.cons_append,
      List.nil_append, skipSpace_append m.paddedName.blankBefore,
      skipSpace_cons (rfl : isSpace '"' = false)]
  refine ⟨?_, ?_⟩
  · simp only [memberSeries, members?.eq_2, hquote, hinside, skipSpace_append m.paddedName.blankAfter,
      skipSpace_cons (rfl : isSpace ':' = false), hcomma,
      skipSpace_append m.item.padded.blankAfter, skipSpace_cons (rfl : isSpace ',' = false),
      Member.entry]
  · simp only [memberSeries, members?.eq_2, hquote, hinside, skipSpace_append m.paddedName.blankAfter,
      skipSpace_cons (rfl : isSpace ':' = false), hclose,
      skipSpace_append m.item.padded.blankAfter, skipSpace_cons (rfl : isSpace '\x7d' = false),
      Member.entry]

theorem value?_number {text rest : List Char} {n : Numeral} (hn : IsNumber text n)
    (hrest : EndsNumber rest) (fuel : Nat) :
    value? (fuel + 1) (text ++ rest) = some (.number n, rest) := by
  have hread := numeral?_of_isNumber hn hrest
  rcases hn.exists_cons with ⟨c, tail, rfl, hc⟩
  rw [List.cons_append] at hread ⊢
  have hvalue : value? (fuel + 1) (c :: (tail ++ rest)) =
      (numeral? (c :: (tail ++ rest))).map fun n => (.number n.1, n.2) := by
    rcases hc with rfl | ⟨d, rfl⟩
    · rfl
    · fin_cases d <;> rfl
  rw [hvalue, hread]
  rfl

/-- The blanks in front of the first piece are passed over. -/
theorem exists_skipSpace_joinPieces {before : List Char} (hbefore : AllSpace before) {c : Char}
    (hspace : isSpace c = false) (tail : List Char) (pieces : List (List Char))
    (rest : List Char) :
    ∃ tail', skipSpace (joinPieces ',' ((before ++ c :: tail) :: pieces) ++ rest) = c :: tail' := by
  cases pieces with
  | nil =>
    refine ⟨tail ++ rest, ?_⟩
    rw [joinPieces, List.append_assoc, skipSpace_append hbefore, List.cons_append,
      skipSpace_cons hspace]
  | cons piece pieces =>
    refine ⟨tail ++ ',' :: (joinPieces ',' (piece :: pieces) ++ rest), ?_⟩
    rw [joinPieces_cons (List.cons_ne_nil piece pieces), List.append_assoc, List.append_assoc,
      skipSpace_append hbefore, List.cons_append, skipSpace_cons hspace, List.cons_append]

theorem exists_first_item {parts : List Item} (hne : parts ≠ []) (h : ∀ i ∈ parts, i.IsWritten)
    (rest : List Char) :
    ∃ c tail, skipSpace (joinPieces ',' (parts.map Item.text) ++ rest) = c :: tail ∧ c ≠ ']' := by
  obtain ⟨i, others, rfl⟩ := List.exists_cons_of_ne_nil hne
  rcases (h i List.mem_cons_self).exists_cons with ⟨c, tail, hbody, hspace, hc⟩
  rcases exists_skipSpace_joinPieces i.padded.blankBefore hspace (tail ++ i.padded.after)
    (others.map Item.text) rest with ⟨tail', hskip⟩
  refine ⟨c, tail', ?_, hc⟩
  rw [← hskip, List.map_cons, Item.text, Padded.text, hbody, List.cons_append]

theorem exists_first_member {parts : List Member} (hne : parts ≠ []) (rest : List Char) :
    ∃ tail, skipSpace (joinPieces ',' (parts.map Member.text) ++ rest) = '"' :: tail := by
  obtain ⟨m, others, rfl⟩ := List.exists_cons_of_ne_nil hne
  rcases exists_quoted m.isName with ⟨inside, -, hbody⟩
  rcases exists_skipSpace_joinPieces m.paddedName.blankBefore (rfl : isSpace '"' = false)
    (inside ++ '"' :: (m.paddedName.after ++ ':' :: m.item.text)) (others.map Member.text)
    rest with ⟨tail', hskip⟩
  refine ⟨tail', ?_⟩
  rw [← hskip, List.map_cons, Member.text, Padded.text, hbody]
  simp only [List.append_assoc, List.cons_append, List.nil_append]

/-- What does not close a list is its first item. -/
theorem value?_items {inside : List Char} {c : Char} {tail : List Char}
    (hfirst : skipSpace inside = c :: tail) (hc : c ≠ ']') (fuel : Nat) :
    value? (fuel + 1) ('[' :: inside) = (items? fuel inside).map fun r => (.list r.1, r.2) := by
  rw [value?.eq_2, skipSpace_cons rfl]
  simp only
  rw [← items?_skipSpace fuel inside]
  split
  · next heq =>
    rw [hfirst] at heq
    exact absurd (List.cons.inj heq).1 hc
  · rfl

theorem value?_members {inside tail : List Char} (hfirst : skipSpace inside = '"' :: tail)
    (fuel : Nat) :
    value? (fuel + 1) ('\x7b' :: inside) =
      (members? fuel inside).map fun r => (.object r.1, r.2) := by
  rw [value?.eq_2, skipSpace_cons rfl]
  simp only
  rw [← members?_skipSpace fuel inside, hfirst]
  rfl

theorem value?_list {parts : List Item} (hne : parts ≠ []) (h : ∀ i ∈ parts, i.IsWritten)
    (hread : ∀ i ∈ parts, IsRead i.padded.body i.value) {fuel : Nat}
    (hfuel : 2 * (joinPieces ',' (parts.map Item.text)).length + 1 ≤ fuel) (rest : List Char) :
    value? (fuel + 1) ('[' :: (joinPieces ',' (parts.map Item.text) ++ ']' :: rest)) =
      some (.list (parts.map Item.value), rest) := by
  have hitems : items? fuel (joinPieces ',' (parts.map Item.text) ++ ']' :: rest) =
      some (parts.map Item.value, rest) :=
    itemSeries.reader_textOf hne (fun i hi => items_readsPart (hread i hi)) hfuel rest
  rcases exists_first_item hne h (']' :: rest) with ⟨c, tail, hfirst, hc⟩
  rw [value?_items hfirst hc, hitems]
  rfl

theorem value?_object {parts : List Member} (hne : parts ≠ [])
    (hread : ∀ m ∈ parts, IsRead m.item.padded.body m.item.value) {fuel : Nat}
    (hfuel : 2 * (joinPieces ',' (parts.map Member.text)).length + 1 ≤ fuel) (rest : List Char) :
    value? (fuel + 1) ('\x7b' :: (joinPieces ',' (parts.map Member.text) ++ '\x7d' :: rest)) =
      some (.object (parts.map Member.entry), rest) := by
  have hmembers : members? fuel (joinPieces ',' (parts.map Member.text) ++ '\x7d' :: rest) =
      some (parts.map Member.entry, rest) :=
    memberSeries.reader_textOf hne (fun m hm => members_readsPart (hread m hm)) hfuel rest
  rcases exists_first_member hne ('\x7d' :: rest) with ⟨tail, hfirst⟩
  rw [value?_members hfirst, hmembers]
  rfl

/-- A value is not empty, so there is fuel to start with. -/
theorem IsValue.isRead_of_succ {text : List Char} {v : Value} (hv : IsValue text v)
    (h : ∀ fuel rest, EndsNumber rest → 2 * text.length ≤ fuel + 1 →
      value? (fuel + 1) (text ++ rest) = some (v, rest)) : IsRead text v := by
  intro fuel rest hrest hfuel
  cases fuel with
  | zero =>
    rcases hv.exists_cons with ⟨c, tail, rfl, -⟩
    rw [List.length_cons] at hfuel
    omega
  | succ fuel => exact h fuel rest hrest hfuel

/-- **A value is read as what it denotes**, wherever it stands. -/
theorem IsValue.isRead {text : List Char} {v : Value} (h : IsValue text v) : IsRead text v := by
  -- the values inside the brackets are read by hypothesis, with the fuel that the brackets leave
  induction h with
  | null => exact IsValue.null.isRead_of_succ fun _ _ _ _ => rfl
  | isTrue => exact IsValue.isTrue.isRead_of_succ fun _ _ _ _ => rfl
  | isFalse => exact IsValue.isFalse.isRead_of_succ fun _ _ _ _ => rfl
  | number hn =>
    exact (IsValue.number hn).isRead_of_succ fun fuel _ hrest _ => value?_number hn hrest fuel
  | string hs =>
    refine (IsValue.string hs).isRead_of_succ fun fuel rest _ _ => ?_
    rcases exists_quoted hs with ⟨inside, hinside, rfl⟩
    rw [List.cons_append, List.append_assoc, List.singleton_append, value?.eq_2, skipSpace_cons rfl]
    simp only [hinside, Option.map_some]
  | noItems hblanks =>
    refine (IsValue.noItems hblanks).isRead_of_succ fun fuel rest _ _ => ?_
    simp only [List.cons_append, List.append_assoc, List.nil_append, value?.eq_2,
      skipSpace_cons (rfl : isSpace '[' = false), skipSpace_append hblanks,
      skipSpace_cons (rfl : isSpace ']' = false)]
  | items hne hparts ih =>
    refine (IsValue.items hne hparts).isRead_of_succ fun fuel rest _ hfuel => ?_
    simp only [List.length_cons, List.length_append, List.length_nil] at hfuel
    rw [List.cons_append, List.append_assoc, List.singleton_append]
    exact value?_list hne hparts ih (by omega) rest
  | noMembers hblanks =>
    refine (IsValue.noMembers hblanks).isRead_of_succ fun fuel rest _ _ => ?_
    simp only [List.cons_append, List.append_assoc, List.nil_append, value?.eq_2,
      skipSpace_cons (rfl : isSpace '\x7b' = false), skipSpace_append hblanks,
      skipSpace_cons (rfl : isSpace '\x7d' = false)]
  | members hne hparts ih =>
    refine (IsValue.members hne hparts).isRead_of_succ fun fuel rest _ hfuel => ?_
    simp only [List.length_cons, List.length_append, List.length_nil] at hfuel
    rw [List.cons_append, List.append_assoc, List.singleton_append]
    exact value?_object hne ih (by omega) rest

/-- **A text is read as a value exactly if it is a document of that value.** -/
theorem read?_eq_some_iff {text : List Char} {v : Value} :
    read? text = some v ↔ IsDocument text v := by
  constructor
  · intro h
    rw [read?] at h
    split at h
    · next v' rest hread =>
      split at h
      · next hrest =>
        cases h
        rcases (sound _).1.exists_item hread with ⟨i, hi, rfl, htext⟩
        exact ⟨i.padded, by rw [htext, hrest, List.append_nil]; rfl, hi⟩
      · cases h
    · cases h
  · rintro ⟨p, rfl, hp⟩
    let i : Item := ⟨p, v⟩
    have hends : EndsNumber (p.after ++ []) := endsNumber_append p.blankAfter endsNumber_nil
    have hfuel : 2 * p.text.length ≤ 2 * p.text.length + 2 := Nat.le_add_right _ 2
    have hread : value? _ (p.text ++ []) = some (v, p.after ++ []) :=
      i.value?_text hp.isRead hends hfuel
    rw [List.append_nil, List.append_nil] at hread
    have hafter : skipSpace p.after = [] := List.dropWhile_eq_nil_iff.mpr p.blankAfter
    rw [read?, hread]
    simp only [hafter, if_true]

/-- A text is a document of one value at most. -/
theorem IsDocument.unique {text : List Char} {v v' : Value} (h : IsDocument text v)
    (h' : IsDocument text v') : v = v' := by
  rw [← read?_eq_some_iff] at h h'
  exact Option.some.inj (h.symm.trans h')

end PowerCurve.Json
