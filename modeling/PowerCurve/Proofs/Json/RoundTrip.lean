import PowerCurve.Json.Printer
import PowerCurve.Proofs.Json.Grammar

/-!
# Reading what was printed

A value that is printed in a layout of blanks is written by the rules of JSON
(`Value.IsPlain.isValue`). So it reads back as the same value (`read?_text`), its text is one
complete JSON document, and values with the same text are the same (`text_injective`). The value
must be plain: its strings are texts, and its numbers have no superfluous zero in front.
-/

namespace PowerCurve.Json

open PowerCurve.Decimal PowerCurve.Text

/-! ## Layouts -/

/-- Nothing but blanks stands between the parts of a text. -/
structure Layout.IsBlank (layout : Layout) : Prop where
  lineBreak : ∀ depth, AllSpace (layout.lineBreak depth)
  afterColon : AllSpace layout.afterColon

theorem Layout.compact_isBlank : Layout.compact.IsBlank :=
  ⟨fun _ => allSpace_nil, allSpace_nil⟩

theorem Layout.indented_isBlank : Layout.indented.IsBlank := by
  refine ⟨?_, ?_⟩
  · intro depth c hmem
    rcases List.mem_cons.mp hmem with rfl | hmem
    · rfl
    · rw [List.eq_of_mem_replicate hmem]
      rfl
  · intro c hmem
    rw [List.mem_singleton.mp hmem]
    rfl

/-! ## Strings -/

/-- One character is written as a unit that stands for it. -/
theorem isUnit_text (c : Char) : IsUnit (Glyph.text (.char c)) (.char c) := by
  rw [Glyph.text]
  -- seven characters have an escape of one letter
  split
  · next hc => rw [hc]; exact .escape rfl
  split
  · next hc => rw [hc]; exact .escape rfl
  split
  · next hc => rw [hc]; exact .escape rfl
  split
  · next hc => rw [hc]; exact .escape rfl
  split
  · next hc => rw [hc]; exact .escape rfl
  split
  · next hc => rw [hc]; exact .escape rfl
  split
  · next hc => rw [hc]; exact .escape rfl
  -- all other controls are written in hexadecimal digits, and the rest as it is
  split
  · next hc =>
    have hunit : unit? (hexDigit (c.toNat / 4096 % 16)) (hexDigit (c.toNat / 256 % 16))
        (hexDigit (c.toNat / 16 % 16)) (hexDigit (c.toNat % 16)) = some c.toNat := by
      simp only [unit?, hexValue?_hexDigit (Nat.mod_lt _ (by decide : 0 < 16)), bind,
        Option.bind_some, pure, Option.some.injEq]
      omega
    have hglyph : Glyph.ofUnit c.toNat = .char c := by
      have hhigh : isHigh c.toNat = false := by
        simp only [isHigh, Bool.and_eq_false_iff, decide_eq_false_iff_not]
        omega
      have hlow : isLow c.toNat = false := by
        simp only [isLow, Bool.and_eq_false_iff, decide_eq_false_iff_not]
        omega
      rw [Glyph.ofUnit, hhigh, hlow, Char.ofNat_toNat]
      rfl
    rw [← hglyph]
    exact .code hunit
  · next hquote hslash _ _ _ _ _ hcontrol =>
    exact .plain hquote hslash (Nat.not_lt.mp hcontrol)

theorem glyphsOf_cons (c : Char) (text : List Char) :
    glyphsOf (c :: text) = .char c :: glyphsOf text := rfl

theorem areUnits_text (text : List Char) :
    AreUnits ((glyphsOf text).flatMap Glyph.text) (glyphsOf text) := by
  induction text with
  | nil => exact .nil
  | cons c text ih =>
    rw [glyphsOf_cons, List.flatMap_cons]
    exact .cons (isUnit_text c) ih

theorem pairUp_glyphsOf (text : List Char) : pairUp (glyphsOf text) = glyphsOf text := by
  induction text with
  | nil => rfl
  | cons c text ih =>
    rw [glyphsOf_cons, pairUp, ih]
    rintro high low rest ⟨⟩

/-- A text in quotes is a string. -/
theorem isQuoted_quoted (text : List Char) : IsQuoted (quoted (glyphsOf text)) (glyphsOf text) :=
  .intro ⟨glyphsOf text, areUnits_text text, pairUp_glyphsOf text⟩

/-! ## Numbers -/

theorem isExponent_exponentText (e : Option Int) : IsExponent (exponentText e) e := by
  cases e with
  | none => exact .none
  | some e =>
    have hne := digits_ne_nil e.natAbs
    have hvalue : denoted (digits e.natAbs) = e.natAbs := by
      rw [← value_eq_denoted, value_digits]
    rw [exponentText]
    split
    · have hpower := IsExponent.power (.inl rfl : 'e' = 'e' ∨ 'e' = 'E') .minus hne
      rwa [hvalue, if_pos rfl, show -(e.natAbs : Int) = e by omega] at hpower
    · have hpower := IsExponent.power (.inl rfl : 'e' = 'e' ∨ 'e' = 'E') .plus hne
      rwa [hvalue, if_neg Bool.false_ne_true, show (e.natAbs : Int) = e by omega] at hpower

theorem isNumber_numeralText {n : Numeral} (hn : IsPlainNumeral n) :
    IsNumber (numeralText n) n := by
  have hnumber := IsNumber.intro hn (isExponent_exponentText n.exponent)
  rwa [← List.append_assoc, ← List.append_assoc] at hnumber

/-! ## Values -/

/-- The strings in a value are texts, and its numbers have no superfluous zero in front. -/
inductive Value.IsPlain : Value → Prop
  | null : IsPlain .null
  | bool (b : Bool) : IsPlain (.bool b)
  | number {n : Numeral} (h : IsPlainNumeral n) : IsPlain (.number n)
  | string (text : List Char) : IsPlain (.string (glyphsOf text))
  | list {items : List Value} (h : ∀ v ∈ items, IsPlain v) : IsPlain (.list items)
  | object {members : List (List Glyph × Value)}
      (names : ∀ m ∈ members, ∃ name, m.1 = glyphsOf name)
      (values : ∀ m ∈ members, IsPlain m.2) : IsPlain (.object members)

section

variable {layout : Layout} (hlayout : layout.IsBlank) (depth : Nat)

/-- An item as it is printed, with the blanks behind it. -/
def printedItem {after : List Char} (hafter : AllSpace after) (v : Value) : Item :=
  ⟨⟨layout.lineBreak depth, v.textAt layout depth, after, hlayout.lineBreak depth, hafter⟩, v⟩

/-- A member as it is printed, with the blanks behind it. -/
def printedMember {after : List Char} (hafter : AllSpace after) (m : List Glyph × Value)
    (hname : IsQuoted (quoted m.1) m.1) : Member :=
  ⟨⟨layout.lineBreak depth, quoted m.1, [], hlayout.lineBreak depth, allSpace_nil⟩, m.1, hname,
    ⟨layout.afterColon, m.2.textAt layout depth, after, hlayout.afterColon, hafter⟩, m.2⟩

theorem printedItem_text {after : List Char} (hafter : AllSpace after) (v : Value) :
    (printedItem hlayout depth hafter v).text =
      layout.lineBreak depth ++ (v.textAt layout depth ++ after) := rfl

theorem printedMember_text {after : List Char} (hafter : AllSpace after) (m : List Glyph × Value)
    (hname : IsQuoted (quoted m.1) m.1) :
    (printedMember hlayout depth hafter m hname).text = layout.lineBreak depth ++ (quoted m.1 ++
      ':' :: (layout.afterColon ++ (m.2.textAt layout depth ++ after))) := by
  simp [printedMember, Member.text, Item.text, Padded.text]

variable {after : List Char} (hafter : AllSpace after)

include hlayout hafter

/-- The text of a list is that of its items, the last one with the blanks behind the list. -/
theorem exists_items {v : Value} {vs : List Value}
    (h : ∀ w ∈ v :: vs, IsValue (w.textAt layout depth) w) :
    ∃ items : List Item, items ≠ [] ∧ (∀ i ∈ items, i.IsWritten) ∧
      items.map Item.value = v :: vs ∧
      joinPieces ',' (items.map Item.text) = layout.lineBreak depth ++
        (v.textAt layout depth ++ (itemsText layout depth vs ++ after)) := by
  induction vs generalizing v with
  | nil =>
    have hv : (printedItem hlayout depth hafter v).IsWritten := h v List.mem_cons_self
    exact ⟨[printedItem hlayout depth hafter v], List.cons_ne_nil _ _,
      List.forall_mem_singleton.mpr hv, rfl, printedItem_text hlayout depth hafter v⟩
  | cons w vs ih =>
    rcases ih fun u hu => h u (List.mem_cons_of_mem v hu) with
      ⟨items, hne, hitems, hvalues, htext⟩
    have hv : (printedItem hlayout depth allSpace_nil v).IsWritten := h v List.mem_cons_self
    have hmap : items.map Item.text ≠ [] := by simpa using hne
    refine ⟨printedItem hlayout depth allSpace_nil v :: items, List.cons_ne_nil _ _,
      List.forall_mem_cons.mpr ⟨hv, hitems⟩, ?_, ?_⟩
    · rw [List.map_cons, hvalues]
      rfl
    · rw [List.map_cons, joinPieces_cons hmap, htext, printedItem_text, itemsText]
      simp

/-- The text of a record is that of its members, the last one with the blanks behind the record. -/
theorem exists_members {m : List Glyph × Value} {ms : List (List Glyph × Value)}
    (h : ∀ n ∈ m :: ms, IsQuoted (quoted n.1) n.1 ∧ IsValue (n.2.textAt layout depth) n.2) :
    ∃ members : List Member, members ≠ [] ∧ (∀ n ∈ members, n.IsWritten) ∧
      members.map Member.entry = m :: ms ∧
      joinPieces ',' (members.map Member.text) = layout.lineBreak depth ++ (quoted m.1 ++
        ':' :: (layout.afterColon ++ (m.2.textAt layout depth ++
          (membersText layout depth ms ++ after)))) := by
  induction ms generalizing m with
  | nil =>
    rcases h m List.mem_cons_self with ⟨hname, hvalue⟩
    have hm : (printedMember hlayout depth hafter m hname).IsWritten := hvalue
    exact ⟨[printedMember hlayout depth hafter m hname], List.cons_ne_nil _ _,
      List.forall_mem_singleton.mpr hm, rfl, printedMember_text hlayout depth hafter m hname⟩
  | cons n ms ih =>
    rcases h m List.mem_cons_self with ⟨hname, hvalue⟩
    rcases ih fun u hu => h u (List.mem_cons_of_mem m hu) with
      ⟨members, hne, hmembers, hentries, htext⟩
    have hm : (printedMember hlayout depth allSpace_nil m hname).IsWritten := hvalue
    have hmap : members.map Member.text ≠ [] := by simpa using hne
    refine ⟨printedMember hlayout depth allSpace_nil m hname :: members, List.cons_ne_nil _ _,
      List.forall_mem_cons.mpr ⟨hm, hmembers⟩, ?_, ?_⟩
    · rw [List.map_cons, hentries]
      rfl
    · rw [List.map_cons, joinPieces_cons hmap, htext, printedMember_text, membersText]
      simp

end

/-- **A plain value is printed by the rules of JSON.** -/
theorem Value.IsPlain.isValue {layout : Layout} (hlayout : layout.IsBlank) {v : Value}
    (h : v.IsPlain) (depth : Nat) : IsValue (v.textAt layout depth) v := by
  induction h generalizing depth with
  | null => exact .null
  | bool b =>
    cases b with
    | false => exact .isFalse
    | true => exact .isTrue
  | number hn => exact .number (isNumber_numeralText hn)
  | string text => exact .string (isQuoted_quoted text)
  | @list items _ ih =>
    cases items with
    | nil => exact .noItems allSpace_nil
    | cons v vs =>
      rcases exists_items hlayout (depth + 1) (hlayout.lineBreak depth)
        (fun w hw => ih w hw (depth + 1)) with ⟨items, hne, hitems, hvalues, htext⟩
      have hlist := IsValue.items hne hitems
      rw [hvalues, htext] at hlist
      simpa [Value.textAt] using hlist
  | @object members hnames _ ih =>
    cases members with
    | nil => exact .noMembers allSpace_nil
    | cons m ms =>
      have hmember : ∀ n ∈ m :: ms, IsQuoted (quoted n.1) n.1 ∧
          IsValue (n.2.textAt layout (depth + 1)) n.2 := by
        intro n hn
        rcases hnames n hn with ⟨name, hname⟩
        refine ⟨?_, ih n hn (depth + 1)⟩
        rw [hname]
        exact isQuoted_quoted name
      rcases exists_members hlayout (depth + 1) (hlayout.lineBreak depth) hmember with
        ⟨members, hne, hmembers, hentries, htext⟩
      have hobject := IsValue.members hne hmembers
      rw [hentries, htext] at hobject
      simpa [Value.textAt] using hobject

/-- The text of a plain value is a document of it. -/
theorem Value.IsPlain.isDocument {layout : Layout} (hlayout : layout.IsBlank) {v : Value}
    (h : v.IsPlain) : IsDocument (v.text layout) v :=
  ⟨⟨[], v.text layout, [], allSpace_nil, allSpace_nil⟩, (List.append_nil _).symm,
    h.isValue hlayout 0⟩

/-- **A plain value that is printed reads back as itself.** -/
theorem read?_text {layout : Layout} (hlayout : layout.IsBlank) {v : Value} (h : v.IsPlain) :
    read? (v.text layout) = some v :=
  read?_eq_some_iff.mpr (h.isDocument hlayout)

/-- **Plain values with the same text are the same.** -/
theorem text_injective {layout : Layout} (hlayout : layout.IsBlank) {v w : Value}
    (hv : v.IsPlain) (hw : w.IsPlain) (h : v.text layout = w.text layout) : v = w := by
  have hdocument := hv.isDocument hlayout
  rw [h] at hdocument
  exact hdocument.unique (hw.isDocument hlayout)

end PowerCurve.Json
