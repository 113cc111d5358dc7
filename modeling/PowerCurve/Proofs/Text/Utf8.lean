import Mathlib.Algebra.Group.Nat.Defs
import Mathlib.Tactic.Common
import PowerCurve.Text.Utf8

/-!
# Decoding UTF-8 is the inverse of encoding it

`decode?_eq_some_iff`: a byte string decodes to a text exactly when it is the encoding of that text.

The bytes after the first one of a character are the base-64 digits of its number, so the machine
is followed through all of them by one induction (`wellFormed_scan_inside`). What remains is the
first byte, of which there are four kinds of encodings and eight ranges.
-/

namespace PowerCurve.Text.Utf8

/-- The last `more + 1` base-64 digits of a number as continuation bytes. -/
def continuation : (more v : Nat) → Bytes
  | 0, v => [UInt8.ofNat (v % 64 + 0x80)]
  | more + 1, v => UInt8.ofNat (v / 64 ^ (more + 1) % 64 + 0x80) :: continuation more v

theorem toNat_digit (d : Nat) : (UInt8.ofNat (d % 64 + 0x80)).toNat = d % 64 + 0x80 := by
  have h : d % 64 < 64 := Nat.mod_lt d (by decide)
  simp only [UInt8.toNat_ofNat']
  omega

/-- A continuation byte is the digit that it contributes. -/
theorem eq_digit {b : UInt8} {v bits : Nat} (hl : 0x80 ≤ b.toNat) (hh : b.toNat ≤ 0xBF)
    (hv : v = bits * 64 + (b.toNat - 0x80)) : b = UInt8.ofNat (v % 64 + 0x80) := by
  rw [← UInt8.toNat_inj, toNat_digit]
  omega

theorem wellFormed_none_cons (l : List (Option Char)) : wellFormed (none :: l) = none := rfl

theorem wellFormed_some_cons (c : Char) (l : List (Option Char)) (text : List Char) :
    wellFormed (some c :: l) = some text ↔
      ∃ text', text = c :: text' ∧ wellFormed l = some text' := by
  simp only [wellFormed, Option.map_eq_some_iff]
  constructor
  · rintro ⟨text', h, rfl⟩
    exact ⟨text', rfl, h⟩
  · rintro ⟨text', rfl, h⟩
    exact ⟨text', h, rfl⟩

/-- Inside a character the next byte must lie in the range that the machine asks for. -/
theorem wellFormed_scan_inside_cons {more bits : Nat} {low high b : UInt8} {rest : Bytes}
    {text : List Char}
    (h : wellFormed (scan (.inside more low high bits) (b :: rest)) = some text) :
    low ≤ b ∧ b ≤ high := by
  by_contra hb
  simp [scan, step, hb, wellFormed] at h

/-- Inside a character the bytes do not end. -/
theorem wellFormed_scan_inside_nil (more bits : Nat) (low high : UInt8) :
    wellFormed (scan (.inside more low high bits) []) = none := rfl

/-- The last continuation byte completes a character. -/
theorem scan_inside_zero {bits : Nat} {low high b : UInt8} (rest : Bytes)
    (hb : low ≤ b ∧ b ≤ high) :
    scan (.inside 0 low high bits) (b :: rest) =
      some (Char.ofNat (bits * 64 + (b.toNat - 0x80))) :: scan .between rest := by
  simp [scan, step, hb]

/-- Any other continuation byte adds a digit. -/
theorem scan_inside_succ {more bits : Nat} {low high b : UInt8} (rest : Bytes)
    (hb : low ≤ b ∧ b ≤ high) :
    scan (.inside (more + 1) low high bits) (b :: rest) =
      scan (.inside more 0x80 0xBF (bits * 64 + (b.toNat - 0x80))) rest := by
  simp [scan, step, hb]

/-- **Inside a character exactly the continuation bytes of a number are read**, whose leading
digits are those that are already known and whose next digit lies in the range asked for. -/
theorem wellFormed_scan_inside {more bits : Nat} {low high : UInt8} {bytes : Bytes}
    {text : List Char} (hlow : 0x80 ≤ low.toNat) (hhigh : high.toNat ≤ 0xBF) :
    wellFormed (scan (.inside more low high bits) bytes) = some text ↔
      ∃ v rest text', v / 64 ^ (more + 1) = bits ∧ low.toNat ≤ v / 64 ^ more % 64 + 0x80 ∧
        v / 64 ^ more % 64 + 0x80 ≤ high.toNat ∧ bytes = continuation more v ++ rest ∧
        text = Char.ofNat v :: text' ∧ decode? rest = some text' := by
  -- each step moves one digit of `v` from what is still to come to what is known
  induction more generalizing bits low high bytes with
  | zero =>
    constructor
    · intro h
      cases bytes with
      | nil => simp [wellFormed_scan_inside_nil] at h
      | cons b rest =>
        have hb := wellFormed_scan_inside_cons h
        rw [scan_inside_zero rest hb, wellFormed_some_cons] at h
        rcases h with ⟨text', rfl, htext⟩
        simp only [UInt8.le_iff_toNat_le] at hb
        refine ⟨bits * 64 + (b.toNat - 0x80), rest, text', ?_, ?_, ?_, ?_, rfl, htext⟩
        · omega
        · simp only [Nat.pow_zero, Nat.div_one]
          omega
        · simp only [Nat.pow_zero, Nat.div_one]
          omega
        · rw [continuation, ← eq_digit (by omega) (by omega) rfl]
          rfl
    · intro h
      rcases h with ⟨v, rest, text', hv, hl, hh, rfl, rfl, htext⟩
      simp only [Nat.pow_zero, Nat.div_one] at hl hh
      have hb : low ≤ UInt8.ofNat (v % 64 + 0x80) ∧ UInt8.ofNat (v % 64 + 0x80) ≤ high := by
        simp only [UInt8.le_iff_toNat_le, toNat_digit]
        exact ⟨hl, hh⟩
      have hv' : bits * 64 + (v % 64 + 0x80 - 0x80) = v := by omega
      rw [continuation, List.singleton_append, scan_inside_zero rest hb, toNat_digit, hv',
        wellFormed_some_cons]
      exact ⟨text', rfl, htext⟩
  | succ more ih =>
    constructor
    · intro h
      cases bytes with
      | nil => simp [wellFormed_scan_inside_nil] at h
      | cons b rest =>
        have hb := wellFormed_scan_inside_cons h
        rw [scan_inside_succ rest hb, ih (by decide) (by decide)] at h
        -- after the first byte any continuation byte may follow
        rcases h with ⟨v, rest, text', hv, -, -, rfl, rfl, htext⟩
        simp only [UInt8.le_iff_toNat_le] at hb
        refine ⟨v, rest, text', ?_, ?_, ?_, ?_, rfl, htext⟩
        · rw [Nat.pow_succ, ← Nat.div_div_eq_div_mul, hv]
          omega
        · omega
        · omega
        · rw [continuation, ← eq_digit (by omega) (by omega) hv]
          rfl
    · intro h
      rcases h with ⟨v, rest, text', hv, hl, hh, rfl, rfl, htext⟩
      have hb : low ≤ UInt8.ofNat (v / 64 ^ (more + 1) % 64 + 0x80) ∧
          UInt8.ofNat (v / 64 ^ (more + 1) % 64 + 0x80) ≤ high := by
        simp only [UInt8.le_iff_toNat_le, toNat_digit]
        exact ⟨hl, hh⟩
      rw [Nat.pow_succ, ← Nat.div_div_eq_div_mul] at hv
      rw [continuation, List.cons_append, scan_inside_succ _ hb, toNat_digit,
        ih (by decide) (by decide)]
      refine ⟨v, rest, text', ?_, ?_, ?_, rfl, rfl, htext⟩
      · omega
      · exact Nat.le_add_left _ _
      · have := Nat.mod_lt (v / 64 ^ more) (show 64 > 0 by decide)
        show _ ≤ 191
        omega

/-! ## First bytes -/

/-- The first bytes of characters that are longer than one byte: the number of further bytes, the
range of the next one, and the leading digits. -/
inductive Lead : UInt8 → (more : Nat) → (low high : UInt8) → (bits : Nat) → Prop where
  | two {b : UInt8} (hl : 0xC2 ≤ b.toNat) (hh : b.toNat ≤ 0xDF) :
      Lead b 0 0x80 0xBF (b.toNat - 0xC0)
  /-- Smaller second bytes would be overlong. -/
  | threeLow : Lead 0xE0 1 0xA0 0xBF 0
  /-- Greater second bytes would be surrogates. -/
  | threeSurrogate : Lead 0xED 1 0x80 0x9F 0xD
  | three {b : UInt8} (hl : 0xE1 ≤ b.toNat) (hh : b.toNat ≤ 0xEF) (hs : b.toNat ≠ 0xED) :
      Lead b 1 0x80 0xBF (b.toNat - 0xE0)
  /-- Smaller second bytes would be overlong. -/
  | fourLow : Lead 0xF0 2 0x90 0xBF 0
  | four {b : UInt8} (hl : 0xF1 ≤ b.toNat) (hh : b.toNat ≤ 0xF3) :
      Lead b 2 0x80 0xBF (b.toNat - 0xF0)
  /-- Greater second bytes would go beyond `U+10FFFF`. -/
  | fourHigh : Lead 0xF4 2 0x80 0x8F 4

/-- The first byte as a decision on its number. -/
theorem first_eq (b : UInt8) :
    first b =
      if b.toNat < 0x80 then (.between, [some (Char.ofNat b.toNat)])
      else if 0xC2 ≤ b.toNat ∧ b.toNat ≤ 0xDF then (.inside 0 0x80 0xBF (b.toNat - 0xC0), [])
      else if b.toNat = 0xE0 then (.inside 1 0xA0 0xBF 0, [])
      else if b.toNat = 0xED then (.inside 1 0x80 0x9F 0xD, [])
      else if 0xE1 ≤ b.toNat ∧ b.toNat ≤ 0xEF then (.inside 1 0x80 0xBF (b.toNat - 0xE0), [])
      else if b.toNat = 0xF0 then (.inside 2 0x90 0xBF 0, [])
      else if 0xF1 ≤ b.toNat ∧ b.toNat ≤ 0xF3 then (.inside 2 0x80 0xBF (b.toNat - 0xF0), [])
      else if b.toNat = 0xF4 then (.inside 2 0x80 0x8F 4, [])
      else (.between, [none]) := by
  simp only [first, UInt8.lt_iff_toNat_lt, UInt8.le_iff_toNat_le, ← UInt8.toNat_inj]
  rfl

theorem first_of_lt {b : UInt8} (h : b.toNat < 0x80) :
    first b = (.between, [some (Char.ofNat b.toNat)]) := by
  rw [first_eq, if_pos h]

theorem Lead.first_eq_inside {b low high : UInt8} {more bits : Nat}
    (h : Lead b more low high bits) : first b = (.inside more low high bits, []) := by
  cases h with
  | two hl hh => rw [first_eq, if_neg (by omega), if_pos ⟨hl, hh⟩]
  | threeLow => rfl
  | threeSurrogate => rfl
  | three hl hh hs =>
    by_cases h0 : b.toNat = 0xE0
    · omega
    · rw [first_eq, if_neg (by omega), if_neg (by omega), if_neg h0, if_neg hs, if_pos ⟨hl, hh⟩]
  | fourLow => rfl
  | four hl hh =>
    rw [first_eq, if_neg (by omega), if_neg (by omega), if_neg (by omega), if_neg (by omega),
      if_neg (by omega), if_neg (by omega), if_pos ⟨hl, hh⟩]
  | fourHigh => rfl

/-- A first byte is a character, opens one, or is ill-formed. -/
theorem first_cases (b : UInt8) :
    b.toNat < 0x80 ∨ (∃ more low high bits, Lead b more low high bits) ∨
      first b = (.between, [none]) := by
  have hE0 : b.toNat = 0xE0 → b = 0xE0 := fun h => UInt8.toNat_inj.mp h
  have hED : b.toNat = 0xED → b = 0xED := fun h => UInt8.toNat_inj.mp h
  have hF0 : b.toNat = 0xF0 → b = 0xF0 := fun h => UInt8.toNat_inj.mp h
  have hF4 : b.toNat = 0xF4 → b = 0xF4 := fun h => UInt8.toNat_inj.mp h
  rw [first_eq]
  split
  · next h => exact .inl h
  split
  · next h => exact .inr (.inl ⟨_, _, _, _, .two h.1 h.2⟩)
  split
  · next h =>
    obtain rfl := hE0 h
    exact .inr (.inl ⟨_, _, _, _, .threeLow⟩)
  split
  · next h =>
    obtain rfl := hED h
    exact .inr (.inl ⟨_, _, _, _, .threeSurrogate⟩)
  split
  · next hs h => exact .inr (.inl ⟨_, _, _, _, .three h.1 h.2 hs⟩)
  split
  · next h =>
    obtain rfl := hF0 h
    exact .inr (.inl ⟨_, _, _, _, .fourLow⟩)
  split
  · next h => exact .inr (.inl ⟨_, _, _, _, .four h.1 h.2⟩)
  split
  · next h =>
    obtain rfl := hF4 h
    exact .inr (.inl ⟨_, _, _, _, .fourHigh⟩)
  · exact .inr (.inr rfl)

/-! ## Characters -/

theorem val_ofNat {v : Nat} (h : v.isValidChar) : (Char.ofNat v).val.toNat = v := by
  rw [Char.ofNat, dif_pos h]
  rfl

theorem utf8EncodeChar_one {v : Nat} (h : v < 0x80) :
    String.utf8EncodeChar (Char.ofNat v) = [UInt8.ofNat v] := by
  simp only [String.utf8EncodeChar]
  rw [val_ofNat (by left; omega), if_pos (by omega)]

theorem utf8EncodeChar_two {v : Nat} (hl : 0x80 ≤ v) (hh : v < 0x800) :
    String.utf8EncodeChar (Char.ofNat v) = UInt8.ofNat (v / 64 + 0xC0) :: continuation 0 v := by
  simp only [String.utf8EncodeChar]
  rw [val_ofNat (by left; omega), if_neg (by omega), if_pos (by omega),
    Nat.mod_eq_of_lt (by omega : v / 64 < 0x20)]
  rfl

theorem utf8EncodeChar_three {v : Nat} (hv : v.isValidChar) (hl : 0x800 ≤ v) (hh : v < 0x10000) :
    String.utf8EncodeChar (Char.ofNat v) = UInt8.ofNat (v / 4096 + 0xE0) :: continuation 1 v := by
  simp only [String.utf8EncodeChar]
  rw [val_ofNat hv, if_neg (by omega), if_neg (by omega), if_pos (by omega),
    Nat.mod_eq_of_lt (by omega : v / 4096 < 0x10)]
  rfl

theorem utf8EncodeChar_four {v : Nat} (hl : 0x10000 ≤ v) (hh : v < 0x110000) :
    String.utf8EncodeChar (Char.ofNat v) =
      UInt8.ofNat (v / 262144 + 0xF0) :: continuation 2 v := by
  simp only [String.utf8EncodeChar]
  rw [val_ofNat (by right; omega), if_neg (by omega), if_neg (by omega), if_neg (by omega),
    Nat.mod_eq_of_lt (by omega : v / 262144 < 0x08)]
  rfl

theorem ofNat_eq_of_toNat {b : UInt8} {n : Nat} (h : b.toNat = n) : UInt8.ofNat n = b := by
  rw [← h, UInt8.ofNat_toNat]

/-- A first byte with the continuation bytes that may follow it encodes one character. -/
theorem Lead.encode {b low high : UInt8} {more bits v : Nat} (h : Lead b more low high bits)
    (hv : v / 64 ^ (more + 1) = bits) (hl : low.toNat ≤ v / 64 ^ more % 64 + 0x80)
    (hh : v / 64 ^ more % 64 + 0x80 ≤ high.toNat) :
    String.utf8EncodeChar (Char.ofNat v) = b :: continuation more v := by
  cases h with
  | two hbl hbh =>
    rw [utf8EncodeChar_two (by omega) (by omega), ofNat_eq_of_toNat (b := b) (by omega)]
  | threeLow =>
    have hl' : 0xA0 ≤ v / 64 ^ 1 % 64 + 0x80 := hl
    rw [utf8EncodeChar_three (by left; omega) (by omega) (by omega),
      ofNat_eq_of_toNat (b := 0xE0) (by show 0xE0 = _; omega)]
  | threeSurrogate =>
    -- the bound on the second byte keeps `v` below the surrogates
    have hh' : v / 64 ^ 1 % 64 + 0x80 ≤ 0x9F := hh
    rw [utf8EncodeChar_three (by left; omega) (by omega) (by omega),
      ofNat_eq_of_toNat (b := 0xED) (by show 0xED = _; omega)]
  | three hbl hbh hs =>
    -- on either side of the surrogates
    have hvalid : v.isValidChar := by
      by_cases h : b.toNat < 0xED
      · left; omega
      · right; omega
    rw [utf8EncodeChar_three hvalid (by omega) (by omega), ofNat_eq_of_toNat (b := b) (by omega)]
  | fourLow =>
    have hl' : 0x90 ≤ v / 64 ^ 2 % 64 + 0x80 := hl
    rw [utf8EncodeChar_four (by omega) (by omega),
      ofNat_eq_of_toNat (b := 0xF0) (by show 0xF0 = _; omega)]
  | four hbl hbh =>
    rw [utf8EncodeChar_four (by omega) (by omega), ofNat_eq_of_toNat (b := b) (by omega)]
  | fourHigh =>
    have hh' : v / 64 ^ 2 % 64 + 0x80 ≤ 0x8F := hh
    rw [utf8EncodeChar_four (by omega) (by omega),
      ofNat_eq_of_toNat (b := 0xF4) (by show 0xF4 = _; omega)]

/-- Every character beyond ASCII has a first byte that announces its digits. -/
theorem exists_lead {v : Nat} (hv : v.isValidChar) (h : 0x80 ≤ v) :
    ∃ b more low high, Lead b more low high (v / 64 ^ (more + 1)) ∧
      low.toNat ≤ v / 64 ^ more % 64 + 0x80 ∧ v / 64 ^ more % 64 + 0x80 ≤ high.toNat := by
  have digit_le : ∀ d, d % 64 + 0x80 ≤ (0xBF : UInt8).toNat := by
    intro d
    show _ ≤ 0xBF
    omega
  have le_digit : ∀ d, (0x80 : UInt8).toNat ≤ d % 64 + 0x80 := fun d => Nat.le_add_left _ _
  have lead_toNat : ∀ n, n < 256 → (UInt8.ofNat n).toNat = n := fun n hn => by
    simp only [UInt8.toNat_ofNat']
    omega
  by_cases h2 : v < 0x800
  · have hb := lead_toNat (v / 64 ^ 1 + 0xC0) (by omega)
    have hlead := Lead.two (b := UInt8.ofNat (v / 64 ^ 1 + 0xC0)) (by omega) (by omega)
    rw [hb, Nat.add_sub_cancel] at hlead
    exact ⟨_, _, _, _, hlead, le_digit _, digit_le _⟩
  -- three bytes: the leading digit tells the two special first bytes from the others
  by_cases h3 : v < 0x10000
  · by_cases h0 : v / 64 ^ 2 = 0
    · refine ⟨0xE0, 1, 0xA0, 0xBF, h0 ▸ .threeLow, ?_, digit_le _⟩
      show 0xA0 ≤ _
      omega
    by_cases hD : v / 64 ^ 2 = 0xD
    · refine ⟨0xED, 1, 0x80, 0x9F, hD ▸ .threeSurrogate, le_digit _, ?_⟩
      show _ ≤ 0x9F
      rcases hv with hv | hv <;> omega
    have hb := lead_toNat (v / 64 ^ 2 + 0xE0) (by omega)
    have hlead := Lead.three (b := UInt8.ofNat (v / 64 ^ 2 + 0xE0)) (by omega) (by omega)
      (by omega)
    rw [hb, Nat.add_sub_cancel] at hlead
    exact ⟨_, _, _, _, hlead, le_digit _, digit_le _⟩
  -- four bytes
  · have hv' : v < 0x110000 := by rcases hv with hv | hv <;> omega
    by_cases h0 : v / 64 ^ 3 = 0
    · refine ⟨0xF0, 2, 0x90, 0xBF, h0 ▸ .fourLow, ?_, digit_le _⟩
      show 0x90 ≤ _
      omega
    by_cases h4 : v / 64 ^ 3 = 4
    · refine ⟨0xF4, 2, 0x80, 0x8F, h4 ▸ .fourHigh, le_digit _, ?_⟩
      show _ ≤ 0x8F
      omega
    have hb := lead_toNat (v / 64 ^ 3 + 0xF0) (by omega)
    have hlead := Lead.four (b := UInt8.ofNat (v / 64 ^ 3 + 0xF0)) (by omega) (by omega)
    rw [hb, Nat.add_sub_cancel] at hlead
    exact ⟨_, _, _, _, hlead, le_digit _, digit_le _⟩

/-! ## Texts -/

/-- A first byte and what the bytes after it give. -/
theorem decode?_cons (b : UInt8) (rest : Bytes) :
    decode? (b :: rest) = wellFormed ((first b).2 ++ scan (first b).1 rest) := rfl

theorem Lead.decode?_cons_iff {b low high : UInt8} {more bits : Nat} {rest : Bytes}
    {text : List Char} (h : Lead b more low high bits) :
    decode? (b :: rest) = some text ↔
      ∃ v rest' text', v / 64 ^ (more + 1) = bits ∧ low.toNat ≤ v / 64 ^ more % 64 + 0x80 ∧
        v / 64 ^ more % 64 + 0x80 ≤ high.toNat ∧ rest = continuation more v ++ rest' ∧
        text = Char.ofNat v :: text' ∧ decode? rest' = some text' := by
  rw [decode?_cons, h.first_eq_inside, List.nil_append]
  apply wellFormed_scan_inside
  · cases h <;> decide
  · cases h <;> decide

/-- **One character is decoded from exactly the bytes that encode it.** -/
theorem decode?_eq_some_cons_iff {bytes : Bytes} {c : Char} {text : List Char} :
    decode? bytes = some (c :: text) ↔
      ∃ rest, bytes = String.utf8EncodeChar c ++ rest ∧ decode? rest = some text := by
  constructor
  · intro h
    cases bytes with
    | nil => simp [decode?, scan, finish, wellFormed] at h
    | cons b rest =>
      rcases first_cases b with hb | ⟨more, low, high, bits, hlead⟩ | hb
      · rw [decode?_cons, first_of_lt hb, List.singleton_append, wellFormed_some_cons] at h
        rcases h with ⟨text', heq, htext⟩
        rcases List.cons.inj heq with ⟨rfl, rfl⟩
        refine ⟨rest, ?_, htext⟩
        rw [utf8EncodeChar_one hb, UInt8.ofNat_toNat, List.singleton_append]
      · rcases hlead.decode?_cons_iff.mp h with ⟨v, rest, text', hv, hl, hh, rfl, heq, htext⟩
        rcases List.cons.inj heq with ⟨rfl, rfl⟩
        refine ⟨rest, ?_, htext⟩
        rw [hlead.encode hv hl hh, List.cons_append]
      · rw [decode?_cons, hb, List.singleton_append, wellFormed_none_cons] at h
        cases h
  · intro h
    rcases h with ⟨rest, rfl, htext⟩
    have hc : Char.ofNat c.toNat = c := Char.ofNat_toNat c
    rw [← hc]
    by_cases h : c.toNat < 0x80
    · have hb : (UInt8.ofNat c.toNat).toNat = c.toNat := by
        simp only [UInt8.toNat_ofNat']
        omega
      rw [utf8EncodeChar_one h, List.singleton_append, decode?_cons, first_of_lt (by omega), hb,
        List.singleton_append, wellFormed_some_cons]
      exact ⟨text, rfl, htext⟩
    · have hvalid : c.toNat.isValidChar := c.valid
      rcases exists_lead hvalid (by omega) with ⟨b, more, low, high, hlead, hl, hh⟩
      rw [hlead.encode rfl hl hh, List.cons_append, hlead.decode?_cons_iff]
      exact ⟨c.toNat, rest, text, rfl, hl, hh, rfl, rfl, htext⟩

theorem decode?_eq_some_nil_iff {bytes : Bytes} : decode? bytes = some [] ↔ bytes = [] := by
  constructor
  · intro h
    cases bytes with
    | nil => rfl
    | cons b rest =>
      rcases first_cases b with hb | ⟨more, low, high, bits, hlead⟩ | hb
      · rw [decode?_cons, first_of_lt hb, List.singleton_append, wellFormed_some_cons] at h
        rcases h with ⟨text', heq, -⟩
        cases heq
      · rcases hlead.decode?_cons_iff.mp h with ⟨v, rest, text', -, -, -, -, heq, -⟩
        cases heq
      · rw [decode?_cons, hb, List.singleton_append, wellFormed_none_cons] at h
        cases h
  · rintro rfl
    rfl

/-- **A byte string decodes to a text exactly when it is the encoding of that text.** -/
theorem decode?_eq_some_iff {bytes : Bytes} {text : List Char} :
    decode? bytes = some text ↔ bytes = encode text := by
  induction text generalizing bytes with
  | nil => exact decode?_eq_some_nil_iff
  | cons c text ih =>
    rw [decode?_eq_some_cons_iff]
    constructor
    · rintro ⟨rest, rfl, h⟩
      rw [ih.mp h]
      rfl
    · rintro rfl
      exact ⟨encode text, rfl, ih.mpr rfl⟩

end PowerCurve.Text.Utf8
