import PowerCurve.Proofs.Json.Printed
import PowerCurve.Settings.Basic

/-!
# The form of settings

Which JSON values are settings is said without reference to how they are read (`IsSettings`), and
exactly these are read (`isSome_ofJson?_iff`). Each setting is the value that is given for it, or its
default if none is given (`Gives`, `ofJson?_eq_some_iff_gives`).

Settings that are printed are read back as they were (`ofText_text`), if only the size of the font
of the labels reads back; that of the defaults does (`ofText_standard`).
-/

namespace PowerCurve

open PowerCurve.Decimal PowerCurve.Json

/-! ## Values -/

/-- The value is a natural number in digits alone. -/
def Json.Value.IsNatural (v : Value) (n : Nat) : Prop :=
  ∃ ds, v = .number ⟨false, ds, [], none⟩ ∧ value ds = n

/-- The value is a number that can be read as one of 32 bits. -/
def Json.Value.IsReal32 (v : Value) : Prop :=
  ∃ n, v = .number n ∧ (real32? n).isSome

/-- The value is a number that is read as `x`. -/
def Json.Value.IsFloat32 (v : Value) (x : Float32) : Prop :=
  ∃ n, v = .number n ∧ real32? n = some x

/-- The values given for a setting: the members with its name, or the item at its position. -/
def Json.Value.given (name : String) (position : Nat) : Value → List Value
  | .object members => Settings.named name members
  | .list items => items[position]?.toList
  | _ => []

/-- The value is a record whose names are texts, or a list of at most three values. -/
def Json.Value.HasShape : Value → Prop
  | .object members => ∀ m ∈ members, ∃ name, m.1 = glyphsOf name
  | .list items => items.length ≤ 3
  | _ => False

/-- The value is one of settings: none of them is given twice, and each has its type. -/
structure Json.Value.IsSettings (v : Value) : Prop where
  shape : v.HasShape
  versionOnce : (v.given "version" 0).length ≤ 1
  version : ∀ given ∈ v.given "version" 0, ∃ n < 2 ^ 32, given.IsNatural n
  windowOnce : (v.given "power_window" 1).length ≤ 1
  window : ∀ given ∈ v.given "power_window" 1, ∃ n < 2 ^ 64, given.IsNatural n
  sizeOnce : (v.given "label_font_size" 2).length ≤ 1
  size : ∀ given ∈ v.given "label_font_size" 2, given.IsReal32

/-- The only value that is given denotes `x`, or none is given and `x` is the default. -/
def Json.IsGiven {α : Type} (missing : α) (denotes : Value → α → Prop) (given : List Value)
    (x : α) : Prop :=
  given = [] ∧ x = missing ∨ ∃ v, given = [v] ∧ denotes v x

/-- Each setting is the one that the value gives, or its default. -/
structure Json.Value.Gives (v : Value) (s : Settings) : Prop where
  shape : v.HasShape
  version : IsGiven 1 (fun given n => given.IsNatural n.toNat) (v.given "version" 0) s.version
  window : IsGiven 6 (fun given n => given.IsNatural n.toNat) (v.given "power_window" 1)
    s.powerWindow
  size : IsGiven 10.0 Value.IsFloat32 (v.given "label_font_size" 2) s.labelSize

theorem Json.Value.IsNatural.unique {v : Value} {n n' : Nat} (h : v.IsNatural n)
    (h' : v.IsNatural n') : n = n' := by
  rcases h with ⟨ds, rfl, rfl⟩
  rcases h' with ⟨ds', heq, rfl⟩
  cases heq
  rfl

namespace Settings

theorem natural?_eq_some_iff {limit n : Nat} {v : Value} :
    natural? limit v = some n ↔ v.IsNatural n ∧ n < limit := by
  constructor
  · intro h
    cases v with
    | number numeral =>
      rw [natural?] at h
      split at h
      · next hform =>
        rcases hform with ⟨hsign, hfraction, hexponent, hlimit⟩
        obtain rfl := Option.some.inj h
        refine ⟨⟨numeral.whole, ?_, rfl⟩, hlimit⟩
        rw [← hsign, ← hfraction, ← hexponent]
      · cases h
    | _ => cases h
  · rintro ⟨⟨ds, rfl, rfl⟩, hlimit⟩
    rw [natural?, if_pos ⟨rfl, rfl, rfl, hlimit⟩]

theorem version?_eq_some_iff {v : Value} {n : UInt32} :
    version? v = some n ↔ v.IsNatural n.toNat := by
  rw [version?, Option.map_eq_some_iff]
  constructor
  · rintro ⟨m, hm, rfl⟩
    rcases natural?_eq_some_iff.mp hm with ⟨hnatural, hlimit⟩
    rwa [UInt32.toNat_ofNat_of_lt' hlimit]
  · intro h
    exact ⟨n.toNat, natural?_eq_some_iff.mpr ⟨h, n.toNat_lt⟩, UInt32.ofNat_toNat⟩

theorem powerWindow?_eq_some_iff {v : Value} {n : UInt64} :
    powerWindow? v = some n ↔ v.IsNatural n.toNat := by
  rw [powerWindow?, Option.map_eq_some_iff]
  constructor
  · rintro ⟨m, hm, rfl⟩
    rcases natural?_eq_some_iff.mp hm with ⟨hnatural, hlimit⟩
    rwa [UInt64.toNat_ofNat_of_lt' hlimit]
  · intro h
    exact ⟨n.toNat, natural?_eq_some_iff.mpr ⟨h, n.toNat_lt⟩, UInt64.ofNat_toNat⟩

theorem isSome_version?_iff {v : Value} :
    (version? v).isSome ↔ ∃ n < 2 ^ 32, v.IsNatural n := by
  rw [version?, Option.isSome_map, Option.isSome_iff_exists]
  simp only [natural?_eq_some_iff, and_comm]
  rfl

theorem isSome_powerWindow?_iff {v : Value} :
    (powerWindow? v).isSome ↔ ∃ n < 2 ^ 64, v.IsNatural n := by
  rw [powerWindow?, Option.isSome_map, Option.isSome_iff_exists]
  simp only [natural?_eq_some_iff, and_comm]
  rfl

theorem labelSize?_eq_some_iff {v : Value} {x : Float32} :
    labelSize? v = some x ↔ v.IsFloat32 x := by
  cases v with
  | number n =>
    constructor
    · intro h
      exact ⟨n, rfl, h⟩
    · rintro ⟨n', ⟨⟩, h⟩
      exact h
  | _ =>
    refine iff_of_false nofun ?_
    rintro ⟨n, ⟨⟩, -⟩

theorem isSome_labelSize?_iff {v : Value} : (labelSize? v).isSome ↔ v.IsReal32 := by
  simp only [Option.isSome_iff_exists, labelSize?_eq_some_iff, Value.IsFloat32, Value.IsReal32]
  constructor
  · rintro ⟨x, n, hv, hread⟩
    exact ⟨n, hv, x, hread⟩
  · rintro ⟨n, hv, x, hread⟩
    exact ⟨x, n, hv, hread⟩

section

variable {α : Type} {missing : α} {read : Value → Option α} {vs : List Value}

theorem isSome_optional_iff :
    (optional missing read vs).isSome ↔ vs.length ≤ 1 ∧ ∀ v ∈ vs, (read v).isSome := by
  match vs with
  | [] => simp [optional]
  | [v] => simp [optional]
  | _ :: _ :: _ => simp [optional]

/-- What is read is the default, or the one value that is there. -/
theorem optional_eq_some_iff {x : α} {denotes : Value → α → Prop}
    (hread : ∀ v, read v = some x ↔ denotes v x) :
    optional missing read vs = some x ↔ IsGiven missing denotes vs x := by
  constructor
  · intro h
    match vs with
    | [] => exact .inl ⟨rfl, (Option.some.inj h).symm⟩
    | [v] => exact .inr ⟨v, rfl, (hread v).mp h⟩
    | _ :: _ :: _ => cases h
  · rintro (⟨rfl, rfl⟩ | ⟨v, rfl, hv⟩)
    · rfl
    · exact (hread v).mpr hv

end

theorem assemble_eq_some_iff {versions windows sizes : List Value} {s : Settings} :
    assemble versions windows sizes = some s ↔
      optional standard.version version? versions = some s.version ∧
      optional standard.powerWindow powerWindow? windows = some s.powerWindow ∧
      optional standard.labelSize labelSize? sizes = some s.labelSize := by
  simp only [assemble, bind, Option.bind_eq_some_iff, pure, Option.some.injEq]
  constructor
  · rintro ⟨version, hversion, window, hwindow, size, hsize, rfl⟩
    exact ⟨hversion, hwindow, hsize⟩
  · rintro ⟨hversion, hwindow, hsize⟩
    exact ⟨_, hversion, _, hwindow, _, hsize, rfl⟩

theorem isSome_textOf?_iff {glyphs : List Glyph} :
    (textOf? glyphs).isSome ↔ ∃ text, glyphs = glyphsOf text := by
  constructor
  · intro h
    induction glyphs with
    | nil => exact ⟨[], rfl⟩
    | cons glyph glyphs ih =>
      cases glyph with
      | char c =>
        rw [textOf?, Option.isSome_map] at h
        rcases ih h with ⟨text, rfl⟩
        exact ⟨c :: text, rfl⟩
      | surrogate unit => cases h
  · rintro ⟨text, rfl⟩
    rw [textOf?_glyphsOf]
    rfl

/-! ## Reading values -/

/-- Settings are read from what is given for each of them. -/
theorem ofJson?_eq_some_iff {v : Value} {s : Settings} :
    ofJson? v = some s ↔ v.HasShape ∧
      assemble (v.given "version" 0) (v.given "power_window" 1) (v.given "label_font_size" 2) =
        some s := by
  cases v with
  | object members =>
    have hnames : (members.all fun m => (textOf? m.1).isSome) = true ↔
        (Value.object members).HasShape := by
      simp only [List.all_eq_true, isSome_textOf?_iff, Value.HasShape]
    rw [ofJson?, ← hnames]
    split
    · next hall => exact (and_iff_right hall).symm
    · next hall => exact iff_of_false (Option.some_ne_none s).symm fun h => hall h.1
  | list items =>
    simp only [ofJson?, Value.HasShape, Value.given]
    -- the three positions, and one item too many
    rcases items with _ | ⟨a, _ | ⟨b, _ | ⟨c, _ | ⟨d, items⟩⟩⟩⟩ <;> simp
  | _ => simp [ofJson?, Value.HasShape]

/-- **Exactly the values that are settings are read.** -/
theorem isSome_ofJson?_iff {v : Value} : (ofJson? v).isSome ↔ v.IsSettings := by
  have hassemble : ∀ versions windows sizes, (assemble versions windows sizes).isSome ↔
      (optional standard.version version? versions).isSome ∧
      (optional standard.powerWindow powerWindow? windows).isSome ∧
      (optional standard.labelSize labelSize? sizes).isSome := by
    intro versions windows sizes
    simp only [Option.isSome_iff_exists, assemble_eq_some_iff]
    constructor
    · rintro ⟨s, hversion, hwindow, hsize⟩
      exact ⟨⟨_, hversion⟩, ⟨_, hwindow⟩, ⟨_, hsize⟩⟩
    · rintro ⟨⟨version, hversion⟩, ⟨window, hwindow⟩, ⟨size, hsize⟩⟩
      exact ⟨⟨version, window, size⟩, hversion, hwindow, hsize⟩
  have hread : (ofJson? v).isSome ↔ v.HasShape ∧
      (assemble (v.given "version" 0) (v.given "power_window" 1)
        (v.given "label_font_size" 2)).isSome := by
    simp only [Option.isSome_iff_exists, ofJson?_eq_some_iff, exists_and_left]
  rw [hread, hassemble, isSome_optional_iff, isSome_optional_iff, isSome_optional_iff]
  simp only [isSome_version?_iff, isSome_powerWindow?_iff, isSome_labelSize?_iff]
  constructor
  · rintro ⟨hshape, ⟨hversions, hversion⟩, ⟨hwindows, hwindow⟩, hsizes, hsize⟩
    exact ⟨hshape, hversions, hversion, hwindows, hwindow, hsizes, hsize⟩
  · intro h
    exact ⟨h.shape, ⟨h.versionOnce, h.version⟩, ⟨h.windowOnce, h.window⟩, h.sizeOnce, h.size⟩

/-- **What is read from a value is what it gives.** -/
theorem ofJson?_eq_some_iff_gives {v : Value} {s : Settings} : ofJson? v = some s ↔ v.Gives s := by
  rw [ofJson?_eq_some_iff, assemble_eq_some_iff]
  constructor
  · rintro ⟨hshape, hversion, hwindow, hsize⟩
    exact ⟨hshape, (optional_eq_some_iff fun _ => version?_eq_some_iff).mp hversion,
      (optional_eq_some_iff fun _ => powerWindow?_eq_some_iff).mp hwindow,
      (optional_eq_some_iff fun _ => labelSize?_eq_some_iff).mp hsize⟩
  · intro h
    exact ⟨h.shape, (optional_eq_some_iff fun _ => version?_eq_some_iff).mpr h.version,
      (optional_eq_some_iff fun _ => powerWindow?_eq_some_iff).mpr h.window,
      (optional_eq_some_iff fun _ => labelSize?_eq_some_iff).mpr h.size⟩

/-! ## Reading what was printed -/

theorem toJson_isPlain (s : Settings) : s.toJson.IsPlain := by
  refine Value.record_isPlain ?_
  simp only [List.forall_mem_cons]
  exact ⟨Value.ofNat_isPlain _, Value.ofNat_isPlain _, Value.ofFloat32_isPlain _, nofun⟩

theorem natural?_ofNat {limit n : Nat} (h : n < limit) : natural? limit (.ofNat n) = some n :=
  natural?_eq_some_iff.mpr ⟨⟨digits n, rfl, value_digits n⟩, h⟩

/-- The names in a record that is printed are texts. -/
theorem record_hasShape (members : List (String × Value)) : (Value.record members).HasShape := by
  intro m hmem
  rcases List.mem_map.mp hmem with ⟨member, -, rfl⟩
  exact ⟨member.1.toList, rfl⟩

/-- Each setting is given once, under its name. -/
theorem given_toJson (s : Settings) :
    s.toJson.given "version" 0 = [.ofNat s.version.toNat] ∧
    s.toJson.given "power_window" 1 = [.ofNat s.powerWindow.toNat] ∧
    s.toJson.given "label_font_size" 2 = [.ofFloat32 s.labelSize] := by
  simp [toJson, Value.record, Value.given, named, glyphsOf]

/-- Settings that are written as a value are read back, if the size of the font is. -/
theorem ofJson?_toJson {s : Settings}
    (hsize : labelSize? (.ofFloat32 s.labelSize) = some s.labelSize) :
    ofJson? s.toJson = some s := by
  have hversion : version? (.ofNat s.version.toNat) = some s.version := by
    rw [version?, natural?_ofNat s.version.toNat_lt, Option.map_some, UInt32.ofNat_toNat]
  have hwindow : powerWindow? (.ofNat s.powerWindow.toNat) = some s.powerWindow := by
    rw [powerWindow?, natural?_ofNat s.powerWindow.toNat_lt, Option.map_some, UInt64.ofNat_toNat]
  rcases given_toJson s with ⟨hversions, hwindows, hsizes⟩
  rw [ofJson?_eq_some_iff, assemble_eq_some_iff, hversions, hwindows, hsizes]
  exact ⟨record_hasShape _, hversion, hwindow, hsize⟩

/-- **Settings that are printed are read back**, if the size of the font is; what cannot be used is
replaced. -/
theorem ofText_text {layout : Layout} (hlayout : layout.IsBlank) {s : Settings}
    (hsize : labelSize? (.ofFloat32 s.labelSize) = some s.labelSize) :
    (ofText (s.toJson.text layout)).result = s.repaired := by
  simp only [ofText, read?_text hlayout (toJson_isPlain s), Option.bind_some,
    ofJson?_toJson hsize]

/-- The defaults are read back as they are. -/
theorem ofText_standard : (ofText (standard.toJson.text .indented)).result = standard := by
  have hsize : labelSize? (.ofFloat32 standard.labelSize) = some standard.labelSize := by
    decide +kernel
  rw [ofText_text Layout.indented_isBlank hsize]
  rfl

example : standard.toJson.indented =
    "\x7b\n  \"version\": 1,\n  \"power_window\": 6,\n  \"label_font_size\": 10.0\n\x7d" := by
  decide +kernel

end Settings

end PowerCurve
