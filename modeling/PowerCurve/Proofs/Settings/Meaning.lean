import PowerCurve.Proofs.Settings.Usable

/-!
# What a text of settings means

Of a document that has the form of settings, each setting is the value that is given for it, or its
default if none is given, and then only what cannot be used is repaired. Of
every other text all settings are the defaults. So neither the order of the members matters nor what
else a record holds (`ofJson?_congr`), and a list means the same as the record in which its items
have their names (`ofText_meaning`).
-/

namespace PowerCurve

open PowerCurve.Decimal PowerCurve.Json

namespace Settings

/-! ## What does not matter -/

/-- The names of the settings, in the order in which a list gives them. -/
def names : List (List Glyph) :=
  ["version", "power_window", "label_font_size"].map fun name => glyphsOf name.toList

/-- The members that have the name of a setting. -/
def known (members : List (List Glyph × Value)) : List (List Glyph × Value) :=
  members.filter fun m => m.1 ∈ names

theorem named_known {name : String} (h : glyphsOf name.toList ∈ names)
    (members : List (List Glyph × Value)) : named name (known members) = named name members := by
  have hfilter : ∀ m : List Glyph × Value,
      (decide (m.1 = glyphsOf name.toList) && decide (m.1 ∈ names)) =
        decide (m.1 = glyphsOf name.toList) := by
    intro m
    by_cases hm : m.1 = glyphsOf name.toList
    · simp [hm, h]
    · simp [hm]
  rw [named, known, List.filter_filter, named]
  simp only [hfilter]

theorem optional_perm {α : Type} (missing : α) (read : Value → Option α) {vs vs' : List Value}
    (h : vs.Perm vs') : optional missing read vs = optional missing read vs' := by
  -- two values or more are refused in any order
  match vs, vs' with
  | [], _ => rw [h.nil_eq]
  | [v], _ => rw [List.singleton_perm.mp h]
  | _ :: _ :: _, [] => cases h.length_eq
  | _ :: _ :: _, [_] => cases h.length_eq
  | _ :: _ :: _, _ :: _ :: _ => rfl

/-- Settings depend on what is given for each of them, and on nothing else. -/
theorem ofJson?_congr {v v' : Value} (hshape : v.HasShape) (hshape' : v'.HasShape)
    (hversion : (v.given "version" 0).Perm (v'.given "version" 0))
    (hwindow : (v.given "power_window" 1).Perm (v'.given "power_window" 1))
    (hsize : (v.given "label_font_size" 2).Perm (v'.given "label_font_size" 2)) :
    ofJson? v = ofJson? v' := by
  apply Option.ext
  intro s
  rw [ofJson?_eq_some_iff, ofJson?_eq_some_iff, assemble_eq_some_iff, assemble_eq_some_iff,
    optional_perm _ _ hversion, optional_perm _ _ hwindow, optional_perm _ _ hsize]
  exact and_congr_left' (iff_of_true hshape hshape')

theorem named_perm {members members' : List (List Glyph × Value)}
    (h : (known members).Perm (known members')) {name : String}
    (hname : glyphsOf name.toList ∈ names) : (named name members).Perm (named name members') := by
  rw [← named_known hname members, ← named_known hname members']
  exact (h.filter _).map _

/-- Neither the order of the members matters nor what else a record holds. -/
theorem ofJson?_of_perm {members members' : List (List Glyph × Value)}
    (hshape : (Value.object members).HasShape) (hshape' : (Value.object members').HasShape)
    (h : (known members).Perm (known members')) :
    ofJson? (.object members) = ofJson? (.object members') := by
  apply ofJson?_congr hshape hshape'
  · exact named_perm h (by decide)
  · exact named_perm h (by decide)
  · exact named_perm h (by decide)

/-- The items of a list are given in the order of the names. -/
theorem named_zip {items : List Value} (h : items.length ≤ 3) :
    named "version" (names.zip items) = (Value.list items).given "version" 0 ∧
    named "power_window" (names.zip items) = (Value.list items).given "power_window" 1 ∧
    named "label_font_size" (names.zip items) = (Value.list items).given "label_font_size" 2 := by
  -- the three positions, and one item too many
  match items with
  | [] => exact ⟨rfl, rfl, rfl⟩
  | [_] => exact ⟨rfl, rfl, rfl⟩
  | [_, _] => exact ⟨rfl, rfl, rfl⟩
  | [_, _, _] => exact ⟨rfl, rfl, rfl⟩
  | _ :: _ :: _ :: _ :: _ => exact absurd h (by simp)

theorem known_zip (items : List Value) : known (names.zip items) = names.zip items := by
  rw [known, List.filter_eq_self]
  intro m hm
  exact decide_eq_true (List.of_mem_zip hm).1

/-- A list means the same as a record in which its items have the names of the settings. -/
theorem ofJson?_list {items : List Value} {members : List (List Glyph × Value)}
    (hitems : items.length ≤ 3) (hshape : (Value.object members).HasShape)
    (h : (known members).Perm (names.zip items)) :
    ofJson? (.list items) = ofJson? (.object members) := by
  -- the names stand in front of the items in the order of the positions
  rw [← known_zip] at h
  rcases named_zip hitems with ⟨hversion, hwindow, hsize⟩
  have hlist : (Value.list items).HasShape := hitems
  apply ofJson?_congr hlist hshape
  · rw [← hversion]
    exact (named_perm h (by decide)).symm
  · rw [← hwindow]
    exact (named_perm h (by decide)).symm
  · rw [← hsize]
    exact (named_perm h (by decide)).symm

/-! ## Texts -/

/-- A document means what its value means, repaired, or else nothing. -/
theorem ofText_of_isDocument {text : List Char} {v : Value} (h : IsDocument text v) :
    (ofText text).result = ((ofJson? v).map repaired).getD standard := by
  have hread := read?_eq_some_iff.mpr h
  cases hv : ofJson? v with
  | none => simp only [ofText, hread, Option.bind_some, hv, Option.map_none, Option.getD_none]
  | some s => simp only [ofText, hread, Option.bind_some, hv, Option.map_some, Option.getD_some]

theorem ofText_of_not_isSettings {text : List Char}
    (h : ∀ v, IsDocument text v → ¬ v.IsSettings) : (ofText text).result = standard := by
  cases hread : read? text with
  | none => simp only [ofText, hread, Option.bind_none]
  | some v =>
    have hdocument := read?_eq_some_iff.mp hread
    have hnone : ofJson? v = none := by
      rw [← Option.not_isSome_iff_eq_none, isSome_ofJson?_iff]
      exact h v hdocument
    rw [ofText_of_isDocument hdocument, hnone]
    rfl

/-- **What a text of settings means.** Of a document that has the form of settings, each setting is
the one that is given or its default, and only what cannot be used is repaired. Of every other text
all settings are the defaults. The order of the members and members with other names do not matter,
and a list means the same as the record with the names of the settings. -/
theorem ofText_meaning :
    (∀ text v, IsDocument text v → v.IsSettings →
      ∃ s, v.Gives s ∧ Repairs s (ofText text).result) ∧
    (∀ text, (∀ v, IsDocument text v → ¬ v.IsSettings) → (ofText text).result = standard) ∧
    (∀ text text' members members', IsDocument text (.object members) →
      IsDocument text' (.object members') → (Value.object members).HasShape →
      (Value.object members').HasShape → (known members).Perm (known members') →
      (ofText text).result = (ofText text').result) ∧
    (∀ text text' items members, IsDocument text (.list items) →
      IsDocument text' (.object members) → items.length ≤ 3 →
      (Value.object members).HasShape → (known members).Perm (names.zip items) →
      (ofText text).result = (ofText text').result) := by
  refine ⟨?_, fun _ => ofText_of_not_isSettings, ?_, ?_⟩
  · intro text v hdocument hsettings
    obtain ⟨s, hs⟩ := Option.isSome_iff_exists.mp (isSome_ofJson?_iff.mpr hsettings)
    refine ⟨s, ofJson?_eq_some_iff_gives.mp hs, ?_⟩
    rw [ofText_of_isDocument hdocument, hs]
    exact repaired_repairs s
  · intro text text' members members' hdocument hdocument' hshape hshape' hknown
    rw [ofText_of_isDocument hdocument, ofText_of_isDocument hdocument',
      ofJson?_of_perm hshape hshape' hknown]
  · intro text text' items members hdocument hdocument' hitems hshape hknown
    rw [ofText_of_isDocument hdocument, ofText_of_isDocument hdocument',
      ofJson?_list hitems hshape hknown]

/-- A window of zero next to a member of another name and without it, a version that is given twice,
and a list with the record of its items in another order. -/
theorem ofText_meaning_texts :
    let window : Value := .record [("power_window", .ofNat 0)]
    let more : Value := .record [("x", .list [.null]), ("power_window", .ofNat 0)]
    let twice : Value := .record [("version", .ofNat 7), ("version", .ofNat 7)]
    let list : Value := .list [.ofNat 7, .ofNat 3]
    let record : Value := .record [("power_window", .ofNat 3), ("version", .ofNat 7)]
    let read (v : Value) := (ofText (v.text .compact)).result
    (∃ s, more.Gives s ∧ Repairs s (read more)) ∧ read twice = standard ∧
      read more = read window ∧ read list = read record := by
  intro window more twice list record read
  have hdocument : ∀ v ∈ [window, more, twice, list, record],
      IsDocument (v.text .compact) v := by
    have hplain : ∀ v ∈ [window, more, twice, list, record], v.IsPlain := by
      have hlist : list.IsPlain := .list (by simp [Value.ofNat_isPlain])
      have hnull : (Value.list [.null]).IsPlain := .list (by simp [Value.IsPlain.null])
      have hrecord : ∀ members : List (String × Value), (∀ m ∈ members, m.2.IsPlain) →
          (Value.record members).IsPlain := fun _ => Value.record_isPlain
      simp [window, more, twice, record, hlist, hnull, hrecord, Value.ofNat_isPlain]
    intro v hv
    exact (hplain v hv).isDocument Layout.compact_isBlank
  rcases ofText_meaning with ⟨hsettings, hothers, hmembers, hlists⟩
  refine ⟨?_, ?_, ?_, ?_⟩
  · exact hsettings _ more (hdocument more (by simp)) (isSome_ofJson?_iff.mp (by decide +kernel))
  · apply hothers
    intro v hv
    obtain rfl := hv.unique (hdocument twice (by simp))
    rw [← isSome_ofJson?_iff]
    decide +kernel
  · apply hmembers _ _ _ _ (hdocument more (by simp)) (hdocument window (by simp))
      (record_hasShape _) (record_hasShape _)
    simp [known, names, glyphsOf]
  · apply hlists _ _ _ _ (hdocument list (by simp)) (hdocument record (by simp)) (by decide)
      (record_hasShape _)
    simpa [known, names, glyphsOf] using List.Perm.swap _ _ []

example : (ofText "\x7b \"power\\u005fwindow\" : 3\n\x7d".toList).result.powerWindow = 3 := by
  decide +kernel

end Settings

end PowerCurve
