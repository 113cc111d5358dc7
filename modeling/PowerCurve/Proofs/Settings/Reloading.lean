import PowerCurve.Proofs.Settings.Usable

/-!
# Saving and reading back

Settings that can be used are read back from either of their texts as they were, so repairing a text
twice changes nothing more (`ofText_toJson`). One thing is taken on trust: that the number which is
printed for the size of the font reads back as that size (`KeepsFloat32`).

Of settings that cannot be used, a saved file keeps all that can be, unless the size of the font is
no finite number. There is no notation for such a size, and then the whole file counts for nothing
(`ofFile_writeTo`, `writeTo_losesAll`).
-/

namespace PowerCurve

open PowerCurve.Json PowerCurve.Text

/-- The number that is printed for `x` reads back as `x`. -/
def Json.KeepsFloat32 (x : Float32) : Prop :=
  (Value.ofFloat32 x).IsFloat32 x

namespace Settings

theorem ofText_text_of_isUsable {layout : Layout} (hlayout : layout.IsBlank) {s : Settings}
    (husable : s.IsUsable) (hkeeps : KeepsFloat32 s.labelSize) :
    (ofText (s.toJson.text layout)).result = s := by
  rw [ofText_text hlayout (labelSize?_eq_some_iff.mpr hkeeps), husable.repaired_eq]

/-- **Saving and reading back loses nothing.** Settings that can be used are read back from their
indented and from their compact text, and what is read from any text is read back in turn. -/
theorem ofText_toJson :
    (∀ s : Settings, s.IsUsable → KeepsFloat32 s.labelSize →
      (ofText (s.toJson.text .indented)).result = s ∧
      (ofText (s.toJson.text .compact)).result = s) ∧
    ∀ text, KeepsFloat32 (ofText text).result.labelSize →
      (ofText ((ofText text).result.toJson.text .indented)).result = (ofText text).result := by
  refine ⟨?_, ?_⟩
  · intro s husable hkeeps
    exact ⟨ofText_text_of_isUsable Layout.indented_isBlank husable hkeeps,
      ofText_text_of_isUsable Layout.compact_isBlank husable hkeeps⟩
  · intro text hkeeps
    exact ofText_text_of_isUsable Layout.indented_isBlank (ofText_isUsable text) hkeeps

/-- The largest version and window are read back next to the smallest size, and so is what is read
from a text with a window of zero. -/
theorem ofText_toJson_extremes :
    let s : Settings := ⟨4294967295, 18446744073709551615, Float32.ofBits 1⟩
    let text := "\x7b\"power_window\":0,\"label_font_size\":0.1\x7d".toList
    (ofText (s.toJson.text .indented)).result = s ∧
      (ofText (s.toJson.text .compact)).result = s ∧
      (ofText ((ofText text).result.toJson.text .indented)).result = (ofText text).result := by
  intro s text
  have hsmallest : KeepsFloat32 s.labelSize := labelSize?_eq_some_iff.mp (by decide +kernel)
  have husable : s.IsUsable := ⟨by decide, by decide +kernel, by decide +kernel⟩
  have htenth : KeepsFloat32 (ofText text).result.labelSize :=
    labelSize?_eq_some_iff.mp (by decide +kernel)
  rcases ofText_toJson with ⟨hsettings, htexts⟩
  exact ⟨(hsettings s husable hsmallest).1, (hsettings s husable hsmallest).2, htexts text htenth⟩

/-! ## Settings that cannot be used -/

theorem contentAt_of_writeTo {s : Settings} {tree after : FileTree} {path : Path}
    (h : writeTo s tree path = (after, .ok ())) : after.contentAt path = .ok s.fileContent := by
  rcases writeTo_cases s tree path with ⟨-, hwrite⟩ | ⟨⟨cause, herror⟩, -⟩
  · rw [h] at hwrite
    exact FileTree.contentAt_of_writeAt hwrite
  · rw [h] at herror
    cases herror

theorem ofFile_of_writeTo {s : Settings} {tree after : FileTree} {path : Path}
    (h : writeTo s tree path = (after, .ok ())) :
    ofFile after path = ofText (s.toJson.text .indented) :=
  ofFile_of_contentAt (contentAt_of_writeTo h)

/-- A size that has no notation is no size to the reader. -/
theorem ofText_of_not_isFinite {layout : Layout} (hlayout : layout.IsBlank) {s : Settings}
    (h : s.labelSize.isFinite = false) : (ofText (s.toJson.text layout)).result = standard := by
  have hsettings : ¬ s.toJson.IsSettings := by
    intro hsettings
    have hgiven : Value.ofFloat32 s.labelSize ∈ s.toJson.given "label_font_size" 2 := by
      rw [(given_toJson s).2.2, List.mem_singleton]
    rcases hsettings.size _ hgiven with ⟨n, hn, -⟩
    rw [Value.ofFloat32_eq_null_iff.mpr h] at hn
    cases hn
  have hnone : ofJson? s.toJson = none := by
    rwa [← Option.not_isSome_iff_eq_none, isSome_ofJson?_iff]
  simp only [ofText, read?_text hlayout (toJson_isPlain s), Option.bind_some, hnone]

/-- **What a saved file keeps.** If the number for the size of the font reads back, each value that
cannot be used is replaced by its default and the others are kept. If the size is not finite,
nothing is kept. -/
theorem ofFile_writeTo {s : Settings} {tree after : FileTree} {path : Path}
    (h : writeTo s tree path = (after, .ok ())) :
    (KeepsFloat32 s.labelSize → Repairs s (ofFile after path).result) ∧
    (s.labelSize.isFinite = false → (ofFile after path).result = standard) := by
  rw [ofFile_of_writeTo h]
  refine ⟨?_, ?_⟩
  · intro hkeeps
    rw [ofText_text Layout.indented_isBlank (labelSize?_eq_some_iff.mpr hkeeps)]
    exact repaired_repairs s
  · intro hinfinite
    exact ofText_of_not_isFinite Layout.indented_isBlank hinfinite

/-- A size below zero costs only the size; one that is no number costs the version and the window
too. -/
theorem ofFile_writeTo_sizes :
    let path := Path.ofString "s.json"
    let saved (size : Float32) := writeTo ⟨7, 3, size⟩ ⟨[], []⟩ path
    Repairs ⟨7, 3, -1.5⟩ (ofFile (saved (-1.5)).1 path).result ∧
      (ofFile (saved (Float32.ofBits 0x7F800000)).1 path).result = standard := by
  intro path saved
  have hsaved (size : Float32) : saved size = ((saved size).1, .ok ()) := by rfl
  have hkeeps : KeepsFloat32 (-1.5) := labelSize?_eq_some_iff.mp (by decide +kernel)
  exact ⟨(ofFile_writeTo (hsaved (-1.5))).1 hkeeps,
    (ofFile_writeTo (hsaved (Float32.ofBits 0x7F800000))).2 (by decide +kernel)⟩

/-- **A size that is no number costs every value**: the version and the window are lost with it. -/
theorem writeTo_losesAll :
    let s : Settings := ⟨7, 3, Float32.ofBits 0x7FC00000⟩
    let path := Path.ofString "s.json"
    let saved := writeTo s ⟨[], []⟩ path
    saved.2 = .ok () ∧ (ofFile saved.1 path).result = standard ∧
      ¬ Repairs s (ofFile saved.1 path).result := by
  intro s path saved
  have hsaved : saved = (saved.1, .ok ()) := by rfl
  have hresult : (ofFile saved.1 path).result = standard := by
    rw [ofFile_of_writeTo hsaved]
    exact ofText_of_not_isFinite Layout.indented_isBlank (by decide +kernel)
  refine ⟨by rfl, hresult, ?_⟩
  intro hrepairs
  rw [hresult] at hrepairs
  exact absurd hrepairs.version (by decide)

end Settings

end PowerCurve
