import PowerCurve.Plot
import PowerCurve.Proofs.SessionLog.Plan
import PowerCurve.Proofs.Settings.LaterRuns

/-!
# Settings are usable

Whatever stands where the settings are kept, and by whichever of the four routes they are loaded
(`Loads`), the power window is not empty and labels can be written (`loads_usable`). So no log is ever
refused for an empty window. The window is the one that the settings file gives, if the file holds
settings and the window in them is not zero (`GivesWindow`), and the standard one in every other
case.
-/

namespace PowerCurve

open PowerCurve.Json PowerCurve.Text

/-! ## Windows that are not empty -/

theorem SessionLog.parse_ne_emptyWindow {window : Nat} (hw : 0 < window) (source : Source) :
    (parse window source).result ≠ .error .emptyWindow := by
  rcases source with ⟨lines, fault⟩
  rcases exists_parse_eq_verdict hw lines with ⟨used, rest, outcome, rfl, -, -, hparse⟩
  rw [hparse fault]
  cases outcome <;> cases fault <;> nofun

theorem Session.ofFile_ne_emptyWindow {window : Nat} (hw : 0 < window) (tree : FileTree)
    (log path : Path) :
    (Session.ofFile tree log window).result ≠ .error (.unparsed path .emptyWindow) := by
  rw [ofFile]
  split
  · nofun
  · next node _ =>
    intro h
    simp only at h
    cases hresult : (SessionLog.parse window (.ofArrivals node.script)).result with
    | ok session =>
      rw [hresult] at h
      cases h
    | error error =>
      rw [hresult] at h
      cases h
      exact SessionLog.parse_ne_emptyWindow hw _ hresult

theorem Plot.ofFile_ne_emptyWindow {window : Nat} (hw : 0 < window) (tree : FileTree)
    (log path : Path) :
    (Plot.ofFile tree log window).result ≠ .error (.unparsed path .emptyWindow) := by
  rw [ofFile]
  split
  · next e hresult =>
    intro h
    rw [Except.error.inj h] at hresult
    exact Session.ofFile_ne_emptyWindow hw tree log path hresult
  · split <;> nofun

namespace Settings

/-! ## Repaired settings -/

/-- Nothing in the settings keeps a log from being shown. -/
structure IsUsable (s : Settings) : Prop where
  window : 0 < s.powerWindow.toNat
  finite : s.labelSize.isFinite = true
  positive : 0.0 < s.labelSize

theorem isUsable_of_isUsableSize {s : Settings} (hwindow : s.powerWindow ≠ 0)
    (hsize : isUsableSize s.labelSize = true) : s.IsUsable := by
  rw [isUsableSize, Bool.and_eq_true, decide_eq_true_eq] at hsize
  have hpositive : 0 < s.powerWindow.toNat :=
    Nat.pos_of_ne_zero fun hzero => hwindow (UInt64.toNat_inj.mp hzero)
  exact ⟨hpositive, hsize.1, hsize.2⟩

theorem repaired_powerWindow (s : Settings) :
    s.repaired.powerWindow = if s.powerWindow = 0 then standard.powerWindow else s.powerWindow :=
  rfl

theorem repaired_labelSize (s : Settings) :
    s.repaired.labelSize = if isUsableSize s.labelSize then s.labelSize else standardLabelSize :=
  rfl

/-- **Repaired settings are usable.** -/
theorem repaired_isUsable (s : Settings) : s.repaired.IsUsable := by
  have hstandard : isUsableSize standardLabelSize = true := by decide +kernel
  apply isUsable_of_isUsableSize
  · rw [repaired_powerWindow]
    split
    · decide
    · assumption
  · rw [repaired_labelSize]
    split
    · assumption
    · exact hstandard

theorem standard_isUsable : standard.IsUsable :=
  repaired_isUsable standard

/-- Nothing is to be repaired in settings that can be used. -/
theorem IsUsable.repaired_eq {s : Settings} (h : s.IsUsable) : s.repaired = s := by
  have hwindow : s.powerWindow ≠ 0 := by
    intro hzero
    have hpositive := h.window
    rw [hzero] at hpositive
    exact absurd hpositive (Nat.lt_irrefl 0)
  have hsize : isUsableSize s.labelSize = true := by
    rw [isUsableSize, Bool.and_eq_true, decide_eq_true_eq]
    exact ⟨h.finite, h.positive⟩
  rw [repaired, if_neg hwindow, if_pos hsize]

/-- Each value that cannot be used is replaced by its default, and no other value is touched. -/
structure Repairs (s t : Settings) : Prop where
  version : t.version = s.version
  window : t.powerWindow = if s.powerWindow = 0 then 6 else s.powerWindow
  size : t.labelSize =
    if s.labelSize.isFinite = true ∧ 0.0 < s.labelSize then s.labelSize else 10.0

theorem repaired_repairs (s : Settings) : Repairs s s.repaired where
  version := rfl
  window := repaired_powerWindow s
  size := by
    have hsize : isUsableSize s.labelSize = true ↔
        s.labelSize.isFinite = true ∧ 0.0 < s.labelSize := by
      rw [isUsableSize, Bool.and_eq_true, decide_eq_true_eq]
    simp only [repaired_labelSize, hsize, standardLabelSize]

/-- Whatever a text says, the settings that are read from it can be used. -/
theorem ofText_isUsable (text : List Char) : (ofText text).result.IsUsable := by
  rw [ofText]
  split
  · exact standard_isUsable
  · next s _ => exact repaired_isUsable s

/-! ## Loading -/

/-- The settings file is a document of a JSON value. -/
def Holds (tree : FileTree) (path : Path) (v : Value) : Prop :=
  ∃ text, tree.contentAt path = .ok (Utf8.encode text) ∧ IsDocument text v

theorem Holds.unique {tree : FileTree} {path : Path} {v v' : Value} (h : Holds tree path v)
    (h' : Holds tree path v') : v = v' := by
  rcases h with ⟨text, hcontent, hdocument⟩
  rcases h' with ⟨text', hcontent', hdocument'⟩
  rw [← FileTree.textAt_eq_ok_iff] at hcontent hcontent'
  rw [Except.ok.inj (hcontent.symm.trans hcontent')] at hdocument
  exact hdocument.unique hdocument'

/-- What is read from a file: what it holds, if that is settings, and the defaults otherwise. -/
theorem ofFile_cases (tree : FileTree) (path : Path) :
    (∃ v s, Holds tree path v ∧ ofJson? v = some s ∧
      (ofFile tree path).result = s.repaired) ∨
    ((∀ v, Holds tree path v → ofJson? v = none) ∧ (ofFile tree path).result = standard) := by
  by_cases hheld : ∃ v s, Holds tree path v ∧ ofJson? v = some s
  · rcases hheld with ⟨v, s, ⟨text, hcontent, hdocument⟩, hs⟩
    refine .inl ⟨v, s, ⟨text, hcontent, hdocument⟩, hs, ?_⟩
    simp only [ofFile_of_contentAt hcontent, ofText, read?_eq_some_iff.mpr hdocument,
      Option.bind_some, hs]
  · have hnone : ∀ v, Holds tree path v → ofJson? v = none := by
      intro v hholds
      rw [Option.eq_none_iff_forall_ne_some]
      exact fun s hs => hheld ⟨v, s, hholds, hs⟩
    refine .inr ⟨hnone, ?_⟩
    rw [ofFile]
    split
    · split
      · next text htext =>
        rw [ofText]
        split
        · rfl
        · next s hs =>
          rcases Option.bind_eq_some_iff.mp hs with ⟨v, hread, hv⟩
          have hdocument := read?_eq_some_iff.mp hread
          exact absurd ⟨v, s, ⟨text, FileTree.textAt_eq_ok_iff.mp htext, hdocument⟩, hv⟩ hheld
      · rfl
    · rfl

/-- The settings that the program can come by, with the path of their file if there is one. -/
inductive Loads (tree : FileTree) : Option Path → Settings → Prop
  /-- They are read from a file. -/
  | ofFile (path : Path) : Loads tree (some path) (ofFile tree path).result
  /-- They are read from a file, or written to it on a first run. -/
  | establishAt (path : Path) : Loads tree (some path) (establishAt tree path).2.result
  /-- They are those of the user. -/
  | ofEnvironment (e : Environment) : Loads tree e.settingsFile? (ofEnvironment tree e).result
  /-- They are those of the user, written out on a first run. -/
  | establish (e : Environment) : Loads tree e.settingsFile? (establish tree e).2.result

/-- All routes come to what the file holds, or to the defaults if there is no file. -/
theorem Loads.cases {tree : FileTree} {file : Option Path} {s : Settings} (h : Loads tree file s) :
    (∃ path, file = some path ∧ s = (Settings.ofFile tree path).result) ∨
      file = none ∧ s = standard := by
  have huser : ∀ e : Environment,
      (∃ path, e.settingsFile? = some path ∧
        (Settings.ofEnvironment tree e).result = (Settings.ofFile tree path).result) ∨
      e.settingsFile? = none ∧ (Settings.ofEnvironment tree e).result = standard := by
    intro e
    rw [Settings.ofEnvironment]
    cases e.settingsFile? with
    | none => exact .inr ⟨rfl, rfl⟩
    | some path => exact .inl ⟨path, rfl, rfl⟩
  cases h with
  | ofFile path => exact .inl ⟨path, rfl, rfl⟩
  | establishAt path => exact .inl ⟨path, rfl, establishAt_result tree path⟩
  | ofEnvironment e => exact huser e
  | establish e =>
    rw [establish_result]
    exact huser e

/-- The settings file holds settings in which a power window other than zero is given. -/
def GivesWindow (tree : FileTree) (file : Option Path) (n : Nat) : Prop :=
  ∃ path v given, file = some path ∧ Holds tree path v ∧ v.IsSettings ∧
    v.given "power_window" 1 = [given] ∧ given.IsNatural n ∧ n ≠ 0

/-- The power window that is read from a file is the one that the file gives. -/
theorem ofFile_window (tree : FileTree) (path : Path) :
    (∀ n, GivesWindow tree (some path) n → (ofFile tree path).result.powerWindow.toNat = n) ∧
    ((∀ n, ¬ GivesWindow tree (some path) n) →
      (ofFile tree path).result.powerWindow = standard.powerWindow) := by
  rcases ofFile_cases tree path with ⟨v, s, hholds, hs, hresult⟩ | ⟨hnone, hresult⟩
  · rw [hresult, repaired_powerWindow]
    have hsettings : v.IsSettings := isSome_ofJson?_iff.mp (by rw [hs]; rfl)
    constructor
    · rintro n ⟨path', v', given, hpath, hholds', -, hgiven, hnatural, hn⟩
      obtain rfl := Option.some.inj hpath
      obtain rfl := hholds.unique hholds'
      rcases (ofJson?_eq_some_iff_gives.mp hs).window with ⟨hnone, -⟩ | ⟨given', hgiven', hwindow⟩
      · rw [hgiven] at hnone
        cases hnone
      · obtain rfl : given = given' := by simpa [hgiven] using hgiven'
        obtain rfl := hnatural.unique hwindow
        rw [if_neg]
        rintro hzero
        rw [hzero] at hn
        exact hn rfl
    · intro hgives
      split
      · rfl
      · next hwindow =>
        rcases (ofJson?_eq_some_iff_gives.mp hs).window with ⟨-, hstandard⟩ | ⟨given, hgiven, hnatural⟩
        · exact hstandard
        · have hn : s.powerWindow.toNat ≠ 0 := fun hzero => hwindow (UInt64.toNat_inj.mp hzero)
          exact absurd ⟨path, v, given, rfl, hholds, hsettings, hgiven, hnatural, hn⟩ (hgives _)
  · rw [hresult]
    refine ⟨?_, fun _ => rfl⟩
    rintro n ⟨path', v, given, hpath, hholds, hsettings, -⟩
    obtain rfl := Option.some.inj hpath
    have hsome := isSome_ofJson?_iff.mpr hsettings
    rw [hnone v hholds] at hsome
    cases hsome

/-- **No settings file makes the program unusable.** Whichever way the settings are loaded, they are
usable and no log is refused for an empty window; and the window is the one that the settings file
gives, or the standard one if it gives none other than zero. -/
theorem loads_usable {tree : FileTree} {file : Option Path} {s : Settings}
    (h : Loads tree file s) :
    s.IsUsable ∧
    (∀ tree' log path,
      (Session.ofFile tree' log s.powerWindow.toNat).result ≠
        .error (.unparsed path .emptyWindow) ∧
      (Plot.ofFile tree' log s.powerWindow.toNat).result ≠
        .error (.unparsed path .emptyWindow)) ∧
    (∀ n, GivesWindow tree file n → s.powerWindow.toNat = n) ∧
    ((∀ n, ¬ GivesWindow tree file n) → s.powerWindow.toNat = 6) := by
  have husable : s.IsUsable := by
    rcases h.cases with ⟨path, -, rfl⟩ | ⟨-, rfl⟩
    · rcases ofFile_cases tree path with ⟨v, s, -, -, hresult⟩ | ⟨-, hresult⟩
      · rw [hresult]
        exact repaired_isUsable s
      · rw [hresult]
        exact standard_isUsable
    · exact standard_isUsable
  refine ⟨husable, ?_, ?_⟩
  · intro tree' log path
    exact ⟨Session.ofFile_ne_emptyWindow husable.window tree' log path,
      Plot.ofFile_ne_emptyWindow husable.window tree' log path⟩
  · rcases h.cases with ⟨path, rfl, rfl⟩ | ⟨rfl, rfl⟩
    · rcases ofFile_window tree path with ⟨hgiven, hstandard⟩
      refine ⟨hgiven, fun hnone => ?_⟩
      rw [hstandard hnone]
      rfl
    · refine ⟨?_, fun _ => rfl⟩
      rintro n ⟨path, v, given, ⟨⟩, -⟩

/-- A window of two columns is given next to a size in which no label could be written. -/
theorem loads_usable_twoColumns :
    let v : Value := .record [("power_window", .ofNat 2), ("label_font_size", .ofFloat32 (-1.0))]
    let path := Path.ofString "/c/powerplot/settings.json"
    let e : Environment := ⟨some (Path.ofString "/c"), none⟩
    let holding (content : Bytes) : FileTree :=
      ⟨[(Path.ofString "c", .directory [(Path.ofString "powerplot",
        .directory [(Path.ofString "settings.json", .file content)])])], []⟩
    let tree := holding (Utf8.encode (v.text .compact))
    Loads tree (some path) (establish tree e).2.result ∧
      (establish tree e).2.result.IsUsable ∧
      (establish tree e).2.result.powerWindow.toNat = 2 := by
  intro v path e holding tree
  have hloads : Loads tree (some path) (establish tree e).2.result := .establish e
  have husable := loads_usable hloads
  refine ⟨hloads, husable.1, husable.2.2.1 2 ?_⟩
  have hplain : v.IsPlain := by
    refine Value.record_isPlain ?_
    simp only [List.forall_mem_cons]
    exact ⟨Value.ofNat_isPlain 2, Value.ofFloat32_isPlain _, nofun⟩
  have hcontent : ∀ content, (holding content).contentAt path = .ok content := fun _ => by rfl
  have hholds : Holds tree path v :=
    ⟨_, hcontent (Utf8.encode (v.text .compact)), hplain.isDocument Layout.compact_isBlank⟩
  have hsettings : v.IsSettings := isSome_ofJson?_iff.mp (by decide +kernel)
  have hgiven : v.given "power_window" 1 = [.ofNat 2] := by
    simp [v, Value.record, Value.given, named, glyphsOf]
  exact ⟨path, v, .ofNat 2, rfl, hholds, hsettings, hgiven, ⟨[2], rfl, rfl⟩, by decide⟩

end Settings

end PowerCurve
