import PowerCurve.Proofs.CommandLine.Notices
import PowerCurve.Proofs.CommandLine.Unambiguous
import PowerCurve.Proofs.Settings.FirstRun

/-!
# The two commands agree

Where no window can be opened, `plot` and `dump` come to the same verdict on a file: either both
have the session and its extremes, or both miss a series, or both fail with the same error
(`dump_agrees_with_plot`).
-/

namespace PowerCurve

open PowerCurve.Json PowerCurve.Text

/-! ## How a run ends -/

/-- No window can be opened. -/
def Display.IsMissing (display : Display) : Prop :=
  ∀ window chart, ∃ reason, display window chart = some reason

/-- The run fails, and this is the only error in its notices. -/
def Outcome.FailsWith (o : Outcome) (cause : RunError) : Prop :=
  o.status = failureStatus ∧
    o.notices.filter (fun notice => notice.level = .error) = [.runFailed cause]

/-- The run prints a session with its extremes. -/
def Outcome.PrintsBounds (o : Outcome) (s : Session) (bounds : Bounds) : Prop :=
  o.status = 0 ∧ o.output = (dumpJson s (some bounds)).indented ++ "\n"

/-- The run prints a session without extremes. -/
def Outcome.PrintsNoBounds (o : Outcome) (s : Session) : Prop :=
  o.status = 0 ∧ o.output = (dumpJson s none).indented ++ "\n"

theorem Outcome.FailsWith.unique {o : Outcome} {cause cause' : RunError} (h : o.FailsWith cause)
    (h' : o.FailsWith cause') : cause = cause' := by
  have heq : [Notice.runFailed cause] = [.runFailed cause'] := h.2.symm.trans h'.2
  simpa using heq

/-- In the log of a run that fails there is one error, in which nothing can steer a terminal. -/
theorem Outcome.FailsWith.log {o : Outcome} {cause : RunError} (h : o.FailsWith cause) :
    o.log.filter (fun notice => notice.level = .error) =
      [⟨.error, String.ofList (inert cause.text.toList)⟩] := by
  have hlevel : (fun notice : ShownNotice => decide (notice.level = .error)) ∘ Notice.shown =
      fun notice => decide (notice.level = .error) := rfl
  have hcomponent := List.filter_comm (fun notice : Notice => decide (notice.level = .error))
    (fun notice => decide (notice.component = plotProgram)) o.shown
  have hshown := List.filter_comm (fun notice : Notice => decide (notice.level = .error))
    (fun notice => decide (notice.level ≠ .debug)) o.notices
  rw [Outcome.log, List.filter_map, hlevel, hcomponent, Outcome.shown, hshown, h.2]
  rfl

/-- Whether extremes are printed can be seen from the output. -/
theorem Outcome.PrintsBounds.not_printsNoBounds {o : Outcome} {s : Session} {bounds : Bounds}
    (h : o.PrintsBounds s bounds) (s' : Session) : ¬ o.PrintsNoBounds s' := by
  intro h'
  have heq := h.2.symm.trans h'.2
  rw [String.append_left_inj] at heq
  cases (indented_dumpJson_eq_iff.mp heq).2

/-! ## One file, two commands -/

/-- What is made of a file does not depend on the rest of the tree. -/
theorem Session.ofFile_congr {tree tree' : FileTree} {path : Path}
    (h : tree.lookup path = tree'.lookup path) (window : Nat) :
    Session.ofFile tree path window = Session.ofFile tree' path window := by
  rw [Session.ofFile, h, Session.ofFile]

/-- The error is that a file is not opened or not parsed. -/
def RunError.IsOfFile (cause : RunError) (path : Path) : Prop :=
  (∃ fault, cause = .unopened path fault) ∨ ∃ error, cause = .unparsed path error

theorem RunError.IsOfFile.status_eq {cause : RunError} {path : Path} (h : cause.IsOfFile path) :
    cause.status = failureStatus := by
  rcases h with ⟨fault, rfl⟩ | ⟨error, rfl⟩ <;> rfl

theorem RunError.not_isOfFile_noWindow (reason : String) (path : Path) :
    ¬ (RunError.noWindow reason).IsOfFile path := by
  rintro (⟨fault, ⟨⟩⟩ | ⟨error, ⟨⟩⟩)

theorem RunError.not_isOfFile_empty (series : EmptySeries) (path : Path) :
    ¬ (RunError.empty series).IsOfFile path := by
  rintro (⟨fault, ⟨⟩⟩ | ⟨error, ⟨⟩⟩)

/-- A file that is not loaded is not opened or not parsed. -/
theorem Session.ofFile_error {tree : FileTree} {path : Path} {window : Nat} {cause : RunError}
    (h : (Session.ofFile tree path window).result = .error cause) : cause.IsOfFile path := by
  rw [Session.ofFile] at h
  split at h
  · next fault _ =>
    cases h
    exact .inl ⟨_, rfl⟩
  · simp only at h
    cases hresult : (SessionLog.parse window (.ofArrivals (Node.script _))).result with
    | ok session =>
      rw [hresult] at h
      cases h
    | error error =>
      rw [hresult] at h
      cases h
      exact .inr ⟨error, rfl⟩

/-- A run whose notices before the last one tell of no error fails with the last one. -/
theorem failsWith_of_notices {notices : List Notice} (h : WithoutErrors notices) {cause : RunError}
    (hstatus : cause.status = failureStatus) (tree : FileTree) :
    Outcome.FailsWith ⟨cause.status, "", "", notices ++ [.runFailed cause], tree⟩ cause :=
  ⟨hstatus, filter_error_append h cause⟩

section

variable (e : Environment) {display : Display} (tree : FileTree) (path dumpName plotName : Path)

/-- The settings that `plot` goes by. -/
def settingsUsed : Settings :=
  (Settings.establish tree e).2.result

/-- What `dump` makes of a file. -/
theorem dump_cases :
    (∃ cause, (Session.ofFile tree path (settingsUsed e tree).powerWindow.toNat).result =
        .error cause ∧
      (dump e tree [dumpName, path]).status = failureStatus ∧
      (dump e tree [dumpName, path]).errors = cause.report) ∨
    (∃ s series, (Session.ofFile tree path (settingsUsed e tree).powerWindow.toNat).result =
        .ok s ∧ Bounds.ofSession s = .error series ∧
      (dump e tree [dumpName, path]).PrintsNoBounds s ∧
      (dump e tree [dumpName, path]).notices.getLast? = some (.seriesEmpty series)) ∨
    (∃ s bounds, (Session.ofFile tree path (settingsUsed e tree).powerWindow.toNat).result =
        .ok s ∧ Bounds.ofSession s = .ok bounds ∧
      (dump e tree [dumpName, path]).PrintsBounds s bounds) := by
  rw [settingsUsed, Settings.establish_result]
  cases hresult : (Session.ofFile tree path
      (Settings.ofEnvironment tree e).result.powerWindow.toNat).result with
  | error cause =>
    refine .inl ⟨cause, rfl, ?_⟩
    simp only [dump, inputPath, hresult]
    exact ⟨trivial, trivial⟩
  | ok s =>
    cases hbounds : Bounds.ofSession s with
    | error series =>
      refine .inr (.inl ⟨s, series, rfl, hbounds, ?_⟩)
      simp only [dump, inputPath, hresult, hbounds, Outcome.PrintsNoBounds, List.getLast?_concat]
      exact ⟨⟨trivial, trivial⟩, trivial⟩
    | ok bounds =>
      refine .inr (.inr ⟨s, bounds, rfl, hbounds, ?_⟩)
      simp only [dump, inputPath, hresult, hbounds, Outcome.PrintsBounds]
      exact ⟨trivial, trivial⟩

variable {e tree path}

theorem plot_of_error {cause : RunError}
    (h : (Session.ofFile (Settings.establish tree e).1 path
      (settingsUsed e tree).powerWindow.toNat).result = .error cause)
    (hstatus : cause.status = failureStatus) :
    (plot e display tree [plotName, path]).FailsWith cause := by
  rw [settingsUsed] at h
  simp only [plot, inputPath, Plot.ofFile, h]
  refine failsWith_of_notices ?_ hstatus _
  exact (Settings.establish_withoutErrors tree e).append (Session.ofFile_withoutErrors _ _ _)

theorem plot_of_emptySeries {s : Session} {series : EmptySeries}
    (h : (Session.ofFile (Settings.establish tree e).1 path
      (settingsUsed e tree).powerWindow.toNat).result = .ok s)
    (hbounds : Bounds.ofSession s = .error series) :
    (plot e display tree [plotName, path]).FailsWith (.empty series) := by
  rw [settingsUsed] at h
  simp only [plot, inputPath, Plot.ofFile, h, hbounds]
  refine failsWith_of_notices ?_ rfl _
  exact (Settings.establish_withoutErrors tree e).append (Session.ofFile_withoutErrors _ _ _)

theorem plot_of_bounds (hd : display.IsMissing) {s : Session} {bounds : Bounds}
    (h : (Session.ofFile (Settings.establish tree e).1 path
      (settingsUsed e tree).powerWindow.toNat).result = .ok s)
    (hbounds : Bounds.ofSession s = .ok bounds) :
    ∃ reason, (plot e display tree [plotName, path]).FailsWith (.noWindow reason) ∧
      (Plot.ofFile (Settings.establish tree e).1 path
        (settingsUsed e tree).powerWindow.toNat).result =
          .ok ⟨path, path.display, s, bounds⟩ ∧
      display (.ofTitle path.display)
        (Chart.ofSession path.display s bounds (settingsUsed e tree).labelSize) = some reason := by
  rw [settingsUsed] at h
  rcases hd (.ofTitle path.display)
    (Chart.ofSession path.display s bounds (settingsUsed e tree).labelSize) with ⟨reason, hreason⟩
  refine ⟨reason, ?_, ?_, hreason⟩
  · rw [settingsUsed] at hreason
    simp only [plot, inputPath, Plot.ofFile, h, hbounds, hreason]
    refine failsWith_of_notices ?_ rfl _
    have hloaded : WithoutErrors [Notice.sessionLoaded path.display s.events.length
        s.readings.length bounds] := .cons nofun withoutErrors_nil
    exact (Settings.establish_withoutErrors tree e).append
      ((Session.ofFile_withoutErrors _ _ _).append hloaded)
  · simp only [settingsUsed, Plot.ofFile, h, hbounds]

end

theorem RunError.exists_report (cause : RunError) :
    ∃ rest, cause.report = "Error: " ++ cause.text ++ rest :=
  ⟨_, String.append_assoc⟩

/-- **The two commands agree about every file** that the settings of a first run do not replace.
Where no window can be opened, `plot` gets as far as the window if and only if `dump` prints the
session with its extremes, and these are what the window was to show; a series is missing for both
of them, in the same words; or neither has a session, and `dump` reports the error of `plot`. The
log of `plot` spells out what could steer a terminal, the report of `dump` does not. -/
theorem dump_agrees_with_plot (e : Environment) {display : Display} (hd : display.IsMissing)
    {tree : FileTree} {path : Path} {content : Bytes}
    (hfile : tree.lookup path = .ok (.file content))
    (hkept : ∀ location, tree.resolve path = .ok location →
      ¬ Settings.Overwrites tree e location) (dumpName plotName : Path) :
    let printed := dump e tree [dumpName, path]
    let shown := plot e display tree [plotName, path]
    ((∃ s bounds, printed.PrintsBounds s bounds) ↔
      ∃ reason, shown.FailsWith (.noWindow reason)) ∧
    (∀ reason, shown.FailsWith (.noWindow reason) → ∃ s bounds,
      printed.PrintsBounds s bounds ∧
      (Plot.ofFile (Settings.establish tree e).1 path
        (settingsUsed e tree).powerWindow.toNat).result =
          .ok ⟨path, path.display, s, bounds⟩ ∧
      display (.ofTitle path.display)
        (Chart.ofSession path.display s bounds (settingsUsed e tree).labelSize) = some reason) ∧
    ((∃ s, printed.PrintsNoBounds s) ↔ ∃ series, shown.FailsWith (.empty series)) ∧
    (∀ series, shown.FailsWith (.empty series) → ∃ warning,
      printed.notices.getLast? = some warning ∧ warning.level = .warn ∧
      warning.text = (Notice.runFailed (.empty series)).text) ∧
    (printed.status = 1 ↔ ∃ cause, shown.FailsWith cause ∧ cause.IsOfFile path) ∧
    (∀ cause, printed.status = 1 → shown.FailsWith cause →
      let text := (Notice.runFailed cause).text
      (∃ rest, printed.errors = "Error: " ++ text ++ rest) ∧
      shown.log.filter (fun notice => notice.level = .error) =
        [⟨.error, String.ofList (inert text.toList)⟩] ∧
      ((∀ c ∈ text.toList, ¬ isSteering c ∧ ¬ isHighControl c) →
        String.ofList (inert text.toList) = text)) := by
  intro printed shown
  have hlookup := Settings.lookup_establish hfile hkept
  have hsame := Session.ofFile_congr (hlookup.trans hfile.symm)
    (settingsUsed e tree).powerWindow.toNat
  rcases dump_cases e tree path dumpName with ⟨cause, hresult, hstatus, herrors⟩ |
    ⟨s, series, hresult, hbounds, hprinted, hwarning⟩ | ⟨s, bounds, hresult, hbounds, hprinted⟩
  · -- neither command has a session
    rw [← hsame] at hresult
    have hcause := Session.ofFile_error hresult
    have hshown : shown.FailsWith cause := plot_of_error plotName hresult hcause.status_eq
    have hprinted : printed.status ≠ 0 := by
      rw [hstatus]
      nofun
    have hwindow : ∀ reason, ¬ shown.FailsWith (.noWindow reason) := by
      intro reason h
      obtain rfl := h.unique hshown
      exact RunError.not_isOfFile_noWindow reason path hcause
    have hempty : ∀ series, ¬ shown.FailsWith (.empty series) := by
      intro series h
      obtain rfl := h.unique hshown
      exact RunError.not_isOfFile_empty series path hcause
    refine ⟨?_, ?_, ?_, ?_, iff_of_true hstatus ⟨cause, hshown, hcause⟩, ?_⟩
    · exact iff_of_false (fun ⟨s, bounds, h⟩ => hprinted h.1) (fun ⟨reason, h⟩ => hwindow reason h)
    · intro reason h
      exact absurd h (hwindow reason)
    · exact iff_of_false (fun ⟨s, h⟩ => hprinted h.1) (fun ⟨series, h⟩ => hempty series h)
    · intro series h
      exact absurd h (hempty series)
    · intro cause' _ h
      obtain rfl := h.unique hshown
      rw [herrors]
      refine ⟨cause'.exists_report, h.log, ?_⟩
      intro hplain
      rw [inert_eq_self hplain, String.ofList_toList]
  · -- a series is empty
    rw [← hsame] at hresult
    have hshown : shown.FailsWith (.empty series) := plot_of_emptySeries plotName hresult hbounds
    have hstatus : printed.status ≠ 1 := by
      rw [hprinted.1]
      nofun
    have hwindow : ∀ reason, ¬ shown.FailsWith (.noWindow reason) := by
      intro reason h
      cases h.unique hshown
    refine ⟨?_, ?_, iff_of_true ⟨s, hprinted⟩ ⟨series, hshown⟩, ?_, ?_, ?_⟩
    · exact iff_of_false (fun ⟨s', bounds, h⟩ => h.not_printsNoBounds s hprinted)
        (fun ⟨reason, h⟩ => hwindow reason h)
    · intro reason h
      exact absurd h (hwindow reason)
    · intro series' h
      obtain rfl := RunError.empty.inj (h.unique hshown)
      exact ⟨_, hwarning, rfl, rfl⟩
    · refine iff_of_false hstatus ?_
      rintro ⟨cause, h, hcause⟩
      obtain rfl := h.unique hshown
      exact RunError.not_isOfFile_empty series path hcause
    · intro cause h
      exact absurd h hstatus
  · -- there is a session, and it has extremes
    rw [← hsame] at hresult
    rcases plot_of_bounds plotName hd hresult hbounds with ⟨reason, hshown, hloaded, hreason⟩
    have hstatus : printed.status ≠ 1 := by
      rw [hprinted.1]
      nofun
    have hempty : ∀ series, ¬ shown.FailsWith (.empty series) := by
      intro series h
      cases h.unique hshown
    refine ⟨iff_of_true ⟨s, bounds, hprinted⟩ ⟨reason, hshown⟩, ?_, ?_, ?_, ?_, ?_⟩
    · intro reason' h
      obtain rfl := RunError.noWindow.inj (h.unique hshown)
      exact ⟨s, bounds, hprinted, hloaded, hreason⟩
    · exact iff_of_false (fun ⟨s', h⟩ => hprinted.not_printsNoBounds s' h)
        (fun ⟨series, h⟩ => hempty series h)
    · intro series h
      exact absurd h (hempty series)
    · refine iff_of_false hstatus ?_
      rintro ⟨cause, h, hcause⟩
      obtain rfl := h.unique hshown
      exact RunError.not_isOfFile_noWindow reason path hcause
    · intro cause h
      exact absurd h hstatus

/-- A log of one event and one row, with a configuration directory that is still missing: `plot`
writes the settings out and gets as far as the window. -/
theorem dump_agrees_with_plot_oneRow :
    let e : Environment := ⟨some (Path.ofString "/c"), none⟩
    let tree : FileTree := ⟨[(Path.ofString "f", .file (Utf8.encode
      "a\n:0\n:\n:1\n:1\n:1\n:1\n\n0|e\n\n1,2,3,4,5,6\n".toList))], []⟩
    let display : Display := fun _ _ => some "no display"
    (plot e display tree [[], Path.ofString "f"]).FailsWith (.noWindow "no display") ∧
      ∃ s bounds, (dump e tree [[], Path.ofString "f"]).PrintsBounds s bounds := by
  intro e tree display
  have hd : display.IsMissing := fun _ _ => ⟨"no display", rfl⟩
  have hfile : tree.lookup (Path.ofString "f") = .ok (.file (Utf8.encode
      "a\n:0\n:\n:1\n:1\n:1\n:1\n\n0|e\n\n1,2,3,4,5,6\n".toList)) := by rfl
  have hkept : ∀ location, tree.resolve (Path.ofString "f") = .ok location →
      ¬ Settings.Overwrites tree e location := by
    intro location hresolve
    have hlocation : tree.resolve (Path.ofString "f") = .ok [Path.ofString "f"] := by rfl
    obtain rfl := Except.ok.inj (hlocation.symm.trans hresolve)
    apply Settings.not_overwrites_of_noParent
    · rintro path ⟨⟩
      decide
    · decide
  have hshown : (plot e display tree [[], Path.ofString "f"]).FailsWith (.noWindow "no display") :=
    ⟨by rfl, by rfl⟩
  have hagree := dump_agrees_with_plot e hd hfile hkept [] []
  exact ⟨hshown, hagree.1.mpr ⟨"no display", hshown⟩⟩

/-- **Two things keep the commands from agreeing in every word about every file.** An error that
quotes an escape character is reported as it is and logged with the character spelled out. And if
the path of the settings file leads back with `..` from a missing directory, the settings that are
written out may replace the very file that is to be shown. -/
theorem dump_differs_from_plot :
    let display : Display := fun _ _ => some "no display"
    (let e : Environment := ⟨none, none⟩
      let tree : FileTree := ⟨[(Path.ofString "f", .file [0x0A, 0x3A, 0x1B])], []⟩
      (dump e tree [[], Path.ofString "f"]).status = 1 ∧
      ∃ text, (plot e display tree [[], Path.ofString "f"]).log = [⟨.error, text⟩] ∧
        ¬ ∃ rest, (dump e tree [[], Path.ofString "f"]).errors = "Error: " ++ text ++ rest) ∧
    (let e : Environment := ⟨some (Path.ofString "/m/.."), none⟩
      let path := Path.ofString "/powerplot/settings.json"
      let content := Utf8.encode "\n:0\n:\n:1\n:1\n:0\n:0\n\n\n".toList
      let tree : FileTree := ⟨[(Path.ofString "powerplot",
        .directory [(Path.ofString "settings.json", .file content)])], []⟩
      tree.lookup path = .ok (.file content) ∧
      (dump e tree [[], path]).status = 0 ∧
      ∃ error, (plot e display tree [[], path]).FailsWith (.unparsed path error)) := by
  intro display
  refine ⟨?_, by rfl, by rfl, _, by rfl, by rfl⟩
  intro e tree
  let logged := "failed to parse 'f': line 2 (Preamble): start time must be a real number, " ++
    "found `\\x1b`"
  have hlog : (plot e display tree [[], Path.ofString "f"]).log = [⟨.error, logged⟩] := by rfl
  refine ⟨by rfl, logged, hlog, ?_⟩
  rintro ⟨rest, heq⟩
  -- the report would begin with the backslash that stands for the escape character
  have hprefix : ("Error: " ++ logged).toList <+:
      (dump e tree [[], Path.ofString "f"]).errors.toList := by
    rw [heq]
    simp only [String.toList_append, List.prefix_append]
  exact absurd hprefix (by decide +kernel)

end PowerCurve
