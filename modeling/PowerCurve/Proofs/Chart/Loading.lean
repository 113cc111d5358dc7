import PowerCurve.Plot
import PowerCurve.Proofs.Chart.Extremes
import PowerCurve.Proofs.SessionLog.Grammar
import PowerCurve.Proofs.SessionLog.Layout

/-!
# Which files can be shown

A file that is read leads to one of four ends (`Plot.Course`): it is no log, its session has no
events, its session has no readings, or there is a plot. Which of them it is can be told from the two
counts in the preamble of the log, and only a plot is announced (`Plot.ofFile_classifies`).
-/

namespace PowerCurve

open PowerCurve.SessionLog PowerCurve.Text

/-! ## The notice of a plot -/

/-- No notice of the parser begins like that of a session which is ready to be shown. -/
theorem head?_text_of_parse {window : Nat} (hw : 0 < window) (lines : List Line) :
    ∀ notice ∈ (parse window ⟨lines, none⟩).notices, notice.text.toList.head? ≠ some 'L' := by
  have hopening (p : Preamble) : (preambleNotice p).text.toList.head? = some 'P' :=
    head?_toList_append (head?_toList_append (head?_toList_append (head?_toList_append
      (head?_toList_append (head?_toList_append rfl)))))
  have hignored (n : Nat) : (Notice.linesIgnored n).text.toList.head? = some 'I' :=
    head?_toList_append (head?_toList_append rfl)
  have hsummary (m n : Nat) : (Notice.logParsed m n).text.toList.head? = some 'P' :=
    head?_toList_append (head?_toList_append (head?_toList_append (head?_toList_append rfl)))
  have hcourse := parse_course hw lines
  generalize parse window ⟨lines, none⟩ = noted at hcourse ⊢
  cases hcourse with
  | preambleMisfit hk hfirst => nofun
  | bodyMisfit hlines hfront hpart hfirst =>
    rw [List.forall_mem_singleton, hopening]
    nofun
  | session hlines hfront hlength hback hlength' =>
    rw [List.forall_mem_cons, parsedNotices, List.forall_mem_append, List.forall_mem_singleton,
      hopening, hsummary]
    refine ⟨nofun, ?_, nofun⟩
    split
    · nofun
    · rw [List.forall_mem_singleton, hignored]
      nofun

/-- A notice of level `info` that begins as one of a session which is ready to be shown. -/
def Notice.AnnouncesPlot (notice : Notice) : Prop :=
  notice.level = .info ∧ "Loaded ".toList <+: notice.text.toList

theorem prefix_toList_append {front : List Char} {text rest : String} (h : front <+: text.toList) :
    front <+: (text ++ rest).toList := by
  rw [String.toList_append]
  exact h.trans (List.prefix_append _ _)

theorem announcesPlot_sessionLoaded (title : String) (events readings : Nat) (bounds : Bounds) :
    (Notice.sessionLoaded title events readings bounds).AnnouncesPlot := by
  have hfront : "Loaded ".toList <+: "Loaded ".toList := List.prefix_refl _
  exact ⟨rfl, prefix_toList_append (prefix_toList_append (prefix_toList_append
    (prefix_toList_append (prefix_toList_append (prefix_toList_append
      (prefix_toList_append (prefix_toList_append hfront)))))))⟩

theorem not_announcesPlot_of_parse {window : Nat} (hw : 0 < window) (content : Bytes) :
    ∀ notice ∈ (parse window (.ofBytes content)).notices, ¬ notice.AnnouncesPlot := by
  rintro notice hmem ⟨-, hprefix⟩
  rw [Source.ofBytes_eq] at hmem
  rcases hprefix with ⟨rest, htext⟩
  apply head?_text_of_parse hw _ notice hmem
  rw [← htext]
  rfl

/-! ## What becomes of a file -/

/-- What becomes of a file whose content has been parsed. -/
inductive Plot.Course (path : Path) (parsed : Noted (Except LogError Session)) :
    Noted (Except RunError Plot) → Prop
  /-- The content is no log. -/
  | unparsed {error : LogError} (h : parsed.result = .error error) :
      Course path parsed ⟨parsed.notices, .error (.unparsed path error)⟩
  /-- The session has no events. -/
  | noEvents {s : Session} (h : parsed.result = .ok s) (hevents : s.events = []) :
      Course path parsed ⟨parsed.notices, .error (.empty noEvents)⟩
  /-- The session has events and no readings. -/
  | noReadings {s : Session} (h : parsed.result = .ok s) (hevents : s.events ≠ [])
      (hreadings : s.readings = []) :
      Course path parsed ⟨parsed.notices, .error (.empty noReadings)⟩
  /-- The session has extremes. -/
  | plot {s : Session} {bounds : Bounds} (h : parsed.result = .ok s) (hevents : s.events ≠ [])
      (hreadings : s.readings ≠ []) (hbounds : Bounds.ofSession s = .ok bounds) :
      Course path parsed
        ⟨parsed.notices ++
            [.sessionLoaded path.display s.events.length s.readings.length bounds],
          .ok ⟨path, path.display, s, bounds⟩⟩

theorem Session.ofFile_of_lookup {tree : FileTree} {path : Path} {content : Bytes}
    (h : tree.lookup path = .ok (.file content)) (window : Nat) :
    Session.ofFile tree path window =
      ⟨(parse window (.ofBytes content)).notices,
        (parse window (.ofBytes content)).result.mapError (.unparsed path)⟩ := by
  rw [Session.ofFile, h]
  rfl

theorem Plot.ofFile_course {tree : FileTree} {path : Path} {content : Bytes}
    (h : tree.lookup path = .ok (.file content)) (window : Nat) :
    Course path (parse window (.ofBytes content)) (Plot.ofFile tree path window) := by
  rw [Plot.ofFile, Session.ofFile_of_lookup h]
  cases hparsed : (parse window (.ofBytes content)).result with
  | error error => exact .unparsed hparsed
  | ok s =>
    by_cases hevents : s.events = []
    · simp only [Except.mapError, Bounds.ofSession_of_noEvents hevents]
      exact .noEvents hparsed hevents
    · by_cases hreadings : s.readings = []
      · simp only [Except.mapError, Bounds.ofSession_of_noReadings hevents hreadings]
        exact .noReadings hparsed hevents hreadings
      · rcases Bounds.exists_ofSession hevents hreadings with ⟨bounds, hbounds, -⟩
        simp only [Except.mapError, hbounds]
        exact .plot hparsed hevents hreadings hbounds

section

variable {path : Path} {parsed : Noted (Except LogError Session)}
  {opened : Noted (Except RunError Plot)} (h : Plot.Course path parsed opened)

include h

theorem Plot.Course.exists_plot_iff :
    (∃ plot, opened.result = .ok plot) ↔
      ∃ s, parsed.result = .ok s ∧ s.events ≠ [] ∧ s.readings ≠ [] := by
  cases h with
  | unparsed h => simp [h]
  | noEvents h hevents => simp [h, hevents]
  | noReadings h hevents hreadings => simp [h, hreadings]
  | plot h hevents hreadings => simp [h, hevents, hreadings]

theorem Plot.Course.noEvents_iff :
    opened.result = .error (.empty PowerCurve.noEvents) ↔
      ∃ s, parsed.result = .ok s ∧ s.events = [] := by
  have hdistinct : PowerCurve.noReadings ≠ PowerCurve.noEvents := by decide
  cases h with
  | unparsed h => simp [h]
  | noEvents h hevents => simp [h, hevents]
  | noReadings h hevents hreadings => simp [h, hevents, hdistinct]
  | plot h hevents hreadings => simp [h, hevents]

theorem Plot.Course.noReadings_iff :
    opened.result = .error (.empty PowerCurve.noReadings) ↔
      ∃ s, parsed.result = .ok s ∧ s.events ≠ [] ∧ s.readings = [] := by
  have hdistinct : PowerCurve.noEvents ≠ PowerCurve.noReadings := by decide
  cases h with
  | unparsed h => simp [h]
  | noEvents h hevents => simp [h, hevents, hdistinct]
  | noReadings h hevents hreadings => simp [h, hevents, hreadings]
  | plot h hevents hreadings => simp [h, hreadings]

theorem Plot.Course.unparsed_iff (error : LogError) :
    opened.result = .error (.unparsed path error) ↔ parsed.result = .error error := by
  cases h with
  | unparsed h => simp [h]
  | noEvents h hevents => simp [h]
  | noReadings h hevents hreadings => simp [h]
  | plot h hevents hreadings => simp [h]

/-- A plot is of the session that was parsed, and it is announced. -/
theorem Plot.Course.of_plot {plot : Plot} (hplot : opened.result = .ok plot) :
    parsed.result = .ok plot.session ∧
      .sessionLoaded path.display plot.session.events.length plot.session.readings.length
        plot.bounds ∈ opened.notices := by
  cases h with
  | plot h hevents hreadings =>
    obtain rfl := Except.ok.inj hplot
    exact ⟨h, List.mem_append_right _ (List.mem_singleton_self _)⟩
  | _ => cases hplot

/-- Nothing but a plot is announced. -/
theorem Plot.Course.announced_iff
    (hsilent : ∀ notice ∈ parsed.notices, ¬ notice.AnnouncesPlot) :
    (∃ notice ∈ opened.notices, notice.AnnouncesPlot) ↔ ∃ plot, opened.result = .ok plot := by
  constructor
  · rintro ⟨notice, hmem, hsays⟩
    cases h with
    | plot h hevents hreadings => exact ⟨_, rfl⟩
    | _ => exact absurd hsays (hsilent notice hmem)
  · rintro ⟨plot, hplot⟩
    exact ⟨_, (h.of_plot hplot).2, announcesPlot_sessionLoaded _ _ _ _⟩

end

/-- Whether a session that is parsed has events and readings can be told from its preamble. -/
theorem isEmpty_iff_of_parse {window : Nat} (hw : 0 < window) {content : Bytes} {s : Session}
    (h : (parse window (.ofBytes content)).result = .ok s) :
    (s.events = [] ↔ s.preamble.eventCount.toNat = 0) ∧
      (s.readings = [] ↔ s.preamble.sampleCount.toNat = 0) := by
  rw [Source.ofBytes_eq] at h
  rcases lengths_of_parse hw h with ⟨hrate, hevents, hreadings⟩
  rw [← List.length_eq_zero_iff, ← List.length_eq_zero_iff, hevents, hreadings,
    rowCount_eq_zero_iff hrate]
  exact ⟨.rfl, .rfl⟩

/-- **The counts in its preamble tell what becomes of a file.** There is a plot if and only if the
content is a log that announces events and samples; it shows the session that is loaded from the file.
That there are no events is noticed before there being no readings, and what is no log is refused for
the reason that the parser gives. Only a plot is announced. -/
theorem Plot.ofFile_classifies {tree : FileTree} {path : Path} {content : Bytes} {window : Nat}
    (hfile : tree.lookup path = .ok (.file content)) (hw : 0 < window) :
    let parsed := (parse window (.ofBytes content)).result
    let opened := Plot.ofFile tree path window
    ((∃ plot, opened.result = .ok plot) ↔ ∃ s, parsed = .ok s ∧
      0 < s.preamble.eventCount.toNat ∧ 0 < s.preamble.sampleCount.toNat) ∧
    (opened.result = .error (.empty ⟨"timestamps"⟩) ↔ ∃ s, parsed = .ok s ∧
      s.preamble.eventCount.toNat = 0) ∧
    (opened.result = .error (.empty ⟨"readings"⟩) ↔ ∃ s, parsed = .ok s ∧
      0 < s.preamble.eventCount.toNat ∧ s.preamble.sampleCount.toNat = 0) ∧
    (∀ error, opened.result = .error (.unparsed path error) ↔ parsed = .error error) ∧
    (∀ plot, opened.result = .ok plot →
      (Session.ofFile tree path window).result = .ok plot.session ∧
      .sessionLoaded path.display plot.session.events.length plot.session.readings.length
        plot.bounds ∈ opened.notices) ∧
    ((∃ notice ∈ opened.notices, notice.AnnouncesPlot) ↔ ∃ plot, opened.result = .ok plot) := by
  intro parsed opened
  have hcourse : Plot.Course path (parse window (.ofBytes content)) opened :=
    Plot.ofFile_course hfile window
  have hcounts : ∀ s, parsed = .ok s →
      (s.events = [] ↔ s.preamble.eventCount.toNat = 0) ∧
      (s.readings = [] ↔ s.preamble.sampleCount.toNat = 0) := fun s => isEmpty_iff_of_parse hw
  refine ⟨?_, ?_, ?_, hcourse.unparsed_iff, ?_, hcourse.announced_iff
    (not_announcesPlot_of_parse hw content)⟩
  · refine hcourse.exists_plot_iff.trans (exists_congr fun s => and_congr_right fun hs => ?_)
    rw [ne_eq, ne_eq, (hcounts s hs).1, (hcounts s hs).2, Nat.pos_iff_ne_zero, Nat.pos_iff_ne_zero]
  · refine hcourse.noEvents_iff.trans (exists_congr fun s => and_congr_right fun hs => ?_)
    rw [(hcounts s hs).1]
  · refine hcourse.noReadings_iff.trans (exists_congr fun s => and_congr_right fun hs => ?_)
    rw [ne_eq, (hcounts s hs).1, (hcounts s hs).2, Nat.pos_iff_ne_zero]
  · intro plot hplot
    rcases hcourse.of_plot hplot with ⟨hsession, hannounced⟩
    refine ⟨?_, hannounced⟩
    rw [Session.ofFile_of_lookup hfile, hsession]
    rfl

/-- A log with an event and no samples, and one with neither. -/
theorem Plot.ofFile_classifies_noSamples :
    let path := Path.ofString "f"
    let one : Bytes := Utf8.encode "a\n:0\n:\n:1\n:1\n:1\n:0\n\n0|e\n\n".toList
    let none : Bytes := Utf8.encode "a\n:0\n:\n:1\n:1\n:0\n:0\n\n\n".toList
    (Plot.ofFile ⟨[(path, .file one)], []⟩ path 6).result = .error (.empty ⟨"readings"⟩) ∧
      (Plot.ofFile ⟨[(path, .file none)], []⟩ path 6).result = .error (.empty ⟨"timestamps"⟩) := by
  intro path one none
  have hone : (⟨[(path, .file one)], []⟩ : FileTree).lookup path = .ok (.file one) := by rfl
  have hnone : (⟨[(path, .file none)], []⟩ : FileTree).lookup path = .ok (.file none) := by rfl
  have classified := Plot.ofFile_classifies hone (show 0 < 6 by decide)
  have classified' := Plot.ofFile_classifies hnone (show 0 < 6 by decide)
  exact ⟨classified.2.2.1.mpr ⟨_, by rfl, by decide, by decide⟩,
    classified'.2.1.mpr ⟨_, by rfl, by decide⟩⟩

end PowerCurve
