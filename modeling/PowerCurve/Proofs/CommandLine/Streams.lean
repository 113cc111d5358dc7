import PowerCurve.Proofs.CommandLine.Agreement

/-!
# What the commands print

A command line that does not name one file is answered with the usage and nothing else. Where no
window can be opened, `plot` prints nothing and its last notice is the one error; `dump` prints one
complete JSON document or nothing, and leaves all files alone (`commands_keep_to_streams`).
-/

namespace PowerCurve

open PowerCurve.Json PowerCurve.Text

/-! ## The document -/

/-- **What is printed of a session is one complete JSON document.** -/
theorem read?_indented_dumpJson (s : Session) (bounds : Option Bounds) :
    read? (dumpJson s bounds).indented.toList = some (dumpJson s bounds) := by
  rw [Value.indented, String.toList_ofList]
  exact read?_text Layout.indented_isBlank (dumpJson_isPlain s bounds)

/-! ## The usage -/

/-- The name of the program in its usage. -/
def programName (args : List Path) : String :=
  (args.head?.map Path.display).getD plotProgram

theorem inputPath_of_length_ne {args : List Path} (h : args.length ≠ 2) :
    inputPath args = .error (.misuse (programName args)) := by
  match args with
  | [] => rfl
  | [program] => rfl
  | [program, path] => exact absurd rfl h
  | _ :: _ :: _ :: _ => rfl

/-- The run that prints the usage of a program. -/
def usageOutcome (name : String) (tree : FileTree) : Outcome :=
  ⟨2, name ++ " <file name>\n", "", [], tree⟩

theorem misuseOutcome_eq (name : String) (tree : FileTree) :
    misuseOutcome tree (.misuse name) = usageOutcome name tree := by
  have hline : " <file name>" ++ "\n" = " <file name>\n" := by decide
  have htext : (RunError.misuse name).text = name ++ " <file name>" := rfl
  rw [misuseOutcome, htext, String.append_assoc, hline]
  rfl

/-! ## Runs of `plot` -/

/-- Why the chart of a log is not shown: it is not loaded, or its window cannot be opened. -/
inductive NotShown (display : Display) (labelSize : Float32) : Except RunError Plot → RunError → Prop
  /-- The log is not loaded. -/
  | load (cause : RunError) : NotShown display labelSize (.error cause) cause
  /-- The window cannot be opened. -/
  | window {l : Plot} {reason : String}
      (h : display (.ofTitle l.title) (Chart.ofSession l.title l.session l.bounds labelSize) =
        some reason) : NotShown display labelSize (.ok l) (.noWindow reason)

theorem Plot.ofFile_withoutErrors (tree : FileTree) (path : Path) (window : Nat) :
    WithoutErrors (Plot.ofFile tree path window).notices := by
  have hloaded := Session.ofFile_withoutErrors tree path window
  rw [Plot.ofFile]
  split
  · exact hloaded
  · split
    · exact hloaded
    · refine hloaded.append (.cons ?_ withoutErrors_nil)
      intro hlevel
      cases hlevel

theorem Plot.status_of_ofFile {tree : FileTree} {path : Path} {window : Nat} {cause : RunError}
    (h : (Plot.ofFile tree path window).result = .error cause) :
    cause.status = failureStatus := by
  rw [Plot.ofFile] at h
  split at h
  · next e hresult =>
    obtain rfl := Except.error.inj h
    exact (Session.ofFile_error hresult).status_eq
  · split at h
    · obtain rfl := Except.error.inj h
      rfl
    · cases h

/-- Where no window can be opened, `plot` fails for a reason, which is its last notice. -/
theorem plot_fails {display : Display} (hd : display.IsMissing) (e : Environment) (tree : FileTree)
    (program path : Path) :
    ∃ cause notices, WithoutErrors notices ∧
      NotShown display (settingsUsed e tree).labelSize
        (Plot.ofFile (Settings.establish tree e).1 path
          (settingsUsed e tree).powerWindow.toNat).result cause ∧
      plot e display tree [program, path] =
        ⟨failureStatus, "", "", notices ++ [.runFailed cause], (Settings.establish tree e).1⟩ := by
  have hnotices : WithoutErrors ((Settings.establish tree e).2.notices ++
      (Plot.ofFile (Settings.establish tree e).1 path
        (settingsUsed e tree).powerWindow.toNat).notices) :=
    (Settings.establish_withoutErrors tree e).append (Plot.ofFile_withoutErrors _ _ _)
  cases hloaded : (Plot.ofFile (Settings.establish tree e).1 path
      (settingsUsed e tree).powerWindow.toNat).result with
  | error cause =>
    refine ⟨cause, _, hnotices, .load cause, ?_⟩
    rw [settingsUsed] at hloaded
    rw [← Plot.status_of_ofFile hloaded]
    simp only [plot, inputPath, settingsUsed, hloaded]
  | ok l =>
    rcases hd (.ofTitle l.title) (Chart.ofSession l.title l.session l.bounds
      (settingsUsed e tree).labelSize) with ⟨reason, hreason⟩
    refine ⟨.noWindow reason, _, hnotices, .window hreason, ?_⟩
    rw [settingsUsed] at hloaded hreason
    simp only [plot, inputPath, settingsUsed, hloaded, hreason]
    rfl

/-- The last notice is the last entry of the log. -/
theorem log_runFailed {o : Outcome} {notices : List Notice} {cause : RunError}
    (h : o.notices = notices ++ [.runFailed cause]) (hnotices : WithoutErrors notices) :
    ∃ before : List ShownNotice, (∀ notice ∈ before, notice.level ≠ .error) ∧
      o.log = before ++ [⟨.error, String.ofList (inert cause.text.toList)⟩] := by
  refine ⟨((notices.filter fun n => n.level ≠ .debug).filter
    fun n => n.component = plotProgram).map Notice.shown, ?_, ?_⟩
  · rintro notice hmem
    rcases List.mem_map.mp hmem with ⟨n, hn, rfl⟩
    exact hnotices n (List.mem_of_mem_filter (List.mem_of_mem_filter hn))
  · rw [Outcome.log, Outcome.shown, h, List.filter_append, List.filter_append, List.map_append]
    rfl

/-! ## Runs of `dump` -/

/-- `dump` prints a session, or nothing, and leaves the files as they are. -/
theorem dump_prints (e : Environment) (tree : FileTree) (program path : Path) :
    (dump e tree [program, path]).tree = tree ∧
    ((∃ s bounds, (dump e tree [program, path]).status = 0 ∧
        (dump e tree [program, path]).output = (dumpJson s bounds).indented ++ "\n") ∨
      ((dump e tree [program, path]).status = failureStatus ∧
        (dump e tree [program, path]).output = "")) := by
  cases hresult : (Session.ofFile tree path
      (Settings.ofEnvironment tree e).result.powerWindow.toNat).result with
  | error cause =>
    simp only [dump, inputPath, hresult]
    exact ⟨trivial, .inr ⟨trivial, trivial⟩⟩
  | ok s =>
    cases hbounds : Bounds.ofSession s with
    | error series =>
      simp only [dump, inputPath, hresult, hbounds]
      exact ⟨trivial, .inl ⟨s, none, trivial, rfl⟩⟩
    | ok bounds =>
      simp only [dump, inputPath, hresult, hbounds]
      exact ⟨trivial, .inl ⟨s, some bounds, trivial, rfl⟩⟩

/-! ## Both commands -/

/-- **Each command keeps to its streams**, whatever the arguments, the files and the settings. Unless
the command line names one file, either command prints the usage of the program, gives no notice and
leaves the files alone. Otherwise, where no window can be opened, `plot` prints nothing, and the last
entry of its log is the only error: the text of what went wrong, in which whatever could steer a
terminal is spelled out. And `dump` prints one complete JSON document and a line feed, or it fails
and prints nothing, and leaves the files alone. -/
theorem commands_keep_to_streams (e : Environment) {display : Display} (hd : display.IsMissing)
    (tree : FileTree) :
    (∀ args, args.length ≠ 2 →
      plot e display tree args = usageOutcome (programName args) tree ∧
      dump e tree args = usageOutcome (programName args) tree) ∧
    (∀ program path,
      let shown := plot e display tree [program, path]
      let printed := dump e tree [program, path]
      (shown.status = 1 ∧ shown.output = "" ∧
        ∃ cause before,
          NotShown display (settingsUsed e tree).labelSize
            (Plot.ofFile (Settings.establish tree e).1 path
              (settingsUsed e tree).powerWindow.toNat).result cause ∧
          shown.log = before ++ [⟨.error, String.ofList (inert cause.text.toList)⟩] ∧
          (∀ notice ∈ before, notice.level ≠ .error) ∧
          ((∀ c ∈ cause.text.toList, ¬ isSteering c ∧ ¬ isHighControl c) →
            String.ofList (inert cause.text.toList) = cause.text)) ∧
      printed.tree = tree ∧
      ((printed.status = 0 ∧ ∃ s bounds,
          let document := (dumpJson s bounds).indented
          printed.output = document ++ "\n" ∧ read? document.toList = some (dumpJson s bounds)) ∨
        (printed.status = 1 ∧ printed.output = ""))) := by
  constructor
  · intro args hargs
    rw [plot, dump, inputPath_of_length_ne hargs]
    exact ⟨misuseOutcome_eq _ tree, misuseOutcome_eq _ tree⟩
  · intro program path shown printed
    refine ⟨?_, ?_⟩
    · rcases plot_fails hd e tree program path with ⟨cause, notices, hnotices, hcause, hshown⟩
      have hrun : shown = _ := hshown
      rcases log_runFailed (congrArg Outcome.notices hrun) hnotices with ⟨before, hbefore, hlog⟩
      refine ⟨congrArg Outcome.status hrun, congrArg Outcome.output hrun, cause, before, hcause,
        hlog, hbefore, ?_⟩
      intro hplain
      rw [inert_eq_self hplain, String.ofList_toList]
    · rcases dump_prints e tree program path with
        ⟨htree, ⟨s, bounds, hstatus, houtput⟩ | hfailed⟩
      · exact ⟨htree, .inl ⟨hstatus, s, bounds, houtput, read?_indented_dumpJson s bounds⟩⟩
      · exact ⟨htree, .inr hfailed⟩

/-- Without a file name `plot` prints its usage; if the file is missing, the log ends with that. -/
theorem commands_keep_to_streams_missing :
    let e : Environment := ⟨none, none⟩
    let display : Display := fun _ _ => some "no display"
    let program := Path.ofString "powerplot"
    (plot e display ⟨[], []⟩ [program]).output = "powerplot <file name>\n" ∧
      ∃ before, (plot e display ⟨[], []⟩ [program, Path.ofString "f"]).log = before ++
        [⟨.error, "failed to open 'f': No such file or directory (os error 2)"⟩] := by
  intro e display program
  have hd : display.IsMissing := fun _ _ => ⟨"no display", rfl⟩
  rcases commands_keep_to_streams e hd ⟨[], []⟩ with ⟨husage, hstreams⟩
  constructor
  · rw [(husage [program] (by decide)).1]
    rfl
  · rcases hstreams program (Path.ofString "f") with ⟨⟨-, -, cause, before, hcause, hlog, -⟩, -⟩
    have hloaded : (Plot.ofFile (Settings.establish ⟨[], []⟩ e).1 (Path.ofString "f")
        (settingsUsed e ⟨[], []⟩).powerWindow.toNat).result =
          .error (.unopened (Path.ofString "f") (.file .notFound)) := by rfl
    rw [hloaded] at hcause
    cases hcause
    exact ⟨before, hlog⟩

/-- **The log of `plot` does not quote its error word for word**: an escape character in the name of
a missing file is spelled out. -/
theorem log_spells_out_error :
    let e : Environment := ⟨none, none⟩
    let display : Display := fun _ _ => some "no display"
    let cause : RunError := .unopened [0x1B] (.file .notFound)
    let shown := plot e display ⟨[], []⟩ [Path.ofString "powerplot", [0x1B]]
    shown.FailsWith cause ∧
      ∃ text, shown.log = [⟨.error, text⟩] ∧ text ≠ cause.text := by
  intro e display cause shown
  exact ⟨⟨by rfl, by rfl⟩, _, by rfl, by decide +kernel⟩

end PowerCurve
