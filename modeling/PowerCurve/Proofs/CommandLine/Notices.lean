import PowerCurve.CommandLine
import PowerCurve.Proofs.Settings.FirstRun

/-!
# Notices of a run

Whatever goes well or badly on the way, the only notice of an error is that of the run that fails.
-/

namespace PowerCurve

open PowerCurve.SessionLog PowerCurve.Text

/-- None of the notices is one of an error. -/
def WithoutErrors (notices : List Notice) : Prop :=
  ∀ notice ∈ notices, notice.level ≠ .error

theorem withoutErrors_nil : WithoutErrors [] := nofun

theorem WithoutErrors.cons {notice : Notice} {notices : List Notice}
    (hnotice : notice.level ≠ .error) (h : WithoutErrors notices) :
    WithoutErrors (notice :: notices) :=
  List.forall_mem_cons.mpr ⟨hnotice, h⟩

theorem WithoutErrors.append {a b : List Notice} (ha : WithoutErrors a) (hb : WithoutErrors b) :
    WithoutErrors (a ++ b) :=
  List.forall_mem_append.mpr ⟨ha, hb⟩

/-- The notices of an error, of which there is one at the end. -/
theorem filter_error_append {notices : List Notice} (h : WithoutErrors notices) (cause : RunError) :
    (notices ++ [Notice.runFailed cause]).filter (fun notice => notice.level = .error) =
      [.runFailed cause] := by
  have hnone : notices.filter (fun notice => notice.level = .error) = [] := by
    rw [List.filter_eq_nil_iff]
    intro notice hmem
    simpa using h notice hmem
  rw [List.filter_append, hnone]
  rfl

/-- A text that holds nothing to spell out is shown as it is. -/
theorem inert_eq_self {text : List Char}
    (h : ∀ c ∈ text, ¬ isSteering c ∧ ¬ isHighControl c) : inert text = text := by
  induction text with
  | nil => rfl
  | cons c text ih =>
    rw [List.forall_mem_cons] at h
    have hchar : inertChar c = [c] := by rw [inertChar, if_neg h.1.1, if_neg h.1.2]
    have htext : inert text = text := ih h.2
    rw [inert, List.flatMap_cons, hchar, ← inert, htext]
    rfl

/-! ## What comes before -/

theorem parsedNotices_withoutErrors (s : Session) (ignored : Nat) :
    WithoutErrors (parsedNotices s ignored) := by
  rw [parsedNotices]
  split
  · exact .cons nofun withoutErrors_nil
  · exact .cons nofun (.cons nofun withoutErrors_nil)

theorem parse_withoutErrors (window : Nat) (source : Source) :
    WithoutErrors (parse window source).notices := by
  rw [parse]
  split
  · exact withoutErrors_nil
  · split
    · exact withoutErrors_nil
    · simp only
      split
      · exact .cons nofun withoutErrors_nil
      · exact .cons nofun (parsedNotices_withoutErrors _ _)

theorem Session.ofFile_withoutErrors (tree : FileTree) (path : Path) (window : Nat) :
    WithoutErrors (Session.ofFile tree path window).notices := by
  rw [Session.ofFile]
  split
  · exact withoutErrors_nil
  · exact parse_withoutErrors _ _

namespace Settings

theorem ofFile_withoutErrors (tree : FileTree) (path : Path) :
    WithoutErrors (ofFile tree path).notices := by
  intro notice hmem herror
  cases (level_of_mem_ofFile hmem).symm.trans herror

theorem establish_withoutErrors (tree : FileTree) (e : Environment) :
    WithoutErrors (establish tree e).2.notices := by
  rw [establish]
  split
  · next path _ =>
    have hfirst := establishAt_establishes tree path
    generalize establishAt tree path = first at hfirst ⊢
    cases hfirst with
    | read => exact ofFile_withoutErrors tree path
    | written =>
      refine .cons ?_ withoutErrors_nil
      intro herror
      cases herror
    | unwritten =>
      refine .cons ?_ withoutErrors_nil
      intro herror
      cases herror
  · exact withoutErrors_nil

end Settings

end PowerCurve
