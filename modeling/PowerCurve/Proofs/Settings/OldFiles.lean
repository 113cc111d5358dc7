import PowerCurve.Proofs.Settings.FirstRun

/-!
# Old files

Establishing the settings adds the settings file and the directories above it, and leaves everything
else (`establishAt_adds`). Whether the settings file is new is decided before its directories are
made, and where it is written is decided after that: a path with `..` behind a missing directory
leads to nothing at first and to an old file then, which is replaced (`establishAt_overwrites`).
-/

namespace PowerCurve.Settings

open PowerCurve.Text

/-- What stands at a location once the settings are established: what stood there, or a new
directory, or the settings file. -/
theorem Establishes.kind?_cases {tree after : FileTree} {path : Path} {noted : Noted Settings}
    (h : Establishes tree path (after, noted)) (location : Location) :
    after.kind? location = tree.kind? location ∨
    tree.kind? location = none ∧ after.kind? location = some .directory ∨
    after.resolve path = .ok location ∧
      after.kind? location = some (.file standard.fileContent) := by
  have hgrows := tree.withParents_grows path
  cases h with
  | read => exact .inl rfl
  | unwritten hexists hfile =>
    rcases hgrows.kind? location with heq | hnew
    · exact .inl heq
    · exact .inr (.inl hnew)
  | written hexists hwrite =>
    rcases FileTree.exists_of_writeAt hwrite with ⟨target, -, -, hkind, -, hresolve⟩
    by_cases htarget : location = target
    · rw [htarget]
      exact .inr (.inr ⟨hresolve, by rw [hkind, if_pos rfl]⟩)
    · rw [hkind, if_neg htarget]
      rcases hgrows.kind? location with heq | hnew
      · exact .inl heq
      · exact .inr (.inl hnew)

/-- Paths go on leading where they led. -/
theorem Establishes.covers {tree after : FileTree} {path : Path} {noted : Noted Settings}
    (h : Establishes tree path (after, noted)) : tree.Covers after := by
  have hgrows := tree.withParents_grows path
  cases h with
  | read => exact (FileTree.GrowsTo.refl tree).covers
  | unwritten hexists hfile => exact hgrows.covers
  | written hexists hwrite => exact hgrows.covers.trans (FileTree.covers_of_writeAt hwrite)

/-- The path leads to nothing, and back to the location once the directories above it exist. -/
structure LeadsBack (tree : FileTree) (path : Path) (location : Location) : Prop where
  back : Path.dotDot ∈ Path.components path
  missing : tree.pathExists path = false
  resolve : (tree.withParents path).resolve path = .ok location

/-- What was there stays there, if the path of the settings does not lead back to it. -/
theorem Establishes.kind?_eq {tree after : FileTree} {path : Path} {noted : Noted Settings}
    (h : Establishes tree path (after, noted)) {location : Location}
    (hpresent : tree.kind? location ≠ none) (hback : ¬ LeadsBack tree path location) :
    after.kind? location = tree.kind? location := by
  have hgrows := tree.withParents_grows path
  cases h with
  | read => rfl
  | unwritten hexists hfile => exact hgrows.kind?_eq hpresent
  | written hexists hwrite =>
    rcases FileTree.exists_of_writeAt hwrite with ⟨target, -, -, hkind, htarget, -⟩
    rw [hkind]
    split
    · next heq =>
      subst heq
      have hresolve := htarget (hgrows.covers.present location hpresent)
      have hforward : Path.dotDot ∉ Path.components path :=
        fun hmem => hback ⟨hmem, hexists, hresolve⟩
      -- the path leads to something old, so it did so before
      have hold := hgrows.resolve_of_noParent hforward hresolve hpresent
      rw [FileTree.pathExists_of_resolve hold hpresent] at hexists
      cases hexists
    · exact hgrows.kind?_eq hpresent

/-- A file is replaced, if the path of the settings leads back to it. -/
theorem Establishes.kind?_of_leadsBack {tree after : FileTree} {path : Path}
    {noted : Noted Settings} (h : Establishes tree path (after, noted)) {location : Location}
    {content : Bytes} (hkind : tree.kind? location = some (.file content))
    (hback : LeadsBack tree path location) :
    after.kind? location = some (.file standard.fileContent) := by
  have hpresent : tree.kind? location ≠ none := by
    rw [hkind]
    nofun
  have hold := ((tree.withParents_grows path).kind?_eq hpresent).trans hkind
  cases h with
  | read hexists => cases hexists.symm.trans hback.missing
  | unwritten hexists hfile =>
    exact absurd (FileTree.lookup_eq_file_iff.mpr ⟨location, hback.resolve, hold⟩) (hfile content)
  | written hexists hwrite =>
    rcases FileTree.exists_of_writeAt hwrite with ⟨target, -, -, hwritten, -, htarget⟩
    have hlocation := (FileTree.covers_of_writeAt hwrite).resolve hback.resolve
    obtain rfl := Except.ok.inj (htarget.symm.trans hlocation)
    rw [hwritten, if_pos rfl]

/-- **Establishing the settings only adds the settings file and directories**, and every old file
keeps its content, unless the path of the settings leads back to it; then it holds the defaults. -/
theorem establishAt_adds (tree : FileTree) (path : Path) :
    let after := (establishAt tree path).1
    (∀ location, after.kind? location = tree.kind? location ∨
      tree.kind? location = none ∧ after.kind? location = some .directory ∨
      after.resolve path = .ok location ∧
        after.kind? location = some (.file standard.fileContent)) ∧
    (∀ other location content, tree.resolve other = .ok location →
      tree.kind? location = some (.file content) →
      after.resolve other = .ok location ∧
      (¬ LeadsBack tree path location ∧ after.kind? location = some (.file content) ∨
        LeadsBack tree path location ∧
          after.kind? location = some (.file standard.fileContent))) := by
  intro after
  have hfirst : Establishes tree path (after, (establishAt tree path).2) :=
    establishAt_establishes tree path
  refine ⟨hfirst.kind?_cases, ?_⟩
  intro other location content hresolve hkind
  refine ⟨hfirst.covers.resolve hresolve, ?_⟩
  by_cases hback : LeadsBack tree path location
  · exact .inr ⟨hback, hfirst.kind?_of_leadsBack hkind hback⟩
  · have hpresent : tree.kind? location ≠ none := by
      rw [hkind]
      nofun
    exact .inl ⟨hback, (hfirst.kind?_eq hpresent hback).trans hkind⟩

/-- **A path that leads back from a missing directory overwrites an old file**: nothing is found at
`q/../s.json` while `q` is missing, and then `q` is made and the defaults go to `s.json`. -/
theorem establishAt_overwrites :
    let content := Utf8.encode "\x7b\"power_window\":2\x7d".toList
    let tree : FileTree := ⟨[(Path.ofString "s.json", .file content)], []⟩
    let after := (establishAt tree (Path.ofString "q/../s.json")).1
    tree.contentAt (Path.ofString "s.json") = .ok content ∧
      after.contentAt (Path.ofString "s.json") = .ok standard.fileContent ∧
      standard.fileContent ≠ content := by
  refine ⟨by rfl, by rfl, by decide +kernel⟩

end PowerCurve.Settings
