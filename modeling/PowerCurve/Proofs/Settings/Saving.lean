import PowerCurve.Proofs.Settings.FirstRun

/-!
# What saving changes

Saving settings is all or nothing on files (`writeTo_allOrNothing`): the file holds the settings and
every other file is what it was, or all files are what they were. No directory goes away, and new
ones stand where the parents of the path lead, also if the file could not be written after all.
-/

namespace PowerCurve

open PowerCurve.Text

/-- The content of the file at a location, if there is a file. -/
def FileTree.file? (tree : FileTree) (location : Location) : Option Bytes :=
  match tree.kind? location with
  | some (.file content) => some content
  | _ => none

theorem FileTree.file?_congr {tree tree' : FileTree} {location : Location}
    (h : tree'.kind? location = tree.kind? location) :
    tree'.file? location = tree.file? location := by
  rw [file?, file?, h]

/-- New directories hold no files. -/
theorem FileTree.GrowsTo.file?_eq {tree tree' : FileTree} (h : tree.GrowsTo tree')
    (location : Location) : tree'.file? location = tree.file? location := by
  rcases h.kind? location with heq | ⟨hnone, hdirectory⟩
  · exact file?_congr heq
  · rw [file?, file?, hnone, hdirectory]

/-- The directories that are made above a path are where its parents lead. -/
theorem FileTree.exists_ancestor_of_withParents {tree : FileTree} {path : Path}
    {location : Location} (hnone : tree.kind? location = none)
    (hnew : (tree.withParents path).kind? location ≠ none) :
    ∃ parent ∈ Path.parent? path, ∃ ancestor ∈ Path.ancestors parent,
      (tree.withParents path).resolve ancestor = .ok location := by
  rw [withParents] at hnew ⊢
  split at hnew
  · exact absurd hnone hnew
  · next parent hparent =>
    have hmake : tree.makeDirectories parent =
        ((tree.makeDirectories parent).1, (tree.makeDirectories parent).2) := rfl
    exact ⟨parent, hparent, exists_mem_of_makeChain hmake hnone hnew⟩

namespace Settings

/-- Directories stay, and new ones are made above the path only. -/
theorem writeTo_directories (s : Settings) (tree : FileTree) (path : Path) :
    let after := (writeTo s tree path).1
    (∀ location, tree.kind? location = some .directory →
      after.kind? location = some .directory) ∧
    (∀ location, after.kind? location = some .directory →
      (tree.withParents path).kind? location = some .directory) ∧
    (tree.withParents path).Covers after := by
  intro after
  have hgrows := tree.withParents_grows path
  rcases writeTo_cases s tree path with ⟨-, hwrite⟩ | ⟨-, hafter, -⟩
  · have hcovers := FileTree.covers_of_writeAt hwrite
    refine ⟨(hgrows.covers.trans hcovers).directory, ?_, hcovers⟩
    rcases FileTree.exists_of_writeAt hwrite with ⟨target, -, -, hkind, -⟩
    intro location hdirectory
    rw [hkind] at hdirectory
    split at hdirectory
    · cases hdirectory
    · exact hdirectory
  · have heq : after = tree.withParents path := hafter
    rw [heq]
    exact ⟨hgrows.covers.directory, fun _ => id, (FileTree.GrowsTo.refl _).covers⟩

/-- **Saving is all or nothing on files.** The file holds the settings and every other file is what
it was, or all files are what they were. Directories stay, and new ones are where the parents of
the path lead. -/
theorem writeTo_allOrNothing (s : Settings) (tree : FileTree) (path : Path) :
    let after := (writeTo s tree path).1
    ((writeTo s tree path).2 = .ok () →
      after.contentAt path = .ok (Utf8.encode (s.toJson.text .indented)) ∧
      ∃ target, after.resolve path = .ok target ∧
        ∀ location, location ≠ target → after.file? location = tree.file? location) ∧
    (∀ cause, (writeTo s tree path).2 = .error cause →
      ∀ location, after.file? location = tree.file? location) ∧
    (∀ location, tree.kind? location = some .directory →
      after.kind? location = some .directory) ∧
    (∀ location, after.kind? location = some .directory →
      tree.kind? location = some .directory ∨
      tree.kind? location = none ∧ ∃ parent ∈ Path.parent? path,
        ∃ ancestor ∈ Path.ancestors parent, after.resolve ancestor = .ok location) := by
  intro after
  have hgrows := tree.withParents_grows path
  rcases writeTo_directories s tree path with ⟨hstay, hnew, hcovers⟩
  refine ⟨?_, ?_, hstay, ?_⟩
  · intro hok
    rcases writeTo_cases s tree path with ⟨-, hwrite⟩ | ⟨⟨cause, herror⟩, -⟩
    · rcases FileTree.exists_of_writeAt hwrite with ⟨target, -, -, hkind, -, hresolve⟩
      refine ⟨FileTree.contentAt_of_writeAt hwrite, target, hresolve, ?_⟩
      intro location hne
      have hother := (hkind location).trans (if_neg hne)
      rw [FileTree.file?_congr hother, hgrows.file?_eq]
    · rw [hok] at herror
      cases herror
  · intro cause herror location
    rcases writeTo_cases s tree path with ⟨hok, -⟩ | ⟨-, hafter, -⟩
    · rw [hok] at herror
      cases herror
    · have heq : after = tree.withParents path := hafter
      rw [heq, hgrows.file?_eq]
  · intro location hdirectory
    have hparents := hnew location hdirectory
    rcases hgrows.kind? location with hsame | ⟨hnone, -⟩
    · rw [← hsame]
      exact .inl hparents
    · refine .inr ⟨hnone, ?_⟩
      rcases FileTree.exists_ancestor_of_withParents hnone (by rw [hparents]; nofun) with
        ⟨parent, hparent, ancestor, hmem, hresolve⟩
      exact ⟨parent, hparent, ancestor, hmem, hcovers.resolve hresolve⟩

example : (writeTo standard ⟨[], []⟩ (Path.ofString "q/s.json")).2 = .ok () := by rfl

end Settings

end PowerCurve
