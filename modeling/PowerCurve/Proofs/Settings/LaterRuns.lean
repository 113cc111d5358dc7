import PowerCurve.Proofs.Settings.FirstRun
import PowerCurve.Proofs.Settings.Form

/-!
# Later runs

Whatever a first run finds and whatever it can write, every later run sees the settings that it saw
(`establishAt_steady`): if the defaults were written they are read back, and if they were not, there
is no file to read.
-/

namespace PowerCurve.Settings

open PowerCurve.Json PowerCurve.Text

/-- Where there is no file, the settings are the defaults. -/
theorem ofFile_of_noFile {tree : FileTree} {path : Path}
    (h : ∀ content, tree.lookup path ≠ .ok (.file content)) :
    (ofFile tree path).result = standard := by
  rw [ofFile]
  split
  · split
    · next text htext =>
      rw [FileTree.textAt_eq_ok_iff, FileTree.contentAt_eq_ok_iff] at htext
      exact absurd htext (h _)
    · rfl
  · rfl

/-- Where there is a file with a text, the settings are those of the text. -/
theorem ofFile_of_contentAt {tree : FileTree} {path : Path} {text : List Char}
    (h : tree.contentAt path = .ok (Utf8.encode text)) : ofFile tree path = ofText text := by
  have hexists : tree.pathExists path = true :=
    FileTree.pathExists_eq_true_iff.mpr ⟨_, FileTree.contentAt_eq_ok_iff.mp h⟩
  rw [ofFile, if_pos hexists, FileTree.textAt_eq_ok_iff.mpr h]

/-- What a run sees is what is there to be read after it. -/
theorem Establishes.ofFile_after {tree after : FileTree} {path : Path} {noted : Noted Settings}
    (h : Establishes tree path (after, noted)) :
    (ofFile after path).result = noted.result := by
  cases h with
  | read hexists => rfl
  | written hexists hwrite =>
    rw [ofFile_of_contentAt (FileTree.contentAt_of_writeAt hwrite)]
    exact ofText_standard
  | unwritten hexists hfile => exact ofFile_of_noFile hfile

/-- **The first run and every later run see the same settings**, those that are there before the
first one. A run changes nothing if something is there, and where it says that it has written the
defaults, these are there. -/
theorem establishAt_steady (tree : FileTree) (path : Path) :
    let first := establishAt tree path
    first.2.result = (ofFile tree path).result ∧
    (ofFile first.1 path).result = first.2.result ∧
    (establishAt first.1 path).2.result = first.2.result ∧
    (tree.pathExists path = true → first.1 = tree) ∧
    (∀ target, Notice.defaultsWritten target ∈ first.2.notices →
      target = path ∧
        first.1.contentAt path = .ok (Utf8.encode (standard.toJson.text .indented))) := by
  intro first
  have hfirst : Establishes tree path (first.1, first.2) := establishAt_establishes tree path
  have hafter := hfirst.ofFile_after
  refine ⟨establishAt_result tree path, hafter, ?_, ?_, ?_⟩
  · rw [establishAt_result, hafter]
  · intro hexists
    exact congrArg Prod.fst (if_pos hexists)
  · intro target hnotice
    generalize first.1 = after, first.2 = noted at hfirst hnotice ⊢
    cases hfirst with
    | read hexists => cases level_of_mem_ofFile hnotice
    | written hexists hwrite =>
      rw [List.mem_singleton, Notice.defaultsWritten.injEq] at hnotice
      exact ⟨hnotice, FileTree.contentAt_of_writeAt hwrite⟩
    | unwritten hexists hfile =>
      rw [List.mem_singleton] at hnotice
      cases hnotice

end PowerCurve.Settings
