import PowerCurve.Proofs.FileTree.Parents
import PowerCurve.Settings.Store

/-!
# The first run

On a first run the default settings are written out, unless that is not possible (`Establishes`). The
settings that a run sees are the same as without the writing (`establish_result`), and every other
file stays what it was (`lookup_establish`).

The file that is written replaces an old one only if the path of the settings file leads to nothing
at first and to the old file once the directories above it exist (`Overwrites`). That takes a `..`
behind a missing directory (`not_overwrites_of_noParent`).
-/

namespace PowerCurve

open PowerCurve.Text

/-- The tree with the directories above a path. -/
def FileTree.withParents (tree : FileTree) (path : Path) : FileTree :=
  match Path.parent? path with
  | none => tree
  | some parent => (tree.makeDirectories parent).1

theorem FileTree.withParents_grows (tree : FileTree) (path : Path) :
    tree.GrowsTo (tree.withParents path) := by
  unfold withParents
  split
  · exact .refl tree
  · exact makeDirectories_grows _

namespace Settings

/-- The settings that a first run writes out replace what stands at the location: their path leads
to nothing, but there once the directories above it exist. -/
def Overwrites (tree : FileTree) (e : Environment) (location : Location) : Prop :=
  ∃ path, e.settingsFile? = some path ∧ tree.pathExists path = false ∧
    (tree.withParents path).resolve path = .ok location

/-- Without `..` in the path of the settings file nothing old is replaced. -/
theorem not_overwrites_of_noParent {tree : FileTree} {e : Environment} {location : Location}
    (hpath : ∀ path, e.settingsFile? = some path → Path.dotDot ∉ Path.components path)
    (hkind : tree.kind? location ≠ none) : ¬ Overwrites tree e location := by
  rintro ⟨path, hfile, hexists, hresolve⟩
  have hold : tree.resolve path = .ok location :=
    (tree.withParents_grows path).resolve_of_noParent (hpath path hfile) hresolve hkind
  rw [FileTree.pathExists_of_resolve hold hkind] at hexists
  cases hexists

/-! ## What a run reports -/

/-- Whoever reads settings is warned of what cannot be used, and told nothing else. -/
theorem level_of_mem_ofText {text : List Char} {notice : Notice}
    (h : notice ∈ (ofText text).notices) : notice.level = .warn := by
  rw [ofText] at h
  split at h
  · rw [List.mem_singleton.mp h]
    rfl
  · simp only at h
    split at h
    · rw [List.mem_singleton.mp h]
      rfl
    · cases h

theorem level_of_mem_ofFile {tree : FileTree} {path : Path} {notice : Notice}
    (h : notice ∈ (ofFile tree path).notices) : notice.level = .warn := by
  rw [ofFile] at h
  split at h
  · split at h
    · exact level_of_mem_ofText h
    · rw [List.mem_singleton.mp h]
      rfl
  · cases h

/-! ## What a first run sees -/

/-- The settings are those of the file if there is one, and the defaults otherwise. -/
theorem establishAt_result (tree : FileTree) (path : Path) :
    (establishAt tree path).2.result = (ofFile tree path).result := by
  rw [establishAt]
  split
  · rfl
  · next hexists =>
    have hfile : ofFile tree path = ⟨[], standard⟩ := if_neg hexists
    rw [hfile]
    split <;> rfl

/-- **A run that writes the settings out sees the same settings as one that does not.** -/
theorem establish_result (tree : FileTree) (e : Environment) :
    (establish tree e).2.result = (ofEnvironment tree e).result := by
  rw [establish, ofEnvironment]
  split
  · exact establishAt_result tree _
  · rfl

/-! ## What a first run leaves -/

/-- Settings are written to a tree that has the directories above them, or only these are made. They
are not written only if their path leads to no file in the end. -/
theorem writeTo_cases (s : Settings) (tree : FileTree) (path : Path) :
    ((writeTo s tree path).2 = .ok () ∧
      (tree.withParents path).writeAt path s.fileContent = .ok (writeTo s tree path).1) ∨
    ((∃ cause, (writeTo s tree path).2 = .error cause) ∧
      (writeTo s tree path).1 = tree.withParents path ∧
      ∀ content, (tree.withParents path).lookup path ≠ .ok (.file content)) := by
  cases hparent : Path.parent? path with
  | none =>
    simp only [writeTo, FileTree.withParents, hparent]
    cases hwrite : tree.writeAt path s.fileContent with
    | error cause => exact .inr ⟨⟨_, rfl⟩, rfl, FileTree.lookup_ne_file_of_writeAt hwrite⟩
    | ok written => exact .inl ⟨rfl, rfl⟩
  | some parent =>
    simp only [writeTo, FileTree.withParents, hparent]
    rcases hmake : tree.makeDirectories parent with ⟨grown, cause | ⟨⟨⟩⟩⟩
    · refine .inr ⟨⟨_, rfl⟩, rfl, ?_⟩
      -- the parent of a path that leads to a file is a directory
      intro content hlookup
      rcases FileTree.lookup_eq_file_iff.mp hlookup with ⟨location, hresolve, -⟩
      rcases FileTree.not_isDirectory_of_makeDirectories hmake with ⟨hne, hmissing⟩
      rw [FileTree.isDirectory_parent hresolve hparent hne] at hmissing
      cases hmissing
    · simp only
      cases hwrite : grown.writeAt path s.fileContent with
      | error cause => exact .inr ⟨⟨_, rfl⟩, rfl, FileTree.lookup_ne_file_of_writeAt hwrite⟩
      | ok written => exact .inl ⟨rfl, rfl⟩

/-- What a run can do about the settings file: it reads what is there, or else it writes the
defaults, or says that it cannot. -/
inductive Establishes (tree : FileTree) (path : Path) : FileTree × Noted Settings → Prop
  /-- Something is there, and it is read. -/
  | read (present : tree.pathExists path = true) :
    Establishes tree path (tree, ofFile tree path)
  /-- Nothing is there, and the defaults are written. -/
  | written {after : FileTree} (missing : tree.pathExists path = false)
      (write : (tree.withParents path).writeAt path standard.fileContent = .ok after) :
    Establishes tree path (after, ⟨[.defaultsWritten path], standard⟩)
  /-- Nothing is there, and no file is there after the defaults could not be written. -/
  | unwritten {cause : SaveError} (missing : tree.pathExists path = false)
      (noFile : ∀ content, (tree.withParents path).lookup path ≠ .ok (.file content)) :
    Establishes tree path (tree.withParents path, ⟨[.defaultsUnwritten cause], standard⟩)

theorem establishAt_establishes (tree : FileTree) (path : Path) :
    Establishes tree path (establishAt tree path) := by
  rw [establishAt]
  split
  · next hexists => exact .read hexists
  · next hexists =>
    rw [Bool.not_eq_true] at hexists
    have hcases := writeTo_cases standard tree path
    split
    · next saved hsaved =>
      rw [hsaved] at hcases
      rcases hcases with ⟨-, hwrite⟩ | ⟨⟨cause, ⟨⟩⟩, -⟩
      exact .written hexists hwrite
    · next grown cause hgrown =>
      rw [hgrown] at hcases
      rcases hcases with ⟨⟨⟩, -⟩ | ⟨-, rfl, hfile⟩
      exact .unwritten hexists hfile

/-- What a first run can leave: the tree as it was, or with the directories above the settings file,
or with these and the file. -/
theorem establish_cases (tree : FileTree) (e : Environment) :
    (establish tree e).1 = tree ∨
    ∃ path, e.settingsFile? = some path ∧ tree.pathExists path = false ∧
      ((establish tree e).1 = tree.withParents path ∨
        (tree.withParents path).writeAt path standard.fileContent = .ok (establish tree e).1) := by
  rw [establish]
  split
  · next path hfile =>
    have hfirst := establishAt_establishes tree path
    generalize establishAt tree path = first at hfirst ⊢
    cases hfirst with
    | read => exact .inl rfl
    | written hexists hwrite => exact .inr ⟨path, hfile, hexists, .inr hwrite⟩
    | unwritten hexists => exact .inr ⟨path, hfile, hexists, .inl rfl⟩
  · exact .inl rfl

/-- **A first run leaves every file that it does not replace.** -/
theorem lookup_establish {tree : FileTree} {e : Environment} {path : Path} {content : Bytes}
    (hfile : tree.lookup path = .ok (.file content))
    (hkept : ∀ location, tree.resolve path = .ok location → ¬ Overwrites tree e location) :
    (establish tree e).1.lookup path = .ok (.file content) := by
  rcases FileTree.lookup_eq_file_iff.mp hfile with ⟨location, hresolve, hkind⟩
  rcases establish_cases tree e with heq | ⟨settingsPath, hsettings, hexists, hcases⟩
  · rw [heq]
    exact hfile
  -- the directories leave the file where it is
  have hgrows := tree.withParents_grows settingsPath
  have hpresent : tree.kind? location ≠ none := by
    rw [hkind]
    nofun
  have hresolve' := hgrows.covers.resolve hresolve
  have hkind' := (hgrows.kind?_eq hpresent).trans hkind
  rcases hcases with heq | hwrite
  · rw [heq]
    exact FileTree.lookup_eq_file_iff.mpr ⟨location, hresolve', hkind'⟩
  · rcases FileTree.exists_of_writeAt hwrite with ⟨target, -, -, hwritten, htarget, -⟩
    have hne : location ≠ target := by
      rintro rfl
      have hpresent' : (tree.withParents settingsPath).kind? location ≠ none := by
        rw [hkind']
        nofun
      exact hkept location hresolve ⟨settingsPath, hsettings, hexists, htarget hpresent'⟩
    refine FileTree.lookup_eq_file_iff.mpr ⟨location, ?_, ?_⟩
    · exact (FileTree.covers_of_writeAt hwrite).resolve hresolve'
    · rw [hwritten, if_neg hne, hkind']

end Settings

end PowerCurve
