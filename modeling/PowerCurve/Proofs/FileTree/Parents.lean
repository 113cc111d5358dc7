import Mathlib.Data.List.Chain
import Mathlib.Data.List.Induction
import PowerCurve.Proofs.FileTree.Growth
import PowerCurve.Proofs.Text.Pieces
import PowerCurve.Proofs.Text.Utf8

/-!
# The directories above a path

`Path.parent?` works on the spelling of a path. What it finds is a beginning of the path
(`parent?_eq_some`), so a path that leads somewhere has a directory for its parent
(`isDirectory_parent`), and creating that directory fails only if it is not there in the end
(`not_isDirectory_of_makeDirectories`).

A path that leads to a file can be written (`writeAt_of_resolve`), and a path that was written leads
to what was written (`contentAt_of_writeAt`).
-/

namespace PowerCurve

open PowerCurve.Text

/-! ## Spelling -/

namespace Path

theorem notMem_of_mem_components {path : Path} {name : Name} (h : name ∈ components path) :
    slash ∉ name :=
  notMem_of_mem_pieces h

theorem dropLast?_eq_some {names before : List Name} (h : dropLast? names = some before) :
    ∃ after, after ≠ [] ∧ names = before ++ after := by
  rw [dropLast?] at h
  split at h
  · cases h
  · next last idle hidle =>
    obtain rfl := Option.some.inj h
    -- in reverse order: idle names, the last one that leads somewhere, idle names, the result
    have hback : names.reverse = names.reverse.takeWhile isIdle ++
        last :: (idle.takeWhile isIdle ++ idle.dropWhile isIdle) := by
      rw [List.takeWhile_append_dropWhile, ← hidle, List.takeWhile_append_dropWhile]
    refine ⟨(names.reverse.takeWhile isIdle ++ last :: idle.takeWhile isIdle).reverse, ?_, ?_⟩
    · simp
    · rw [← List.reverse_append, List.append_assoc, List.cons_append, ← hback,
        List.reverse_reverse]

/-- The parent is empty, the root, or made of the first components. -/
theorem parent?_eq_some {path parent : Path} (h : parent? path = some parent) :
    parent = [] ∨ parent = [slash] ∧ isAbsolute path ∨
      ∃ after, after ≠ [] ∧ components path = components parent ++ after := by
  rw [parent?] at h
  split at h
  · cases h
  · next first rest hnames =>
    have hslash : ∀ name ∈ first :: rest, slash ∉ name := by
      rw [← hnames]
      exact fun name => notMem_of_mem_components
    split at h
    · next hdrop =>
      obtain rfl := Option.some.inj h
      rcases dropLast?_eq_some hdrop with ⟨after, hafter, hrest⟩
      split
      · next hfirst =>
        refine .inr (.inl ⟨rfl, ?_⟩)
        have hpath := joinPieces_pieces slash path
        rw [← components, hnames, hfirst, hrest, List.nil_append] at hpath
        cases after with
        | nil => exact absurd rfl hafter
        | cons name after => rw [← hpath]; rfl
      · refine .inr (.inr ⟨after, hafter, ?_⟩)
        have hcomponents : components first = [first] := by
          refine pieces_eq_iff.mpr ⟨List.cons_ne_nil first [], ?_, ?_⟩
          · rw [List.forall_mem_singleton]
            exact hslash first List.mem_cons_self
          · simp
        rw [hnames, hcomponents, hrest]
        rfl
    · next names hne hdrop =>
      obtain rfl := Option.some.inj h
      rcases dropLast?_eq_some hdrop with ⟨after, hafter, rfl⟩
      refine .inr (.inr ⟨after, hafter, ?_⟩)
      rw [hnames, components, pieces_joinPieces (List.cons_ne_nil first names)]
      · rfl
      · intro name hmem
        exact hslash name (List.mem_append_left after hmem)
    · split at h
      · cases h
      · exact .inl (Option.some.inj h).symm

/-- A parent is a beginning of its path. -/
theorem parent?_isPrefix {path parent : Path} (h : parent? path = some parent) :
    parent <+: path := by
  rcases parent?_eq_some h with rfl | ⟨rfl, habsolute⟩ | ⟨after, hafter, hcomponents⟩
  · exact List.nil_prefix
  · cases path with
    | nil => cases habsolute
    | cons b rest =>
      obtain rfl : b = slash := by simpa [isAbsolute] using habsolute
      exact ⟨rest, rfl⟩
  · have hpath := joinPieces_pieces slash path
    rw [← components, hcomponents, components,
      joinPieces_append (pieces_ne_nil slash parent) hafter, joinPieces_pieces] at hpath
    exact ⟨_, hpath⟩

theorem isAbsolute_eq_of_isPrefix {path parent : Path} (h : parent <+: path) (hne : parent ≠ []) :
    isAbsolute path = isAbsolute parent := by
  rcases h with ⟨rest, rfl⟩
  cases parent with
  | nil => exact absurd rfl hne
  | cons b parent => rfl

/-- Each path is followed by its parent. -/
theorem isChain_ancestorsUpTo (fuel : Nat) (path : Path) :
    (ancestorsUpTo fuel path).IsChain (fun path parent => parent? path = some parent) ∧
      (ancestorsUpTo fuel path).head? = some path := by
  induction fuel generalizing path with
  | zero => exact ⟨.singleton path, rfl⟩
  | succ fuel ih =>
    rw [ancestorsUpTo]
    cases hparent : parent? path with
    | none => exact ⟨.singleton path, rfl⟩
    | some parent =>
      refine ⟨?_, rfl⟩
      rcases ih parent with ⟨hchain, hhead⟩
      refine List.isChain_cons.mpr ⟨?_, hchain⟩
      intro next hnext
      rw [hhead] at hnext
      rw [hparent, Option.mem_some_iff.mp hnext]

end Path

namespace FileTree

variable {tree : FileTree}

/-! ## Leading to a directory -/

theorem isDirectory_eq_true_iff {path : Path} :
    tree.isDirectory path = true ↔
      ∃ location, tree.resolve path = .ok location ∧ tree.kind? location = some .directory := by
  have hlookup : tree.isDirectory path = true ↔
      ∃ entries, tree.lookup path = .ok (.directory entries) := by
    rw [isDirectory]
    split
    · next entries heq => simp [heq]
    · next hne => simpa using hne
  simp only [hlookup, lookup_eq_ok_iff, kind?_eq_directory_iff]
  exact ⟨fun ⟨entries, location, h⟩ => ⟨location, h.1, entries, h.2⟩,
    fun ⟨location, h, entries, h'⟩ => ⟨entries, location, h, h'⟩⟩

theorem kind?_nil (tree : FileTree) : tree.kind? [] = some .directory := rfl

theorem kind?_dropLast {location : Location} (h : tree.kind? location = some .directory) :
    tree.kind? location.dropLast = some .directory := by
  cases location using List.reverseRecOn with
  | nil => exact h
  | append_singleton location name =>
    rw [List.dropLast_concat]
    refine Entries.kind?_of_kind?_append (List.cons_ne_nil name []) ?_
    rw [← kind?, h]
    exact Option.some_ne_none _

/-- All components of a path but the last ones lead to a directory. -/
theorem exists_directory_of_walk {location location' : Location} {names after : List Name}
    (hafter : after ≠ []) (h : tree.walk location (names ++ after) = .ok location') :
    ∃ between, tree.walk location names = .ok between ∧
      tree.kind? between = some .directory := by
  rw [walk_append, bind_eq_ok_iff] at h
  rcases h with ⟨between, hwalk, h⟩
  cases after with
  | nil => exact absurd rfl hafter
  | cons name after =>
    rw [walk_cons, bind_eq_ok_iff] at h
    rcases h with ⟨next, henter, -⟩
    exact ⟨between, hwalk, (enter_eq_ok_iff.mp henter).1⟩

theorem checkPath_eq_ok_iff {path : Path} :
    checkPath path = .ok () ↔ 0 ∉ path ∧ path ≠ [] ∧ path.length ≤ pathLimit := by
  unfold checkPath
  split
  · next h => simp_all
  · next h =>
    split
    · next hnil => simp [hnil]
    · next hnil =>
      split
      · next hlength => simp [Nat.not_le.mpr hlength]
      · next hlength => simp_all

/-- **If a path leads somewhere, its parent leads to a directory.** -/
theorem isDirectory_parent {path parent : Path} {location : Location}
    (h : tree.resolve path = .ok location) (hparent : Path.parent? path = some parent)
    (hne : parent ≠ []) : tree.isDirectory parent = true := by
  rw [resolve_eq_ok_iff, checkPath_eq_ok_iff] at h
  rcases h with ⟨⟨hnul, -, hlength⟩, hwalk⟩
  have hbegin := Path.parent?_isPrefix hparent
  have hcheck : checkPath parent = .ok () :=
    checkPath_eq_ok_iff.mpr ⟨fun hmem => hnul (hbegin.mem hmem), hne,
      Nat.le_trans hbegin.length_le hlength⟩
  rw [isDirectory_eq_true_iff]
  rcases Path.parent?_eq_some hparent with rfl | ⟨rfl, -⟩ | ⟨after, hafter, hcomponents⟩
  · exact absurd rfl hne
  · exact ⟨[], rfl, tree.kind?_nil⟩
  · have hstart : tree.start path = tree.start parent := by
      rw [start, start, Path.isAbsolute_eq_of_isPrefix hbegin hne]
    rw [hcomponents, hstart] at hwalk
    rcases exists_directory_of_walk hafter hwalk with ⟨between, hbetween, hkind⟩
    exact ⟨between, resolve_eq_ok_iff.mpr ⟨hcheck, hbetween⟩, hkind⟩

/-! ## Creating directories -/

/-- Directories that cannot be created are not there in the end. -/
theorem not_isDirectory_of_makeChain {paths : List Path}
    (hpaths : paths.IsChain (fun path parent => Path.parent? path = some parent))
    {grown : FileTree} {cause : FileError} (h : tree.makeChain paths = (grown, .error cause)) :
    ∃ path ∈ paths.head?, path ≠ [] ∧ grown.isDirectory path = false := by
  induction paths with
  | nil => cases h
  | cons path parents ih =>
    refine ⟨path, rfl, ?_⟩
    rw [makeChain] at h
    split at h
    · cases h
    · next hne =>
      refine ⟨hne, ?_⟩
      split at h
      · cases h
      · split at h
        · next grown' cause' hparents =>
          cases h
          -- the parent would be a directory
          rcases ih hpaths.tail hparents with ⟨parent, hhead, hnil, hmissing⟩
          have hparent : Path.parent? path = some parent :=
            (List.isChain_cons.mp hpaths).1 parent hhead
          rw [Bool.eq_false_iff]
          intro hdirectory
          rcases isDirectory_eq_true_iff.mp hdirectory with ⟨location, hresolve, -⟩
          rw [isDirectory_parent hresolve hparent hnil] at hmissing
          cases hmissing
        · split at h
          · cases h
          · split at h
            · cases h
            · next hdirectory =>
              obtain ⟨rfl, -⟩ := Prod.mk.inj h
              rwa [Bool.not_eq_true] at hdirectory
      · split at h
        · cases h
        · next hdirectory =>
          obtain ⟨rfl, -⟩ := Prod.mk.inj h
          rwa [Bool.not_eq_true] at hdirectory

/-- **Creating a directory fails only if it is not there in the end.** -/
theorem not_isDirectory_of_makeDirectories {path : Path} {grown : FileTree} {cause : FileError}
    (h : tree.makeDirectories path = (grown, .error cause)) :
    path ≠ [] ∧ grown.isDirectory path = false := by
  rcases Path.isChain_ancestorsUpTo path.length path with ⟨hchain, hhead⟩
  rcases not_isDirectory_of_makeChain hchain h with ⟨first, hfirst, hmissing⟩
  rw [hhead] at hfirst
  rwa [Option.mem_some_iff.mp hfirst]

/-! ## Files that paths lead to -/

/-- The last component of a path that leads to a file is the name of the file. -/
theorem exists_place_of_resolve {path : Path} {location : Location} {content : Bytes}
    (h : tree.resolve path = .ok location)
    (hkind : tree.kind? location = some (.file content)) :
    ∃ directory name, tree.place? path = .ok (some ⟨directory, name, some (.file content)⟩) ∧
      (withoutTrailing path).2 = false ∧ name.length ≤ nameLimit ∧
      location = directory ++ [name] := by
  rw [resolve_eq_ok_iff] at h
  rcases h with ⟨hcheck, hwalk⟩
  cases hnames : Path.components path using List.reverseRecOn with
  | nil => exact absurd hnames (pieces_ne_nil Path.slash path)
  | append_singleton names name =>
    rw [hnames, walk_append, bind_eq_ok_iff] at hwalk
    rcases hwalk with ⟨directory, hwalk, henter⟩
    rw [walk_cons, bind_eq_ok_iff] at henter
    rcases henter with ⟨next, henter, heq⟩
    obtain rfl := Except.ok.inj heq
    rcases enter_eq_ok_iff.mp henter with ⟨hdirectory, hname⟩
    -- an idle component or a way back leads to a directory
    split at hname
    · rw [hname, hdirectory] at hkind
      cases hkind
    · next hidle =>
      split at hname
      · rw [hname, kind?_dropLast hdirectory] at hkind
        cases hkind
      · next hparent =>
        rcases hname with ⟨hlength, -, rfl⟩
        have hnil : name ≠ [] := by
          rintro rfl
          exact hidle rfl
        have htrailing : withoutTrailing path = (names ++ [name], false) := by
          simp [withoutTrailing, hnames, hnil]
        rcases kind?_eq_directory_iff.mp hdirectory with ⟨entries, hentries⟩
        have hfind : Entries.find? name entries = some (.file content) := by
          rw [kind?_append_singleton hentries] at hkind
          rcases Option.map_eq_some_iff.mp hkind with ⟨_ | inner, hfind, ⟨⟩⟩
          exact hfind
        refine ⟨directory, name, ?_, by rw [htrailing], hlength, rfl⟩
        simp only [place?, hcheck, htrailing, List.dropLast_concat, hwalk,
          directoryAt_eq_ok_iff.mpr hentries, List.getLast?_concat, bind, Except.bind]
        rw [if_neg (not_or.mpr ⟨hidle, hparent⟩), hfind]

/-- **A path that leads to a file can be written.** -/
theorem writeAt_of_resolve {path : Path} {location : Location} {content : Bytes}
    (h : tree.resolve path = .ok location) (hkind : tree.kind? location = some (.file content))
    (content' : Bytes) : ∃ written, tree.writeAt path content' = .ok written := by
  rcases exists_place_of_resolve h hkind with ⟨directory, name, hplace, htrailing, hlength, -⟩
  refine ⟨tree.put directory name (.file content'), ?_⟩
  simp only [writeAt, hplace, bind, Except.bind]
  rw [htrailing, if_neg Bool.false_ne_true, if_neg (Nat.not_lt.mpr hlength)]

theorem lookup_ne_file_of_writeAt {path : Path} {content : Bytes} {cause : FileError}
    (h : tree.writeAt path content = .error cause) (content' : Bytes) :
    tree.lookup path ≠ .ok (.file content') := by
  intro hlookup
  rcases lookup_eq_file_iff.mp hlookup with ⟨location, hresolve, hkind⟩
  rcases writeAt_of_resolve hresolve hkind content with ⟨written, hwrite⟩
  rw [hwrite] at h
  cases h

theorem contentAt_eq_ok_iff {path : Path} {content : Bytes} :
    tree.contentAt path = .ok content ↔ tree.lookup path = .ok (.file content) := by
  rw [contentAt, bind_eq_ok_iff]
  constructor
  · rintro ⟨node, hlookup, h⟩
    cases node with
    | file content => rw [hlookup, Except.ok.inj h]
    | directory entries => cases h
  · intro h
    exact ⟨_, h, rfl⟩

theorem textAt_eq_ok_iff {path : Path} {text : List Char} :
    tree.textAt path = .ok text ↔ tree.contentAt path = .ok (Utf8.encode text) := by
  rw [textAt, bind_eq_ok_iff]
  constructor
  · rintro ⟨content, hcontent, h⟩
    split at h
    · next text hdecode =>
      obtain rfl := Except.ok.inj h
      rwa [← Utf8.decode?_eq_some_iff.mp hdecode]
    · cases h
  · intro h
    refine ⟨_, h, ?_⟩
    rw [Utf8.decode?_eq_some_iff.mpr rfl]

theorem pathExists_eq_true_iff {path : Path} :
    tree.pathExists path = true ↔ ∃ node, tree.lookup path = .ok node := by
  rw [pathExists]
  split
  · next node hlookup => exact iff_of_true rfl ⟨node, hlookup⟩
  · next cause hlookup => simp [hlookup]

/-- **What was written to a path is what is read from it.** -/
theorem contentAt_of_writeAt {path : Path} {content : Bytes} {written : FileTree}
    (h : tree.writeAt path content = .ok written) : written.contentAt path = .ok content := by
  rcases exists_of_writeAt h with ⟨target, -, -, hkind, -, hresolve⟩
  rw [contentAt_eq_ok_iff, lookup_eq_file_iff]
  exact ⟨target, hresolve, by rw [hkind, if_pos rfl]⟩

end FileTree

end PowerCurve
