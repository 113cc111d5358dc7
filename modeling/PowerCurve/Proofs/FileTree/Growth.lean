import PowerCurve.Proofs.FileTree.Locations

/-!
# How file trees grow

Creating directories only adds to a tree (`makeDirectories_grows`), and only where the paths lead at
which they are created (`exists_mem_of_makeChain`). Writing a file changes what stands at one
location (`exists_of_writeAt`). In a tree that still has all the directories and something wherever
there was something, paths lead to the same locations as before (`Covers.resolve`).

The one surprise is `..`: a path that leads to nothing may lead to a file that was there all the
time as soon as the directory before a `..` exists. Without such a component it cannot
(`GrowsTo.resolve_of_noParent`).
-/

namespace PowerCurve.FileTree

open PowerCurve.Text

variable {tree tree' tree'' : FileTree}

/-! ## What remains -/

/-- The second tree has all the directories of the first, and something wherever the first has. -/
structure Covers (tree tree' : FileTree) : Prop where
  workingDirectory : tree'.workingDirectory = tree.workingDirectory
  directory : ∀ location, tree.kind? location = some .directory →
    tree'.kind? location = some .directory
  present : ∀ location, tree.kind? location ≠ none → tree'.kind? location ≠ none

theorem Covers.enter (h : Covers tree tree') {location location' : Location} {name : Name}
    (henter : tree.enter location name = .ok location') :
    tree'.enter location name = .ok location' := by
  rw [enter_eq_ok_iff] at henter ⊢
  rcases henter with ⟨hdirectory, hname⟩
  refine ⟨h.directory location hdirectory, ?_⟩
  split
  · next hidle => rwa [if_pos hidle] at hname
  · next hidle =>
    rw [if_neg hidle] at hname
    split
    · next hparent => rwa [if_pos hparent] at hname
    · next hparent =>
      rw [if_neg hparent] at hname
      exact ⟨hname.1, h.present _ hname.2.1, hname.2.2⟩

theorem Covers.walk (h : Covers tree tree') {names : List Name} {location location' : Location}
    (hwalk : tree.walk location names = .ok location') :
    tree'.walk location names = .ok location' := by
  induction names generalizing location with
  | nil => exact hwalk
  | cons name names ih =>
    rw [walk_cons, bind_eq_ok_iff] at hwalk ⊢
    rcases hwalk with ⟨next, henter, hwalk⟩
    exact ⟨next, h.enter henter, ih hwalk⟩

/-- **Paths go on leading where they led.** -/
theorem Covers.resolve (h : Covers tree tree') {path : Path} {location : Location}
    (hresolve : tree.resolve path = .ok location) : tree'.resolve path = .ok location := by
  rw [resolve_eq_ok_iff] at hresolve ⊢
  have hstart : tree'.start path = tree.start path := by
    rw [start, start, h.workingDirectory]
  rw [hstart]
  exact ⟨hresolve.1, h.walk hresolve.2⟩

theorem Covers.trans (h : Covers tree tree') (h' : Covers tree' tree'') : Covers tree tree'' :=
  ⟨h'.workingDirectory.trans h.workingDirectory,
    fun location hdirectory => h'.directory location (h.directory location hdirectory),
    fun location hpresent => h'.present location (h.present location hpresent)⟩

/-! ## Growth -/

/-- The second tree is the first with more directories. -/
structure GrowsTo (tree tree' : FileTree) : Prop where
  workingDirectory : tree'.workingDirectory = tree.workingDirectory
  kind? : ∀ location, tree'.kind? location = tree.kind? location ∨
    tree.kind? location = none ∧ tree'.kind? location = some .directory

theorem GrowsTo.refl (tree : FileTree) : GrowsTo tree tree :=
  ⟨rfl, fun _ => .inl rfl⟩

theorem GrowsTo.trans (h : GrowsTo tree tree') (h' : GrowsTo tree' tree'') :
    GrowsTo tree tree'' := by
  refine ⟨h'.workingDirectory.trans h.workingDirectory, ?_⟩
  intro location
  rcases h'.kind? location with heq' | ⟨hnone, hdirectory⟩
  · rw [heq']
    exact h.kind? location
  · rcases h.kind? location with heq | ⟨hnone', -⟩
    · exact .inr ⟨heq ▸ hnone, hdirectory⟩
    · exact .inr ⟨hnone', hdirectory⟩

/-- What is there stays there. -/
theorem GrowsTo.kind?_eq (h : GrowsTo tree tree') {location : Location}
    (hkind : tree.kind? location ≠ none) : tree'.kind? location = tree.kind? location := by
  rcases h.kind? location with heq | ⟨hnone, -⟩
  · exact heq
  · exact absurd hnone hkind

theorem GrowsTo.covers (h : GrowsTo tree tree') : Covers tree tree' := by
  refine ⟨h.workingDirectory, ?_, ?_⟩
  · intro location hdirectory
    rw [h.kind?_eq (by rw [hdirectory]; nofun), hdirectory]
  · intro location hpresent
    rwa [h.kind?_eq hpresent]

/-! ## Places -/

/-- A place is a new name in a directory to which the rest of the path leads. -/
theorem exists_of_place? {path : Path} {place : Place} (h : tree.place? path = .ok (some place)) :
    checkPath path = .ok () ∧ ∃ names entries,
      (withoutTrailing path).1 = names ++ [place.name] ∧
      tree.walk (tree.start path) names = .ok place.directory ∧
      tree.get? place.directory = some (.directory entries) ∧
      ¬ Path.isIdle place.name ∧ place.name ≠ Path.dotDot ∧
      place.present = Entries.find? place.name entries := by
  simp only [place?, bind_eq_ok_iff, directoryAt_eq_ok_iff] at h
  rcases h with ⟨u, hcheck, directory, hwalk, entries, hentries, h⟩
  split at h
  · cases h
  · next name hlast =>
    split at h
    · cases h
    · next hname =>
      cases h
      rw [not_or] at hname
      have hnames : (withoutTrailing path).1.dropLast ++ [name] = (withoutTrailing path).1 :=
        List.dropLast_append_getLast? name hlast
      exact ⟨hcheck, _, entries, hnames.symm, hwalk, hentries, hname.1, hname.2, rfl⟩

/-! ## Slashes at the end of a path -/

theorem withoutTrailing_eq {path : Path} (h : (withoutTrailing path).2 = false) :
    (withoutTrailing path).1 = Path.components path := by
  simp only [withoutTrailing, decide_eq_false_iff_not] at h
  rw [withoutTrailing]
  cases hnames : (Path.components path).reverse with
  | nil => rw [List.dropWhile_nil, ← hnames, List.reverse_reverse]
  | cons name names =>
    have hdrop : (name :: names).dropWhile (fun name => decide (name = [])) = name :: names := by
      rw [hnames] at h
      exact List.dropWhile_cons_of_neg (by simpa using h)
    rw [hdrop, ← hnames, List.reverse_reverse]

/-- What is left out at the end of a path leads nowhere. -/
theorem exists_components_eq (path : Path) :
    ∃ idle, Path.components path = (withoutTrailing path).1 ++ idle ∧
      ∀ name ∈ idle, Path.isIdle name = true := by
  refine ⟨((Path.components path).reverse.takeWhile (· = [])).reverse, ?_, ?_⟩
  · rw [withoutTrailing, ← List.reverse_append, List.takeWhile_append_dropWhile,
      List.reverse_reverse]
  · intro name hmem
    have hempty := List.all_eq_true.mp List.all_takeWhile name (List.mem_reverse.mp hmem)
    rw [of_decide_eq_true hempty]
    rfl

/-- Idle components lead from a directory to itself. -/
theorem walk_of_idle {location : Location} (hkind : tree.kind? location = some .directory)
    {names : List Name} (hnames : ∀ name ∈ names, Path.isIdle name = true) :
    tree.walk location names = .ok location := by
  induction names with
  | nil => rfl
  | cons name names ih =>
    have henter : tree.enter location name = .ok location := by
      rw [enter_eq_ok_iff, if_pos (hnames name List.mem_cons_self)]
      exact ⟨hkind, rfl⟩
    rw [walk_cons, henter]
    exact ih fun n hmem => hnames n (List.mem_cons_of_mem name hmem)

/-- A path leads to its place, the slashes at its end aside, as soon as something stands there. -/
theorem Covers.walk_of_place? (h : Covers tree tree') {path : Path} {place : Place}
    (hplace : tree.place? path = .ok (some place)) (hlength : place.name.length ≤ nameLimit)
    (hkind : tree'.kind? (place.directory ++ [place.name]) ≠ none) :
    checkPath path = .ok () ∧ tree'.walk (tree'.start path) (withoutTrailing path).1 =
      .ok (place.directory ++ [place.name]) := by
  rcases exists_of_place? hplace with
    ⟨hcheck, names, entries, hnames, hwalk, hentries, hidle, hparent, -⟩
  have hdirectory : tree'.kind? place.directory = some .directory :=
    h.directory _ (kind?_eq_directory_iff.mpr ⟨entries, hentries⟩)
  have henter : tree'.enter place.directory place.name =
      .ok (place.directory ++ [place.name]) := by
    rw [enter_eq_ok_iff, if_neg hidle, if_neg hparent]
    exact ⟨hdirectory, hlength, hkind, rfl⟩
  have hstart : tree'.start path = tree.start path := by
    rw [start, start, h.workingDirectory]
  refine ⟨hcheck, ?_⟩
  rw [hnames, walk_append, bind_eq_ok_iff, hstart]
  refine ⟨place.directory, h.walk hwalk, ?_⟩
  rw [walk_cons, henter]
  rfl

/-! ## Creating directories -/

/-- A new directory takes a place where nothing stands. -/
theorem exists_place_of_makeDirectory {path : Path} {made : FileTree}
    (h : tree.makeDirectory path = .ok made) :
    ∃ place, tree.place? path = .ok (some place) ∧ place.name.length ≤ nameLimit ∧
      place.present = none ∧ made = tree.put place.directory place.name (.directory []) := by
  rw [makeDirectory, bind_eq_ok_iff] at h
  rcases h with ⟨found, hplace, h⟩
  cases found with
  | none => cases h
  | some place =>
    simp only at h
    split at h
    · cases h
    · next hlength =>
      split at h
      · cases h
      · next hnone =>
        exact ⟨place, hplace, Nat.le_of_not_lt hlength, hnone, (Except.ok.inj h).symm⟩

/-- **Creating a directory adds it where nothing stood**, and the path leads to it. -/
theorem exists_of_makeDirectory {path : Path} {made : FileTree}
    (h : tree.makeDirectory path = .ok made) :
    ∃ target, tree.kind? target = none ∧
      (∀ location, made.kind? location =
        if location = target then some .directory else tree.kind? location) ∧
      GrowsTo tree made ∧ made.resolve path = .ok target := by
  rcases exists_place_of_makeDirectory h with ⟨place, hplace, hlength, hnone, rfl⟩
  rcases exists_of_place? hplace with ⟨-, names, entries, -, -, hentries, -, -, hpresent⟩
  rw [hpresent] at hnone
  have habsent : tree.kind? (place.directory ++ [place.name]) = none := by
    rw [kind?_append_singleton hentries, hnone]
    rfl
  have hold : ∀ old, Entries.find? place.name entries = some old → old.IsLeaf := by
    intro old hfind
    rw [hnone] at hfind
    cases hfind
  have hkind : ∀ location, (tree.put place.directory place.name (.directory [])).kind? location =
      if location = place.directory ++ [place.name] then some .directory
      else tree.kind? location :=
    kind?_put Node.isLeaf_directory_nil hentries hold
  have hgrows : GrowsTo tree (tree.put place.directory place.name (.directory [])) := by
    refine ⟨rfl, ?_⟩
    intro location
    rw [hkind]
    split
    · next heq => exact .inr ⟨heq ▸ habsent, rfl⟩
    · exact .inl rfl
  refine ⟨place.directory ++ [place.name], habsent, hkind, hgrows, ?_⟩
  have htarget := (hkind (place.directory ++ [place.name])).trans (if_pos rfl)
  rcases hgrows.covers.walk_of_place? hplace hlength (by rw [htarget]; nofun) with
    ⟨hcheck, hwalk⟩
  rcases exists_components_eq path with ⟨idle, hcomponents, hidle⟩
  rw [resolve_eq_ok_iff, hcomponents, walk_append, hwalk]
  exact ⟨hcheck, walk_of_idle htarget hidle⟩

/-- A new directory adds itself to a tree. -/
theorem makeDirectory_grows {path : Path} {made : FileTree}
    (h : tree.makeDirectory path = .ok made) : GrowsTo tree made := by
  rcases exists_of_makeDirectory h with ⟨target, -, -, hgrows, -⟩
  exact hgrows

/-- The directory that is made is where its path leads. -/
theorem resolve_of_makeDirectory {path : Path} {made : FileTree} {location : Location}
    (h : tree.makeDirectory path = .ok made) (hnone : tree.kind? location = none)
    (hnew : made.kind? location ≠ none) : made.resolve path = .ok location := by
  rcases exists_of_makeDirectory h with ⟨target, -, hkind, -, hresolve⟩
  rw [hkind] at hnew
  split at hnew
  · next heq => rwa [heq]
  · exact absurd hnone hnew

/-- Creating directories only adds to a tree, also if it fails halfway. -/
theorem makeChain_grows (paths : List Path) : GrowsTo tree (tree.makeChain paths).1 := by
  induction paths with
  | nil => exact .refl tree
  | cons path parents ih =>
    rw [makeChain]
    split
    · exact .refl tree
    · split
      · next made hmade => exact makeDirectory_grows hmade
      · -- the parents come first, then the directory is tried again
        split
        · next grown cause hparents =>
          rw [hparents] at ih
          exact ih
        · next grown hparents =>
          rw [hparents] at ih
          split
          · next made hmade => exact ih.trans (makeDirectory_grows hmade)
          · exact ih
      · exact .refl tree

theorem makeDirectories_grows (path : Path) : GrowsTo tree (tree.makeDirectories path).1 :=
  makeChain_grows (Path.ancestors path)

/-- **New directories are where the paths lead** at which they are created. -/
theorem exists_mem_of_makeChain {paths : List Path} {grown : FileTree}
    {outcome : Except FileError Unit} (h : tree.makeChain paths = (grown, outcome))
    {location : Location} (hnone : tree.kind? location = none)
    (hnew : grown.kind? location ≠ none) :
    ∃ path ∈ paths, grown.resolve path = .ok location := by
  induction paths generalizing grown outcome with
  | nil =>
    obtain ⟨rfl, -⟩ := Prod.mk.inj h
    exact absurd hnone hnew
  | cons path parents ih =>
    rw [makeChain] at h
    split at h
    · obtain ⟨rfl, -⟩ := Prod.mk.inj h
      exact absurd hnone hnew
    · split at h
      · next made hmade =>
        obtain ⟨rfl, -⟩ := Prod.mk.inj h
        exact ⟨path, List.mem_cons_self, resolve_of_makeDirectory hmade hnone hnew⟩
      · -- the directory is new among the parents already, or it is made after them
        split at h
        · next hparents =>
          obtain ⟨rfl, -⟩ := Prod.mk.inj h
          rcases ih hparents hnew with ⟨parent, hmem, hresolve⟩
          exact ⟨parent, List.mem_cons_of_mem path hmem, hresolve⟩
        · next between hparents =>
          by_cases hbetween : between.kind? location = none
          · split at h
            · next made hmade =>
              obtain ⟨rfl, -⟩ := Prod.mk.inj h
              exact ⟨path, List.mem_cons_self, resolve_of_makeDirectory hmade hbetween hnew⟩
            · obtain ⟨rfl, -⟩ := Prod.mk.inj h
              exact absurd hbetween hnew
          · rcases ih hparents hbetween with ⟨parent, hmem, hresolve⟩
            refine ⟨parent, List.mem_cons_of_mem path hmem, ?_⟩
            split at h
            · next made hmade =>
              obtain ⟨rfl, -⟩ := Prod.mk.inj h
              exact (makeDirectory_grows hmade).covers.resolve hresolve
            · obtain ⟨rfl, -⟩ := Prod.mk.inj h
              exact hresolve
      · obtain ⟨rfl, -⟩ := Prod.mk.inj h
        exact absurd hnone hnew

/-! ## Writing -/

/-- A file takes a place where no directory stands. -/
theorem exists_place_of_writeAt {path : Path} {content : Bytes} {written : FileTree}
    (h : tree.writeAt path content = .ok written) :
    ∃ place, tree.place? path = .ok (some place) ∧ (withoutTrailing path).2 = false ∧
      place.name.length ≤ nameLimit ∧ (∀ inner, place.present ≠ some (.directory inner)) ∧
      written = tree.put place.directory place.name (.file content) := by
  rw [writeAt, bind_eq_ok_iff] at h
  rcases h with ⟨found, hplace, h⟩
  cases found with
  | none => cases h
  | some place =>
    simp only at h
    split at h
    · cases h
    · next htrailing =>
      rw [Bool.not_eq_true] at htrailing
      split at h
      · cases h
      · next hlength =>
        split at h
        · cases h
        · next hnode =>
          exact ⟨place, hplace, htrailing, Nat.le_of_not_lt hlength, hnode,
            (Except.ok.inj h).symm⟩

/-- A path without a slash at its end leads to its place as soon as something stands there. -/
theorem Covers.resolve_of_place? (h : Covers tree tree') {path : Path} {place : Place}
    (hplace : tree.place? path = .ok (some place)) (htrailing : (withoutTrailing path).2 = false)
    (hlength : place.name.length ≤ nameLimit)
    (hkind : tree'.kind? (place.directory ++ [place.name]) ≠ none) :
    tree'.resolve path = .ok (place.directory ++ [place.name]) := by
  have hwalk := h.walk_of_place? hplace hlength hkind
  rw [withoutTrailing_eq htrailing] at hwalk
  exact resolve_eq_ok_iff.mpr hwalk

/-- A tree still covers another one if no directory of it is replaced. -/
theorem covers_of_kind? {target : Location} {kind : Kind}
    (hworking : tree'.workingDirectory = tree.workingDirectory)
    (htarget : tree.kind? target ≠ some .directory)
    (hkind : ∀ location, tree'.kind? location =
      if location = target then some kind else tree.kind? location) : Covers tree tree' := by
  refine ⟨hworking, ?_, ?_⟩
  · intro location hdirectory
    have hne : location ≠ target := by
      rintro rfl
      exact htarget hdirectory
    rw [hkind, if_neg hne, hdirectory]
  · intro location hpresent
    rw [hkind]
    split
    · nofun
    · exact hpresent

/-- **Writing changes what stands at one location**, which is no directory, and the path leads to
it. If something stands there already, the path leads to it before the writing too. -/
theorem exists_of_writeAt {path : Path} {content : Bytes} {written : FileTree}
    (h : tree.writeAt path content = .ok written) :
    ∃ target, written.workingDirectory = tree.workingDirectory ∧
      tree.kind? target ≠ some .directory ∧
      (∀ location, written.kind? location =
        if location = target then some (.file content) else tree.kind? location) ∧
      (tree.kind? target ≠ none → tree.resolve path = .ok target) ∧
      written.resolve path = .ok target := by
  rcases exists_place_of_writeAt h with ⟨place, hplace, htrailing, hlength, hnode, rfl⟩
  rcases exists_of_place? hplace with ⟨-, names, entries, -, -, hentries, -, -, hpresent⟩
  rw [hpresent] at hnode
  have hdirectory : tree.kind? (place.directory ++ [place.name]) ≠ some .directory := by
    rw [kind?_append_singleton hentries]
    intro hkind
    rcases Option.map_eq_some_iff.mp hkind with ⟨_ | inner, hfind, ⟨⟩⟩
    exact hnode inner hfind
  have hold : ∀ old, Entries.find? place.name entries = some old → old.IsLeaf := by
    intro old hfind
    cases old with
    | file content => exact Node.isLeaf_file content
    | directory inner => exact absurd hfind (hnode inner)
  have hkind : ∀ location, (tree.put place.directory place.name (.file content)).kind? location =
      if location = place.directory ++ [place.name] then some (.file content)
      else tree.kind? location :=
    kind?_put (Node.isLeaf_file content) hentries hold
  refine ⟨place.directory ++ [place.name], rfl, hdirectory, hkind, ?_, ?_⟩
  · exact (GrowsTo.refl tree).covers.resolve_of_place? hplace htrailing hlength
  · have hcovers : Covers tree (tree.put place.directory place.name (.file content)) :=
      covers_of_kind? rfl hdirectory hkind
    refine hcovers.resolve_of_place? hplace htrailing hlength ?_
    rw [hkind, if_pos rfl]
    nofun

/-- A tree still covers another one after a file has been written to it. -/
theorem covers_of_writeAt {path : Path} {content : Bytes} {written : FileTree}
    (h : tree.writeAt path content = .ok written) : tree.Covers written := by
  rcases exists_of_writeAt h with ⟨target, hworking, htarget, hkind, -⟩
  exact covers_of_kind? hworking htarget hkind

/-! ## Paths without a way back -/

theorem kind?_ne_none_of_append {location rest : Location}
    (h : tree.kind? (location ++ rest) ≠ none) : tree.kind? location ≠ none := by
  by_cases hrest : rest = []
  · rwa [hrest, List.append_nil] at h
  · have hkind : tree.kind? location = some .directory := Entries.kind?_of_kind?_append hrest h
    rw [hkind]
    nofun

/-- Without `..` a path leads further down only. -/
theorem exists_append_of_enter {location location' : Location} {name : Name}
    (hname : name ≠ Path.dotDot) (h : tree.enter location name = .ok location') :
    ∃ rest, location' = location ++ rest := by
  rw [enter_eq_ok_iff] at h
  rcases h with ⟨-, h⟩
  split at h
  · exact ⟨[], by rw [h, List.append_nil]⟩
  · exact ⟨[name], h.2.2⟩

theorem exists_append_of_walk {names : List Name} (hnames : Path.dotDot ∉ names)
    {location location' : Location} (h : tree.walk location names = .ok location') :
    ∃ rest, location' = location ++ rest := by
  induction names generalizing location with
  | nil =>
    obtain rfl := Except.ok.inj h
    exact ⟨[], (List.append_nil location).symm⟩
  | cons name names ih =>
    rw [List.mem_cons, not_or] at hnames
    rw [walk_cons, bind_eq_ok_iff] at h
    rcases h with ⟨next, henter, hwalk⟩
    rcases exists_append_of_enter (Ne.symm hnames.1) henter with ⟨rest, rfl⟩
    rcases ih hnames.2 hwalk with ⟨rest', rfl⟩
    exact ⟨rest ++ rest', List.append_assoc location rest rest'⟩

/-- Where new directories lead the way to something old, the old ones did already. -/
theorem GrowsTo.walk_of_noParent (h : GrowsTo tree tree') {names : List Name}
    (hnames : Path.dotDot ∉ names) {location location' : Location}
    (hwalk : tree'.walk location names = .ok location') (hkind : tree.kind? location' ≠ none) :
    tree.walk location names = .ok location' := by
  induction names generalizing location with
  | nil => exact hwalk
  | cons name names ih =>
    rw [List.mem_cons, not_or] at hnames
    rw [walk_cons, bind_eq_ok_iff] at hwalk ⊢
    rcases hwalk with ⟨next, henter, hwalk⟩
    refine ⟨next, ?_, ih hnames.2 hwalk⟩
    -- all that lies on the way to an old location is old
    have hnext : tree.kind? next ≠ none := by
      rcases exists_append_of_walk hnames.2 hwalk with ⟨rest, rfl⟩
      exact kind?_ne_none_of_append hkind
    have hlocation : tree.kind? location ≠ none := by
      rcases exists_append_of_enter (Ne.symm hnames.1) henter with ⟨rest, rfl⟩
      exact kind?_ne_none_of_append hnext
    rw [enter_eq_ok_iff] at henter ⊢
    rw [← h.kind?_eq hlocation]
    refine ⟨henter.1, ?_⟩
    have hname := henter.2
    split
    · next hidle => rwa [if_pos hidle] at hname
    · next hidle =>
      rw [if_neg hidle, if_neg (Ne.symm hnames.1)] at hname
      rw [if_neg (Ne.symm hnames.1)]
      exact ⟨hname.1, hname.2.2 ▸ hnext, hname.2.2⟩

/-- **Without `..`, new directories lead to nothing old.** -/
theorem GrowsTo.resolve_of_noParent (h : GrowsTo tree tree') {path : Path}
    (hpath : Path.dotDot ∉ Path.components path) {location : Location}
    (hresolve : tree'.resolve path = .ok location) (hkind : tree.kind? location ≠ none) :
    tree.resolve path = .ok location := by
  rw [resolve_eq_ok_iff] at hresolve ⊢
  have hstart : tree'.start path = tree.start path := by
    rw [start, start, h.workingDirectory]
  rw [hstart] at hresolve
  exact ⟨hresolve.1, h.walk_of_noParent hpath hresolve.2 hkind⟩

end PowerCurve.FileTree
