import Mathlib.Tactic.Common
import PowerCurve.FileTree.Basic
import PowerCurve.Proofs.Steps

/-!
# What stands where

`FileTree.kind?` is the view of a file tree: at each location there is a file with its content, a
directory, or nothing. Setting an entry changes the view at one location (`kind?_put`), and all that
an operation on a path asks of a tree it asks of the view (`enter_eq_ok_iff`,
`lookup_eq_file_iff`).
-/

namespace PowerCurve

open PowerCurve.Text

/-- What a node is, without the entries of a directory. -/
inductive Kind where
  | file (content : Bytes)
  | directory
deriving DecidableEq

/-- What a node is. -/
def Node.kind : Node → Kind
  | .file content => .file content
  | .directory _ => .directory

/-- What stands at a location below a node. -/
def Node.kindAt? (location : Location) : Node → Option Kind
  | .file content => if location = [] then some (.file content) else none
  | .directory entries => (Entries.get? location entries).map Node.kind

/-- Nothing stands below the node. -/
def Node.IsLeaf (node : Node) : Prop :=
  ∀ location, location ≠ [] → node.kindAt? location = none

theorem Node.kindAt?_nil (node : Node) : node.kindAt? [] = some node.kind := by
  cases node <;> rfl

theorem Node.isLeaf_file (content : Bytes) : (Node.file content).IsLeaf := by
  intro location h
  exact if_neg h

theorem Node.isLeaf_directory_nil : (Node.directory []).IsLeaf := by
  intro location h
  cases location with
  | nil => exact absurd rfl h
  | cons name rest => rfl

/-! ## Entries -/

namespace Entries

theorem find?_put (name : Name) (node : Node) (entries : Entries) (n : Name) :
    find? n (put name node entries) = if n = name then some node else find? n entries := by
  induction entries with
  | nil => simp [put, find?, eq_comm]
  | cons entry rest ih =>
    rcases entry with ⟨m, old⟩
    rw [put]
    split
    · next hm =>
      by_cases hn : n = name
      · simp [find?, hn]
      · simp [find?, hn, hm, Ne.symm hn]
    · next hm =>
      rw [find?, ih, find?]
      by_cases hn : n = name
      · simp [hn, hm]
      · simp [hn]

/-- What stands at a location below some entries. -/
def kind? (location : Location) (entries : Entries) : Option Kind :=
  (get? location entries).map Node.kind

theorem kind?_nil (entries : Entries) : kind? [] entries = some .directory := rfl

theorem kind?_cons (name : Name) (rest : Location) (entries : Entries) :
    kind? (name :: rest) entries = (find? name entries).bind (Node.kindAt? rest) := by
  rw [kind?, get?]
  cases find? name entries with
  | none => rfl
  | some node =>
    cases node with
    | file content =>
      simp only [Option.bind_some, Node.kindAt?]
      split <;> rfl
    | directory inner => rfl

/-- Setting an entry changes what stands at its location and nothing else, if nothing stands below
the new node and the old one. -/
theorem kind?_modify_put {name : Name} {node : Node} (hnode : node.IsLeaf) {directory : Location}
    {entries inner : Entries} (hdirectory : get? directory entries = some (.directory inner))
    (hold : ∀ old, find? name inner = some old → old.IsLeaf) (location : Location) :
    kind? location (modify (put name node) directory entries) =
      if location = directory ++ [name] then some node.kind else kind? location entries := by
  induction directory generalizing entries location with
  | nil =>
    obtain rfl : entries = inner := by simpa [get?] using hdirectory
    rw [modify, List.nil_append]
    cases location with
    | nil => rfl
    | cons n rest =>
      rw [kind?_cons, find?_put, kind?_cons]
      by_cases hn : n = name
      · subst hn
        by_cases hrest : rest = []
        · simp [hrest, Node.kindAt?_nil]
        · have hnone : (find? n entries).bind (Node.kindAt? rest) = none := by
            rw [Option.bind_eq_none_iff]
            intro old hfind
            exact hold old hfind rest hrest
          simp [hrest, hnone, hnode rest hrest]
      · simp [hn]
  | cons d directory ih =>
    -- only the entry on the way changes, and in it the rest of the location
    obtain ⟨sub, hfind, hsub⟩ : ∃ sub, find? d entries = some (.directory sub) ∧
        get? directory sub = some (.directory inner) := by
      rw [get?] at hdirectory
      split at hdirectory
      · cases hdirectory
      · split at hdirectory <;> cases hdirectory
      · next sub hfind => exact ⟨sub, hfind, hdirectory⟩
    have hmodify : modify (put name node) (d :: directory) entries =
        put d (.directory (modify (put name node) directory sub)) entries := by
      rw [modify, hfind]
    rw [hmodify]
    cases location with
    | nil => rfl
    | cons n rest =>
      rw [kind?_cons, find?_put, kind?_cons]
      by_cases hn : n = d
      · subst hn
        have hrest := ih hsub rest
        simp only [kind?] at hrest
        simp [hfind, Node.kindAt?, hrest]
      · simp [hn]

/-- What stands below a directory. -/
theorem get?_append {location : Location} {entries inner : Entries}
    (h : get? location entries = some (.directory inner)) (rest : Location) :
    get? (location ++ rest) entries = get? rest inner := by
  induction location generalizing entries with
  | nil =>
    obtain rfl : entries = inner := by simpa [get?] using h
    rfl
  | cons name location ih =>
    rw [get?] at h
    rw [List.cons_append, get?]
    split at h
    · cases h
    · split at h <;> cases h
    · next sub hfind =>
      exact ih h

/-- Nothing stands below a file or below nothing. -/
theorem kind?_of_kind?_append {location rest : Location} {entries : Entries} (hrest : rest ≠ [])
    (h : kind? (location ++ rest) entries ≠ none) : kind? location entries = some .directory := by
  induction location generalizing entries with
  | nil => rfl
  | cons name location ih =>
    rw [List.cons_append, kind?_cons] at h
    rw [kind?_cons]
    cases hfind : find? name entries with
    | none =>
      rw [hfind] at h
      exact absurd rfl h
    | some node =>
      rw [hfind, Option.bind_some] at h
      cases node with
      | file content =>
        have hne : location ++ rest ≠ [] := by simp [hrest]
        exact absurd (if_neg hne) h
      | directory inner => exact ih h

end Entries

/-! ## Locations -/

namespace FileTree

variable {tree : FileTree}

/-- What stands at a location. -/
def kind? (tree : FileTree) (location : Location) : Option Kind :=
  Entries.kind? location tree.entries

theorem kind?_eq_file_iff {location : Location} {content : Bytes} :
    tree.kind? location = some (.file content) ↔ tree.get? location = some (.file content) := by
  rw [kind?, Entries.kind?, ← get?]
  cases tree.get? location with
  | none => simp
  | some node => cases node <;> simp [Node.kind]

theorem kind?_eq_directory_iff {location : Location} :
    tree.kind? location = some .directory ↔
      ∃ entries, tree.get? location = some (.directory entries) := by
  rw [kind?, Entries.kind?, ← get?]
  cases tree.get? location with
  | none => simp
  | some node => cases node <;> simp [Node.kind]

/-- An entry of a directory stands below it. -/
theorem kind?_append_singleton {location : Location} {entries : Entries}
    (h : tree.get? location = some (.directory entries)) (name : Name) :
    tree.kind? (location ++ [name]) = (Entries.find? name entries).map Node.kind := by
  have hkind : tree.kind? (location ++ [name]) = Entries.kind? [name] entries := by
    rw [kind?, Entries.kind?, Entries.get?_append h, Entries.kind?]
  rw [hkind, Entries.kind?_cons]
  cases Entries.find? name entries with
  | none => rfl
  | some node => exact node.kindAt?_nil

/-- Setting an entry changes what stands at its location and nothing else. -/
theorem kind?_put {directory : Location} {name : Name} {node : Node} {inner : Entries}
    (hnode : node.IsLeaf) (hdirectory : tree.get? directory = some (.directory inner))
    (hold : ∀ old, Entries.find? name inner = some old → old.IsLeaf) (location : Location) :
    (tree.put directory name node).kind? location =
      if location = directory ++ [name] then some node.kind else tree.kind? location :=
  Entries.kind?_modify_put hnode hdirectory hold location

/-! ## Paths -/

theorem directoryAt_eq_ok_iff {location : Location} {entries : Entries} :
    tree.directoryAt location = .ok entries ↔
      tree.get? location = some (.directory entries) := by
  unfold directoryAt
  split <;> simp [*]

/-- One component leads on from a directory only, and to something that stands there. -/
theorem enter_eq_ok_iff {location location' : Location} {name : Name} :
    tree.enter location name = .ok location' ↔
      tree.kind? location = some .directory ∧
      if Path.isIdle name then location' = location
      else if name = Path.dotDot then location' = location.dropLast
      else name.length ≤ nameLimit ∧ tree.kind? (location ++ [name]) ≠ none ∧
        location' = location ++ [name] := by
  simp only [enter, bind_eq_ok_iff, directoryAt_eq_ok_iff, kind?_eq_directory_iff]
  constructor
  · rintro ⟨entries, hentries, h⟩
    refine ⟨⟨entries, hentries⟩, ?_⟩
    rw [kind?_append_singleton hentries]
    split at h
    · next hidle =>
      rw [if_pos hidle]
      exact (Except.ok.inj h).symm
    · next hidle =>
      rw [if_neg hidle]
      split at h
      · next hparent =>
        rw [if_pos hparent]
        exact (Except.ok.inj h).symm
      · next hparent =>
        rw [if_neg hparent]
        split at h
        · cases h
        · next hlength =>
          split at h
          · cases h
          · next node hfind =>
            rw [hfind]
            exact ⟨Nat.le_of_not_lt hlength, nofun, (Except.ok.inj h).symm⟩
  · rintro ⟨⟨entries, hentries⟩, h⟩
    refine ⟨entries, hentries, ?_⟩
    rw [kind?_append_singleton hentries] at h
    split at h
    · next hidle => rw [if_pos hidle, h]
    · next hidle =>
      rw [if_neg hidle]
      split at h
      · next hparent => rw [if_pos hparent, h]
      · next hparent =>
        rcases h with ⟨hlength, hfind, rfl⟩
        rw [if_neg hparent, if_neg (Nat.not_lt.mpr hlength)]
        cases hnode : Entries.find? name entries with
        | none =>
          rw [hnode] at hfind
          exact absurd rfl hfind
        | some node => rfl

theorem walk_cons (location : Location) (name : Name) (names : List Name) :
    tree.walk location (name :: names) = (do
      let location ← tree.enter location name
      tree.walk location names) := rfl

/-- The components of a path lead on one after the other. -/
theorem walk_append (location : Location) (names names' : List Name) :
    tree.walk location (names ++ names') = (do
      let location ← tree.walk location names
      tree.walk location names') := by
  induction names generalizing location with
  | nil => rfl
  | cons name names ih =>
    rw [List.cons_append, walk_cons, walk_cons, bind_assoc]
    exact bind_congr ih

theorem resolve_eq_ok_iff {path : Path} {location : Location} :
    tree.resolve path = .ok location ↔
      checkPath path = .ok () ∧
        tree.walk (tree.start path) (Path.components path) = .ok location := by
  simp only [resolve, bind_eq_ok_iff]
  constructor
  · rintro ⟨u, hcheck, hwalk⟩
    exact ⟨hcheck, hwalk⟩
  · intro h
    exact ⟨(), h.1, h.2⟩

theorem lookup_eq_ok_iff {path : Path} {node : Node} :
    tree.lookup path = .ok node ↔
      ∃ location, tree.resolve path = .ok location ∧ tree.get? location = some node := by
  simp only [lookup, bind_eq_ok_iff]
  constructor
  · rintro ⟨location, hresolve, h⟩
    refine ⟨location, hresolve, ?_⟩
    split at h
    · next found hfound =>
      rw [hfound, Except.ok.inj h]
    · cases h
  · rintro ⟨location, hresolve, h⟩
    refine ⟨location, hresolve, ?_⟩
    rw [h]

/-- A path leads to a file if it resolves to the location of one. -/
theorem lookup_eq_file_iff {path : Path} {content : Bytes} :
    tree.lookup path = .ok (.file content) ↔
      ∃ location, tree.resolve path = .ok location ∧
        tree.kind? location = some (.file content) := by
  simp only [lookup_eq_ok_iff, kind?_eq_file_iff]

theorem pathExists_of_resolve {path : Path} {location : Location}
    (h : tree.resolve path = .ok location) (hkind : tree.kind? location ≠ none) :
    tree.pathExists path = true := by
  cases hget : tree.get? location with
  | none =>
    rw [kind?, Entries.kind?, ← get?, hget] at hkind
    exact absurd rfl hkind
  | some node =>
    have hlookup : tree.lookup path = .ok node := lookup_eq_ok_iff.mpr ⟨location, h, hget⟩
    rw [pathExists, hlookup]

end FileTree

end PowerCurve
