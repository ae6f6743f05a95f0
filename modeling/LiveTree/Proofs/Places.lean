import LiveTree.Node
import LiveTree.Proofs.Nodes
import LiveTree.Proofs.Paths

/-!
# Where nodes are

Seen through segments, a built-in node has a *place*, which is its directory, and names there. A
node with one file holds one name, and claims that one. A key store holds the names of its keys, and
claims every name there can be. What a node answers about a path compares the path with its place:

* it covers the path when the path is a beginning of its place (`coversDirectory_ofSegments`);
* the path is a file of it when it is the place and a claimed name (`matchesFile_ofSegments`);
* the names it lists under the path are the held ones if the path is the place, and else the next
  segment on the way there (`mem_children_ofSegments`).
-/

namespace LiveTree

open LiveTree.Path (AreSegments IsSegment ofSegments)

variable {σ ε : Type}

/-! ## Directories -/

/-- The segments of the directory now. -/
def Directory.place (d : Directory σ) (s : σ) : List String := Path.segments (d.resolve s)

theorem Directory.canonical_resolve (d : Directory σ) (s : σ) : Path.Canonical (d.resolve s) := by
  cases d with
  | fixed text => exact Path.canonical_clean text
  | moving text => exact Path.canonical_clean (text s)

theorem Directory.areSegments_place (d : Directory σ) (s : σ) : AreSegments (d.place s) :=
  (d.canonical_resolve s).areSegments

theorem Directory.resolve_eq (d : Directory σ) (s : σ) :
    d.resolve s = ofSegments (d.place s) :=
  (d.canonical_resolve s).ofSegments_segments.symm

section Directory

variable {d : Directory σ} {s : σ} {segs : List String} {name : String}

/-- A path is the directory or lies above it when it is a beginning of the place. -/
theorem Directory.isAncestorOrSelf_clean (h : AreSegments segs) :
    Path.isAncestorOrSelf (Path.clean (ofSegments segs)) (d.resolve s) = true ↔
      segs <+: d.place s := by
  rw [Path.clean_ofSegments h, d.resolve_eq]
  exact Path.isAncestorOrSelf_ofSegments h (d.areSegments_place s)

/-- The names that a node with the names `own` in its directory lists under a path. -/
theorem Directory.mem_children (h : AreSegments segs) {own : List String} :
    name ∈ (if Path.clean (ofSegments segs) == d.resolve s then own
      else (Path.nextComponent (Path.clean (ofSegments segs)) (d.resolve s)).toList) ↔
      (d.place s = segs ∧ name ∈ own) ∨ ∃ rest, d.place s = segs ++ name :: rest := by
  have hplace := d.areSegments_place s
  rw [Path.clean_ofSegments h, d.resolve_eq]
  by_cases he : d.place s = segs
  · rw [if_pos (by rw [he, beq_self_eq_true])]
    -- the place does not go on behind itself
    simp [he]
  · have hne : ¬ (ofSegments segs == ofSegments (d.place s)) = true := by
      intro heq
      exact he (Path.ofSegments_injective hplace h (eq_of_beq heq).symm)
    rw [if_neg hne, Option.mem_toList, Path.nextComponent_eq_some h hplace]
    simp [he]

end Directory

/-! ## Places of one file -/

theorem Location.isSegment (l : Location σ) : IsSegment l.name :=
  (Path.isValidName_iff.mp l.valid).1

theorem Location.filePath_eq (l : Location σ) (s : σ) :
    l.filePath s = ofSegments (l.directory.place s ++ [l.name]) := by
  rw [filePath, l.directory.resolve_eq]
  exact Path.join_ofSegments (l.directory.areSegments_place s) l.name

theorem Location.matchesFile_ofSegments {l : Location σ} {s : σ} {segs : List String}
    (h : AreSegments segs) :
    l.matchesFile s (ofSegments segs) = true ↔ segs = l.directory.place s ++ [l.name] := by
  have hfile : AreSegments (l.directory.place s ++ [l.name]) :=
    (l.directory.areSegments_place s).append (.singleton l.isSegment)
  rw [matchesFile, Path.clean_ofSegments h, l.filePath_eq, beq_iff_eq]
  constructor
  · exact Path.ofSegments_injective h hfile
  · rintro rfl
    rfl

/-! ## Keys -/

/-- A path addresses a key when it is the place and a name. -/
theorem KeyStore.keyFor?_ofSegments {n : KeyStore σ} {s : σ} {segs : List String}
    (h : AreSegments segs) {key : String} :
    n.keyFor? s (ofSegments segs) = some key ↔
      segs = n.directory.place s ++ [key] ∧ Path.isValidName key = true := by
  have hplace := n.directory.areSegments_place s
  rw [keyFor?, Path.clean_ofSegments h, n.directory.resolve_eq]
  rcases List.eq_nil_or_concat segs with rfl | ⟨front, last, rfl⟩
  · simp [ofSegments, Path.parent_root]
  · rw [List.concat_eq_append] at h ⊢
    have hfront : AreSegments front := h.front
    have hlast : IsSegment last := h.last
    rw [Path.parent_ofSegments hfront hlast, Path.fileName_ofSegments hfront hlast]
    constructor
    · intro hkey
      split at hkey
      · next he =>
        obtain ⟨heq, hvalid⟩ := Option.filter_eq_some_iff.mp hkey
        cases heq
        rw [Path.ofSegments_injective hfront hplace (Option.some.inj he)]
        exact ⟨rfl, hvalid⟩
      · cases hkey
    · rintro ⟨he, hvalid⟩
      obtain ⟨rfl, hname⟩ := List.append_inj' he rfl
      cases hname
      rw [if_pos rfl]
      exact Option.filter_eq_some_iff.mpr ⟨rfl, hvalid⟩

/-! ## Nodes -/

namespace Node

variable {n : Node σ ε} {s : σ} {segs : List String} {name : String}

/-- The names of the node's files. -/
def Holds : Node σ ε → String → Prop
  | .readOnly n, name => name = n.location.name
  | .readWrite n, name => name = n.location.name
  | .keyStore n, name => name ∈ n.keys
  | .foreign _ _, _ => False

/-- The names of the files that can be asked for. -/
def Claims : Node σ ε → String → Prop
  | .readOnly n, name => name = n.location.name
  | .readWrite n, name => name = n.location.name
  | .keyStore _, name => Path.isValidName name = true
  | .foreign _ _, _ => False

theorem Claims.isValidName (h : n.Claims name) : Path.isValidName name = true := by
  cases n with
  | readOnly n =>
      cases h
      exact n.location.valid
  | readWrite n =>
      cases h
      exact n.location.valid
  | keyStore n => exact h
  | foreign e removals => exact h.elim

variable [Foreign ε]

/-- The segments of the node's directory now. -/
def place (n : Node σ ε) (s : σ) : List String := Path.segments (n.directory s)

theorem coversDirectory_ofSegments (hb : n.IsBuiltIn) (h : AreSegments segs) :
    n.coversDirectory s (ofSegments segs) = true ↔ segs <+: n.place s := by
  cases n with
  | readOnly n => exact Directory.isAncestorOrSelf_clean h
  | readWrite n => exact Directory.isAncestorOrSelf_clean h
  | keyStore n => exact Directory.isAncestorOrSelf_clean h
  | foreign e removals => exact hb.elim

theorem matchesFile_ofSegments (hb : n.IsBuiltIn) (h : AreSegments segs) :
    n.matchesFile s (ofSegments segs) = true ↔
      ∃ name, n.Claims name ∧ segs = n.place s ++ [name] := by
  cases n with
  | readOnly n =>
      refine Location.matchesFile_ofSegments h |>.trans ?_
      exact ⟨fun he => ⟨_, rfl, he⟩, fun ⟨_, rfl, he⟩ => he⟩
  | readWrite n =>
      refine Location.matchesFile_ofSegments h |>.trans ?_
      exact ⟨fun he => ⟨_, rfl, he⟩, fun ⟨_, rfl, he⟩ => he⟩
  | keyStore n =>
      refine Option.isSome_iff_exists.trans ?_
      constructor
      · rintro ⟨key, hkey⟩
        obtain ⟨he, hvalid⟩ := (KeyStore.keyFor?_ofSegments h).mp hkey
        exact ⟨key, hvalid, he⟩
      · rintro ⟨key, hvalid, he⟩
        exact ⟨key, (KeyStore.keyFor?_ofSegments h).mpr ⟨he, hvalid⟩⟩
  | foreign e removals => exact hb.elim

theorem mem_children_ofSegments (hb : n.IsBuiltIn) (h : AreSegments segs) :
    name ∈ n.children s (ofSegments segs) ↔
      (n.place s = segs ∧ n.Holds name) ∨ ∃ rest, n.place s = segs ++ name :: rest := by
  cases n with
  | readOnly n =>
      refine (Directory.mem_children h).trans (or_congr_left (and_congr_right fun _ => ?_))
      exact List.mem_singleton
  | readWrite n =>
      refine (Directory.mem_children h).trans (or_congr_left (and_congr_right fun _ => ?_))
      exact List.mem_singleton
  | keyStore n => exact Directory.mem_children h
  | foreign e removals => exact hb.elim

/-- A node lists the same under a path however that is spelled. -/
theorem children_congr (hb : n.IsBuiltIn) {path path' : String}
    (h : Path.clean path = Path.clean path') : n.children s path = n.children s path' := by
  cases n with
  | readOnly n => simp only [children, Location.children, h]
  | readWrite n => simp only [children, Location.children, h]
  | keyStore n => simp only [children, KeyStore.children, h]
  | foreign e removals => exact hb.elim

/-- And it has the same files. -/
theorem matchesFile_congr (hb : n.IsBuiltIn) {path path' : String}
    (h : Path.clean path = Path.clean path') : n.matchesFile s path = n.matchesFile s path' := by
  cases n with
  | readOnly n => simp only [matchesFile, Location.matchesFile, h]
  | readWrite n => simp only [matchesFile, Location.matchesFile, h]
  | keyStore n => simp only [matchesFile, KeyStore.matchesFile, KeyStore.keyFor?, h]
  | foreign e removals => exact hb.elim

/-- The node's directory is spelled by its place. -/
theorem directory_eq (hb : n.IsBuiltIn) (s : σ) :
    AreSegments (n.place s) ∧ n.directory s = ofSegments (n.place s) := by
  cases n with
  | readOnly n => exact ⟨n.location.directory.areSegments_place s, n.location.directory.resolve_eq s⟩
  | readWrite n =>
      exact ⟨n.location.directory.areSegments_place s, n.location.directory.resolve_eq s⟩
  | keyStore n => exact ⟨n.directory.areSegments_place s, n.directory.resolve_eq s⟩
  | foreign e removals => exact hb.elim

end Node

end LiveTree
