import LiveTree.Proofs.Merging
import LiveTree.Proofs.Spellings

/-!
# The contract of a node

The tree puts three questions to a node about a path: whether the node covers it as a directory,
whether it is a file of the node, and which names the node knows under it. A tree is a namespace
only if the answers fit together, and for the built-in kinds they do, whatever their directories are
(`node_contract`). They do not depend on how the path is written either, since a built-in node
cleans what it is asked.
-/

namespace LiveTree

open LiveTree.Path (AreSegments IsSegment ofSegments)

variable {σ ε : Type} {s : σ} {segs : List String} {name : String}

/-- Whatever names `own` a node has in its directory, strictly above it knows the next segment on
the way there, and no other name. -/
theorem Directory.children_of_place_eq {d : Directory σ} (h : AreSegments segs) {own : List String}
    {rest : List String} (hplace : d.place s = segs ++ name :: rest) :
    (if Path.clean (ofSegments segs) == d.resolve s then own
      else (Path.nextComponent (Path.clean (ofSegments segs)) (d.resolve s)).toList) = [name] := by
  have hsegs := d.areSegments_place s
  rw [d.resolve_eq, Path.clean_ofSegments h]
  rw [hplace] at hsegs ⊢
  have hne : ¬ (ofSegments segs == ofSegments (segs ++ name :: rest)) = true := by
    intro he
    have hlength := congrArg List.length (Path.ofSegments_injective h hsegs (eq_of_beq he))
    simp at hlength
  rw [if_neg hne, Path.nextComponent_append hsegs]
  rfl

variable [Foreign ε] {n : Node σ ε}

namespace Node

/-- A path is not both a file of a node and a directory that it covers. -/
theorem not_coversDirectory_of_matchesFile (hb : n.IsBuiltIn) (h : AreSegments segs)
    (hfile : n.matchesFile s (ofSegments segs) = true) :
    n.coversDirectory s (ofSegments segs) = false := by
  obtain ⟨name, -, rfl⟩ := (matchesFile_ofSegments hb h).mp hfile
  apply Bool.eq_false_iff.mpr
  intro hcovers
  -- the file stands one segment below the directory
  have hlength := ((coversDirectory_ofSegments hb h).mp hcovers).length_le
  rw [List.length_append, List.length_singleton] at hlength
  omega

/-- The directory of a file is covered. -/
theorem coversDirectory_parent (hb : n.IsBuiltIn) (h : AreSegments segs)
    (hfile : n.matchesFile s (ofSegments segs) = true) :
    ∃ dir, Path.parent (ofSegments segs) = some dir ∧ n.coversDirectory s dir = true := by
  obtain ⟨name, -, rfl⟩ := (matchesFile_ofSegments hb h).mp hfile
  refine ⟨_, Path.parent_ofSegments h.front h.last, ?_⟩
  exact (coversDirectory_ofSegments hb h.front).mpr (List.prefix_refl _)

/-- Strictly above its place a node knows the next segment on the way there, and no other name. -/
theorem children_of_place_eq (hb : n.IsBuiltIn) (h : AreSegments segs) {rest : List String}
    (hplace : n.place s = segs ++ name :: rest) : n.children s (ofSegments segs) = [name] := by
  cases n with
  | readOnly n => exact Directory.children_of_place_eq h hplace
  | readWrite n => exact Directory.children_of_place_eq h hplace
  | keyStore n => exact Directory.children_of_place_eq h hplace
  | foreign e removals => exact hb.elim

/-- A name that a node knows under a path can be put behind the path. -/
theorem isSegment_of_mem_children (hb : n.IsBuiltIn) (ho : n.Orderly) (h : AreSegments segs)
    (hmem : name ∈ n.children s (ofSegments segs)) : IsSegment name := by
  rcases (mem_children_ofSegments hb h).mp hmem with ⟨-, hholds⟩ | ⟨rest, hplace⟩
  · exact (Path.isValidName_iff.mp (hholds.claims ho).isValidName).1
  · apply (n.directory_eq hb s).1
    rw [hplace]
    simp

/-- What a node knows under a path is a file of it or a directory that it covers, and not both. -/
theorem matchesFile_join_of_mem_children (hb : n.IsBuiltIn) (ho : n.Orderly) (h : AreSegments segs)
    (hmem : name ∈ n.children s (ofSegments segs)) :
    n.matchesFile s (Path.join (ofSegments segs) name) =
      !n.coversDirectory s (Path.join (ofSegments segs) name) := by
  have hbelow : AreSegments (segs ++ [name]) :=
    h.append (.singleton (isSegment_of_mem_children hb ho h hmem))
  rw [Path.join_ofSegments h]
  rcases (mem_children_ofSegments hb h).mp hmem with ⟨hplace, hholds⟩ | ⟨rest, hplace⟩
  · have hfile : n.matchesFile s (ofSegments (segs ++ [name])) = true := by
      apply (matchesFile_ofSegments hb hbelow).mpr
      exact ⟨name, hholds.claims ho, by rw [hplace]⟩
    rw [hfile, not_coversDirectory_of_matchesFile hb hbelow hfile]
    rfl
  · have hcovers : n.coversDirectory s (ofSegments (segs ++ [name])) = true := by
      apply (coversDirectory_ofSegments hb hbelow).mpr
      exact ⟨rest, by rw [hplace, List.append_assoc, List.singleton_append]⟩
    rcases hfile : n.matchesFile s (ofSegments (segs ++ [name])) with _ | _
    · rw [hcovers]
      rfl
    · rw [not_coversDirectory_of_matchesFile hb hbelow hfile] at hcovers
      cases hcovers

/-- A node covers a directory however that is spelled. -/
theorem coversDirectory_congr (hb : n.IsBuiltIn) {path path' : String}
    (h : Path.clean path = Path.clean path') :
    n.coversDirectory s path = n.coversDirectory s path' := by
  cases n with
  | readOnly n => simp only [coversDirectory, Location.coversDirectory, h]
  | readWrite n => simp only [coversDirectory, Location.coversDirectory, h]
  | keyStore n => simp only [coversDirectory, KeyStore.coversDirectory, h]
  | foreign e removals => exact hb.elim

end Node

namespace Tree

/-- What a node of a built-in kind answers about a canonical path, wherever its directory is now and
whatever has been done to it. The directory of a file is covered, and a path is not both a file and
a covered directory. Names are known under covered directories only, just one strictly above the
node's own directory, and each of them is a file or a covered directory and not both. Detours in the
path change none of the answers. -/
theorem node_contract {t : Tree σ ε} (h : InUse t) {ref : NodeRef} (hn : t.node? ref = some n)
    (hb : n.IsBuiltIn) (s : σ) {p : String} (hp : Path.Canonical p) :
    (n.matchesFile s p = true →
      ∃ dir, Path.parent p = some dir ∧ n.coversDirectory s dir = true) ∧
    ¬ (n.matchesFile s p = true ∧ n.coversDirectory s p = true) ∧
    (n.children s p ≠ [] → n.coversDirectory s p = true) ∧
    (Path.isAncestorOrSelf p (n.directory s) = true → p ≠ n.directory s →
      ∃ name, n.children s p = [name]) ∧
    (∀ name ∈ n.children s p,
      n.matchesFile s (Path.join p name) = !n.coversDirectory s (Path.join p name)) ∧
    (∀ p', Path.Respelled p p' →
      n.matchesFile s p' = n.matchesFile s p ∧
      n.coversDirectory s p' = n.coversDirectory s p ∧ n.children s p' = n.children s p) := by
  obtain ⟨segs, hsegs, rfl⟩ := hp
  refine ⟨n.coversDirectory_parent hb hsegs, ?_, ?_, ?_, ?_, ?_⟩
  · rintro ⟨hfile, hcovers⟩
    rw [n.not_coversDirectory_of_matchesFile hb hsegs hfile] at hcovers
    cases hcovers
  · intro hne
    obtain ⟨name, hmem⟩ := List.exists_mem_of_ne_nil _ hne
    exact n.coversDirectory_of_mem_children hb hsegs hmem
  · intro habove hne
    obtain ⟨hplace, hdir⟩ := n.directory_eq hb s
    rw [hdir] at habove hne
    obtain ⟨rest, hrest⟩ := (Path.isAncestorOrSelf_ofSegments hsegs hplace).mp habove
    rcases rest with _ | ⟨name, rest⟩
    · rw [List.append_nil] at hrest
      exact absurd (congrArg ofSegments hrest) hne
    · exact ⟨name, n.children_of_place_eq hb hsegs hrest.symm⟩
  · intro name hmem
    exact n.matchesFile_join_of_mem_children hb (h.orderly hn) hsegs hmem
  · intro p' hp'
    have hclean := hp'.clean_eq
    exact ⟨n.matchesFile_congr hb hclean, n.coversDirectory_congr hb hclean,
      n.children_congr hb hclean⟩

/-- The key store at `/app`, with a key: the key is a file of it and the only name under `/app`, also
on a detour, and the store knows one name under the root. -/
theorem node_contract_orchard :
    ∃ n, orchard.node? ⟨0⟩ = some n ∧
      (∃ dir, Path.parent "/app/color" = some dir ∧ n.coversDirectory () dir = true) ∧
      ¬ (n.matchesFile () "/app/color" = true ∧ n.coversDirectory () "/app/color" = true) ∧
      (∃ name, n.children () "/" = [name]) ∧
      n.matchesFile () "/app/color" = (!n.coversDirectory () "/app/color") ∧
      n.children () "/app/x/.." = ["color"] := by
  have hn : orchard.node? ⟨0⟩ =
      some (.keyStore { options with entries := [("color", #[7])] }) := rfl
  have hcolor : Path.Canonical "/app/color" := Path.canonical_clean "/app/color"
  have happ : Path.Canonical "/app" := Path.canonical_clean "/app"
  have hroot : Path.Canonical "/" := Path.canonical_clean "/"
  have hdetour : Path.Respelled "/app" ("/app" ++ "/" ++ ("x" ++ "/" ++ "..")) :=
    .behind .self (.back ⟨by decide, by decide, by decide, by decide⟩)
  obtain ⟨hparent, hnot, -⟩ := node_contract reachable_orchard.inUse hn trivial () hcolor
  obtain ⟨-, -, -, -, hchildren, hspelled⟩ :=
    node_contract reachable_orchard.inUse hn trivial () happ
  obtain ⟨-, -, -, habove, -⟩ := node_contract reachable_orchard.inUse hn trivial () hroot
  refine ⟨_, hn, hparent (by decide), hnot, habove (by decide) (by decide),
    hchildren "color" (by decide), ?_⟩
  exact (hspelled _ hdetour).2.2

end Tree

end LiveTree
