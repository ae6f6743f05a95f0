import LiveTree.Proofs.Namespace
import Mathlib.Data.List.Sort

/-!
# Listings put together

A listing is made by putting the entries of one node after another into a map. What comes out does
not depend on the order, since it is sorted and its members depend on what the nodes know alone
(`merged_congr`). So the registrations decide by their order who serves a file, but not what is
listed (`list_perm`).

A node is asked for its names under a directory only if it covers the directory. No other built-in
node knows a name there (`coversDirectory_of_mem_children`), so nothing is left out
(`list_merges`).
-/

namespace LiveTree

open LiveTree.Path (AreSegments IsSegment ofSegments)

/-! ## Names in order -/

/-- Entries stand in the order of the octets of their names. -/
def Entry.Before (e e' : Entry) : Prop := Bytes.octetsOf e.name < Bytes.octetsOf e'.name

instance : Std.Irrefl Entry.Before where
  irrefl _ := List.lt_irrefl _

instance : Std.Antisymm Entry.Before where
  antisymm _ _ h h' := absurd (List.lt_trans h h') (List.lt_irrefl _)

/-! ## Names that nodes know -/

/-- A built-in node that knows a name under a path covers the path. The name can be a segment. -/
theorem Node.coversDirectory_of_mem_children {σ ε : Type} [Foreign ε] {n : Node σ ε} {s : σ}
    {segs : List String} {name : String} (hb : n.IsBuiltIn) (h : AreSegments segs)
    (hmem : name ∈ n.children s (ofSegments segs)) :
    n.coversDirectory s (ofSegments segs) = true := by
  rw [coversDirectory_ofSegments hb h]
  obtain ⟨hplace, -⟩ | ⟨rest, hplace⟩ := (mem_children_ofSegments hb h).mp hmem
  · exact hplace ▸ List.prefix_refl _
  · exact hplace ▸ List.prefix_append _ _

namespace Tree

/-! ## Entries in any order -/

theorem pairwise_before_merged (entries : List Entry) : (merged entries).Pairwise Entry.Before := by
  have hsorted : ((entries.foldl mergeEntry []).map (·.1)).Pairwise (NameMap.before · · = true) :=
    sorted_foldl_mergeEntry NameMap.sorted_nil entries
  rw [merged, List.pairwise_map]
  exact (List.pairwise_map.mp hsorted).imp of_decide_eq_true

/-- Only what the entries are matters, not how they stand. -/
theorem merged_congr {entries entries' : List Entry} (h : ∀ e, e ∈ entries ↔ e ∈ entries') :
    merged entries = merged entries' := by
  apply List.Pairwise.eq_of_mem_iff (pairwise_before_merged entries)
    (pairwise_before_merged entries')
  intro e
  simp only [mem_merged, h]

section

variable {σ ε : Type} [Foreign ε] {t : Tree σ ε} {path : String} {order : List Registration}

/-- The tree with its registrations in another order. -/
def reordered (t : Tree σ ε) (order : List Registration) : Tree σ ε :=
  { t with registrations := order }

/-- The order of the registrations does not matter to a listing. -/
theorem list_perm (h : order.Perm t.registrations) (path : String) :
    (t.reordered order).list path = t.list path := by
  unfold list
  rcases Path.normalize path with fault | q
  · rfl
  · have hnodes : ((order.filter (t.covers q)).filterMap (fun r => t.node? r.node)).Perm
        ((t.registrations.filter (t.covers q)).filterMap (fun r => t.node? r.node)) :=
      (h.filter _).filterMap _
    show (if ((order.filter (t.covers q)).filterMap (fun r => t.node? r.node)).isEmpty && q != "/"
        then Except.error (Fault.notFound q)
        else Except.ok (merged (((order.filter (t.covers q)).filterMap
          (fun r => t.node? r.node)).flatMap (entriesOf t.publisher q)))) = _
    rw [hnodes.isEmpty_eq, merged_congr fun e => (hnodes.flatMap_right _).mem_iff]
    rfl

theorem isDirectory_perm (h : order.Perm t.registrations) (path : String) :
    (t.reordered order).isDirectory path = t.isDirectory path := by
  unfold isDirectory
  rcases Path.normalize path with fault | q
  · rfl
  · have hany : order.any (t.covers q) = t.registrations.any (t.covers q) := h.any_eq
    exact congrArg (q == "/" || ·) hany

theorem pairwise_before_list {entries : List Entry} (h : t.list path = .ok entries) :
    entries.Pairwise Entry.Before := by
  unfold list at h
  split at h
  · cases h
  · dsimp only at h
    split at h
    · cases h
    · cases h
      exact pairwise_before_merged _

end

/-! ## All nodes together -/

variable {σ : Type} {t : Tree σ Empty} {path : String} {entries : List Entry}

/-- What a node knows under a path that callers use, it knows under its canonical form. -/
theorem mem_children_iff {n : Node σ Empty} {q name : String} (hq : Path.normalize path = .ok q) :
    name ∈ n.children t.publisher path ↔
      n.coversDirectory t.publisher q = true ∧ name ∈ n.children t.publisher q := by
  obtain ⟨rfl, hsegs, -⟩ := Path.normalize_eq_ok hq
  have hspelled : Path.clean path = Path.clean (ofSegments (Path.segments path)) := by
    rw [Path.clean_of_normalize hq, Path.clean_ofSegments hsegs]
  rw [Node.children_congr n.isBuiltIn hspelled]
  exact (and_iff_right_of_imp (Node.coversDirectory_of_mem_children n.isBuiltIn hsegs)).symm

/-- And it has the same files in it. -/
theorem matchesFile_join {n : Node σ Empty} {q name : String} (hq : Path.normalize path = .ok q) :
    n.matchesFile t.publisher (Path.join path name) =
      n.matchesFile t.publisher (Path.join q name) := by
  obtain ⟨rfl, hsegs, -⟩ := Path.normalize_eq_ok hq
  apply Node.matchesFile_congr n.isBuiltIn
  rw [Path.clean, Path.clean, Path.segments_join_text, Path.segments_join_text,
    Path.segments_ofSegments hsegs]

theorem mem_list_iff_of_builtIn (h : t.list path = .ok entries) {e : Entry} :
    e ∈ entries ↔
      (∃ n, t.Registered n ∧ e.name ∈ n.children t.publisher path) ∧
      (e.kind = .file ↔ ∃ n, t.Registered n ∧ e.name ∈ n.children t.publisher path ∧
        n.matchesFile t.publisher (Path.join path e.name) = true) := by
  obtain ⟨q, hq⟩ := normalize_of_list h
  rw [mem_list hq h]
  simp only [mem_children_iff hq, matchesFile_join hq, and_assoc]

/-- In a tree of built-in nodes a listing has its names in increasing order. They are the names that
any registered node knows under the path, and a name is a file when one of the nodes that know it
has such a file. The order of the registrations matters neither to the listing nor to whether the
path is a directory. -/
theorem list_merges {t : Tree σ Empty} {path : String} :
    (∀ entries, t.list path = .ok entries →
      entries.Pairwise (fun e e' => Bytes.octetsOf e.name < Bytes.octetsOf e'.name) ∧
      (∀ name, name ∈ entries.map (·.name) ↔
        ∃ n, t.Registered n ∧ name ∈ n.children t.publisher path) ∧
      (∀ e ∈ entries, e.kind = .file ↔
        ∃ n, t.Registered n ∧ e.name ∈ n.children t.publisher path ∧
          n.matchesFile t.publisher (Path.join path e.name) = true)) ∧
    (∀ order : List Registration, order.Perm t.registrations →
      ({ t with registrations := order } : Tree σ Empty).list path = t.list path ∧
      ({ t with registrations := order } : Tree σ Empty).isDirectory path =
        t.isDirectory path) := by
  refine ⟨fun entries hlist => ⟨pairwise_before_list hlist, fun name => ?_, ?_⟩,
    fun order horder => ⟨list_perm horder path, isDirectory_perm horder path⟩⟩
  · constructor
    · intro hname
      obtain ⟨e, he, rfl⟩ := List.mem_map.mp hname
      exact ((mem_list_iff_of_builtIn hlist).mp he).1
    · intro hknown
      -- the kind of the entry is the one that the nodes tell
      obtain ⟨kind, hkind⟩ : ∃ kind : FileKind, kind = .file ↔
          ∃ n, t.Registered n ∧ name ∈ n.children t.publisher path ∧
            n.matchesFile t.publisher (Path.join path name) = true := by
        by_cases hfile : ∃ n, t.Registered n ∧ name ∈ n.children t.publisher path ∧
            n.matchesFile t.publisher (Path.join path name) = true
        · exact ⟨.file, iff_of_true rfl hfile⟩
        · exact ⟨.directory, iff_of_false nofun hfile⟩
      exact List.mem_map.mpr
        ⟨⟨name, kind⟩, (mem_list_iff_of_builtIn hlist).mpr ⟨hknown, hkind⟩, rfl⟩
  · intro e he
    exact ((mem_list_iff_of_builtIn hlist).mp he).2

/-- A file whose directory has the path of a key. -/
def changes : ReadOnly Unit where
  location := ⟨.fixed "/app/color", "changes", rfl⟩
  provider := .ofText fun _ => "0"

/-- For the first node `color` is a file in `/app`, for the second one a directory. -/
def quarrel : Tree Unit Empty :=
  [.register ⟨0⟩, .register ⟨1⟩, .insert ⟨0⟩ "color" #[7]].foldl perform
    (addNode (addNode { publisher := () } (.keyStore options)).2 (.readOnly changes)).2

/-- Both orders make it a file, and one of the nodes has it. -/
theorem list_merges_quarrel :
    quarrel.list "/app" = .ok [⟨"color", .file⟩] ∧
    ({ quarrel with registrations := quarrel.registrations.reverse } : Tree Unit Empty).list "/app"
      = .ok [⟨"color", .file⟩] ∧
    ∃ n, quarrel.Registered n ∧ "color" ∈ n.children () "/app" ∧
      n.matchesFile () (Path.join "/app" "color") = true := by
  have hlist : quarrel.list "/app" = .ok [⟨"color", .file⟩] := rfl
  obtain ⟨hentries, horder⟩ := @list_merges _ quarrel "/app"
  obtain ⟨-, -, hfile⟩ := hentries _ hlist
  refine ⟨hlist, ?_, (hfile ⟨"color", .file⟩ List.mem_cons_self).mp rfl⟩
  exact (horder _ quarrel.registrations.reverse_perm).1.trans hlist

end Tree

end LiveTree
