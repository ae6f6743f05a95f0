import LiveTree.Proofs.Listing

/-!
# The namespace is connected

Directories are not kept anywhere: each query finds them anew from the nodes that are registered. The
answers fit together all the same. A path can be listed when it is a directory
(`list_eq_ok_iff`), what is above a directory or a file is a directory (`isDirectory_of_prefix`), and
what there is below the root is listed once by the directory that it is in, as what it is
(`namespace_connected`).
-/

namespace LiveTree

open LiveTree.Path (AreSegments IsSegment ofSegments)

/-- In a list that has each name once, a name filters out the one element that has it. -/
theorem filter_name_eq {α β : Type} [DecidableEq β] {name : α → β} {as : List α}
    (h : (as.map name).Nodup) {a : α} (ha : a ∈ as) :
    as.filter (fun b => name b = name a) = [a] := by
  induction as with
  | nil => cases ha
  | cons first rest ih =>
      obtain ⟨hfirst, hrest⟩ := List.nodup_cons.mp h
      rcases List.mem_cons.mp ha with rfl | ha
      · rw [List.filter_cons_of_pos (by simp)]
        congr 1
        apply List.filter_eq_nil_iff.mpr
        intro b hb he
        apply hfirst
        rw [← of_decide_eq_true he]
        exact List.mem_map_of_mem hb
      · have hne : name first ≠ name a := by
          intro he
          apply hfirst
          rw [he]
          exact List.mem_map_of_mem ha
        rw [List.filter_cons_of_neg (by simpa using hne)]
        exact ih hrest ha

namespace Tree

/-! ## Lists of directories -/

section

variable {σ ε : Type} [Foreign ε] {t : Tree σ ε} {path : String} {entries : List Entry}

/-- A path can be listed when it is a directory. -/
theorem list_eq_ok_iff :
    (∃ entries, t.list path = .ok entries) ↔ t.isDirectory path = true := by
  unfold list isDirectory
  rcases Path.normalize path with fault | q
  · simp
  · -- there is a node to ask when a registration covers the directory
    have hnodes : ((t.registrations.filter (t.covers q)).filterMap
        (fun r => t.node? r.node)).isEmpty = !t.registrations.any (t.covers q) := by
      rw [Bool.eq_iff_iff, List.isEmpty_iff, List.filterMap_eq_nil_iff]
      simp only [List.mem_filter, Bool.not_eq_true', List.any_eq_false]
      constructor
      · intro hnone r hr hcovers
        obtain ⟨n, hn, -⟩ := covers_iff.mp hcovers
        have := hnone r ⟨hr, hcovers⟩
        rw [hn] at this
        cases this
      · rintro hnone r ⟨hr, hcovers⟩
        exact absurd hcovers (hnone r hr)
    dsimp only
    rw [hnodes]
    rcases t.registrations.any (t.covers q) with _ | _ <;> by_cases hroot : q = "/" <;>
      simp [hroot]

/-- A listing has each name once. -/
theorem nodup_names_of_list (h : t.list path = .ok entries) :
    (entries.map (·.name)).Nodup := by
  unfold list at h
  split at h
  · cases h
  · dsimp only at h
    split at h
    · cases h
    · cases h
      rw [List.map_map]
      apply (sorted_foldl_mergeEntry NameMap.sorted_nil _).imp
      intro a b
      exact NameMap.ne_of_before

end

/-! ## Above what is there -/

variable {σ : Type} {t : Tree σ Empty} {segs : List String} {name : String}

/-- What a directory's segments are: a beginning of a place, without a NUL. -/
theorem isDirectory_ofSegments (h : AreSegments segs) :
    t.isDirectory (ofSegments segs) = true ↔
      (∀ s ∈ segs, '\x00' ∉ s.toList) ∧
        (segs = [] ∨ ∃ n, t.Registered n ∧ segs <+: n.place t.publisher) := by
  constructor
  · intro hdir
    have hnul : ∀ s ∈ segs, '\x00' ∉ s.toList := by
      unfold isDirectory at hdir
      split at hdir
      · cases hdir
      · next q hq =>
        have hfree := (Path.normalize_eq_ok hq).2.2
        rwa [Path.segments_ofSegments h] at hfree
    exact ⟨hnul, (isDirectory_iff h hnul).mp hdir⟩
  · rintro ⟨hnul, hdir⟩
    exact (isDirectory_iff h hnul).mpr hdir

/-- Every directory above a name that is under one is a directory. -/
theorem isDirectory_of_under {above : List String} (hsegs : AreSegments segs)
    (hnul : ∀ s ∈ segs, '\x00' ∉ s.toList) (hbegin : above <+: segs) {n : Node σ Empty}
    (hn : t.Registered n) (hunder : Under t.publisher segs name n) :
    t.isDirectory (ofSegments above) = true := by
  have hplace : segs <+: n.place t.publisher := by
    rcases hunder with ⟨hplace, -⟩ | ⟨rest, hplace⟩
    · exact hplace ▸ List.prefix_refl _
    · exact hplace ▸ List.prefix_append _ _
  apply (isDirectory_ofSegments fun s hs => hsegs s (hbegin.subset hs)).mpr
  refine ⟨fun s hs => hnul s (hbegin.subset hs), .inr ⟨n, hn, ?_⟩⟩
  exact hbegin.trans hplace

/-- A directory below the root is on the way to a place. -/
theorem under_of_isDirectory (hsegs : AreSegments (segs ++ [name]))
    (hdir : t.isDirectory (ofSegments (segs ++ [name])) = true) :
    (∀ s ∈ segs ++ [name], '\x00' ∉ s.toList) ∧
      ∃ n, t.Registered n ∧ ∃ rest, n.place t.publisher = segs ++ name :: rest := by
  obtain ⟨hnul, hnil | ⟨n, hn, rest, hplace⟩⟩ := (isDirectory_ofSegments hsegs).mp hdir
  · simp at hnil
  · refine ⟨hnul, n, hn, rest, ?_⟩
    rw [← hplace, List.append_assoc, List.singleton_append]

/-- A path with attributes can be written, and is the root, on the way to a place, or a file of a
node that holds it, as its kind tells. -/
theorem InUse.of_stat (h : InUse t) (hsegs : AreSegments (segs ++ [name])) {a : Attributes}
    (hstat : (t.stat (ofSegments (segs ++ [name]))).1 = .ok a) :
    (∀ s ∈ segs ++ [name], '\x00' ∉ s.toList) ∧
      (∃ n, t.Registered n ∧ Under t.publisher segs name n) ∧
      (a.kind = .file ↔ ∃ n, t.Registered n ∧ n.place t.publisher = segs ∧ n.Holds name) := by
  obtain ⟨q, hq⟩ : ∃ q, Path.normalize (ofSegments (segs ++ [name])) = .ok q := by
    unfold stat at hstat
    split at hstat
    · cases hstat
    · next q hq => exact ⟨q, hq⟩
  obtain ⟨rfl, -, hnul⟩ := Path.normalize_eq_ok hq
  rw [Path.segments_ofSegments hsegs] at hnul hq
  refine ⟨hnul, ?_⟩
  rcases ho : t.owner? (ofSegments (segs ++ [name])) with _ | r
  · -- nobody claims it, so it is a directory, and no file of anybody
    rw [stat_of_no_owner hq ho] at hstat
    split at hstat
    · next hdir =>
      cases hstat
      obtain ⟨-, n, hn, hplace⟩ := under_of_isDirectory hsegs hdir
      refine ⟨⟨n, hn, .inr hplace⟩, nofun, ?_⟩
      rintro ⟨m, hm, hheld⟩
      exact absurd hheld (h.not_holds_of_no_owner hsegs ho hm)
    · cases hstat
  · -- the first that claims it holds it, or else there would be no attributes
    obtain ⟨n, hn, hr, hplace, hclaims⟩ := node_of_owner? hsegs ho
    obtain ⟨writable, hsize⟩ := stat_of_owner hq ho
    rw [hstat] at hsize
    have hheld : n.Holds name := by
      apply holds_of_claims hsegs hplace hclaims
      intro hw
      have hnoted := (node?_noteOverlap t (ofSegments (segs ++ [name])) r.node).trans hn
      rw [sizeOn_of_unwritten hnoted ((publisher_noteOverlap t _).symm ▸ hw)] at hsize
      cases hsize
    obtain ⟨size, -, rfl⟩ := map_eq_ok.mp hsize.symm
    refine ⟨⟨n, hr, .inl ⟨hplace, hheld⟩⟩, ?_, ?_⟩
    · exact fun _ => ⟨n, hr, hplace, hheld⟩
    · exact fun _ => rfl

/-! ## The namespace -/

/-- What is under a directory is listed there. -/
theorem InUse.mem_names_list (h : InUse t) (hsegs : AreSegments segs) {entries : List Entry}
    (hlist : t.list (ofSegments segs) = .ok entries) {n : Node σ Empty} (hn : t.Registered n)
    (hunder : Under t.publisher segs name n) : name ∈ entries.map (·.name) := by
  have hmem := fun e => h.mem_list hlist (e := e)
  rw [Path.segments_ofSegments hsegs] at hmem
  apply List.mem_map.mpr
  -- as a file or as a directory, whichever it is
  by_cases hheld : ∃ n, t.Registered n ∧ n.place t.publisher = segs ∧ n.Holds name
  · refine ⟨⟨name, .file⟩, (hmem _).mpr ⟨⟨n, hn, hunder⟩, ?_⟩, rfl⟩
    simpa using hheld
  · refine ⟨⟨name, .directory⟩, (hmem _).mpr ⟨⟨n, hn, hunder⟩, ?_⟩, rfl⟩
    simpa using hheld

/-- In a tree of built-in nodes, a canonical path can be listed when it is a directory. A directory
below the root is in a directory that lists it. What has attributes has directories above it only,
and the one that it is in lists it once, with the kind that the attributes tell. -/
theorem namespace_connected (h : InUse t) {p : String} (hp : Path.Canonical p) :
    ((∃ entries, t.list p = .ok entries) ↔ t.isDirectory p = true) ∧
    (p ≠ "/" → t.isDirectory p = true → ∃ dir name entries,
      Path.parent p = some dir ∧ Path.fileName p = some name ∧ t.isDirectory dir = true ∧
      t.list dir = .ok entries ∧ name ∈ entries.map (·.name)) ∧
    (p ≠ "/" → ∀ a, (t.stat p).1 = .ok a →
      (∀ q, Path.Canonical q → Path.isAncestorOrSelf q p = true → q ≠ p →
        t.isDirectory q = true) ∧
      ∃ dir name entries, Path.parent p = some dir ∧ Path.fileName p = some name ∧
        t.list dir = .ok entries ∧ entries.filter (·.name = name) = [⟨name, a.kind⟩]) := by
  refine ⟨list_eq_ok_iff, ?_, ?_⟩
  · intro hroot hdir
    obtain ⟨segs, name, hsegs, rfl⟩ := hp.eq_append hroot
    obtain ⟨hnul, n, hn, hplace⟩ := under_of_isDirectory hsegs hdir
    have hparent := isDirectory_of_under hsegs.front
      (fun s hs => hnul s (List.mem_append_left _ hs)) (List.prefix_refl _) hn (.inr hplace)
    obtain ⟨entries, hlist⟩ := list_eq_ok_iff.mpr hparent
    exact ⟨_, name, entries, Path.parent_ofSegments hsegs.front hsegs.last,
      Path.fileName_ofSegments hsegs.front hsegs.last, hparent, hlist,
      h.mem_names_list hsegs.front hlist hn (.inr hplace)⟩
  · intro hroot a hstat
    obtain ⟨segs, name, hsegs, rfl⟩ := hp.eq_append hroot
    obtain ⟨hnul, ⟨n, hn, hunder⟩, hkind⟩ := h.of_stat hsegs hstat
    have hnul' : ∀ s ∈ segs, '\x00' ∉ s.toList := fun s hs => hnul s (List.mem_append_left _ hs)
    constructor
    · rintro q ⟨above, habove, rfl⟩ hancestor hne
      have hbegin := (Path.isAncestorOrSelf_ofSegments habove hsegs).mp hancestor
      rcases List.prefix_concat_iff.mp hbegin with rfl | hbegin
      · exact absurd rfl hne
      · exact isDirectory_of_under hsegs.front hnul' hbegin hn hunder
    · have hparent :=
        isDirectory_of_under hsegs.front hnul' (List.prefix_refl _) hn hunder
      obtain ⟨entries, hlist⟩ := list_eq_ok_iff.mpr hparent
      refine ⟨_, name, entries, Path.parent_ofSegments hsegs.front hsegs.last,
        Path.fileName_ofSegments hsegs.front hsegs.last, hlist, ?_⟩
      have hmem : (⟨name, a.kind⟩ : Entry) ∈ entries := by
        apply (h.mem_list hlist).mpr
        rw [Path.segments_ofSegments hsegs.front]
        exact ⟨⟨n, hn, hunder⟩, hkind⟩
      exact filter_name_eq (nodup_names_of_list hlist) hmem

/-- A file in a directory whose name begins with that of another one. -/
def core : ReadOnly Unit where
  location := ⟨.fixed "/apple", "core", rfl⟩
  provider := .ofText fun _ => "0"

/-- The key store is at `/app`, the file in `/apple`. -/
def orchard : Tree Unit Empty :=
  [.register ⟨0⟩, .register ⟨1⟩, .insert ⟨0⟩ "color" #[7]].foldl perform
    (addNode (addNode { publisher := () } (.keyStore options)).2 (.readOnly core)).2

theorem reachable_orchard : Reachable orchard :=
  .perform (.insert ⟨0⟩ "color" #[7]) (.perform (.register ⟨1⟩) (.perform (.register ⟨0⟩)
    (.addNode (.readOnly core) (.addNode (.keyStore options) (.empty {} ()) ⟨rfl, rfl⟩) rfl)))

/-- The directory `/apple` is listed by the root, and the key is listed once, as a file, by `/app`. -/
theorem namespace_connected_orchard :
    (∃ entries, orchard.list "/apple" = .ok entries) ∧
    (∃ entries, orchard.list "/" = .ok entries ∧ "apple" ∈ entries.map (·.name)) ∧
    orchard.isDirectory "/app" = true ∧
    (∃ entries, orchard.list "/app" = .ok entries ∧
      entries.filter (·.name = "color") = [⟨"color", .file⟩]) := by
  have happle : Path.Canonical "/apple" := Path.canonical_clean "/apple"
  have happ : Path.Canonical "/app" := Path.canonical_clean "/app"
  have hcolor : Path.Canonical "/app/color" := Path.canonical_clean "/app/color"
  have hdir : orchard.isDirectory "/apple" = true := by decide
  have hstat : (orchard.stat "/app/color").1 = .ok ⟨1, .file, true⟩ := rfl
  obtain ⟨hlist, habove, -⟩ := namespace_connected reachable_orchard.inUse happle
  obtain ⟨-, -, hfile⟩ := namespace_connected reachable_orchard.inUse hcolor
  obtain ⟨hancestors, dir', name', entries', hparent', hname', hlist', honce⟩ :=
    hfile (by decide) _ hstat
  refine ⟨hlist.mpr hdir, ?_, hancestors "/app" happ (by decide) (by decide), ?_⟩
  · obtain ⟨dir, name, entries, hparent, hname, -, hlist, hmem⟩ := habove (by decide) hdir
    have hroot : Path.parent "/apple" = some "/" := by decide
    have hlast : Path.fileName "/apple" = some "apple" := by decide
    cases hroot.symm.trans hparent
    cases hlast.symm.trans hname
    exact ⟨entries, hlist, hmem⟩
  · have hkeys : Path.parent "/app/color" = some "/app" := by decide
    have hkey : Path.fileName "/app/color" = some "color" := by decide
    cases hkeys.symm.trans hparent'
    cases hkey.symm.trans hname'
    exact ⟨entries', hlist', honce⟩

end Tree

end LiveTree
