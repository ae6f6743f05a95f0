import LiveTree.Proofs.Keys
import LiveTree.Proofs.Places

/-!
# Listings and attributes

A listing takes the kind of a name from the nodes that list it, while the attributes of a path come
from the first node that claims it. For built-in nodes both are decided by places: a name in the
directory `segs` is listed as a file when a node with the place `segs` holds it (`mem_list_iff`),
and asking for its attributes succeeds when the first node that claims it holds it too. A key store
claims names that it does not hold, so the two come apart exactly where it is asked first
(`stat_of_mem_list`).
-/

namespace LiveTree

open LiveTree.Path (AreSegments IsSegment ofSegments)

/-- A held name is claimed. -/
theorem Node.Holds.claims {σ ε : Type} {n : Node σ ε} {name : String} (h : n.Holds name)
    (ho : n.Orderly) : n.Claims name := by
  cases n with
  | readOnly n => exact h
  | readWrite n => exact h
  | keyStore n => exact KeyStore.Orderly.valid ho name h
  | foreign e removals => exact h

theorem FileKind.merge_eq_file {a b : FileKind} : a.merge b = .file ↔ a = .file ∨ b = .file := by
  cases a <;> cases b <;> decide

namespace Tree

/-! ## Putting entries together -/

/-- The entries of several nodes, put together. -/
def merged (entries : List Entry) : List Entry :=
  (entries.foldl mergeEntry []).map fun (name, kind) => ⟨name, kind⟩

theorem sorted_mergeEntry {m : NameMap FileKind} (h : m.Sorted) (e : Entry) :
    (mergeEntry m e).Sorted :=
  NameMap.sorted_alter h

theorem sorted_foldl_mergeEntry {m : NameMap FileKind} (h : m.Sorted) (entries : List Entry) :
    (entries.foldl mergeEntry m).Sorted := by
  induction entries generalizing m with
  | nil => exact h
  | cons e rest ih => exact ih (sorted_mergeEntry h e)

theorem mem_names_foldl_mergeEntry {m : NameMap FileKind} {entries : List Entry} {name : String} :
    name ∈ (entries.foldl mergeEntry m).names ↔
      name ∈ m.names ∨ ∃ e ∈ entries, e.name = name := by
  induction entries generalizing m with
  | nil => simp
  | cons e rest ih =>
      rw [List.foldl_cons, ih, mergeEntry, NameMap.mem_names_alter]
      simp only [List.mem_cons, exists_eq_or_imp]
      rw [eq_comm, or_assoc]
      exact or_left_comm

/-- One entry makes its name a file if it is one, or leaves the name as it was. -/
theorem get?_mergeEntry_eq_file {m : NameMap FileKind} (h : m.Sorted) (e : Entry)
    {name : String} : (mergeEntry m e).get? name = some .file ↔
      m.get? name = some .file ∨ e = ⟨name, .file⟩ := by
  obtain ⟨other, kind⟩ := e
  rw [mergeEntry, NameMap.get?_alter h]
  by_cases he : name = other
  · subst he
    rw [if_pos rfl]
    rcases m.get? name with _ | before
    · simp
    · simp [FileKind.merge_eq_file]
  · rw [if_neg he]
    simp [Ne.symm he]

theorem get?_foldl_mergeEntry_eq_file {m : NameMap FileKind} (h : m.Sorted)
    {entries : List Entry} {name : String} :
    (entries.foldl mergeEntry m).get? name = some .file ↔
      m.get? name = some .file ∨ ⟨name, .file⟩ ∈ entries := by
  induction entries generalizing m with
  | nil => simp
  | cons e rest ih =>
      rw [List.foldl_cons, ih (sorted_mergeEntry h e), get?_mergeEntry_eq_file h, List.mem_cons,
        or_assoc, eq_comm (a := e)]

/-- Every name of the entries is there once, and is a file when one of the entries says so. -/
theorem mem_merged {entries : List Entry} {e : Entry} :
    e ∈ merged entries ↔
      (∃ e' ∈ entries, e'.name = e.name) ∧ (e.kind = .file ↔ ⟨e.name, .file⟩ ∈ entries) := by
  have hsorted := sorted_foldl_mergeEntry NameMap.sorted_nil entries
  have hmem : e ∈ merged entries ↔
      (entries.foldl mergeEntry []).get? e.name = some e.kind := by
    rw [NameMap.get?_eq_some hsorted, merged, List.mem_map]
    exact ⟨fun ⟨_, hb, he⟩ => he ▸ hb, fun hb => ⟨_, hb, rfl⟩⟩
  have hname : ((entries.foldl mergeEntry []).get? e.name).isSome = true ↔
      ∃ e' ∈ entries, e'.name = e.name := by
    rw [NameMap.isSome_get?, mem_names_foldl_mergeEntry]
    exact or_iff_right List.not_mem_nil
  have hfile : (entries.foldl mergeEntry []).get? e.name = some .file ↔
      ⟨e.name, .file⟩ ∈ entries := by
    rw [get?_foldl_mergeEntry_eq_file NameMap.sorted_nil]
    exact or_iff_right nofun
  rw [hmem, ← hname, ← hfile]
  rcases (entries.foldl mergeEntry []).get? e.name with _ | kind
  · simp
  · cases e.kind <;> cases kind <;> decide

/-! ## Listings -/

variable {σ ε : Type} {t : Tree σ ε}

/-- The node is registered. -/
def Registered (t : Tree σ ε) (n : Node σ ε) : Prop :=
  ∃ r ∈ t.registrations, t.node? r.node = some n

section

variable [Foreign ε]

/-- What the nodes covering a directory know of it. -/
theorem mem_entries {q : String} {e : Entry} :
    e ∈ ((t.registrations.filter (t.covers q)).filterMap (fun r => t.node? r.node)).flatMap
        (entriesOf t.publisher q) ↔
      ∃ n, t.Registered n ∧ n.coversDirectory t.publisher q = true ∧
        e ∈ entriesOf t.publisher q n := by
  rw [List.mem_flatMap]
  refine exists_congr fun n => ?_
  rw [← and_assoc, List.mem_filterMap]
  refine and_congr_left fun _ => ?_
  constructor
  · rintro ⟨r, hr, hn⟩
    obtain ⟨hmem, hcovers⟩ := List.mem_filter.mp hr
    obtain ⟨m, hm, hcovers⟩ := covers_iff.mp hcovers
    rw [hn] at hm
    cases hm
    exact ⟨⟨r, hmem, hn⟩, hcovers⟩
  · rintro ⟨⟨r, hmem, hn⟩, hcovers⟩
    exact ⟨r, List.mem_filter.mpr ⟨hmem, covers_iff.mpr ⟨n, hn, hcovers⟩⟩, hn⟩

theorem normalize_of_list {path : String} {entries : List Entry} (h : t.list path = .ok entries) :
    ∃ q, Path.normalize path = .ok q := by
  unfold list at h
  split at h
  · cases h
  · next q hq => exact ⟨q, hq⟩

/-- What a listing holds: the names that covering nodes list, as files when one of these nodes has
such a file. -/
theorem mem_list {path q : String} {entries : List Entry} (hq : Path.normalize path = .ok q)
    (h : t.list path = .ok entries) {e : Entry} :
    e ∈ entries ↔
      (∃ n, t.Registered n ∧ n.coversDirectory t.publisher q = true ∧
        e.name ∈ n.children t.publisher q) ∧
      (e.kind = .file ↔ ∃ n, t.Registered n ∧ n.coversDirectory t.publisher q = true ∧
        e.name ∈ n.children t.publisher q ∧
          n.matchesFile t.publisher (Path.join q e.name) = true) := by
  have hentries : merged (((t.registrations.filter (t.covers q)).filterMap
      (fun r => t.node? r.node)).flatMap (entriesOf t.publisher q)) = entries := by
    rw [list, hq] at h
    dsimp only at h
    split at h
    · cases h
    · exact Except.ok.inj h
  rw [← hentries, mem_merged]
  refine and_congr ?_ (iff_congr Iff.rfl ?_)
  · constructor
    · rintro ⟨e', he', hname⟩
      obtain ⟨n, hn, hcovers, hmem⟩ := mem_entries.mp he'
      obtain ⟨name, hchild, rfl⟩ := List.mem_map.mp hmem
      exact ⟨n, hn, hcovers, hname ▸ hchild⟩
    · rintro ⟨n, hn, hcovers, hchild⟩
      exact ⟨_, mem_entries.mpr ⟨n, hn, hcovers, List.mem_map_of_mem hchild⟩, rfl⟩
  · rw [mem_entries]
    refine exists_congr fun n => and_congr_right fun _ => and_congr_right fun _ => ?_
    constructor
    · intro hmem
      obtain ⟨name, hchild, he⟩ := List.mem_map.mp hmem
      obtain ⟨rfl, hkind⟩ := Entry.mk.inj he
      refine ⟨hchild, ?_⟩
      split at hkind
      · assumption
      · cases hkind
    · rintro ⟨hchild, hmatches⟩
      refine List.mem_map.mpr ⟨e.name, hchild, ?_⟩
      rw [if_pos hmatches]

/-! ## Attributes -/

/-- The provider supplies a content whenever it is run. -/
def Provides (p : Provider σ) : Prop := ∀ infos s, ∃ content, (p.supply infos s).1 = .ok content

/-- The node's provider supplies a content whenever it is run. -/
def Supplies : Node σ ε → Prop
  | .readOnly n => Provides n.provider
  | .readWrite n => Provides n.provider
  | _ => True

/-- The file is claimed by the node, a key store in which it has no value. -/
def UnwrittenOn (s : σ) (path : String) : Node σ ε → Prop
  | .keyStore n => ∃ key, n.keyFor? s path = some key ∧ n.get? key = none
  | _ => False

/-- The file is served by a key store in which it has no value. -/
def Unwritten (t : Tree σ ε) (path : String) : Prop :=
  ∃ r n, t.owner? path = some r ∧ t.node? r.node = some n ∧ UnwrittenOn t.publisher path n

theorem provide_ok (t : Tree σ ε) {p : Provider σ} (h : Provides p) :
    ∃ content, (t.provide p).1 = .ok content := by
  obtain ⟨content, hc⟩ := h (t.afterRemovals p).listing (t.afterRemovals p).publisher
  refine ⟨content, ?_⟩
  rw [provide_eq_supply, hc]
  rfl

/-- A node knows the size of every file that it claims, unless it is a key store in which the file
has no value. -/
theorem sizeOn_ok {ref : NodeRef} {n : Node σ ε} {path : String} (hn : t.node? ref = some n)
    (hb : n.IsBuiltIn) (hm : n.matchesFile t.publisher path = true) (hs : Supplies n)
    (hw : ¬ UnwrittenOn t.publisher path n) : ∃ size, (t.sizeOn ref path).1 = .ok size := by
  cases n with
  | readOnly n =>
      obtain ⟨content, hc⟩ := provide_ok t (p := n.provider) hs
      refine ⟨content.size, ?_⟩
      simp [sizeOn, hn, Location.check_eq_ok.mpr hm, hc]
  | readWrite n =>
      obtain ⟨content, hc⟩ := provide_ok t (p := n.provider) hs
      refine ⟨content.size, ?_⟩
      simp [sizeOn, hn, Location.check_eq_ok.mpr hm, hc]
  | keyStore n =>
      obtain ⟨key, hkey⟩ := Option.isSome_iff_exists.mp hm
      rcases hv : n.get? key with _ | value
      · exact absurd ⟨key, hkey, hv⟩ hw
      · refine ⟨value.size, ?_⟩
        simp [sizeOn, hn, KeyStore.content, KeyStore.requireKey_eq_ok.mpr hkey, hv]
  | foreign e removals => exact hb.elim

theorem sizeOn_of_unwritten {ref : NodeRef} {n : Node σ ε} {path : String}
    (hn : t.node? ref = some n) (hw : UnwrittenOn t.publisher path n) :
    (t.sizeOn ref path).1 = .error (.notFound path) := by
  cases n with
  | keyStore n =>
      obtain ⟨key, hkey, hv⟩ := hw
      simp [sizeOn, hn, KeyStore.content, KeyStore.requireKey_eq_ok.mpr hkey, hv]
  | _ => exact hw.elim

theorem stat_of_owner {path q : String} {r : Registration} (hq : Path.normalize path = .ok q)
    (ho : t.owner? q = some r) :
    ∃ writable, (t.stat path).1 =
      ((t.noteOverlap q).sizeOn r.node q).1.map (Attributes.file · writable) := by
  rw [stat, hq]
  dsimp only
  rw [ho]
  dsimp only
  rcases (t.noteOverlap q).sizeOn r.node q with ⟨fault | size, t'⟩
  · exact ⟨false, rfl⟩
  · exact ⟨_, rfl⟩

theorem stat_of_no_owner {path q : String} (hq : Path.normalize path = .ok q)
    (ho : t.owner? q = none) :
    (t.stat path).1 = if t.isDirectory q then .ok .directory else .error (.notFound q) := by
  rw [stat, hq]
  dsimp only
  rw [ho]
  dsimp only
  split <;> rfl

theorem exists_eq (t : Tree σ ε) (path : String) :
    (t.exists path).1 = (t.stat path).1.isOk := by
  unfold «exists»
  rcases t.stat path with ⟨fault | attributes, t'⟩ <;> rfl

end

/-! ## Built-in nodes -/

variable {t : Tree σ Empty} {path : String} {entries : List Entry}

/-- The name is under the directory `segs`: the node holds it there, or it is the next segment on
the way to the node. -/
def Under (s : σ) (segs : List String) (name : String) (n : Node σ Empty) : Prop :=
  (n.place s = segs ∧ n.Holds name) ∨ ∃ rest, n.place s = segs ++ name :: rest

theorem InUse.orderly_registered (h : InUse t) {n : Node σ Empty} (hn : t.Registered n) :
    n.Orderly := by
  obtain ⟨r, -, hr⟩ := hn
  exact h.orderly hr

theorem Registered.orderly {n : Node σ Empty} (hn : t.Registered n) (h : Reachable t) :
    n.Orderly :=
  h.inUse.orderly_registered hn

/-- A name under a directory can stand as a name, if the node's directory is free of NUL. -/
theorem Under.isValidName {s : σ} {segs : List String} {name : String} {n : Node σ Empty}
    (h : Under s segs name n) (ho : n.Orderly) (hfree : '\x00' ∉ (n.directory s).toList) :
    Path.isValidName name = true := by
  rcases h with ⟨-, hholds⟩ | ⟨rest, hplace⟩
  · exact (hholds.claims ho).isValidName
  · obtain ⟨hsegs, hdir⟩ := Node.directory_eq n.isBuiltIn s
    have hmem : name ∈ n.place s := by simp [hplace]
    rw [hdir] at hfree
    exact Path.isValidName_iff.mpr
      ⟨hsegs name hmem, fun hc => hfree (Path.mem_toList_ofSegments hmem hc)⟩

/-- A path one segment below a directory is a file of the nodes that have their place there and
claim the name. -/
theorem matchesFile_below {s : σ} {segs : List String} {name : String} (n : Node σ Empty)
    (h : AreSegments (segs ++ [name])) :
    n.matchesFile s (ofSegments (segs ++ [name])) = true ↔ n.place s = segs ∧ n.Claims name := by
  rw [Node.matchesFile_ofSegments n.isBuiltIn h]
  constructor
  · rintro ⟨other, hclaims, he⟩
    obtain ⟨rfl, hname⟩ := List.append_inj' he rfl
    cases hname
    exact ⟨rfl, hclaims⟩
  · rintro ⟨rfl, hclaims⟩
    exact ⟨name, hclaims, rfl⟩

/-- A listing holds the names under the directory, and a name is a file when a node that has its
place there holds it. -/
theorem InUse.mem_list (h : InUse t) (hlist : t.list path = .ok entries) {e : Entry} :
    e ∈ entries ↔
      (∃ n, t.Registered n ∧ Under t.publisher (Path.segments path) e.name n) ∧
      (e.kind = .file ↔ ∃ n, t.Registered n ∧ n.place t.publisher = Path.segments path ∧
        n.Holds e.name) := by
  obtain ⟨q, hq⟩ := normalize_of_list hlist
  obtain ⟨rfl, hsegs, -⟩ := Path.normalize_eq_ok hq
  -- what a node lists, it lists because it covers the directory
  have hchild : ∀ n : Node σ Empty,
      (n.coversDirectory t.publisher (ofSegments (Path.segments path)) = true ∧
        e.name ∈ n.children t.publisher (ofSegments (Path.segments path))) ↔
      Under t.publisher (Path.segments path) e.name n := by
    intro n
    rw [Node.coversDirectory_ofSegments n.isBuiltIn hsegs,
      Node.mem_children_ofSegments n.isBuiltIn hsegs]
    refine and_iff_right_of_imp ?_
    rintro (⟨hplace, -⟩ | ⟨rest, hplace⟩)
    · exact hplace ▸ List.prefix_refl _
    · exact hplace ▸ List.prefix_append _ _
  rw [Tree.mem_list hq hlist]
  refine and_congr (exists_congr fun n => and_congr_right fun _ => hchild n)
    (iff_congr Iff.rfl (exists_congr fun n => and_congr_right fun hn => ?_))
  rw [← and_assoc, hchild, Path.join_ofSegments hsegs]
  constructor
  · rintro ⟨hunder, hmatches⟩
    rcases hunder with ⟨hplace, hholds⟩ | ⟨rest, hplace⟩
    · exact ⟨hplace, hholds⟩
    · -- a node further down has no file here
      have hname : IsSegment e.name :=
        (Node.directory_eq n.isBuiltIn t.publisher).1 e.name (by simp [hplace])
      have hhere := ((matchesFile_below n (hsegs.append (.singleton hname))).mp hmatches).1
      simp [hplace] at hhere
  · rintro ⟨hplace, hholds⟩
    have hclaims := hholds.claims (h.orderly_registered hn)
    have hname : IsSegment e.name := (Path.isValidName_iff.mp hclaims.isValidName).1
    exact ⟨.inl ⟨hplace, hholds⟩,
      (matchesFile_below n (hsegs.append (.singleton hname))).mpr ⟨hplace, hclaims⟩⟩

theorem mem_list_iff (h : Reachable t) (hlist : t.list path = .ok entries) {e : Entry} :
    e ∈ entries ↔
      (∃ n, t.Registered n ∧ Under t.publisher (Path.segments path) e.name n) ∧
      (e.kind = .file ↔ ∃ n, t.Registered n ∧ n.place t.publisher = Path.segments path ∧
        n.Holds e.name) :=
  h.inUse.mem_list hlist

/-- Directories are the root and the beginnings of places. -/
theorem isDirectory_iff {segs : List String} (h : AreSegments segs)
    (hnul : ∀ s ∈ segs, '\x00' ∉ s.toList) :
    t.isDirectory (ofSegments segs) = true ↔
      segs = [] ∨ ∃ n, t.Registered n ∧ segs <+: n.place t.publisher := by
  rw [isDirectory, Path.normalize_ofSegments h hnul]
  dsimp only
  rw [Bool.or_eq_true, beq_iff_eq, Path.ofSegments_eq_root_iff h, List.any_eq_true]
  refine or_congr_right ⟨?_, ?_⟩
  · rintro ⟨r, hr, hcovers⟩
    obtain ⟨n, hn, hcovers⟩ := covers_iff.mp hcovers
    exact ⟨n, ⟨r, hr, hn⟩, (Node.coversDirectory_ofSegments n.isBuiltIn h).mp hcovers⟩
  · rintro ⟨n, ⟨r, hr, hn⟩, hprefix⟩
    refine ⟨r, hr, covers_iff.mpr ⟨n, hn, ?_⟩⟩
    exact (Node.coversDirectory_ofSegments n.isBuiltIn h).mpr hprefix

/-- The owner of a file one segment below a directory has its place there and claims the name. -/
theorem node_of_owner? {segs : List String} {name : String} (h : AreSegments (segs ++ [name]))
    {r : Registration} (ho : t.owner? (ofSegments (segs ++ [name])) = some r) :
    ∃ n, t.node? r.node = some n ∧ t.Registered n ∧ n.place t.publisher = segs ∧
      n.Claims name := by
  obtain ⟨hr, hclaims⟩ := claims_of_owner? ho
  obtain ⟨n, hn, hmatches⟩ := claims_iff.mp hclaims
  exact ⟨n, hn, ⟨r, hr, hn⟩, (matchesFile_below n h).mp hmatches⟩

/-- A claimed file that is not unwritten is held. -/
theorem holds_of_claims {s : σ} {segs : List String} {name : String} {n : Node σ Empty}
    (h : AreSegments (segs ++ [name])) (hplace : n.place s = segs) (hclaims : n.Claims name)
    (hw : ¬ UnwrittenOn s (ofSegments (segs ++ [name])) n) : n.Holds name := by
  cases n with
  | readOnly n => exact hclaims
  | readWrite n => exact hclaims
  | keyStore n =>
      have hkey : n.keyFor? s (ofSegments (segs ++ [name])) = some name :=
        (KeyStore.keyFor?_ofSegments h).mpr ⟨hplace ▸ rfl, hclaims⟩
      refine KeyStore.mem_keys.mpr (Option.ne_none_iff_exists'.mp fun hnone => ?_)
      exact hw ⟨name, hkey, hnone⟩
  | foreign e removals => exact e.elim

/-- A file that nobody claims is held by nobody. -/
theorem InUse.not_holds_of_no_owner {segs : List String} {name : String} (h : InUse t)
    (hbelow : AreSegments (segs ++ [name]))
    (ho : t.owner? (ofSegments (segs ++ [name])) = none) {n : Node σ Empty}
    (hn : t.Registered n) : ¬ (n.place t.publisher = segs ∧ n.Holds name) := by
  rintro ⟨hplace, hholds⟩
  have horderly := h.orderly_registered hn
  obtain ⟨r, hr, hn⟩ := hn
  have hclaims : t.claims (ofSegments (segs ++ [name])) r = true :=
    claims_iff.mpr ⟨n, hn, (matchesFile_below n hbelow).mpr ⟨hplace, hholds.claims horderly⟩⟩
  rw [owner?_eq_none.mp ho r hr] at hclaims
  cases hclaims

/-- A file one segment below a directory that nobody claims is a directory if anything has it under
that directory, and then nobody holds it. -/
theorem stat_below_of_no_owner {segs : List String} {name : String} (h : Reachable t)
    (hbelow : AreSegments (segs ++ [name])) (hnul : ∀ s ∈ segs ++ [name], '\x00' ∉ s.toList)
    (hpath : Path.normalize path = .ok (ofSegments (segs ++ [name])))
    (ho : t.owner? (ofSegments (segs ++ [name])) = none) {n : Node σ Empty}
    (hn : t.Registered n) (hunder : Under t.publisher segs name n) :
    (t.stat path).1 = .ok .directory ∧
      ∀ m, t.Registered m → ¬ (m.place t.publisher = segs ∧ m.Holds name) := by
  have hnobody : ∀ m, t.Registered m → ¬ (m.place t.publisher = segs ∧ m.Holds name) :=
    fun m hm => h.inUse.not_holds_of_no_owner hbelow ho hm
  have hdirectory : t.isDirectory (ofSegments (segs ++ [name])) = true := by
    refine (isDirectory_iff hbelow hnul).mpr (.inr ⟨n, hn, ?_⟩)
    rcases hunder with hheld | ⟨rest, hplace⟩
    · exact absurd hheld (hnobody n hn)
    · exact ⟨rest, by rw [hplace, List.append_assoc, List.singleton_append]⟩
  refine ⟨?_, hnobody⟩
  rw [stat_of_no_owner hpath ho, if_pos hdirectory]

/-- A file one segment below a directory that has an owner is a file that somebody holds, unless it
is unwritten: then it cannot be found. -/
theorem stat_below_of_owner {segs : List String} {name : String}
    (hsupply : ∀ n, t.Registered n → Supplies n) (hbelow : AreSegments (segs ++ [name]))
    (hpath : Path.normalize path = .ok (ofSegments (segs ++ [name]))) {r : Registration}
    (ho : t.owner? (ofSegments (segs ++ [name])) = some r) :
    (¬ t.Unwritten (ofSegments (segs ++ [name])) →
      (∃ size writable, (t.stat path).1 = .ok (.file size writable)) ∧
      ∃ m, t.Registered m ∧ m.place t.publisher = segs ∧ m.Holds name) ∧
    (t.Unwritten (ofSegments (segs ++ [name])) →
      (t.stat path).1 = .error (.notFound (ofSegments (segs ++ [name])))) := by
  obtain ⟨m, hm, hmr, hplace, hclaims⟩ := node_of_owner? hbelow ho
  have hnoted := (node?_noteOverlap t (ofSegments (segs ++ [name])) r.node).trans hm
  have hpublisher := publisher_noteOverlap t (ofSegments (segs ++ [name]))
  obtain ⟨writable, hstat⟩ := stat_of_owner hpath ho
  rw [hstat]
  constructor
  · intro hw
    have hw : ¬ UnwrittenOn t.publisher (ofSegments (segs ++ [name])) m :=
      fun hm' => hw ⟨r, m, ho, hm, hm'⟩
    refine ⟨?_, m, hmr, hplace, holds_of_claims hbelow hplace hclaims hw⟩
    have hmatches := (matchesFile_below m hbelow).mpr ⟨hplace, hclaims⟩
    obtain ⟨size, hsize⟩ := sizeOn_ok hnoted m.isBuiltIn (hpublisher ▸ hmatches) (hsupply m hmr)
      (hpublisher ▸ hw)
    rw [hsize]
    exact ⟨size, writable, rfl⟩
  · rintro ⟨r', m', hr', hm', hw⟩
    rw [ho] at hr'
    cases hr'
    rw [hm] at hm'
    cases hm'
    rw [sizeOn_of_unwritten hnoted (hpublisher ▸ hw)]
    rfl

/-- Everything that a tree of built-in nodes lists is there, and is of the kind that it is listed
as, unless it is served by a key store in which it has no value: then it cannot be found, whichever
other node it was listed for. -/
theorem stat_of_mem_list (h : Reachable t)
    (hfree : ∀ n, t.Registered n → '\x00' ∉ (n.directory t.publisher).toList)
    (hsupply : ∀ n, t.Registered n → Supplies n) (hlist : t.list path = .ok entries) :
    ∀ e ∈ entries, ∃ q, Path.normalize (Path.join path e.name) = .ok q ∧
      (¬ t.Unwritten q → (t.exists (Path.join path e.name)).1 = true ∧
        ∃ a, (t.stat (Path.join path e.name)).1 = .ok a ∧ a.kind = e.kind) ∧
      (t.Unwritten q → (t.exists (Path.join path e.name)).1 = false ∧
        (t.stat (Path.join path e.name)).1 = .error (.notFound q)) := by
  intro e he
  obtain ⟨p, hp⟩ := normalize_of_list hlist
  obtain ⟨-, hsegs, hnul⟩ := Path.normalize_eq_ok hp
  obtain ⟨⟨n, hn, hunder⟩, hfile⟩ := (mem_list_iff h hlist).mp he
  -- the name can stand in a caller's path, so joining it to the directory can be undone
  obtain ⟨hname, hnameNul⟩ :=
    Path.isValidName_iff.mp (hunder.isValidName (hn.orderly h) (hfree n hn))
  have hbelow : AreSegments (Path.segments path ++ [e.name]) := hsegs.append (.singleton hname)
  have hbelowNul : ∀ s ∈ Path.segments path ++ [e.name], '\x00' ∉ s.toList := by
    intro s hs
    rcases List.mem_append.mp hs with hs | hs
    · exact hnul s hs
    · rwa [List.mem_singleton.mp hs]
  have hq := Path.normalize_join hp hname hnameNul
  refine ⟨_, hq, ?_⟩
  rw [exists_eq]
  rcases ho : t.owner? (ofSegments (Path.segments path ++ [e.name])) with _ | r
  · obtain ⟨hstat, hnobody⟩ := stat_below_of_no_owner h hbelow hbelowNul hq ho hn hunder
    -- listed by nodes further down only, it was listed as a directory
    have hkind : e.kind = .directory := by
      rcases hk : e.kind with _ | _
      · obtain ⟨m, hm, hheld⟩ := hfile.mp hk
        exact absurd hheld (hnobody m hm)
      · rfl
    rw [hstat, hkind]
    refine ⟨fun _ => ⟨rfl, _, rfl, rfl⟩, ?_⟩
    rintro ⟨r, m, hr, -⟩
    rw [ho] at hr
    cases hr
  · obtain ⟨hthere, hnotThere⟩ := stat_below_of_owner hsupply hbelow hq ho
    constructor
    · intro hw
      obtain ⟨⟨size, writable, hstat⟩, hheld⟩ := hthere hw
      rw [hstat, hfile.mpr hheld]
      exact ⟨rfl, _, rfl, rfl⟩
    · intro hw
      rw [hnotThere hw]
      exact ⟨rfl, rfl⟩

/-- A directory of keys. -/
def options : KeyStore Unit where
  directory := .fixed "/app"

/-- A file in the same directory. -/
def uptime : ReadOnly Unit where
  location := ⟨.fixed "/app", "uptime", rfl⟩
  provider := .ofText fun _ => "0"

/-- A key store with one key, and a file that has been registered after it. -/
def shadowed : Tree Unit Empty :=
  [.register ⟨0⟩, .register ⟨1⟩, .insert ⟨0⟩ "color" #[]].foldl perform
    (addNode (addNode { publisher := () } (.keyStore options)).2 (.readOnly uptime)).2

theorem reachable_shadowed : Reachable shadowed :=
  .perform (.insert ⟨0⟩ "color" #[]) (.perform (.register ⟨1⟩) (.perform (.register ⟨0⟩)
    (.addNode (.readOnly uptime) (.addNode (.keyStore options) (.empty {} ()) ⟨rfl, rfl⟩) rfl)))

theorem registered_shadowed {n : Node Unit Empty} (h : shadowed.Registered n) :
    n = .keyStore { options with entries := [("color", #[])] } ∨ n = .readOnly uptime := by
  obtain ⟨r, hr, hn⟩ := h
  rcases List.mem_cons.mp hr with rfl | hr
  · exact .inl (Option.some.inj hn).symm
  · rcases List.mem_singleton.mp hr with rfl
    exact .inr (Option.some.inj hn).symm

theorem unwritten_shadowed_iff {path : String} (h : shadowed.owner? path = some ⟨⟨1⟩, ⟨0⟩⟩) :
    shadowed.Unwritten path ↔
      UnwrittenOn () path (.keyStore { options with entries := [("color", #[])] } :
        Node Unit Empty) := by
  constructor
  · rintro ⟨r, n, ho, hn, hw⟩
    rw [h] at ho
    cases ho
    cases hn
    exact hw
  · exact fun hw => ⟨_, _, h, rfl, hw⟩

/-- The key is listed and is there. The file is listed and cannot be found: the key store claims it
first, as a key that has no value. -/
theorem stat_of_mem_list_shadowed :
    Reachable shadowed ∧
      shadowed.list "/app" = .ok [⟨"color", .file⟩, ⟨"uptime", .file⟩] ∧
      (shadowed.exists "/app/color").1 = true ∧
      (shadowed.exists "/app/uptime").1 = false ∧
      (shadowed.stat "/app/uptime").1 = .error (.notFound "/app/uptime") := by
  have hlist : shadowed.list "/app" = .ok [⟨"color", .file⟩, ⟨"uptime", .file⟩] := rfl
  have hfree : ∀ n, shadowed.Registered n →
      '\x00' ∉ (n.directory shadowed.publisher).toList := by
    intro n hn
    rcases registered_shadowed hn with rfl | rfl
    · decide
    · decide
  have hsupply : ∀ n, shadowed.Registered n → Supplies n := by
    intro n hn
    rcases registered_shadowed hn with rfl | rfl
    · trivial
    · exact fun infos s => ⟨_, rfl⟩
  have hall := stat_of_mem_list reachable_shadowed hfree hsupply hlist
  refine ⟨reachable_shadowed, hlist, ?_, ?_⟩
  · obtain ⟨q, hq, hthere, -⟩ := hall ⟨"color", .file⟩ List.mem_cons_self
    have hcolor : Path.normalize (Path.join "/app" "color") = .ok "/app/color" := rfl
    cases hcolor.symm.trans hq
    refine (hthere ?_).1
    rintro hw
    obtain ⟨key, hkey, hnone⟩ := (unwritten_shadowed_iff (by decide)).mp hw
    have hkey' : KeyStore.keyFor? { options with entries := [("color", #[])] } ()
        "/app/color" = some "color" := by decide
    cases hkey'.symm.trans hkey
    cases hnone
  · obtain ⟨q, hq, -, hnotThere⟩ := hall ⟨"uptime", .file⟩ (by simp)
    have huptime : Path.normalize (Path.join "/app" "uptime") = .ok "/app/uptime" := rfl
    cases huptime.symm.trans hq
    refine hnotThere ((unwritten_shadowed_iff (by decide)).mpr ?_)
    exact ⟨"uptime", by decide, by decide⟩

end Tree

end LiveTree
