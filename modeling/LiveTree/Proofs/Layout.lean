import LiveTree.Proofs.Merging
import LiveTree.Proofs.Residence

/-!
# The layout of the built-in nodes

The built-in nodes are five files and a key store. What the namespace shows of them follows from the
segments of their root alone (`Tree.LaidOut`), so one argument serves all roots, `/` among them: the
root lists the files and the directory of the store (`LaidOut.list_root`), what is above lists the
way to the root (`LaidOut.list_above`), and the store lists its keys (`LaidOut.list_store`). Nodes
may be used in any way meanwhile, since they stay where they are (`LaidOut.moves`).
-/

namespace LiveTree

open LiveTree.Path (AreSegments IsSegment ofSegments)

variable {σ ε : Type}

/-! ## Nodes at a place -/

/-- A node that has the one file `name`, always in the directory `segs`, and always a content for
it. -/
inductive Node.IsFileAt (segs : List String) (name : String) : Node σ ε → Prop where
  | readOnly {n : ReadOnly σ} (place : ∀ s, n.location.directory.place s = segs)
      (named : n.location.name = name) (provides : Tree.Provides n.provider) :
      IsFileAt segs name (.readOnly n)
  | readWrite {n : ReadWrite σ} (place : ∀ s, n.location.directory.place s = segs)
      (named : n.location.name = name) (provides : Tree.Provides n.provider) :
      IsFileAt segs name (.readWrite n)

/-- A key store that is always the directory `segs`. -/
inductive Node.IsStoreAt (segs : List String) : Node σ ε → Prop where
  | keyStore {n : KeyStore σ} (place : ∀ s, n.directory.place s = segs) :
      IsStoreAt segs (.keyStore n)

namespace Node

variable {n m : Node σ ε} {segs : List String} {name other : String}

theorem IsFileAt.stays (h : n.IsFileAt segs name) (hs : n.Stays m) : m.IsFileAt segs name := by
  cases h with
  | readOnly hplace hname hprovides =>
      cases hs with
      | readOnly hl hp => exact .readOnly (hl ▸ hplace) (hl ▸ hname) (hp ▸ hprovides)
  | readWrite hplace hname hprovides =>
      cases hs with
      | readWrite hl hp _ => exact .readWrite (hl ▸ hplace) (hl ▸ hname) (hp ▸ hprovides)

theorem IsStoreAt.stays (h : n.IsStoreAt segs) (hs : n.Stays m) : m.IsStoreAt segs := by
  cases h with
  | keyStore hplace =>
      cases hs with
      | keyStore hd => exact .keyStore (hd ▸ hplace)

theorem IsFileAt.holds_iff (h : n.IsFileAt segs name) : n.Holds other ↔ other = name := by
  cases h with
  | readOnly _ hname _ => exact hname ▸ Iff.rfl
  | readWrite _ hname _ => exact hname ▸ Iff.rfl

theorem IsFileAt.claims_iff (h : n.IsFileAt segs name) : n.Claims other ↔ other = name := by
  cases h with
  | readOnly _ hname _ => exact hname ▸ Iff.rfl
  | readWrite _ hname _ => exact hname ▸ Iff.rfl

theorem IsFileAt.supplies (h : n.IsFileAt segs name) : Tree.Supplies n := by
  cases h with
  | readOnly _ _ hprovides => exact hprovides
  | readWrite _ _ hprovides => exact hprovides

theorem IsStoreAt.supplies (h : n.IsStoreAt segs) : Tree.Supplies n := by
  cases h
  trivial

theorem IsFileAt.not_unwrittenOn (h : n.IsFileAt segs name) (s : σ) (path : String) :
    ¬ Tree.UnwrittenOn s path n := by
  cases h with
  | readOnly => exact id
  | readWrite => exact id

variable [Foreign ε]

theorem IsFileAt.place_eq (h : n.IsFileAt segs name) (s : σ) : n.place s = segs := by
  cases h with
  | readOnly hplace => exact hplace s
  | readWrite hplace => exact hplace s

theorem IsStoreAt.place_eq (h : n.IsStoreAt segs) (s : σ) : n.place s = segs := by
  cases h with
  | keyStore hplace => exact hplace s

end Node

/-! ## Listings from their members -/

namespace Tree

/-- A list of entries in order is the listing of a directory if it has the members. -/
theorem InUse.list_eq {t : Tree σ Empty} {segs : List String} {entries : List Entry} (h : InUse t)
    (hsegs : AreSegments segs) (hdir : t.isDirectory (ofSegments segs) = true)
    (hsorted : entries.Pairwise Entry.Before)
    (hmem : ∀ e : Entry, e ∈ entries ↔
      (∃ n, t.Registered n ∧ Under t.publisher segs e.name n) ∧
      (e.kind = .file ↔ ∃ n, t.Registered n ∧ n.place t.publisher = segs ∧ n.Holds e.name)) :
    t.list (ofSegments segs) = .ok entries := by
  obtain ⟨found, hlist⟩ := list_eq_ok_iff.mpr hdir
  have hfound : ∀ e, e ∈ found ↔ e ∈ entries := by
    intro e
    rw [hmem, h.mem_list hlist, Path.segments_ofSegments hsegs]
  rw [hlist, List.Pairwise.eq_of_mem_iff (pairwise_before_list hlist) hsorted hfound]

end Tree

/-! ## Laid out -/

namespace Builtins

/-- The names of the built-in files. -/
def fileNames : List String := ["motd", "nodes", "tick", "uptime", "version"]

/-- What the root of the built-in nodes lists. -/
def entries : List Entry :=
  [⟨"motd", .file⟩, ⟨"nodes", .file⟩, ⟨"state", .directory⟩, ⟨"tick", .file⟩, ⟨"uptime", .file⟩,
    ⟨"version", .file⟩]

theorem mem_entries_iff {e : Entry} :
    e ∈ entries ↔
      (e.name ∈ fileNames ∨ e.name = "state") ∧ (e.kind = .file ↔ e.name ∈ fileNames) := by
  obtain ⟨name, kind⟩ := e
  have hstate : "state" ∉ fileNames := by decide
  cases kind with
  | file =>
      have hfile : ⟨name, .file⟩ ∈ entries ↔ name ∈ fileNames := by simp [entries, fileNames]
      rw [hfile]
      simp +contextual
  | directory =>
      have hdirectory : ⟨name, .directory⟩ ∈ entries ↔ name = "state" := by simp [entries]
      rw [hdirectory]
      constructor
      · rintro rfl
        exact ⟨.inr rfl, iff_of_false nofun hstate⟩
      · rintro ⟨hname | hname, hkind⟩
        · cases hkind.mpr hname
        · exact hname

theorem pairwise_before_entries : entries.Pairwise Entry.Before := by
  have hdecided : entries.Pairwise
      (fun e e' => Bytes.octetsOf e.name < Bytes.octetsOf e'.name) := by decide
  exact hdecided

end Builtins

namespace Tree

/-- What is registered are the built-in files in the directory `segs`, and the key store that
`state` leads to, in the directory `state` there. -/
structure LaidOut (t : Tree σ ε) (segs : List String) (state : NodeRef) : Prop where
  files : ∀ name ∈ Builtins.fileNames, ∃ n, t.Registered n ∧ n.IsFileAt segs name
  registered : ∃ r ∈ t.registrations, r.node = state
  store : ∃ n, t.node? state = some n ∧ n.IsStoreAt (segs ++ ["state"])
  only : ∀ r ∈ t.registrations, r.node = state ∨
    ∃ n, t.node? r.node = some n ∧ ∃ name ∈ Builtins.fileNames, n.IsFileAt segs name

namespace LaidOut

variable {t : Tree σ Empty} {segs : List String} {state : NodeRef} {name : String}

theorem exists_store (h : t.LaidOut segs state) :
    ∃ n, t.Registered n ∧ t.node? state = some n ∧ n.IsStoreAt (segs ++ ["state"]) := by
  obtain ⟨r, hr, rfl⟩ := h.registered
  obtain ⟨n, hn, hstore⟩ := h.store
  exact ⟨n, ⟨r, hr, hn⟩, hn, hstore⟩

theorem file_or_state (h : t.LaidOut segs state) {n : Node σ Empty} (hn : t.Registered n) :
    (∃ name ∈ Builtins.fileNames, n.IsFileAt segs name) ∨ t.node? state = some n := by
  obtain ⟨r, hr, hn⟩ := hn
  rcases h.only r hr with rfl | ⟨m, hm, hfile⟩
  · exact .inr hn
  · rw [hn] at hm
    cases hm
    exact .inl hfile

theorem file_or_store (h : t.LaidOut segs state) {n : Node σ Empty} (hn : t.Registered n) :
    (∃ name ∈ Builtins.fileNames, n.IsFileAt segs name) ∨ n.IsStoreAt (segs ++ ["state"]) := by
  rcases h.file_or_state hn with hfile | hstate
  · exact .inl hfile
  · obtain ⟨m, hm, hstore⟩ := h.store
    rw [hm] at hstate
    cases hstate
    exact .inr hstore

theorem supplies (h : t.LaidOut segs state) {n : Node σ Empty} (hn : t.Registered n) :
    Supplies n := by
  rcases h.file_or_store hn with ⟨name, -, hfile⟩ | hstore
  · exact hfile.supplies
  · exact hstore.supplies

/-! ### What is under the directories -/

theorem under_root_iff (h : t.LaidOut segs state) :
    (∃ n, t.Registered n ∧ Under t.publisher segs name n) ↔
      name ∈ Builtins.fileNames ∨ name = "state" := by
  constructor
  · rintro ⟨n, hn, hunder⟩
    rcases h.file_or_store hn with ⟨own, hown, hfile⟩ | hstore
    · rcases hunder with ⟨-, hheld⟩ | ⟨rest, hplace⟩
      · exact .inl (hfile.holds_iff.mp hheld ▸ hown)
      · rw [hfile.place_eq] at hplace
        simp at hplace
    · rcases hunder with ⟨hplace, -⟩ | ⟨rest, hplace⟩
      · rw [hstore.place_eq] at hplace
        simp at hplace
      · rw [hstore.place_eq] at hplace
        cases List.append_cancel_left hplace
        exact .inr rfl
  · rintro (hname | rfl)
    · obtain ⟨n, hn, hfile⟩ := h.files name hname
      exact ⟨n, hn, .inl ⟨hfile.place_eq _, hfile.holds_iff.mpr rfl⟩⟩
    · obtain ⟨n, hn, -, hstore⟩ := h.exists_store
      exact ⟨n, hn, .inr ⟨[], hstore.place_eq _⟩⟩

theorem held_in_root_iff (h : t.LaidOut segs state) :
    (∃ n, t.Registered n ∧ n.place t.publisher = segs ∧ n.Holds name) ↔
      name ∈ Builtins.fileNames := by
  constructor
  · rintro ⟨n, hn, hplace, hheld⟩
    rcases h.file_or_store hn with ⟨own, hown, hfile⟩ | hstore
    · exact hfile.holds_iff.mp hheld ▸ hown
    · rw [hstore.place_eq] at hplace
      simp at hplace
  · intro hname
    obtain ⟨n, hn, hfile⟩ := h.files name hname
    exact ⟨n, hn, hfile.place_eq _, hfile.holds_iff.mpr rfl⟩

theorem under_above_iff (h : t.LaidOut segs state) {above rest : List String} {next : String}
    (hsegs : segs = above ++ next :: rest) :
    (∃ n, t.Registered n ∧ Under t.publisher above name n) ↔ name = next := by
  -- every place goes on behind `above` with `next`
  have hplaces : ∀ n, t.Registered n → ∃ more, n.place t.publisher = above ++ next :: more := by
    intro n hn
    rcases h.file_or_store hn with ⟨own, -, hfile⟩ | hstore
    · exact ⟨rest, (hfile.place_eq _).trans hsegs⟩
    · exact ⟨rest ++ ["state"], by rw [hstore.place_eq, hsegs, List.append_assoc, List.cons_append]⟩
  constructor
  · rintro ⟨n, hn, hunder⟩
    obtain ⟨more, hmore⟩ := hplaces n hn
    rcases hunder with ⟨hplace, -⟩ | ⟨other, hplace⟩
    · simp [hmore] at hplace
    · rw [hmore] at hplace
      cases List.append_cancel_left hplace
      rfl
  · rintro rfl
    obtain ⟨n, hn, -⟩ := h.exists_store
    exact ⟨n, hn, .inr (hplaces n hn)⟩

theorem not_held_above (h : t.LaidOut segs state) {above rest : List String} {next : String}
    (hsegs : segs = above ++ next :: rest) :
    ¬ ∃ n, t.Registered n ∧ n.place t.publisher = above ∧ n.Holds name := by
  rintro ⟨n, hn, hplace, -⟩
  rcases h.file_or_store hn with ⟨own, -, hfile⟩ | hstore
  · rw [hfile.place_eq, hsegs] at hplace
    simp at hplace
  · rw [hstore.place_eq, hsegs] at hplace
    simp at hplace

theorem held_in_store_iff (h : t.LaidOut segs state) {n : Node σ Empty}
    (hstate : t.node? state = some n) :
    (∃ m, t.Registered m ∧ m.place t.publisher = segs ++ ["state"] ∧ m.Holds name) ↔
      n.Holds name := by
  constructor
  · rintro ⟨m, hm, hplace, hheld⟩
    rcases h.file_or_state hm with ⟨own, -, hfile⟩ | hm
    · rw [hfile.place_eq] at hplace
      simp at hplace
    · rw [hstate] at hm
      cases hm
      exact hheld
  · intro hheld
    obtain ⟨m, hm, hstate', hstore⟩ := h.exists_store
    rw [hstate] at hstate'
    cases hstate'
    exact ⟨n, hm, hstore.place_eq _, hheld⟩

theorem under_store_iff (h : t.LaidOut segs state) {n : Node σ Empty}
    (hstate : t.node? state = some n) :
    (∃ m, t.Registered m ∧ Under t.publisher (segs ++ ["state"]) name m) ↔ n.Holds name := by
  rw [← h.held_in_store_iff hstate]
  refine exists_congr fun m => and_congr_right fun hm => or_iff_left ?_
  -- nothing lies deeper than the store
  rintro ⟨rest, hplace⟩
  rcases h.file_or_store hm with ⟨own, -, hfile⟩ | hstore
  · rw [hfile.place_eq] at hplace
    simp at hplace
  · rw [hstore.place_eq] at hplace
    simp at hplace

/-! ### Listings and attributes -/

theorem isDirectory (h : t.LaidOut segs state) {above : List String}
    (hsegs : AreSegments above) (hnul : ∀ s ∈ above, '\x00' ∉ s.toList)
    (hbegin : above <+: segs ++ ["state"]) : t.isDirectory (ofSegments above) = true := by
  obtain ⟨n, hn, -, hstore⟩ := h.exists_store
  exact (isDirectory_iff hsegs hnul).mpr (.inr ⟨n, hn, by rwa [hstore.place_eq]⟩)

theorem list_root (h : t.LaidOut segs state) (hused : InUse t) (hsegs : AreSegments segs)
    (hnul : ∀ s ∈ segs, '\x00' ∉ s.toList) :
    t.list (ofSegments segs) = .ok Builtins.entries := by
  apply hused.list_eq hsegs (h.isDirectory hsegs hnul (List.prefix_append _ _))
    Builtins.pairwise_before_entries
  intro e
  rw [h.under_root_iff, h.held_in_root_iff]
  exact Builtins.mem_entries_iff

theorem list_above (h : t.LaidOut segs state) (hused : InUse t) (hsegs : AreSegments segs)
    (hnul : ∀ s ∈ segs, '\x00' ∉ s.toList) {above rest : List String} {next : String}
    (hnext : segs = above ++ next :: rest) :
    t.list (ofSegments above) = .ok [⟨next, .directory⟩] := by
  have hsub : ∀ s ∈ above, s ∈ segs := fun s hs => hnext ▸ List.mem_append_left _ hs
  have habove : AreSegments above := fun s hs => hsegs s (hsub s hs)
  have hbegin : above <+: segs ++ ["state"] :=
    ⟨next :: rest ++ ["state"], by rw [hnext, List.append_assoc]⟩
  apply hused.list_eq habove (h.isDirectory habove (fun s hs => hnul s (hsub s hs)) hbegin)
    (List.pairwise_singleton _ _)
  rintro ⟨name, kind⟩
  rw [h.under_above_iff hnext, iff_false_right (h.not_held_above hnext)]
  cases kind <;> simp

theorem list_store (h : t.LaidOut segs state) (hused : InUse t)
    (hsegs : AreSegments (segs ++ ["state"]))
    (hnul : ∀ s ∈ segs ++ ["state"], '\x00' ∉ s.toList) {n : KeyStore σ}
    (hstate : t.node? state = some (.keyStore n)) :
    t.list (ofSegments (segs ++ ["state"])) = .ok (n.keys.map fun key => ⟨key, .file⟩) := by
  have hsorted : (n.keys.map fun key => (⟨key, .file⟩ : Entry)).Pairwise Entry.Before := by
    rw [List.pairwise_map]
    have hkeys : n.keys.Pairwise (NameMap.before · · = true) := (hused.orderly hstate).sorted
    exact hkeys.imp of_decide_eq_true
  apply hused.list_eq hsegs (h.isDirectory hsegs hnul (List.prefix_refl _)) hsorted
  rintro ⟨name, kind⟩
  rw [h.under_store_iff hstate, h.held_in_store_iff hstate]
  have hheld : (Node.keyStore n : Node σ Empty).Holds name ↔ name ∈ n.keys := Iff.rfl
  rw [hheld]
  cases kind <;> simp +contextual

theorem stat_file (h : t.LaidOut segs state) (hused : InUse t)
    (hsegs : AreSegments (segs ++ [name])) (hnul : ∀ s ∈ segs ++ [name], '\x00' ∉ s.toList)
    (hname : name ∈ Builtins.fileNames) :
    ∃ size writable, (t.stat (ofSegments (segs ++ [name]))).1 = .ok (.file size writable) := by
  have hpath := Path.normalize_ofSegments hsegs hnul
  obtain ⟨n, hn, hfile⟩ := h.files name hname
  rcases ho : t.owner? (ofSegments (segs ++ [name])) with _ | r
  · exact absurd ⟨hfile.place_eq _, hfile.holds_iff.mpr rfl⟩
      (hused.not_holds_of_no_owner hsegs ho hn)
  · -- whoever owns the file is one of the files, and has a content for it
    have hwritten : ¬ t.Unwritten (ofSegments (segs ++ [name])) := by
      rintro ⟨r', m, hr', hm, hunwritten⟩
      rw [ho] at hr'
      cases hr'
      obtain ⟨m', hm', hregistered, hplace, -⟩ := node_of_owner? hsegs ho
      rw [hm] at hm'
      cases hm'
      rcases h.file_or_store hregistered with ⟨own, -, howner⟩ | hstore
      · exact howner.not_unwrittenOn _ _ hunwritten
      · rw [hstore.place_eq] at hplace
        simp at hplace
    exact ((stat_below_of_owner (fun _ => h.supplies) hsegs hpath ho).1 hwritten).1

theorem stat_store (h : t.LaidOut segs state) (hsegs : AreSegments (segs ++ ["state"]))
    (hnul : ∀ s ∈ segs ++ ["state"], '\x00' ∉ s.toList) :
    (t.stat (ofSegments (segs ++ ["state"]))).1 = .ok .directory := by
  have hpath := Path.normalize_ofSegments hsegs hnul
  rcases ho : t.owner? (ofSegments (segs ++ ["state"])) with _ | r
  · rw [stat_of_no_owner hpath ho, if_pos (h.isDirectory hsegs hnul (List.prefix_refl _))]
  · -- a file of that name would be one of the files
    obtain ⟨n, -, hn, hplace, hclaims⟩ := node_of_owner? hsegs ho
    rcases h.file_or_store hn with ⟨own, hown, hfile⟩ | hstore
    · rw [hfile.claims_iff] at hclaims
      subst hclaims
      exact absurd hown (by decide)
    · rw [hstore.place_eq] at hplace
      simp at hplace

/-! ### As long as the registrations stay -/

/-- Nodes that have only moved on are where they were. -/
theorem moves {u : Tree σ Empty} (h : t.LaidOut segs state) (hmoves : Moves t u)
    (hregistrations : u.registrations = t.registrations) : u.LaidOut segs state where
  files := by
    intro name hname
    obtain ⟨n, ⟨r, hr, hn⟩, hfile⟩ := h.files name hname
    obtain ⟨m, hm, hstays⟩ := hmoves.exists_stays hn
    exact ⟨m, ⟨r, hregistrations ▸ hr, hm⟩, hfile.stays hstays⟩
  registered := hregistrations ▸ h.registered
  store := by
    obtain ⟨n, hn, hstore⟩ := h.store
    obtain ⟨m, hm, hstays⟩ := hmoves.exists_stays hn
    exact ⟨m, hm, hstore.stays hstays⟩
  only := by
    intro r hr
    rcases h.only r (hregistrations ▸ hr) with hstate | ⟨n, hn, name, hname, hfile⟩
    · exact .inl hstate
    · obtain ⟨m, hm, hstays⟩ := hmoves.exists_stays hn
      exact .inr ⟨m, hm, name, hname, hfile.stays hstays⟩

end LaidOut

end Tree

end LiveTree
