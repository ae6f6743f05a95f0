import LiveTree.Proofs.Brackets
import LiveTree.Proofs.Counting
import LiveTree.Proofs.Layout
import LiveTree.Proofs.Numbering
import LiveTree.Proofs.Spellings

/-!
# Installing the built-in nodes

Installing takes the built-in nodes in and registers them one after the other, under whatever root a
server has been given: a spelling of the root matters only through what `clean` makes of it. Where
nothing was registered before, the tree is laid out then (`laidOut_install`), and as long as the
registrations stay, the namespace shows the built-in nodes (`Shown`). Uninstalling removes what was
registered, and leaves nothing (`Tree.Bare`), whatever was done in between (`builtins_laid_out`).
-/

namespace LiveTree

open LiveTree.Path (AreSegments IsSegment ofSegments)

variable {σ ε : Type}

namespace Tree

/-! ## Nothing registered -/

/-- Nothing is registered, nothing is open, and there is nothing but the root directory. -/
structure Bare (t : Tree σ Empty) : Prop where
  registrations : t.registrations = []
  handles : t.handles = []
  list : t.list "/" = .ok []
  exists_iff : ∀ path, (t.exists path).1 = true ↔ Path.normalize path = .ok "/"

section

variable {t : Tree σ Empty}

theorem owner?_of_nothing_registered (h : t.registrations = []) (path : String) :
    t.owner? path = none := by
  apply owner?_eq_none.mpr
  rw [h]
  exact nofun

theorem isDirectory_of_nothing_registered (h : t.registrations = []) (path : String) :
    t.isDirectory path = true ↔ Path.normalize path = .ok "/" := by
  unfold isDirectory
  rw [h]
  rcases Path.normalize path with fault | q <;> simp

/-- Without registrations there is nothing but the root directory. -/
theorem exists_of_nothing_registered (h : t.registrations = []) (path : String) :
    (t.exists path).1 = true ↔ Path.normalize path = .ok "/" := by
  rw [exists_eq]
  rcases hq : Path.normalize path with fault | q
  · rw [stat, hq]
    simp [Except.isOk, Except.toBool]
  · have hdir : t.isDirectory q = true ↔ q = "/" := by
      rw [isDirectory_of_nothing_registered h, Path.normalize_normalize hq, Except.ok.injEq]
    rw [stat_of_no_owner hq (owner?_of_nothing_registered h q), Except.ok.injEq, ← hdir]
    rcases t.isDirectory q with _ | _ <;> simp [Except.isOk, Except.toBool]

theorem list_of_nothing_registered (h : t.registrations = []) : t.list "/" = .ok [] := by
  have hroot : Path.normalize "/" = .ok "/" := by decide
  rw [list, hroot, h]
  rfl

/-- Between operations, no handles without registrations. -/
theorem InUse.handles_of_nothing_registered (hused : InUse t) (h : t.registrations = []) :
    t.handles = [] := by
  apply List.eq_nil_iff_forall_not_mem.mpr
  intro o ho
  have hregistered := hused.registered.1 o ho
  rw [isRegistered, h] at hregistered
  cases hregistered

theorem InUse.bare (hused : InUse t) (h : t.registrations = []) : t.Bare :=
  ⟨h, hused.handles_of_nothing_registered h, list_of_nothing_registered h,
    exists_of_nothing_registered h⟩

end

/-! ## Registrations of runs -/

section

variable [Foreign ε] {t : Tree σ ε}

theorem registrations_performAll_sublist {actions : List (Action σ)}
    (h : ∀ a ∈ actions, ∀ ref, a ≠ .register ref) :
    (t.performAll actions).registrations.Sublist t.registrations := by
  induction actions generalizing t with
  | nil => exact .refl _
  | cons a actions ih =>
      obtain ⟨ha, hrest⟩ := List.forall_mem_cons.mp h
      exact (ih hrest).trans (spends_perform t ha).registrations

theorem registrations_unregister (t : Tree σ ε) (id : NodeId) :
    (t.unregister id).2.registrations = t.registrations.filter (·.id ≠ id) := by
  have hb := congrArg Books.registrations (books_unregister t id)
  split at hb
  · exact hb
  · next hnone =>
    refine hb.trans (List.filter_eq_self.mpr ?_).symm
    intro r hr
    have hother := List.any_eq_false.mp (Bool.eq_false_iff.mpr hnone) r hr
    simpa using hother

theorem registrations_unregisterAll (t : Tree σ ε) (ids : List NodeId) :
    (t.performAll (ids.map .unregister)).registrations =
      t.registrations.filter (·.id ∉ ids) := by
  induction ids generalizing t with
  | nil => exact (List.filter_eq_self.mpr fun _ _ => by simp).symm
  | cons id ids ih =>
      rw [List.map_cons, performAll_cons, ih]
      show ((t.unregister id).2.registrations).filter _ = _
      rw [registrations_unregister, List.filter_filter]
      congr 1
      funext r
      simp [Bool.and_comm]

end

end Tree

/-! ## Installing and uninstalling -/

namespace Builtins

section

variable [Foreign ε] {t : Tree σ ε}

theorem reachable_registerAll (h : t.Reachable) {nodes : List (Node σ ε)}
    (hnew : ∀ n ∈ nodes, n.IsNew) : (registerAll t nodes).2.Reachable := by
  induction nodes generalizing t with
  | nil => exact h
  | cons n rest ih =>
      obtain ⟨hn, hrest⟩ := List.forall_mem_cons.mp hnew
      exact ih ((h.addNode n hn).perform (.register ⟨t.nodes.length⟩)) hrest

theorem registrations_registerAll (t : Tree σ ε) (nodes : List (Node σ ε)) :
    (registerAll t nodes).2.registrations =
      t.registrations ++ (registerAll t nodes).1.map fun p => ⟨p.1, p.2⟩ := by
  induction nodes generalizing t with
  | nil => exact (List.append_nil _).symm
  | cons n rest ih =>
      simp only [registerAll, List.map_cons]
      rw [ih, (Tree.register_eq _ _).2.1, (Tree.register_eq _ _).1, List.append_assoc]
      rfl

theorem refs_registerAll (t : Tree σ ε) (nodes : List (Node σ ε)) :
    (registerAll t nodes).1.map (·.2) =
      (List.range' t.nodes.length nodes.length).map NodeRef.mk := by
  induction nodes generalizing t with
  | nil => rfl
  | cons n rest ih =>
      have hlength : ((t.addNode n).2.register (t.addNode n).1).2.nodes.length =
          t.nodes.length + 1 := by
        have hone := congrArg List.length (nodes_registerAll t [n])
        rwa [List.length_append, List.length_singleton] at hone
      simp only [registerAll, List.map_cons]
      rw [ih, hlength, List.length_cons, List.range'_succ, List.map_cons]
      rfl

/-- The nodes that are taken in are what the new registrations lead to. -/
theorem node?_registerAll (t : Tree σ ε) (nodes : List (Node σ ε)) (k : Nat) :
    (registerAll t nodes).2.node? ⟨t.nodes.length + k⟩ = nodes[k]? := by
  rw [Tree.node?, nodes_registerAll, List.getElem?_append_right (Nat.le_add_right _ _),
    Nat.add_sub_cancel_left]

/-- Where nothing was registered before, there is a registration for each of them, and no other. -/
theorem exists_registration_iff (h : t.registrations = []) (nodes : List (Node σ ε))
    (ref : NodeRef) : (∃ r ∈ (registerAll t nodes).2.registrations, r.node = ref) ↔
      ∃ k < nodes.length, ref = ⟨t.nodes.length + k⟩ := by
  have hrefs : (registerAll t nodes).2.registrations.map (·.node) =
      (List.range' t.nodes.length nodes.length).map NodeRef.mk := by
    rw [registrations_registerAll, h, List.nil_append, List.map_map, ← refs_registerAll]
    rfl
  rw [← List.mem_map, hrefs, List.mem_map]
  constructor
  · rintro ⟨i, hi, rfl⟩
    obtain ⟨k, hk, rfl⟩ := List.mem_range'.mp hi
    exact ⟨k, hk, by rw [Nat.one_mul]⟩
  · rintro ⟨k, hk, rfl⟩
    exact ⟨_, List.mem_range'.mpr ⟨k, hk, rfl⟩, by rw [Nat.one_mul]⟩

/-! ### The built-in nodes -/

/-- The built-in nodes under a root, in the order in which they are registered. -/
def fixtures (slot : Vitals.Slot σ) (root : String) : List (Node σ ε) :=
  [.readOnly (versionNode root), .readOnly (uptimeNode slot root), .readOnly (nodesNode root),
    .readWrite (motdNode slot root), .readWrite (tickNode slot root), .keyStore (stateNode root)]

theorem tree_install (slot : Vitals.Slot σ) (t : Tree σ ε) (root : String) :
    (install slot t root).2 = (registerAll t (fixtures slot (Path.clean root))).2 := rfl

/-- The names of the files among them, in that order. -/
def publishedNames : List String := ["version", "uptime", "nodes", "motd", "tick"]

omit [Foreign ε] in
theorem isFileAt_fixtures (slot : Vitals.Slot σ) (root : String) {k : Nat} {name : String}
    (hk : publishedNames[k]? = some name) :
    ∃ n, (fixtures slot (Path.clean root) : List (Node σ ε))[k]? = some n ∧
      n.IsFileAt (Path.cleanSegments root) name := by
  have hplace : Path.segments (Path.clean (Path.clean root)) = Path.cleanSegments root := by
    rw [(Path.canonical_clean root).clean_eq, Path.segments_clean]
  match k with
  | 0 =>
      cases hk
      exact ⟨_, rfl, .readOnly (fun _ => hplace) rfl fun _ _ => ⟨_, rfl⟩⟩
  | 1 =>
      cases hk
      exact ⟨_, rfl, .readOnly (fun _ => hplace) rfl fun _ _ => ⟨_, rfl⟩⟩
  | 2 =>
      cases hk
      exact ⟨_, rfl, .readOnly (fun _ => hplace) rfl fun _ _ => ⟨_, rfl⟩⟩
  | 3 =>
      cases hk
      exact ⟨_, rfl, .readWrite (fun _ => hplace) rfl fun _ _ => ⟨_, rfl⟩⟩
  | 4 =>
      cases hk
      exact ⟨_, rfl, .readWrite (fun _ => hplace) rfl fun _ _ => ⟨_, rfl⟩⟩

omit [Foreign ε] in
theorem isStoreAt_stateNode (root : String) :
    (Node.keyStore (stateNode (Path.clean root)) : Node σ ε).IsStoreAt
      (Path.cleanSegments root ++ ["state"]) := by
  have hsegs := Path.areSegments_cleanSegments root
  have hstate : IsSegment "state" := (Path.isValidName_iff.mp rfl).1
  apply Node.IsStoreAt.keyStore
  intro s
  show Path.segments (Path.clean (Path.join (ofSegments (Path.cleanSegments root)) "state")) = _
  rw [Path.join_ofSegments hsegs, Path.clean_ofSegments (hsegs.append (.singleton hstate)),
    Path.segments_ofSegments (hsegs.append (.singleton hstate))]

omit [Foreign ε] in
theorem isNew_fixtures (slot : Vitals.Slot σ) (root : String) :
    ∀ n ∈ (fixtures slot root : List (Node σ ε)), n.IsNew := by
  simp [fixtures, Node.IsNew, versionNode, uptimeNode, nodesNode, motdNode, tickNode, stateNode]

omit [Foreign ε] in
theorem calm_fixtures (slot : Vitals.Slot σ) (root : String) :
    ∀ n ∈ (fixtures slot root : List (Node σ ε)), ∀ s, n.Calm s := by
  simp [fixtures, Node.Calm, versionNode, uptimeNode, nodesNode, motdNode, tickNode,
    Provider.ofText]

end

variable {t : Tree σ Empty}

theorem alwaysCalm_install (h : t.AlwaysCalm) (slot : Vitals.Slot σ) (root : String) :
    (install slot t root).2.AlwaysCalm := by
  rintro ⟨i⟩ n hn
  rw [tree_install] at hn
  rcases Nat.lt_or_ge i t.nodes.length with hold | hnew
  · rw [Tree.node?, nodes_registerAll, List.getElem?_append_left hold] at hn
    exact h ⟨i⟩ n hn
  · obtain ⟨k, rfl⟩ := Nat.exists_eq_add_of_le hnew
    rw [node?_registerAll] at hn
    exact calm_fixtures slot _ n (List.mem_of_getElem? hn)

theorem laidOut_install (h : t.registrations = []) (slot : Vitals.Slot σ) (root : String) :
    (install slot t root).2.LaidOut (Path.cleanSegments root) (install slot t root).1.state := by
  have hstate : (install slot t root).1.state = ⟨t.nodes.length + 5⟩ := rfl
  rw [tree_install, hstate]
  have hregistration := exists_registration_iff h (fixtures slot (Path.clean root))
  have hnode := node?_registerAll t (fixtures slot (Path.clean root))
  refine ⟨?_, ?_, ?_, ?_⟩
  · intro name hname
    have hpublished : name ∈ publishedNames :=
      (show fileNames ⊆ publishedNames by decide) hname
    obtain ⟨k, hk⟩ := List.getElem?_of_mem hpublished
    obtain ⟨n, hn, hfile⟩ := isFileAt_fixtures slot root hk
    obtain ⟨r, hr, href⟩ := (hregistration ⟨t.nodes.length + k⟩).mpr
      ⟨k, (List.getElem?_eq_some_iff.mp hn).1, rfl⟩
    exact ⟨n, ⟨r, hr, by rw [href, hnode, hn]⟩, hfile⟩
  · exact (hregistration _).mpr ⟨5, Nat.lt_succ_self 5, rfl⟩
  · exact ⟨_, hnode 5, isStoreAt_stateNode root⟩
  · intro r hr
    obtain ⟨k, hk, href⟩ := (hregistration r.node).mp ⟨r, hr, rfl⟩
    rcases Nat.lt_succ_iff_lt_or_eq.mp hk with hk | rfl
    · have hk : k < publishedNames.length := hk
      obtain ⟨n, hn, hfile⟩ := isFileAt_fixtures slot root (List.getElem?_eq_getElem hk)
      have hname : publishedNames[k] ∈ fileNames :=
        (show publishedNames ⊆ fileNames by decide) (List.getElem_mem hk)
      exact .inr ⟨n, by rw [href, hnode, hn], _, hname, hfile⟩
    · exact .inl href

/-! ## What the root shows -/

/-- What the namespace shows of the built-in nodes: the root lists five files and the directory
`state`, and the attributes tell the same kinds; each directory above the root lists the next name
on the way to it; and `state` lists the keys of the store, in order. -/
structure Shown (u : Tree σ Empty) (root : String) (state : NodeRef) : Prop where
  listed : u.list (Path.clean root) = .ok entries
  kinds : ∀ e ∈ entries, ∃ a, (u.stat (Path.join (Path.clean root) e.name)).1 = .ok a ∧
    a.kind = e.kind
  above : ∀ q, Path.Canonical q → Path.isAncestorOrSelf q (Path.clean root) = true →
    q ≠ Path.clean root → u.isDirectory q = true ∧
    ∃ next, Path.nextComponent q (Path.clean root) = some next ∧
      u.list q = .ok [⟨next, .directory⟩]
  keys : ∃ n, u.node? state = some (.keyStore n) ∧
    n.keys.Pairwise (fun key key' => Bytes.octetsOf key < Bytes.octetsOf key') ∧
    (∀ key, key ∈ n.keys ↔ ∃ value, n.get? key = some value) ∧
    u.list (Path.join (Path.clean root) "state") = .ok (n.keys.map fun key => ⟨key, .file⟩)

/-- A name in a root without NUL can be asked for. -/
theorem areSegments_below {root name : String} (hroot : '\x00' ∉ root.toList)
    (hname : Path.isValidName name = true) :
    AreSegments (Path.cleanSegments root ++ [name]) ∧
      ∀ s ∈ Path.cleanSegments root ++ [name], '\x00' ∉ s.toList := by
  obtain ⟨hsegment, hnul⟩ := Path.isValidName_iff.mp hname
  refine ⟨(Path.areSegments_cleanSegments root).append (.singleton hsegment), ?_⟩
  rw [List.forall_mem_append]
  exact ⟨Path.nul_not_mem_cleanSegments hroot, List.forall_mem_singleton.mpr hnul⟩

theorem join_clean (root name : String) :
    Path.join (Path.clean root) name = ofSegments (Path.cleanSegments root ++ [name]) :=
  Path.join_ofSegments (Path.areSegments_cleanSegments root) name

/-- A tree that is laid out shows it, however the root is written. -/
theorem shown_of_laidOut {u : Tree σ Empty} {root : String} {state : NodeRef}
    (hlaid : u.LaidOut (Path.cleanSegments root) state) (hused : u.InUse)
    (hroot : '\x00' ∉ root.toList) : Shown u root state := by
  have hsegs := Path.areSegments_cleanSegments root
  have hnul := Path.nul_not_mem_cleanSegments hroot
  refine ⟨hlaid.list_root hused hsegs hnul, ?_, ?_, ?_⟩
  · intro e he
    obtain ⟨hname, hkind⟩ := mem_entries_iff.mp he
    have hvalid : Path.isValidName e.name = true :=
      (show ∀ e ∈ entries, Path.isValidName e.name = true by decide) e he
    obtain ⟨hbelow, hfree⟩ := areSegments_below hroot hvalid
    rw [join_clean]
    by_cases hfile : e.name ∈ fileNames
    · obtain ⟨size, writable, hstat⟩ := hlaid.stat_file hused hbelow hfree hfile
      exact ⟨_, hstat, (hkind.mpr hfile).symm⟩
    · have hstate : e.name = "state" := hname.resolve_left hfile
      rw [hstate] at hbelow hfree ⊢
      refine ⟨_, hlaid.stat_store hbelow hfree, ?_⟩
      rcases hk : e.kind with _ | _
      · exact absurd (hkind.mp hk) hfile
      · rfl
  · rintro q ⟨above, habove, rfl⟩ hancestor hne
    obtain ⟨rest, hrest⟩ := (Path.isAncestorOrSelf_ofSegments habove hsegs).mp hancestor
    cases rest with
    | nil =>
        rw [List.append_nil] at hrest
        rw [hrest] at hne
        exact absurd rfl hne
    | cons next rest =>
        have hlist := hlaid.list_above hused hsegs hnul hrest.symm
        refine ⟨Tree.list_eq_ok_iff.mp ⟨_, hlist⟩, next, ?_, hlist⟩
        exact (Path.nextComponent_eq_some habove hsegs).mpr ⟨rest, hrest.symm⟩
  · obtain ⟨_, hstate, @⟨n, -⟩⟩ := hlaid.store
    have hvalid : Path.isValidName "state" = true := rfl
    obtain ⟨hbelow, hfree⟩ := areSegments_below hroot hvalid
    have hsorted : n.keys.Pairwise (NameMap.before · · = true) := (hused.orderly hstate).sorted
    refine ⟨n, hstate, hsorted.imp of_decide_eq_true, fun _ => KeyStore.mem_keys, ?_⟩
    rw [join_clean]
    exact hlaid.list_store hused hbelow hfree hstate

/-! ## The theorem -/

theorem uninstall_eq_performAll (b : Builtins) (u : Tree σ Empty) :
    uninstall b u = u.performAll (b.ids.map .unregister) := by
  rw [Tree.performAll, List.foldl_map]
  rfl

/-- Everything that the built-in nodes register goes with them. -/
theorem registrations_uninstall (h : t.registrations = []) (slot : Vitals.Slot σ) (root : String)
    {u : Tree σ Empty} (hu : u.registrations.Sublist (install slot t root).2.registrations) :
    (uninstall (install slot t root).1 u).registrations = [] := by
  rw [uninstall_eq_performAll, Tree.registrations_unregisterAll, List.filter_eq_nil_iff]
  intro r hr
  have hinstalled := hu.subset hr
  rw [tree_install, registrations_registerAll, h, List.nil_append] at hinstalled
  obtain ⟨p, hp, rfl⟩ := List.mem_map.mp hinstalled
  have hid : p.1 ∈ (install slot t root).1.ids := List.mem_map_of_mem hp
  simpa using hid

/-- The built-in nodes are installed under a root without NUL, on a tree in which nothing is
registered, and anything is done to the tree. As long as no provider asks for removals and nobody
registers or unregisters, the registrations stay, and as long as they stay, the namespace shows the
built-in nodes and nothing else. If only nobody registers, then once the nodes are uninstalled there
are no registrations, no handles, and nothing but the root directory. -/
theorem builtins_laid_out (h : t.Reachable) (hempty : t.registrations = [])
    {slot : Vitals.Slot σ} {root : String} (hroot : '\x00' ∉ root.toList) {b : Builtins}
    {installed u : Tree σ Empty} (hinstall : install slot t root = (b, installed))
    {actions : List (Action σ)} (hu : installed.performAll actions = u) :
    (t.AlwaysCalm → (∀ a ∈ actions, a.IsVisit) → u.registrations = installed.registrations) ∧
    (u.registrations = installed.registrations → Shown u root b.state) ∧
    ((∀ a ∈ actions, ∀ ref, a ≠ .register ref) → (uninstall b u).Bare) := by
  have hb : (install slot t root).1 = b := by rw [hinstall]
  have hinstalled : (install slot t root).2 = installed := by rw [hinstall]
  subst hb hinstalled hu
  have hreach : (install slot t root).2.Reachable :=
    reachable_registerAll h (isNew_fixtures slot (Path.clean root))
  refine ⟨?_, ?_, ?_⟩
  · intro hcalm
    exact Tree.registrations_performAll (alwaysCalm_install hcalm slot root)
  · intro hstay
    have hlaid := (laidOut_install hempty slot root).moves (Tree.moves_performAll _ actions) hstay
    exact shown_of_laidOut hlaid (hreach.performAll actions).inUse hroot
  · intro hnone
    have hgone := registrations_uninstall hempty slot root
      (Tree.registrations_performAll_sublist hnone)
    apply Tree.InUse.bare _ hgone
    rw [uninstall_eq_performAll]
    exact ((hreach.performAll actions).performAll _).inUse

/-- A server whose root is written in a roundabout way. -/
def roundabout : Builtins × Tree Vitals Empty :=
  install .whole { publisher := {} } "//server/./x/../"

/-- A key is set, the counter is opened, and a whole file is read. -/
def callers : List (Action Vitals) :=
  [.insert ⟨5⟩ "lamp" #[7], .openFile "/server/tick" .reading, .readAll "/server/uptime"]

/-- Nothing is registered before, and the callers register nothing. -/
theorem builtins_laid_out_roundabout :
    (roundabout.2.performAll callers).list "/server" = .ok entries ∧
    (roundabout.2.performAll callers).list "/" = .ok [⟨"server", .directory⟩] ∧
    (roundabout.2.performAll callers).list "/server/state" = .ok [⟨"lamp", .file⟩] ∧
    (uninstall roundabout.1 (roundabout.2.performAll callers)).handles = [] ∧
    ((uninstall roundabout.1 (roundabout.2.performAll callers)).exists "/server").1 = false := by
  have hroot : Path.clean "//server/./x/../" = "/server" := by decide
  have hbelow : Path.join "/server" "state" = "/server/state" := by decide
  have habove : Path.nextComponent "/" "/server" = some "server" := by decide
  have hvisits : ∀ a ∈ callers, a.IsVisit := by simp [callers, Action.IsVisit]
  have hfree : '\x00' ∉ "//server/./x/../".toList := by decide
  have hinstall : install .whole { publisher := {} } "//server/./x/../" =
      (roundabout.1, roundabout.2) := rfl
  have hrun : roundabout.2.performAll callers = roundabout.2.performAll callers := rfl
  obtain ⟨hstays, hshown, hgone⟩ :=
    builtins_laid_out (.empty {} ({} : Vitals)) rfl hfree hinstall hrun
  obtain ⟨hlist, -, hway, n, hstate, -, -, hkeys⟩ := hshown (hstays nofun hvisits)
  have hbare := hgone (by simp [callers])
  rw [hroot] at hlist hway hkeys
  refine ⟨hlist, ?_, ?_, hbare.handles, ?_⟩
  · obtain ⟨-, next, hnext, hlisted⟩ :=
      hway "/" ⟨[], nofun, rfl⟩ (by decide) (by decide)
    rw [habove] at hnext
    cases hnext
    exact hlisted
  · rw [hbelow] at hkeys
    have hlamp : n.keys = ["lamp"] := by
      have hn : (roundabout.2.performAll callers).node? ⟨5⟩ =
          some (.keyStore ⟨.fixed "/server/state", [("lamp", #[7])], none⟩) := rfl
      cases hn.symm.trans hstate
      rfl
    rw [hkeys, hlamp]
    rfl
  · have hserver : Path.normalize "/server" ≠ .ok "/" := by decide
    exact Bool.eq_false_iff.mpr (mt (hbare.exists_iff "/server").mp hserver)

end Builtins

end LiveTree
