import LiveTree.Proofs.Departures
import LiveTree.Proofs.Overlaps
import LiveTree.Proofs.Shares

/-!
# Clients of different nodes

A client that reads, writes and closes through a handle of a node, or resizes the node's file and
asks for its attributes, sees nothing of what clients of other nodes do meanwhile, provided that the
nodes share no state of the publisher. For each node there is what its clients look at
(`Alongside`): the node, its share, its handles, and where all nodes are. An action on another node
leaves that alone, and an action on the node itself answers the same, and does the same, wherever
that is the same. So two such actions can be exchanged, and however the actions of several clients
are put together, each client is answered as if it had been alone (`sessions_independent`).
-/

namespace LiveTree

variable {σ : Type}

/-! ## Claims of nodes that stayed -/

namespace Node

variable {n m : Node σ Empty}

theorem Stays.matchesFile (h : n.Stays m) (s : σ) (path : String) :
    m.matchesFile s path = n.matchesFile s path := by
  cases h with
  | readOnly hl => exact congrArg (Location.matchesFile · s path) hl
  | readWrite hl => exact congrArg (Location.matchesFile · s path) hl
  | keyStore hd =>
      show (KeyStore.keyFor? _ s path).isSome = (KeyStore.keyFor? _ s path).isSome
      unfold KeyStore.keyFor?
      rw [hd]
  | foreign e => exact e.elim

theorem Stays.coversDirectory (h : n.Stays m) (s : σ) (path : String) :
    m.coversDirectory s path = n.coversDirectory s path := by
  cases h with
  | readOnly hl => exact congrArg (Location.coversDirectory · s path) hl
  | readWrite hl => exact congrArg (Location.coversDirectory · s path) hl
  | keyStore hd =>
      show Path.isAncestorOrSelf _ (Directory.resolve _ s) = _
      rw [hd]
      rfl
  | foreign e => exact e.elim

end Node

namespace Tree

variable {d : Division σ} {ref other : NodeRef} {t u v : Tree σ Empty} {a : Action σ}

theorem Divided.kin (h : t.Divided d) (hkin : Kin t u) : u.Divided d := by
  intro ref m hm
  obtain ⟨n, hn, hstays⟩ := hkin.symm.exists_stays hm
  exact (h ref n hn).stays hstays.symm

/-- A question about a node and a path has the same answer for a node that stayed, over a state in
which the same is common. -/
theorem Kin.any_eq (hkin : Kin t u) (hdivided : t.Divided d)
    (hcommon : d.common u.publisher = d.common t.publisher)
    {question : σ → String → Node σ Empty → Bool}
    (hstays : ∀ n m : Node σ Empty, n.Stays m → ∀ s path, question s path m = question s path n)
    (hplace : ∀ (n : Node σ Empty) s s', n.directory s' = n.directory s →
      ∀ path, question s' path n = question s path n) (ref : NodeRef) (path : String) :
    (u.node? ref).any (question u.publisher path) =
      (t.node? ref).any (question t.publisher path) := by
  rcases hn : t.node? ref with _ | n
  · rw [hkin.node?_eq_none hn]
    rfl
  · obtain ⟨m, hm, hs⟩ := hkin.exists_stays hn
    rw [hm, Option.any_some, Option.any_some, hstays n m hs]
    exact hplace n _ _ ((hdivided ref n hn).directory_eq hcommon) path

/-! ## What a client looks at -/

/-- All nodes are where they were. -/
structure Unmoved (d : Division σ) (t u : Tree σ Empty) : Prop where
  kin : Kin t u
  common : d.common u.publisher = d.common t.publisher
  settings : u.settings = t.settings
  registrations : u.registrations = t.registrations

namespace Unmoved

theorem symm (h : Unmoved d t u) : Unmoved d u t :=
  ⟨h.kin.symm, h.common.symm, h.settings.symm, h.registrations.symm⟩

theorem trans (h : Unmoved d t u) (h' : Unmoved d u v) : Unmoved d t v :=
  ⟨h.kin.trans h'.kin, h'.common.trans h.common, h'.settings.trans h.settings,
    h'.registrations.trans h.registrations⟩

theorem claimants_eq (h : Unmoved d t u) (hdivided : t.Divided d) (path : String) :
    u.claimants path = t.claimants path := by
  have hclaims : u.claims path = t.claims path := by
    funext r
    exact h.kin.any_eq hdivided h.common (fun _ _ hs => hs.matchesFile)
      (fun _ _ _ => Node.matchesFile_of_directory) r.node path
  rw [claimants, h.registrations, hclaims, claimants]

theorem owner?_eq (h : Unmoved d t u) (hdivided : t.Divided d) (path : String) :
    u.owner? path = t.owner? path := by
  rw [owner?, h.claimants_eq hdivided, owner?]

theorem isDirectory_eq (h : Unmoved d t u) (hdivided : t.Divided d) (path : String) :
    u.isDirectory path = t.isDirectory path := by
  have hcovers : ∀ q, u.covers q = t.covers q := by
    intro q
    funext r
    exact h.kin.any_eq hdivided h.common (fun _ _ hs => hs.coversDirectory)
      (fun _ _ _ => Node.coversDirectory_of_directory) r.node q
  unfold isDirectory
  rw [h.registrations]
  simp only [hcovers]

end Unmoved

/-- To the clients of the node, both trees look alike. -/
structure Alongside (d : Division σ) (ref : NodeRef) (t u : Tree σ Empty) : Prop extends
    Unmoved d t u where
  node : u.node? ref = t.node? ref
  share : d.share ref u.publisher = d.share ref t.publisher
  handles : ∀ o : OpenHandle, o.node = ref → (o ∈ u.handles ↔ o ∈ t.handles)

namespace Alongside

theorem refl (t : Tree σ Empty) : Alongside d ref t t :=
  ⟨⟨.of_moves (.refl t), rfl, rfl, rfl⟩, rfl, rfl, fun _ _ => Iff.rfl⟩

theorem symm (h : Alongside d ref t u) : Alongside d ref u t :=
  ⟨h.toUnmoved.symm, h.node.symm, h.share.symm, fun o ho => (h.handles o ho).symm⟩

theorem trans (h : Alongside d ref t u) (h' : Alongside d ref u v) : Alongside d ref t v :=
  ⟨h.toUnmoved.trans h'.toUnmoved, h'.node.trans h.node, h'.share.trans h.share,
    fun o ho => (h'.handles o ho).trans (h.handles o ho)⟩

theorem meets (h : Alongside d ref t u) : Meets d ref t u := ⟨h.node, h.share, h.common⟩

end Alongside

/-! ## Actions on a node -/

end Tree

/-- The action is one on the node: it goes through a handle of the node, or concerns a path that the
node owns. A handle that nobody has, and a path that nobody owns, count for any node. -/
def Action.IsOn (t : Tree σ Empty) (ref : NodeRef) : Action σ → Prop
  | .read h _ _ | .write h _ _ | .close h => ∀ o, t.handle? h = some o → o.node = ref
  | .truncate path _ | .stat path =>
    ∀ q r, Path.normalize path = .ok q → t.owner? q = some r → r.node = ref
  | _ => False

/-- Whether an action on a node keeps the handle in the table. -/
def Action.keeps : Action σ → OpenHandle → Bool
  | .close h, o => o.handle ≠ h
  | _, _ => true

namespace Tree

variable {d : Division σ} {ref other : NodeRef} {t u v : Tree σ Empty} {a : Action σ}

theorem Divided.calm (h : t.Divided d) : t.Calm :=
  fun ref n hn => (h ref n hn).calm t.publisher

/-- Such an action writes nothing into the books, but for the handle that is closed. -/
theorem books_of_isOn (hdivided : t.Divided d) (ha : a.IsOn t ref) : (t.perform a).books =
    ({ t with handles := t.handles.filter a.keeps } : Tree σ Empty).books := by
  have hkept : ({ t with handles := t.handles.filter fun _ => true } : Tree σ Empty).books =
      t.books := by
    rw [List.filter_eq_self.mpr fun _ _ => rfl]
  cases a with
  | read h offset size => exact hkept.symm
  | write h offset data => exact (books_write t h offset data).trans hkept.symm
  | close h => exact books_close t h
  | truncate path size =>
      refine Eq.trans ?_ hkept.symm
      show (t.truncate path size).2.books = t.books
      unfold truncate
      split
      · rfl
      · split
        · rfl
        · rw [books_resizeOn, books_noteOverlap]
  | stat path => exact (same_stat hdivided.calm path).2.trans hkept.symm
  | _ => exact ha.elim

theorem mem_handles_of_isOn (hdivided : t.Divided d) (ha : a.IsOn t ref) {o : OpenHandle} :
    o ∈ (t.perform a).handles ↔ o ∈ t.handles ∧ a.keeps o = true := by
  have hhandles : (t.perform a).handles = t.handles.filter a.keeps :=
    congrArg Books.handles (books_of_isOn hdivided ha)
  rw [hhandles, List.mem_filter]

/-- An action on a node keeps the handles of other nodes. -/
theorem keeps_of_isOn (ht : t.Tidy) (ha : a.IsOn t ref) {o : OpenHandle} (ho : o ∈ t.handles)
    (hne : o.node ≠ ref) : a.keeps o = true := by
  cases a with
  | close h =>
      apply decide_eq_true
      rintro rfl
      exact hne (ha o (ht.handle?_eq_some ho))
  | _ => rfl

/-! ## The same action on two trees -/

/-- A handle of the node leads to the same entry in both trees. -/
theorem Alongside.handle?_eq (h : Alongside d ref t u) (ht : t.Tidy) (hu : u.Tidy) {handle : Handle}
    (hon : ∀ o, t.handle? handle = some o → o.node = ref)
    (hon' : ∀ o, u.handle? handle = some o → o.node = ref) :
    u.handle? handle = t.handle? handle := by
  rcases hto : t.handle? handle with _ | o
  · rcases huo : u.handle? handle with _ | o
    · rfl
    · have hmem := List.mem_of_find?_eq_some huo
      have hnumber : o.handle = handle := by simpa using List.find?_some huo
      have ht' := ht.handle?_eq_some ((h.handles o (hon' o huo)).mp hmem)
      rw [hnumber, hto] at ht'
      cases ht'
  · have hmem := List.mem_of_find?_eq_some hto
    have hnumber : o.handle = handle := by simpa using List.find?_some hto
    rw [← hnumber]
    exact hu.handle?_eq_some ((h.handles o (hon o hto)).mpr hmem)

/-- What is done through the owner of a file is done to the same node. -/
theorem Alongside.throughOwner {α : Type} (h : Alongside d ref t u) (hdivided : t.Divided d)
    {path : String} {serve : Registration → String → Tree σ Empty → α × Tree σ Empty}
    {otherwise : Except Fault String → Tree σ Empty → α × Tree σ Empty}
    (hon : ∀ q r, Path.normalize path = .ok q → t.owner? q = some r → r.node = ref)
    (hserve : ∀ r q, r.node = ref → ∀ t' u', t'.Divided d → InStep d ref t u t' u' →
      Answers d ref t u (serve r q t') (serve r q u'))
    (hotherwise : ∀ missing, Answers d ref t u (otherwise missing t) (otherwise missing u)) :
    Answers d ref t u (t.throughOwner path serve otherwise)
      (u.throughOwner path serve otherwise) := by
  unfold Tree.throughOwner
  rcases hq : Path.normalize path with fault | q
  · exact hotherwise _
  · dsimp only
    rw [h.owner?_eq hdivided]
    rcases ho : t.owner? q with _ | r
    · exact hotherwise _
    · apply hserve r q (hon q r hq ho)
      · exact hdivided.kin (.of_moves (.of_nodes (nodes_noteOverlap t q)))
      · exact (InStep.refl h.meets).noteOverlap (h.claimants_eq hdivided q) h.settings

theorem InStep.statAs {t' u' : Tree σ Empty} (h : InStep d ref t u t' u') (hdivided : t'.Divided d)
    {r : Registration} (hr : r.node = ref) (path : String) :
    Answers d ref t u (Tree.statAs r path t') (Tree.statAs r path u') := by
  have hsize := h.sizeOn (hdivided ref) path
  have hsame : Same t' (t'.sizeOn ref path).2 := same_sizeOn hdivided.calm ref path
  have hsized := hdivided.kin (.of_moves (.of_nodes hsame.1))
  have hwritable := hsize.inStep.isWritableOn_eq (hsized ref) path
  obtain ⟨hresult, hstep⟩ := hsize
  unfold Tree.statAs
  rw [hr]
  rcases ht : t'.sizeOn ref path with ⟨result, v⟩
  rcases hu : u'.sizeOn ref path with ⟨result', v'⟩
  rw [ht, hu] at hresult hstep hwritable
  cases hresult
  rcases result with fault | size
  · exact ⟨rfl, hstep⟩
  · refine ⟨?_, hstep⟩
    dsimp only at hwritable ⊢
    rw [hwritable]

section

variable {handle : Handle} {path : String}

theorem Alongside.read_eq (h : Alongside d ref t u) (ht : t.Tidy) (hu : u.Tidy)
    (hon : ∀ o, t.handle? handle = some o → o.node = ref)
    (hon' : ∀ o, u.handle? handle = some o → o.node = ref) (offset size : Nat) :
    u.read handle offset size = t.read handle offset size := by
  unfold Tree.read reader nodeReader
  rw [h.handle?_eq ht hu hon hon']
  rcases ho : t.handle? handle with _ | o
  · rfl
  · have hnode : o.node = ref := hon o ho
    dsimp only
    rw [hnode, h.meets.node]

theorem Alongside.write (h : Alongside d ref t u) (ht : t.Tidy) (hu : u.Tidy)
    (hdivided : t.Divided d) (hon : ∀ o, t.handle? handle = some o → o.node = ref)
    (hon' : ∀ o, u.handle? handle = some o → o.node = ref) (offset : Nat) (data : Bytes) :
    Answers d ref t u (t.write handle offset data) (u.write handle offset data) := by
  have hstart := InStep.refl h.meets
  unfold Tree.write
  rw [h.handle?_eq ht hu hon hon', h.settings]
  rcases ho : t.handle? handle with _ | o
  · exact ⟨rfl, hstart⟩
  · have hnode : o.node = ref := hon o ho
    dsimp only
    rw [hnode]
    split
    · exact ⟨rfl, hstart⟩
    · exact hstart.writeNode (hdivided ref) offset data

theorem Alongside.close (h : Alongside d ref t u) (ht : t.Tidy) (hu : u.Tidy)
    (hdivided : t.Divided d) (hon : ∀ o, t.handle? handle = some o → o.node = ref)
    (hon' : ∀ o, u.handle? handle = some o → o.node = ref) :
    Answers d ref t u (t.close handle) (u.close handle) := by
  have hstart := InStep.refl h.meets
  unfold Tree.close takeHandle
  rw [h.handle?_eq ht hu hon hon']
  rcases ho : t.handle? handle with _ | o
  · exact ⟨rfl, hstart⟩
  · have hnode : o.node = ref := hon o ho
    -- the table is nothing that the node is asked about
    have htaken : InStep d ref t u
        { t with handles := t.handles.filter (·.handle ≠ handle) }
        { u with handles := u.handles.filter (·.handle ≠ handle) } :=
      ⟨⟨h.meets.node, h.meets.share, h.meets.common⟩,
        ⟨hstart.leaves.nodes, hstart.leaves.shares, hstart.leaves.common⟩, hstart.log⟩
    dsimp only
    rw [hnode]
    exact htaken.closeNode (hdivided ref)

theorem Alongside.truncate (h : Alongside d ref t u) (hdivided : t.Divided d)
    (hon : ∀ q r, Path.normalize path = .ok q → t.owner? q = some r → r.node = ref) (size : Nat) :
    Answers d ref t u (t.truncate path size) (u.truncate path size) := by
  have hstart := InStep.refl h.meets
  rw [truncate_eq, truncate_eq]
  refine h.throughOwner hdivided hon ?_ fun missing => ?_
  · rintro r q rfl t' u' hdivided' hstep
    exact hstep.resizeOn (hdivided' r.node) q size
  · rcases missing with fault | q
    · exact ⟨rfl, hstart⟩
    · exact ⟨rfl, hstart⟩

theorem Alongside.stat (h : Alongside d ref t u) (hdivided : t.Divided d)
    (hon : ∀ q r, Path.normalize path = .ok q → t.owner? q = some r → r.node = ref) :
    Answers d ref t u (t.stat path) (u.stat path) := by
  have hstart := InStep.refl h.meets
  rw [stat_eq, stat_eq]
  refine h.throughOwner hdivided hon ?_ fun missing => ?_
  · intro r q hr t' u' hdivided' hstep
    exact hstep.statAs hdivided' hr q
  · rcases missing with fault | q
    · exact ⟨rfl, hstart⟩
    · refine ⟨?_, hstart⟩
      dsimp only [statOtherwise]
      rw [h.isDirectory_eq hdivided]

end

/-- Where the same can be seen, an action on the node is answered the same, and does the same. -/
theorem Alongside.act (h : Alongside d ref t u) (ht : t.Tidy) (hu : u.Tidy)
    (hdivided : t.Divided d) (hon : a.IsOn t ref) (hon' : a.IsOn u ref) :
    u.outcome a = t.outcome a ∧ InStep d ref t u (t.perform a) (u.perform a) := by
  cases a with
  | read handle offset size =>
      exact ⟨congrArg _ (h.read_eq ht hu hon hon' offset size), .refl h.meets⟩
  | write handle offset data =>
      obtain ⟨hresult, hstep⟩ := h.write ht hu hdivided hon hon' offset data
      exact ⟨congrArg _ hresult, hstep⟩
  | close handle =>
      obtain ⟨hresult, hstep⟩ := h.close ht hu hdivided hon hon'
      exact ⟨congrArg _ hresult, hstep⟩
  | truncate path size =>
      obtain ⟨hresult, hstep⟩ := h.truncate hdivided hon size
      exact ⟨congrArg _ hresult, hstep⟩
  | stat path =>
      obtain ⟨hresult, hstep⟩ := h.stat hdivided hon
      exact ⟨congrArg _ hresult, hstep⟩
  | _ => exact hon.elim

/-! ## What an action leaves -/

theorem settings_of_isOn (hdivided : t.Divided d) (hon : a.IsOn t ref) :
    (t.perform a).settings = t.settings ∧ (t.perform a).registrations = t.registrations :=
  ⟨congrArg Books.settings (books_of_isOn hdivided hon),
    congrArg Books.registrations (books_of_isOn hdivided hon)⟩

/-- An action on a node leaves all nodes where they are. -/
theorem unmoved_of_isOn (ht : t.Tidy) (hdivided : t.Divided d) (hon : a.IsOn t ref) :
    Unmoved d t (t.perform a) := by
  obtain ⟨hsettings, hregistrations⟩ := settings_of_isOn hdivided hon
  have hleaves := ((Alongside.refl t).act ht ht hdivided hon hon).2.leaves
  exact ⟨.of_moves (moves_perform t a), hleaves.common, hsettings, hregistrations⟩

/-- What is another node's, it leaves as it is. -/
theorem alongside_of_ne (ht : t.Tidy) (hdivided : t.Divided d) (hon : a.IsOn t ref)
    (hne : other ≠ ref) : Alongside d other t (t.perform a) := by
  have hleaves := ((Alongside.refl t).act ht ht hdivided hon hon).2.leaves
  refine ⟨unmoved_of_isOn ht hdivided hon, hleaves.nodes other hne, hleaves.shares other hne, ?_⟩
  intro o ho
  rw [mem_handles_of_isOn hdivided hon]
  refine and_iff_left_of_imp fun hmem => keeps_of_isOn ht hon hmem ?_
  rw [ho]
  exact hne

/-- Clients to whom two trees look alike go on seeing the same after one of them has acted. -/
theorem Alongside.perform (h : Alongside d ref t u) (ht : t.Tidy) (hu : u.Tidy)
    (hdivided : t.Divided d) (hon : a.IsOn t ref) (hon' : a.IsOn u ref) :
    Alongside d ref (t.perform a) (u.perform a) := by
  have hdivided' := hdivided.kin h.kin
  have hmeets := (h.act ht hu hdivided hon hon').2.meets
  have hunmoved := (unmoved_of_isOn ht hdivided hon).symm.trans
    (h.toUnmoved.trans (unmoved_of_isOn hu hdivided' hon'))
  refine ⟨hunmoved, hmeets.node, hmeets.share, ?_⟩
  intro o ho
  rw [mem_handles_of_isOn hdivided hon, mem_handles_of_isOn hdivided' hon', h.handles o ho]

/-- An action stays one on its node when another action has been performed. -/
theorem isOn_perform {b : Action σ} {ref' : NodeRef} (ht : t.Tidy) (hdivided : t.Divided d)
    (hb : b.IsOn t ref') (ha : a.IsOn t ref) : a.IsOn (t.perform b) ref := by
  have hhandle : ∀ handle : Handle, (∀ o, t.handle? handle = some o → o.node = ref) →
      ∀ o, (t.perform b).handle? handle = some o → o.node = ref := by
    intro handle hall o ho
    have hmem := ((mem_handles_of_isOn hdivided hb).mp (List.mem_of_find?_eq_some ho)).1
    have hnumber : o.handle = handle := by simpa using List.find?_some ho
    exact hall o (hnumber ▸ ht.handle?_eq_some hmem)
  have hpath : ∀ path : String,
      (∀ q r, Path.normalize path = .ok q → t.owner? q = some r → r.node = ref) →
      ∀ q r, Path.normalize path = .ok q → (t.perform b).owner? q = some r → r.node = ref := by
    intro path hall q r hq ho
    rw [(unmoved_of_isOn ht hdivided hb).owner?_eq hdivided] at ho
    exact hall q r hq ho
  cases a with
  | read handle offset size => exact hhandle handle ha
  | write handle offset data => exact hhandle handle ha
  | close handle => exact hhandle handle ha
  | truncate path size => exact hpath path ha
  | stat path => exact hpath path ha
  | _ => exact ha.elim

theorem Divided.perform (h : t.Divided d) (a : Action σ) : (t.perform a).Divided d :=
  h.kin (.of_moves (moves_perform t a))

/-! ## Two actions -/

/-- Trees that look alike to the clients of every node, with the same handles and counts, differ at
most in what has been reported. -/
theorem takeLog_eq_of_alongside (h : ∀ ref, Alongside d ref t u) (hbooks : u.books = t.books) :
    u.takeLog.2 = t.takeLog.2 := by
  apply Coincides.takeLog _ hbooks
  refine ⟨List.ext_getElem? fun i => (h ⟨i⟩).node, ?_⟩
  exact d.ext (fun ref => (h ref).share) (h ⟨0⟩).common

section

variable {a b : Action σ} {ref' : NodeRef}

/-- Actions on different nodes can be exchanged. -/
theorem alongside_exchanged (ht : t.Tidy) (hdivided : t.Divided d) (hne : ref ≠ ref')
    (ha : a.IsOn t ref) (hb : b.IsOn t ref') (any : NodeRef) :
    Alongside d any ((t.perform a).perform b) ((t.perform b).perform a) := by
  have hta := tidy_perform ht a
  have htb := tidy_perform ht b
  have hda := hdivided.perform a
  have hdb := hdivided.perform b
  have hba := isOn_perform ht hdivided ha hb
  have hab := isOn_perform ht hdivided hb ha
  by_cases hr : any = ref
  · subst hr
    -- the clients of the first node see that action alone, on either way
    have hsecond := alongside_of_ne hta hda hba hne
    have hfirst := (alongside_of_ne ht hdivided hb hne).perform ht htb hdivided ha hab
    exact hsecond.symm.trans hfirst
  by_cases hr' : any = ref'
  · subst hr'
    have hsecond := alongside_of_ne htb hdb hab hne.symm
    have hfirst := (alongside_of_ne ht hdivided ha hne.symm).perform ht hta hdivided hb hba
    exact hfirst.symm.trans hsecond
  · have honce := (alongside_of_ne ht hdivided ha hr).trans (alongside_of_ne hta hda hba hr')
    have hother := (alongside_of_ne ht hdivided hb hr').trans (alongside_of_ne htb hdb hab hr)
    exact honce.symm.trans hother

theorem books_exchanged (ht : t.Tidy) (hdivided : t.Divided d) (ha : a.IsOn t ref)
    (hb : b.IsOn t ref') : ((t.perform b).perform a).books = ((t.perform a).perform b).books := by
  have hba := isOn_perform ht hdivided ha hb
  have hab := isOn_perform ht hdivided hb ha
  have hfirst := books_of_isOn hdivided ha
  have hsecond := books_of_isOn hdivided hb
  rw [books_of_isOn (hdivided.perform b) hab, books_of_isOn (hdivided.perform a) hba]
  simp only [books, Books.mk.injEq] at hfirst hsecond ⊢
  obtain ⟨hs, hr, hh, hi, hn⟩ := hfirst
  obtain ⟨hs', hr', hh', hi', hn'⟩ := hsecond
  refine ⟨hs'.trans hs.symm, hr'.trans hr.symm, ?_, hi'.trans hi.symm, hn'.trans hn.symm⟩
  rw [hh, hh', List.filter_filter, List.filter_filter]
  simp only [Bool.and_comm]

/-- What is reported on the two ways is the same, in the order of the actions. -/
theorem log_exchanged (ht : t.Tidy) (hdivided : t.Divided d) (hne : ref ≠ ref')
    (ha : a.IsOn t ref) (hb : b.IsOn t ref') :
    ∃ events events', ((t.perform a).perform b).log = t.log ++ events ++ events' ∧
      ((t.perform b).perform a).log = t.log ++ events' ++ events := by
  have hba := isOn_perform ht hdivided ha hb
  have hab := isOn_perform ht hdivided hb ha
  obtain ⟨events, hfirst, hlater⟩ := ((alongside_of_ne ht hdivided hb hne).act ht
    (tidy_perform ht b) hdivided ha hab).2.log
  obtain ⟨events', hfirst', hlater'⟩ := ((alongside_of_ne ht hdivided ha hne.symm).act ht
    (tidy_perform ht a) hdivided hb hba).2.log
  refine ⟨events, events', ?_, ?_⟩
  · rw [hlater', hfirst]
  · rw [hlater, hfirst']

end

/-! ## Many actions -/

/-- What the clients of a node are answered in a run of several clients, where each action comes with
the node of the client that performs it. -/
def answersOf (t : Tree σ Empty) (client : NodeRef) (xs : List (NodeRef × Action σ)) :
    List Outcome :=
  (((xs.map (·.1)).zip (t.outcomes (xs.map (·.2)))).filter (·.1 = client)).map (·.2)

theorem answersOf_cons_self (t : Tree σ Empty) (client : NodeRef) (a : Action σ)
    (xs : List (NodeRef × Action σ)) :
    t.answersOf client ((client, a) :: xs) = t.outcome a :: (t.perform a).answersOf client xs := by
  simp [answersOf]

theorem answersOf_cons_of_ne (t : Tree σ Empty) {client who : NodeRef} (h : who ≠ client)
    (a : Action σ) (xs : List (NodeRef × Action σ)) :
    t.answersOf client ((who, a) :: xs) = (t.perform a).answersOf client xs := by
  simp [answersOf, h]

/-- The clients of a node are answered what they would be answered alone, also on another tree that
looks the same to them. -/
theorem Alongside.answersOf_eq {client : NodeRef} (h : Alongside d client t u) (ht : t.Tidy)
    (hu : u.Tidy) (hdivided : t.Divided d) {xs : List (NodeRef × Action σ)}
    (hon : ∀ x ∈ xs, x.2.IsOn t x.1) (hon' : ∀ x ∈ xs, x.1 = client → x.2.IsOn u client) :
    t.answersOf client xs = u.outcomes ((xs.filter (·.1 = client)).map (·.2)) := by
  induction xs generalizing t u with
  | nil => rfl
  | cons x xs ih =>
      obtain ⟨who, a⟩ := x
      obtain ⟨ha, hrest⟩ := List.forall_mem_cons.mp hon
      obtain ⟨ha', hrest'⟩ := List.forall_mem_cons.mp hon'
      have hta := tidy_perform ht a
      have hda := hdivided.perform a
      have hrest := fun x hx => isOn_perform ht hdivided ha (hrest x hx)
      by_cases hwho : who = client
      · subst hwho
        have ha' := ha' rfl
        have hdivided' := hdivided.kin h.kin
        rw [answersOf_cons_self, List.filter_cons_of_pos (by simp), List.map_cons,
          outcomes_cons, (h.act ht hu hdivided ha ha').1]
        congr 1
        exact ih (h.perform ht hu hdivided ha ha') hta (tidy_perform hu a) hda hrest
          fun x hx he => isOn_perform hu hdivided' ha' (hrest' x hx he)
      · rw [answersOf_cons_of_ne t hwho, List.filter_cons_of_neg (by simpa using hwho)]
        have hother := alongside_of_ne ht hdivided ha (Ne.symm hwho)
        exact ih (hother.symm.trans h) hta hu hda hrest hrest'

/-- Nodes share no state of the publisher, and their providers have nothing to do with the tree.
Then of two actions on different nodes each is answered the same whichever comes first, and they
leave the same tree, with the same reports in the order of the actions. An action on one node
changes no other node, with its session, pending buffer and keys, nor the share of that node, nor
its handles. So in a run of several clients, each on a node of its own, every client is answered
what it would be answered alone. -/
theorem sessions_independent (h : InUse t) (hdivided : t.Divided d) :
    (∀ {ref ref' : NodeRef} {a b : Action σ}, ref ≠ ref' → a.IsOn t ref → b.IsOn t ref' →
      (t.perform a).outcome b = t.outcome b ∧ (t.perform b).outcome a = t.outcome a ∧
      ((t.perform b).perform a).takeLog.2 = ((t.perform a).perform b).takeLog.2 ∧
      ∃ events events', ((t.perform a).perform b).log = t.log ++ events ++ events' ∧
        ((t.perform b).perform a).log = t.log ++ events' ++ events) ∧
    (∀ {ref : NodeRef} {a : Action σ}, a.IsOn t ref → ∀ other ≠ ref,
      (t.perform a).node? other = t.node? other ∧
      d.share other (t.perform a).publisher = d.share other t.publisher ∧
      ∀ o : OpenHandle, o.node = other → (o ∈ (t.perform a).handles ↔ o ∈ t.handles)) ∧
    ∀ xs : List (NodeRef × Action σ), (∀ x ∈ xs, x.2.IsOn t x.1) → ∀ client,
      t.answersOf client xs = t.outcomes ((xs.filter (·.1 = client)).map (·.2)) := by
  have ht := h.tidy
  refine ⟨?_, ?_, ?_⟩
  · intro ref ref' a b hne ha hb
    have hfirst := alongside_of_ne ht hdivided ha hne.symm
    have hsecond := alongside_of_ne ht hdivided hb hne
    refine ⟨?_, ?_, ?_, log_exchanged ht hdivided hne ha hb⟩
    · exact (hfirst.act ht (tidy_perform ht a) hdivided hb (isOn_perform ht hdivided ha hb)).1
    · exact (hsecond.act ht (tidy_perform ht b) hdivided ha (isOn_perform ht hdivided hb ha)).1
    · exact takeLog_eq_of_alongside (alongside_exchanged ht hdivided hne ha hb)
        (books_exchanged ht hdivided ha hb)
  · intro ref a ha other hne
    have hother := alongside_of_ne ht hdivided ha hne
    exact ⟨hother.node, hother.share, hother.handles⟩
  · intro xs hxs client
    exact (Alongside.refl t).answersOf_eq ht ht hdivided hxs fun x hx he => he ▸ hxs x hx

/-- Every node has a content of its own. -/
def contents : Division (NodeRef → Bytes) where
  Share _ := Bytes
  Common := Unit
  share ref s := s ref
  common _ := ()
  ext hshares _ := funext hshares

/-- A file in a hall, which keeps what is put into it. -/
def locker (ref : NodeRef) (name : String) (valid : Path.isValidName name = true) :
    ReadWrite (NodeRef → Bytes) where
  location := ⟨.fixed "/hall", name, valid⟩
  provider := { supply := fun _ s => (.ok (s ref), s) }
  sink content s := (.ok (), Function.update s ref content)

theorem keepsTo_locker (ref : NodeRef) (name : String) (valid : Path.isValidName name = true) :
    (Node.readWrite (locker ref name valid)).KeepsTo contents ref := by
  refine .readWrite (fun _ _ _ => rfl) ⟨fun _ => rfl, fun _ => rfl, ?_⟩ fun content => ?_
  · exact ⟨fun _ _ _ => rfl, fun _ => rfl, fun _ _ hs => congrArg Except.ok hs, fun _ _ hs => hs⟩
  · refine ⟨fun s other hne => Function.update_of_ne hne _ _, fun _ => rfl, fun _ _ _ => rfl, ?_⟩
    intro s s' _
    exact (Function.update_self ref content s').trans (Function.update_self ref content s).symm

/-- Two lockers, both open for writing. -/
def corridor : Tree (NodeRef → Bytes) Empty :=
  [.register ⟨0⟩, .register ⟨1⟩, .openFile "/hall/left" .writing,
      .openFile "/hall/right" .writing].foldl perform
    (addNode (addNode { publisher := fun _ => #[] } (.readWrite (locker ⟨0⟩ "left" rfl))).2
      (.readWrite (locker ⟨1⟩ "right" rfl))).2

theorem reachable_corridor : Reachable corridor :=
  .perform (.openFile "/hall/right" .writing) (.perform (.openFile "/hall/left" .writing)
    (.perform (.register ⟨1⟩) (.perform (.register ⟨0⟩)
      (.addNode (.readWrite (locker ⟨1⟩ "right" rfl)) (.addNode
        (.readWrite (locker ⟨0⟩ "left" rfl)) (.empty {} fun _ => #[]) ⟨rfl, rfl, rfl⟩)
        ⟨rfl, rfl, rfl⟩))))

theorem divided_corridor : corridor.Divided contents := by
  have hbegin : (addNode (addNode { publisher := fun _ => #[] }
      (.readWrite (locker ⟨0⟩ "left" rfl))).2
      (.readWrite (locker ⟨1⟩ "right" rfl))).2.Divided contents := by
    rintro ⟨_ | _ | i⟩ n hn
    · cases hn
      exact keepsTo_locker ⟨0⟩ "left" rfl
    · cases hn
      exact keepsTo_locker ⟨1⟩ "right" rfl
    · cases hn
  exact (((hbegin.perform (.register ⟨0⟩)).perform (.register ⟨1⟩)).perform
    (.openFile "/hall/left" .writing)).perform (.openFile "/hall/right" .writing)

/-- One client fills the locker on the left and closes it, the other one looks at the right one. -/
theorem sessions_independent_corridor :
    corridor.answersOf ⟨0⟩ [(⟨0⟩, .write ⟨1⟩ 0 #[7]), (⟨1⟩, .write ⟨2⟩ 0 #[8, 8]),
        (⟨0⟩, .close ⟨1⟩), (⟨1⟩, .stat "/hall/right")] =
      corridor.outcomes [.write ⟨1⟩ 0 #[7], .close ⟨1⟩] ∧
    (corridor.perform (.close ⟨1⟩)).outcome (.stat "/hall/right") =
      corridor.outcome (.stat "/hall/right") ∧
    (corridor.perform (.close ⟨1⟩)).node? ⟨1⟩ = corridor.node? ⟨1⟩ := by
  have hleft : corridor.handle? ⟨1⟩ = some ⟨⟨1⟩, ⟨1⟩, ⟨0⟩, "/hall/left"⟩ := rfl
  have hright : corridor.handle? ⟨2⟩ = some ⟨⟨2⟩, ⟨2⟩, ⟨1⟩, "/hall/right"⟩ := rfl
  have howner : corridor.owner? "/hall/right" = some ⟨⟨2⟩, ⟨1⟩⟩ := rfl
  have hpath : Path.normalize "/hall/right" = .ok "/hall/right" := rfl
  have hclose : Action.IsOn corridor ⟨0⟩ (.close ⟨1⟩) := by
    intro o ho
    cases hleft.symm.trans ho
    rfl
  have hstat : Action.IsOn corridor ⟨1⟩ (.stat "/hall/right") := by
    intro q r hq ho
    cases hpath.symm.trans hq
    cases howner.symm.trans ho
    rfl
  obtain ⟨hexchange, hothers, hanswers⟩ :=
    sessions_independent reachable_corridor.inUse divided_corridor
  refine ⟨?_, (hexchange (by decide) hclose hstat).1, (hothers hclose ⟨1⟩ (by decide)).1⟩
  apply hanswers
  simp only [List.forall_mem_cons]
  refine ⟨hclose, ?_, hclose, hstat, nofun⟩
  intro o ho
  cases hright.symm.trans ho
  rfl

end Tree

end LiveTree
