import LiveTree.Proofs.Agreement
import LiveTree.Proofs.Residence

/-!
# Nodes that share nothing

A publisher may give every node a share of its state, and keep the rest for what all of them have in
common (`Division`). A node whose provider and sink work on its own share alone, and whose directory
is computed from what is common, is not reached by what is done to another node.

What is done to one node is compared on two trees that may differ everywhere else: as long as they
meet in the node, the same happens to it on both sides, and nothing happens elsewhere (`InStep`).
-/

namespace LiveTree

variable {σ : Type}

/-! ## A state in shares -/

/-- A division of a publisher's state: a share for each node, and what is common to all. -/
structure Division (σ : Type) where
  Share : NodeRef → Type
  Common : Type
  share (ref : NodeRef) : σ → Share ref
  common : σ → Common
  ext {s s' : σ} : (∀ ref, share ref s' = share ref s) → common s' = common s → s' = s

variable {d : Division σ} {ref : NodeRef} {α : Type}

/-- `f` works on the share of one node alone: it changes nothing else, and neither its result nor
what it makes of the share depends on anything else. -/
structure Division.Confines (d : Division σ) (ref : NodeRef) (f : σ → α × σ) : Prop where
  others : ∀ s other, other ≠ ref → d.share other (f s).2 = d.share other s
  common : ∀ s, d.common (f s).2 = d.common s
  result : ∀ s s', d.share ref s' = d.share ref s → (f s').1 = (f s).1
  share : ∀ s s', d.share ref s' = d.share ref s → d.share ref (f s').2 = d.share ref (f s).2

/-- The directory is computed from what is common. -/
def Directory.KeepsTo (dir : Directory σ) (d : Division σ) : Prop :=
  ∀ s s', d.common s' = d.common s → dir.resolve s' = dir.resolve s

/-- The provider works on the share of one node, and has nothing to do with the tree: it asks for no
removals, and does not look at the registered nodes. -/
structure Provider.KeepsTo (p : Provider σ) (d : Division σ) (ref : NodeRef) : Prop where
  removals : ∀ s, p.removals s = []
  listing : ∀ infos, p.supply infos = p.supply []
  confined : d.Confines ref (p.supply [])

/-- The node's provider and sink work on its share, and its directory is computed from what is
common. -/
inductive Node.KeepsTo (d : Division σ) (ref : NodeRef) : Node σ Empty → Prop where
  | readOnly {n : ReadOnly σ} (directory : n.location.directory.KeepsTo d)
      (provider : n.provider.KeepsTo d ref) : KeepsTo d ref (.readOnly n)
  | readWrite {n : ReadWrite σ} (directory : n.location.directory.KeepsTo d)
      (provider : n.provider.KeepsTo d ref) (sink : ∀ content, d.Confines ref (n.sink content)) :
      KeepsTo d ref (.readWrite n)
  | keyStore {n : KeyStore σ} (directory : n.directory.KeepsTo d) : KeepsTo d ref (.keyStore n)

namespace Node

variable {n m : Node σ Empty}

theorem KeepsTo.stays (h : n.KeepsTo d ref) (hs : n.Stays m) : m.KeepsTo d ref := by
  cases h with
  | readOnly hd hp =>
      cases hs with
      | readOnly hl he => exact .readOnly (hl ▸ hd) (he ▸ hp)
  | readWrite hd hp hk =>
      cases hs with
      | readWrite hl he hse => exact .readWrite (hl ▸ hd) (he ▸ hp) (hse ▸ hk)
  | keyStore hd =>
      cases hs with
      | keyStore he => exact .keyStore (he ▸ hd)

theorem KeepsTo.directory_eq (h : n.KeepsTo d ref) {s s' : σ} (hs : d.common s' = d.common s) :
    n.directory s' = n.directory s := by
  cases h with
  | readOnly hd => exact hd s s' hs
  | readWrite hd => exact hd s s' hs
  | keyStore hd => exact hd s s' hs

theorem KeepsTo.confines_sink {n : ReadWrite σ} (h : (Node.readWrite n).KeepsTo d ref)
    (content : Bytes) : d.Confines ref (n.sink content) := by
  cases h with
  | readWrite _ _ hsink => exact hsink content

theorem KeepsTo.calm (h : n.KeepsTo d ref) (s : σ) : n.Calm s := by
  cases h with
  | readOnly _ hp => exact hp.removals s
  | readWrite _ hp => exact hp.removals s
  | keyStore => trivial

end Node

/-! ## What is asked of a directory -/

section

variable {s s' : σ}

theorem Location.filePath_of_resolve {l : Location σ}
    (h : l.directory.resolve s' = l.directory.resolve s) : l.filePath s' = l.filePath s := by
  unfold filePath
  rw [h]

theorem Location.check_of_resolve {l : Location σ}
    (h : l.directory.resolve s' = l.directory.resolve s) (path : String) :
    l.check s' path = l.check s path := by
  unfold check matchesFile
  rw [filePath_of_resolve h]

theorem ReadWrite.resize_of_resolve {n : ReadWrite σ}
    (h : n.location.directory.resolve s' = n.location.directory.resolve s) (path : String)
    (size : Nat) : n.resize s' path size = n.resize s path size := by
  unfold resize
  rw [Location.check_of_resolve h]

theorem KeyStore.resize_of_resolve {n : KeyStore σ}
    (h : n.directory.resolve s' = n.directory.resolve s) (path : String) (size : Nat) :
    n.resize s' path size = n.resize s path size := by
  unfold resize requireKey
  rw [keyFor?_of_resolve h]

end

namespace Tree

/-- Every node keeps to its share. -/
def Divided (t : Tree σ Empty) (d : Division σ) : Prop :=
  ∀ ref n, t.node? ref = some n → n.KeepsTo d ref

/-! ## Two trees that meet in a node -/

variable {t u t' u' : Tree σ Empty} {n : Node σ Empty}

/-- Both trees have the same node there, over the same share and the same that is common. -/
structure Meets (d : Division σ) (ref : NodeRef) (t u : Tree σ Empty) : Prop where
  node : u.node? ref = t.node? ref
  share : d.share ref u.publisher = d.share ref t.publisher
  common : d.common u.publisher = d.common t.publisher

/-- Nothing has happened to other nodes and their shares, nor to what is common. -/
structure Leaves (d : Division σ) (ref : NodeRef) (t t' : Tree σ Empty) : Prop where
  nodes : ∀ other ≠ ref, t'.node? other = t.node? other
  shares : ∀ other ≠ ref, d.share other t'.publisher = d.share other t.publisher
  common : d.common t'.publisher = d.common t.publisher

/-- The same has happened to one node from `t` to `t'` as from `u` to `u'`, and nothing to others;
and the same has been reported meanwhile. -/
structure InStep (d : Division σ) (ref : NodeRef) (t u t' u' : Tree σ Empty) : Prop where
  meets : Meets d ref t' u'
  leaves : Leaves d ref t t'
  log : ∃ events, t'.log = t.log ++ events ∧ u'.log = u.log ++ events

namespace InStep

theorem refl (h : Meets d ref t u) : InStep d ref t u t u :=
  ⟨h, ⟨fun _ _ => rfl, fun _ _ => rfl, rfl⟩, [], (List.append_nil _).symm, (List.append_nil _).symm⟩

theorem setNode (h : InStep d ref t u t' u') (hn : t'.node? ref = some n) (m : Node σ Empty) :
    InStep d ref t u (t'.setNode ref m) (u'.setNode ref m) where
  meets := by
    refine ⟨?_, h.meets.share, h.meets.common⟩
    rw [node?_setNode_self m hn, node?_setNode_self m (h.meets.node.trans hn)]
  leaves := by
    refine ⟨fun other hne => ?_, h.leaves.shares, h.leaves.common⟩
    rw [node?_setNode_of_ne m hne, h.leaves.nodes other hne]
  log := h.log

theorem report (h : InStep d ref t u t' u') (e : Event) :
    InStep d ref t u (t'.report e) (u'.report e) where
  meets := ⟨h.meets.node, h.meets.share, h.meets.common⟩
  leaves := ⟨h.leaves.nodes, h.leaves.shares, h.leaves.common⟩
  log := by
    obtain ⟨events, ht, hu⟩ := h.log
    refine ⟨events ++ [e], ?_, ?_⟩
    · rw [← List.append_assoc, ← ht]
      rfl
    · rw [← List.append_assoc, ← hu]
      rfl

/-- What works on the node's share comes to the same on both sides. -/
theorem run (h : InStep d ref t u t' u') {f : σ → α × σ} (hf : d.Confines ref f) :
    ∃ a s s', f t'.publisher = (a, s) ∧ f u'.publisher = (a, s') ∧
      InStep d ref t u { t' with publisher := s } { u' with publisher := s' } := by
  have hresult := hf.result _ _ h.meets.share
  refine ⟨(f t'.publisher).1, (f t'.publisher).2, (f u'.publisher).2, rfl, ?_, ?_, ?_, h.log⟩
  · rw [← hresult]
  · refine ⟨h.meets.node, hf.share _ _ h.meets.share, ?_⟩
    exact (hf.common _).trans (h.meets.common.trans (hf.common _).symm)
  · refine ⟨h.leaves.nodes, fun other hne => ?_, (hf.common _).trans h.leaves.common⟩
    exact (hf.others _ other hne).trans (h.leaves.shares other hne)

theorem provide (h : InStep d ref t u t' u') {p : Provider σ} (hp : p.KeepsTo d ref) :
    (u'.provide p).1 = (t'.provide p).1 ∧ InStep d ref t u (t'.provide p).2 (u'.provide p).2 := by
  have hsupply : ∀ v : Tree σ Empty, v.provide p =
      ((p.supply [] v.publisher).1.mapError .ofFailure,
        { v with publisher := (p.supply [] v.publisher).2 }) := by
    intro v
    rw [provide_eq_supply, afterRemovals_eq_self (hp.removals _), hp.listing v.listing]
  obtain ⟨content, s, s', hs, hs', hrun⟩ := h.run hp.confined
  rw [hsupply, hsupply, hs, hs']
  exact ⟨rfl, hrun⟩

theorem noteOverlap (h : InStep d ref t u t' u') {path : String}
    (hclaimants : u'.claimants path = t'.claimants path) (hsettings : u'.settings = t'.settings) :
    InStep d ref t u (t'.noteOverlap path) (u'.noteOverlap path) := by
  unfold Tree.noteOverlap
  rw [hclaimants, hsettings]
  split
  · exact h.report _
  · exact h

end InStep

/-! ## What is done to the node -/

/-- The answer is the same on both sides, and the node is still what both have in common. -/
structure Answers (d : Division σ) (ref : NodeRef) (t u : Tree σ Empty)
    (x y : α × Tree σ Empty) : Prop where
  result : y.1 = x.1
  inStep : InStep d ref t u x.2 y.2

theorem InStep.closeNode (h : InStep d ref t u t' u')
    (hkeeps : ∀ n, t'.node? ref = some n → n.KeepsTo d ref) :
    Answers d ref t u (t'.closeNode ref) (u'.closeNode ref) := by
  unfold Tree.closeNode
  rw [h.meets.node]
  rcases hn : t'.node? ref with _ | n | n | n | ⟨e, removals⟩
  · exact ⟨rfl, h⟩
  · dsimp only
    rcases n.close with fault | ⟨session, closed⟩
    · exact ⟨rfl, h⟩
    · exact ⟨rfl, (h.setNode hn _).report _⟩
  · dsimp only
    rcases n.close with fault | ⟨session, closed⟩
    · exact ⟨rfl, h⟩
    · have hclosed := h.setNode hn (.readWrite closed)
      dsimp only
      rcases session.inner.commit? with _ | content
      · exact ⟨rfl, hclosed.report _⟩
      · have hsink := (hkeeps _ hn).confines_sink content
        obtain ⟨result, s, s', hs, hs', hrun⟩ := hclosed.run hsink
        dsimp only
        rw [hs, hs']
        rcases result with failure | ⟨⟩
        · exact ⟨rfl, (hrun.report _).report _⟩
        · exact ⟨rfl, (hrun.report _).report _⟩
  · dsimp only
    rcases n.close with fault | ⟨session, closed⟩
    · exact ⟨rfl, h⟩
    · exact ⟨rfl, (h.setNode hn _).report _⟩
  · exact e.elim

theorem InStep.writeNode (h : InStep d ref t u t' u')
    (hkeeps : ∀ n, t'.node? ref = some n → n.KeepsTo d ref) (offset : Nat) (data : Bytes) :
    Answers d ref t u (t'.writeNode ref offset data) (u'.writeNode ref offset data) := by
  unfold Tree.writeNode
  rw [h.meets.node]
  rcases hn : t'.node? ref with _ | n | n | n | ⟨e, removals⟩
  · exact ⟨rfl, h⟩
  · have hfile : n.location.filePath u'.publisher = n.location.filePath t'.publisher :=
      Location.filePath_of_resolve ((hkeeps _ hn).directory_eq h.meets.common)
    refine ⟨?_, h⟩
    dsimp only [ReadOnly.writeFault]
    rw [hfile]
  · dsimp only
    rcases n.write offset data with fault | m
    · exact ⟨rfl, h⟩
    · exact ⟨rfl, h.setNode hn _⟩
  · dsimp only
    rcases n.write offset data with fault | m
    · exact ⟨rfl, h⟩
    · exact ⟨rfl, h.setNode hn _⟩
  · exact e.elim

theorem InStep.resizeOn (h : InStep d ref t u t' u')
    (hkeeps : ∀ n, t'.node? ref = some n → n.KeepsTo d ref) (path : String) (size : Nat) :
    Answers d ref t u (t'.resizeOn ref path size) (u'.resizeOn ref path size) := by
  unfold Tree.resizeOn
  rw [h.meets.node]
  rcases hn : t'.node? ref with _ | n | n | n | ⟨e, removals⟩
  · exact ⟨rfl, h⟩
  · refine ⟨?_, h⟩
    dsimp only [ReadOnly.resize]
    rw [Location.check_of_resolve ((hkeeps _ hn).directory_eq h.meets.common)]
  · dsimp only
    rw [ReadWrite.resize_of_resolve ((hkeeps _ hn).directory_eq h.meets.common)]
    rcases n.resize t'.publisher path size with fault | ⟨m, _ | content⟩
    · exact ⟨rfl, h⟩
    · exact ⟨rfl, h.setNode hn _⟩
    · have hsink := (hkeeps _ hn).confines_sink content
      obtain ⟨result, s, s', hs, hs', hrun⟩ := h.run hsink
      dsimp only
      rw [hs, hs']
      rcases result with failure | ⟨⟩
      · exact ⟨rfl, hrun⟩
      · exact ⟨rfl, hrun⟩
  · dsimp only
    rw [KeyStore.resize_of_resolve ((hkeeps _ hn).directory_eq h.meets.common)]
    rcases n.resize t'.publisher path size with fault | m
    · exact ⟨rfl, h⟩
    · exact ⟨rfl, h.setNode hn _⟩
  · exact e.elim

theorem InStep.sizeOn (h : InStep d ref t u t' u')
    (hkeeps : ∀ n, t'.node? ref = some n → n.KeepsTo d ref) (path : String) :
    Answers d ref t u (t'.sizeOn ref path) (u'.sizeOn ref path) := by
  unfold Tree.sizeOn
  rw [h.meets.node]
  rcases hn : t'.node? ref with _ | n | n | n | ⟨e, removals⟩
  · exact ⟨rfl, h⟩
  · cases hkeeps _ hn with
    | readOnly hdir hp =>
        obtain ⟨hcontent, hprovided⟩ := h.provide hp
        dsimp only
        rw [Location.check_of_resolve (hdir _ _ h.meets.common)]
        rcases n.location.check t'.publisher path with fault | ⟨⟩
        · exact ⟨rfl, h⟩
        · exact ⟨congrArg (·.map (·.size)) hcontent, hprovided⟩
  · cases hkeeps _ hn with
    | readWrite hdir hp _ =>
        obtain ⟨hcontent, hprovided⟩ := h.provide hp
        dsimp only
        rw [Location.check_of_resolve (hdir _ _ h.meets.common)]
        rcases n.location.check t'.publisher path with fault | ⟨⟩
        · exact ⟨rfl, h⟩
        · exact ⟨congrArg (·.map (·.size)) hcontent, hprovided⟩
  · refine ⟨?_, h⟩
    dsimp only
    rw [KeyStore.content_of_resolve ((hkeeps _ hn).directory_eq h.meets.common)]
  · exact e.elim

theorem InStep.isWritableOn_eq (h : InStep d ref t u t' u')
    (hkeeps : ∀ n, t'.node? ref = some n → n.KeepsTo d ref) (path : String) :
    u'.isWritableOn ref path = t'.isWritableOn ref path := by
  unfold isWritableOn
  rw [h.meets.node]
  rcases hn : t'.node? ref with _ | n
  · rfl
  · exact Node.isWritable_of_directory ((hkeeps n hn).directory_eq h.meets.common) path

end Tree

end LiveTree
