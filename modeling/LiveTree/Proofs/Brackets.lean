import LiveTree.Proofs.Balance
import LiveTree.Proofs.Moves
import LiveTree.Proofs.Occupancy
import LiveTree.Proofs.Refusals
import Mathlib.Data.List.Perm.Subperm

/-!
# Whole reads and writes leave nothing behind

A whole read or write opens a file, does something through the handle and closes it again. Each of
the three can fail, and the provider that is run to open the file can remove registrations, that of
the file itself among them. However that goes, the table of handles loses the handles of the
registrations that went away, and is the same otherwise; no node is left with a session that it did
not have before; and the fault that is told is the first there was (`whole_operations_balanced`).

The table follows from what the operations shed. For the sessions, the open is what matters: if it
succeeds then one node has gained a session, which the handle leads to (`GainsAt`), and closing the
handle takes it away again.
-/

namespace LiveTree.Tree

variable {σ ε : Type} {t t' u : Tree σ ε}

/-! ## The table -/

/-- The registration is there in `t`, and gone in `t'`. -/
def lost (t t' : Tree σ ε) (id : NodeId) : Bool := t.isRegistered id && !t'.isRegistered id

/-- What has been opened has a number that no other entry has. -/
theorem Opens.tidy {o : OpenHandle} (h : Opens t t' o) (ht : t.Tidy) : t'.Tidy where
  numbered := h.proceeds.numbered ht.numbered
  distinct := by
    obtain ⟨others, htable, hothers, -⟩ := h.table
    rw [htable, List.map_append, List.map_singleton, List.nodup_append_comm,
      List.singleton_append, List.nodup_cons]
    refine ⟨?_, (hothers.map _).nodup ht.distinct⟩
    intro hmem
    obtain ⟨o', ho', he⟩ := List.mem_map.mp hmem
    have hold := ht.numbered o' (hothers.subset ho')
    have hnew := h.fresh.1
    rw [he] at hold
    omega

section

variable [Foreign ε]

theorem tidy_perform (ht : t.Tidy) (a : Action σ) : (t.perform a).Tidy := by
  by_cases ha : IsHandled a
  · cases a with
    | openFile path access =>
        rcases sheds_or_opens ht path access with ⟨fault, u, ho, hs⟩ | ⟨o, u, ho, hs⟩
        · rw [perform, ho]
          exact hs.tidy ht
        · rw [perform, ho]
          exact hs.tidy ht
    | close h =>
        have hhandles : (t.close h).2.handles = t.handles.filter (·.handle ≠ h) :=
          congrArg Books.handles (books_close t h)
        refine ⟨(proceeds_close t h).numbered ht.numbered, ?_⟩
        show ((t.close h).2.handles.map (·.handle)).Nodup
        rw [hhandles]
        exact (List.filter_sublist.map _).nodup ht.distinct
    | _ => exact ha.elim
  · exact (sheds_perform ht ha).tidy ht

theorem InUse.tidy (h : InUse t) : t.Tidy := by
  induction h with
  | empty settings publisher => exact ⟨nofun, List.nodup_nil⟩
  | addNode n _ _ ih => exact ⟨ih.numbered, ih.distinct⟩
  | perform a _ ih => exact tidy_perform ih a
  | direct _ _ _ ih => exact ⟨ih.numbered, ih.distinct⟩

/-- Between operations every handle is of a registration that is there, and whose id has been
given. -/
theorem InUse.registered (h : InUse t) :
    (∀ o ∈ t.handles, t.isRegistered o.id = true) ∧
      ∀ r ∈ t.registrations, r.id.number < t.nextId := by
  induction h with
  | empty settings publisher => exact ⟨nofun, nofun⟩
  | addNode n _ _ ih => exact ih
  | @perform t a _ ih =>
      have hproceeds := proceeds_perform t a
      exact ⟨hproceeds.isRegistered_of_mem ih.1, hproceeds.id_lt ih.2⟩
  | direct _ _ _ ih => exact ih

/-- Between operations what is shed is what the registrations that went away leave behind. -/
theorem Sheds.handles_eq (h : Sheds t t') (ht : InUse t) (ht' : InUse t') :
    t'.handles = t.handles.filter fun o => !t.lost t' o.id := by
  obtain ⟨hregistered, hid⟩ := ht.registered
  have hkeeps : ∀ o ∈ t'.handles, (!t.lost t' o.id) = true := by
    intro o ho
    rw [lost, ht'.registered.1 o ho, Bool.not_true, Bool.and_false, Bool.not_false]
  -- both have no entry twice, and the same entries
  have hdistinct : t.handles.Nodup := List.Nodup.of_map _ ht.tidy.distinct
  have hsubset : t.handles.filter (fun o => !t.lost t' o.id) ⊆ t'.handles := by
    intro o ho
    obtain ⟨hmem, hkept⟩ := List.mem_filter.mp ho
    have hr := hregistered o hmem
    obtain ⟨r, hr', he⟩ := List.any_eq_true.mp hr
    have hold : o.id.number < t.nextId := of_decide_eq_true he ▸ hid r hr'
    apply h.kept o hmem hold
    simpa [lost, hr] using hkept
  have hsublist : t'.handles.Sublist (t.handles.filter fun o => !t.lost t' o.id) := by
    have hfilter := h.table.filter fun o => !t.lost t' o.id
    rwa [List.filter_eq_self.mpr hkeeps] at hfilter
  exact hsublist.eq_of_length_le (List.Nodup.subperm (hdistinct.filter _) hsubset).length_le

end

/-! ## Sessions -/

/-- A node that has a session is the one it was. -/
def Settles (t t' : Tree σ ε) : Prop :=
  ∀ ref n, t'.node? ref = some n → n.session?.isSome = true → t.node? ref = some n

/-- So it is with all nodes but the one that `ref` leads to. -/
def GainsAt (ref : NodeRef) (t t' : Tree σ ε) : Prop :=
  ∀ other ≠ ref, ∀ n, t'.node? other = some n → n.session?.isSome = true →
    t.node? other = some n

variable {ref : NodeRef} {path : String} {access : Access}

theorem Settles.refl (t : Tree σ ε) : Settles t t := fun _ _ hn _ => hn

/-- No node is busy that was not before. -/
theorem Settles.busy (h : Settles t t') (hidle : t.busy ref = false) : t'.busy ref = false := by
  rcases hn : t'.node? ref with _ | n
  · rw [Tree.busy, hn]
    rfl
  · rcases hs : n.session?.isSome with _ | _
    · rwa [busy_of_node? hn]
    · rw [busy_of_node? (h ref n hn hs), hs] at hidle
      cases hidle

/-- What changes one node only gains nothing elsewhere. -/
theorem GainsAt.next (h : GainsAt ref t u)
    (hothers : ∀ other ≠ ref, t'.node? other = u.node? other) : GainsAt ref t t' := by
  intro other hne n hn
  rw [hothers other hne] at hn
  exact h other hne n hn

variable [Foreign ε]

/-- Where nodes are only closed, no session begins. -/
theorem OnlyCloses.settles (h : OnlyCloses t t') : Settles t t' := by
  intro ref m hm hs
  obtain ⟨k, hk⟩ := h ref
  rw [hm] at hk
  obtain ⟨n, hn, rfl⟩ := Option.map_eq_some_iff.mp hk.symm
  cases k with
  | zero => exact hn
  | succ k =>
      rw [Function.iterate_succ_apply', Node.session?_closed] at hs
      cases hs

/-- Closing the one node that has gained a session settles it. -/
theorem GainsAt.closeNode (h : GainsAt ref t u) : Settles t (u.closeNode ref).2 := by
  intro other m hm hs
  by_cases he : other = ref
  · subst he
    rcases hn : u.node? other with _ | n
    · rw [Tree.closeNode, hn, hn] at hm
      cases hm
    · rw [node?_closeNode_self hn] at hm
      cases hm
      rw [Node.session?_closed] at hs
      cases hs
  · rw [node?_closeNode_of_ne u he] at hm
    exact h other he m hm hs

/-- A granted open of a node gains a session there. -/
theorem gainsAt_openNode (h : t.openNode ref path access = (.ok (), u)) : GainsAt ref t u := by
  obtain ⟨n, source, fetched, content, -, -, hf, rfl⟩ := openNode_eq_ok h
  have hcloses := onlyCloses_fetch t source
  rw [hf] at hcloses
  have hfetched : GainsAt ref t fetched := fun other _ => hcloses.settles other
  exact hfetched.next fun other hne => node?_startSession_of_ne fetched hne path access content

/-- One that is refused gains nothing. -/
theorem onlyCloses_openNode {fault : Fault} (h : t.openNode ref path access = (.error fault, u)) :
    OnlyCloses t u := by
  rcases openNode_eq_error h with rfl | ⟨source, rfl⟩
  · exact .of_nodes rfl
  · exact onlyCloses_fetch t source

omit [Foreign ε] in
/-- The sessions do not depend on the table. -/
theorem GainsAt.handles (h : GainsAt ref t u) (handles : List OpenHandle) :
    GainsAt ref t { u with handles } :=
  h.next fun _ _ => rfl

/-- Closing the handle of the one node that has gained a session settles it. -/
theorem GainsAt.close {o : OpenHandle} (h : GainsAt o.node t u)
    (ho : u.handle? o.handle = some o) : Settles t (u.close o.handle).2 := by
  unfold Tree.close takeHandle
  rw [ho]
  exact (h.handles _).closeNode

/-- So does taking the open back. -/
theorem GainsAt.undoOpen {o : OpenHandle} (h : GainsAt o.node t u)
    (ho : u.handle? o.handle = some o) : Settles t (u.undoOpen o) := by
  have hclosed := (h.handles (u.handles.filter (·.handle ≠ o.handle))).closeNode
  unfold Tree.undoOpen takeHandle
  rw [ho]
  dsimp only
  split <;> next hc => rw [hc] at hclosed; exact hclosed

/-- An open that fails leaves no session behind, also if it is undone at the end. Any other gains
one, and its handle leads there. -/
theorem settles_or_gains (ht : t.Numbered) (path : String) (access : Access) :
    (∃ fault u, t.openFile path access = (.error fault, u) ∧ Settles t u) ∨
    ∃ o u, t.openFile path access = (.ok o.handle, u) ∧ u.handle? o.handle = some o ∧
      GainsAt o.node t u := by
  unfold openFile
  split
  · exact .inl ⟨_, _, rfl, .refl t⟩
  · next path _ =>
    split
    · exact .inl ⟨_, _, rfl, .refl t⟩
    · next r _ =>
      have hnoted : OnlyCloses t (t.noteOverlap path) := .of_nodes (nodes_noteOverlap t path)
      split
      · next hopen => exact .inl ⟨_, _, rfl, (hnoted.trans (onlyCloses_openNode hopen)).settles⟩
      · next opened hopen =>
        have hopened : opened.Numbered := ht.openNode hopen
        have hfound := handle?_addHandle hopened r path
        have hgains : GainsAt r.node t (opened.addHandle r path).2 := by
          intro other hne n hn hs
          exact hnoted.settles other n (gainsAt_openNode hopen other hne n hn hs) hs
        dsimp only [confirmOpen]
        split
        · exact .inr ⟨_, _, rfl, hfound, hgains⟩
        · refine .inl ⟨_, _, rfl, ?_⟩
          exact GainsAt.undoOpen (o := (opened.addHandle r path).1) hgains hfound

/-- A write through a handle changes no other node than the one it leads to. -/
theorem node?_write_of_ne {o : OpenHandle} {h : Handle} (ho : t.handle? h = some o)
    {other : NodeRef} (hne : other ≠ o.node) (offset : Nat) (data : Bytes) :
    (t.write h offset data).2.node? other = t.node? other := by
  unfold write
  rw [ho]
  dsimp only
  split
  · rfl
  · exact node?_writeNode_of_ne t hne offset data

/-! ## From open to close -/

variable {α : Type} {use : Handle → Tree σ ε → Except Fault α × Tree σ ε}

/-- Opens the file, makes use of the handle and closes it, whatever came of that. -/
def whole (t : Tree σ ε) (path : String) (access : Access)
    (use : Handle → Tree σ ε → Except Fault α × Tree σ ε) : Except Fault α × Tree σ ε :=
  match t.openFile path access with
  | (.error fault, t) => (.error fault, t)
  | (.ok h, t) =>
    let (result, t) := use h t
    let (closed, t) := t.close h
    (firstFault result closed, t)

theorem readAll_eq_whole (t : Tree σ ε) (path : String) :
    t.readAll path = t.whole path .reading fun h t => (t.drain h 0, t) := rfl

theorem writeAll_eq_whole (t : Tree σ ε) (path : String) (data : Bytes) :
    t.writeAll path data = t.whole path .writing fun h t => t.write h 0 data := rfl

/-- What only changes the node that the handle leads to, and not the books, leaves no session behind
between an open and a close. -/
theorem settles_whole (ht : t.Numbered) (hbooks : ∀ h u, (use h u).2.books = u.books)
    (hothers : ∀ h u o, u.handle? h = some o → ∀ other ≠ o.node,
      (use h u).2.node? other = u.node? other) (path : String) (access : Access) :
    Settles t (t.whole path access use).2 := by
  unfold whole
  rcases settles_or_gains ht path access with ⟨fault, u, ho, hsettles⟩ | ⟨o, u, ho, hfound, hgains⟩
  · rw [ho]
    exact hsettles
  · rw [ho]
    have hhandles : (use o.handle u).2.handles = u.handles :=
      congrArg Books.handles (hbooks o.handle u)
    have hkept : (use o.handle u).2.handle? o.handle = some o := by
      rw [handle?, hhandles]
      exact hfound
    exact (hgains.next (hothers o.handle u o hfound)).close hkept

/-! ## Faults -/

/-- The fault that a result tells, if it does. -/
def faultsIn : Except Fault α → List Fault
  | .ok _ => []
  | .error fault => [fault]

/-- The faults of the steps from the open to the close, in the order of the steps. Without a handle
there is only the open. -/
def faultsAlong (t : Tree σ ε) (path : String) (access : Access)
    (use : Handle → Tree σ ε → Except Fault α × Tree σ ε) : List Fault :=
  match t.openFile path access with
  | (.error fault, _) => [fault]
  | (.ok h, t) => faultsIn (use h t).1 ++ faultsIn ((use h t).2.close h).1

theorem firstFault_eq_error_iff {first : Except Fault α} {second : Except Fault Unit}
    {fault : Fault} : firstFault first second = .error fault ↔
      (faultsIn first ++ faultsIn second).head? = some fault := by
  rcases first with f | value <;> rcases second with f' | ⟨⟩ <;> simp [firstFault, faultsIn]

/-- The fault that is told is the first. -/
theorem whole_eq_error_iff {fault : Fault} : (t.whole path access use).1 = .error fault ↔
    (t.faultsAlong path access use).head? = some fault := by
  unfold whole faultsAlong
  rcases t.openFile path access with ⟨f | h, u⟩
  · simp
  · exact firstFault_eq_error_iff

/-! ## Whole reads and writes -/

/-- Nothing is left behind: the table has lost the handles of the registrations that went away, and
nothing else; and a node that has a session is the one it was, with the session that it had. -/
structure Balanced (t t' : Tree σ ε) : Prop where
  handles : t'.handles = t.handles.filter fun o => !t.lost t' o.id
  sessions : Settles t t'

/-- However a whole read or write ends, it leaves nothing behind, and it tells the first fault there
was: that of the open, or else that of the reads or the write, or else that of the close. It fails
if and only if there was one. -/
theorem whole_operations_balanced (ht : InUse t) (path : String) (data : Bytes) :
    (Balanced t (t.readAll path).2 ∧ ∀ fault, (t.readAll path).1 = .error fault ↔
      (t.faultsAlong path .reading fun h u => (u.drain h 0, u)).head? = some fault) ∧
    Balanced t (t.writeAll path data).2 ∧ ∀ fault, (t.writeAll path data).1 = .error fault ↔
      (t.faultsAlong path .writing fun h u => u.write h 0 data).head? = some fault := by
  refine ⟨⟨⟨?_, ?_⟩, fun fault => ?_⟩, ⟨?_, ?_⟩, fun fault => ?_⟩
  · exact (sheds_readAll ht.tidy path).handles_eq ht (ht.perform (.readAll path))
  · rw [readAll_eq_whole]
    exact settles_whole ht.numbered (fun _ _ => rfl) (fun _ _ _ _ _ _ => rfl) path .reading
  · rw [readAll_eq_whole]
    exact whole_eq_error_iff
  · exact (sheds_writeAll ht.tidy path data).handles_eq ht (ht.perform (.writeAll path data))
  · rw [writeAll_eq_whole]
    exact settles_whole ht.numbered (fun h u => books_write u h 0 data)
      (fun h u o ho other hne => node?_write_of_ne ho hne 0 data) path .writing
  · rw [writeAll_eq_whole]
    exact whole_eq_error_iff

/-- Keys for the bids of a sale. -/
def bids : KeyStore Full where
  directory := .fixed "/bids"

/-- The gavel ends the sale as soon as it is looked at, and goes away itself. -/
def gavel : ReadOnly Full where
  location := ⟨.fixed "/hall", "gavel", rfl⟩
  provider := { removals := fun _ => [⟨1⟩, ⟨2⟩], supply := fun _ s => (.ok #[33], s) }

/-- The two, with keys and a file beside them that lies on a full disk. -/
def hall : Tree Full Empty :=
  [.register ⟨0⟩, .register ⟨1⟩, .register ⟨2⟩, .register ⟨3⟩].foldl perform
    (addNode (addNode (addNode (addNode { publisher := ⟨#[], 0⟩ } (.keyStore bids)).2
      (.readOnly gavel)).2 (.keyStore notes)).2 (.readWrite brimming)).2

theorem reachable_hall : Reachable hall :=
  .perform (.register ⟨3⟩) (.perform (.register ⟨2⟩) (.perform (.register ⟨1⟩)
    (.perform (.register ⟨0⟩) (.addNode (.readWrite brimming) (.addNode (.keyStore notes)
      (.addNode (.readOnly gavel) (.addNode (.keyStore bids) (.empty _ _) ⟨rfl, rfl⟩) rfl)
      ⟨rfl, rfl⟩) ⟨rfl, rfl, rfl⟩))))

/-- The hall while a bid and a note are written. -/
def auction : Tree Full Empty :=
  [.openFile "/bids/vase" .writing, .openFile "/notes/guests" .writing].foldl perform hall

/-- The gavel cannot be read, since the read takes it away together with the bid; the note goes on.
The disk is full, and nothing is left of the write that has found it so. -/
theorem whole_operations_balanced_auction :
    auction.handles.map (·.path) = ["/bids/vase", "/notes/guests"] ∧
    (auction.readAll "/hall/gavel").1 = .error (.notFound "/hall/gavel") ∧
    (auction.readAll "/hall/gavel").2.handles.map (·.path) = ["/notes/guests"] ∧
    (auction.readAll "/hall/gavel").2.busy ⟨1⟩ = false ∧
    (auction.writeAll "/disk/file" #[2]).1 = .error (.ofFailure ⟨"disk full", []⟩) ∧
    (auction.writeAll "/disk/file" #[2]).2.handles = auction.handles ∧
    (auction.writeAll "/disk/file" #[2]).2.busy ⟨3⟩ = false := by
  have huse : InUse auction :=
    .perform (.openFile "/notes/guests" .writing) (.perform (.openFile "/bids/vase" .writing)
      reachable_hall.inUse)
  obtain ⟨⟨hread, hreadFault⟩, -⟩ := whole_operations_balanced huse "/hall/gavel" #[]
  obtain ⟨-, hwrite, hwriteFault⟩ := whole_operations_balanced huse "/disk/file" #[2]
  refine ⟨rfl, (hreadFault _).mpr rfl, ?_, hread.sessions.busy rfl, (hwriteFault _).mpr rfl, ?_,
    hwrite.sessions.busy rfl⟩
  · rw [hread.handles]
    decide
  · rw [hwrite.handles]
    decide

end LiveTree.Tree
