import LiveTree.Proofs.Brackets
import LiveTree.Proofs.Numbering

/-!
# Departures

A registration that is removed takes its handles along. First it is dropped, then the handles that
were opened through it are closed one after the other, and a commit that fails meanwhile is only
reported. That comes to the same as if every holder of such a handle had closed it before, in
whatever order, and the registration had been dropped then (`unregister_eq_closes`).

The order does not matter since the handles of one registration all lead to one node
(`InUse.idsLead`): the first close that finds its session ends it, and the others find none.
-/

namespace LiveTree.Tree

variable {σ ε : Type} {t t' u : Tree σ ε}

/-! ## What closing looks at -/

/-- The same nodes are there over the same publisher. -/
structure Coincides (t t' : Tree σ ε) : Prop where
  nodes : t.nodes = t'.nodes
  publisher : t.publisher = t'.publisher

theorem Coincides.refl (t : Tree σ ε) : Coincides t t := ⟨rfl, rfl⟩

theorem Coincides.symm (h : Coincides t t') : Coincides t' t := ⟨h.nodes.symm, h.publisher.symm⟩

theorem Coincides.trans (h : Coincides t t') (h' : Coincides t' u) : Coincides t u :=
  ⟨h.nodes.trans h'.nodes, h.publisher.trans h'.publisher⟩

theorem Coincides.node? (h : Coincides t t') (ref : NodeRef) : t.node? ref = t'.node? ref := by
  rw [Tree.node?, h.nodes, Tree.node?]

/-- With the same books, trees that coincide differ at most in what they have reported. -/
theorem Coincides.takeLog (h : Coincides t t') (hb : t.books = t'.books) :
    t.takeLog.2 = t'.takeLog.2 := by
  obtain ⟨settings, publisher, nodes, registrations, handles, nextId, nextHandle, log⟩ := t
  obtain ⟨hnodes, hpublisher⟩ := h
  simp only [books, Books.mk.injEq] at hb
  obtain ⟨rfl, rfl, rfl, rfl, rfl⟩ := hb
  cases hnodes
  cases hpublisher
  rfl

variable [Foreign ε]

/-- Closing a node looks at nothing else. -/
theorem Coincides.closeNode (h : Coincides t t') (ref : NodeRef) :
    Coincides (t.closeNode ref).2 (t'.closeNode ref).2 := by
  have hput : ∀ n : Node σ ε, (t.setNode ref n).nodes = (t'.setNode ref n).nodes :=
    fun n => congrArg (·.set ref.index n) h.nodes
  unfold Tree.closeNode
  rw [← h.node? ref]
  rcases t.node? ref with _ | n | n | n | ⟨e, removals⟩
  · exact h
  · dsimp only
    rcases n.close with fault | ⟨session, closed⟩
    · exact h
    · exact ⟨hput (.readOnly closed), h.publisher⟩
  · dsimp only
    rcases n.close with fault | ⟨session, closed⟩
    · exact h
    · have hclosed := hput (.readWrite closed)
      dsimp only
      rcases session.inner.commit? with _ | content
      · exact ⟨hclosed, h.publisher⟩
      · dsimp only [publisher_setNode]
        rw [← h.publisher]
        rcases n.sink content t.publisher with ⟨failure | ⟨⟩, s⟩
        · exact ⟨hclosed, rfl⟩
        · exact ⟨hclosed, rfl⟩
  · dsimp only
    rcases n.close with fault | ⟨session, closed⟩
    · exact h
    · exact ⟨hput (.keyStore closed), h.publisher⟩
  · exact ⟨hput (.foreign (Foreign.close e).2 removals), h.publisher⟩

/-- A handle whose registration is gone is closed as any other is. -/
theorem Coincides.closeStale (h : Coincides t t') (hh : t.handles = t'.handles) (handle : Handle) :
    Coincides (t.closeStale handle) (t'.close handle).2 := by
  have hfound : t.handle? handle = t'.handle? handle := by rw [handle?, hh, handle?]
  unfold Tree.closeStale close takeHandle
  rw [hfound]
  rcases t'.handle? handle with _ | o
  · exact h
  · have htaken : Coincides
        ({ t with handles := t.handles.filter (·.handle ≠ handle) } : Tree σ ε)
        { t' with handles := t'.handles.filter (·.handle ≠ handle) } := ⟨h.nodes, h.publisher⟩
    have hclosed := htaken.closeNode o.node
    dsimp only
    split <;> next hc =>
      rw [hc] at hclosed
      exact ⟨hclosed.nodes, hclosed.publisher⟩

/-- Nor does it matter what else the books say. -/
theorem Coincides.foldl_closeStale (h : Coincides t t') (hh : t.handles = t'.handles)
    (hs : List Handle) :
    Coincides (hs.foldl Tree.closeStale t) (t'.performAll (hs.map .close)) := by
  induction hs generalizing t t' with
  | nil => exact h
  | cons handle hs ih =>
      refine ih (h.closeStale hh handle) ?_
      have hstale := congrArg Books.handles (books_closeStale t handle)
      have hclose := congrArg Books.handles (books_close t' handle)
      show (t.closeStale handle).handles = (t'.close handle).2.handles
      exact hstale.trans ((congrArg (List.filter _) hh).trans hclose.symm)

theorem books_performAll_close (t : Tree σ ε) (hs : List Handle) :
    (t.performAll (hs.map .close)).books =
      ({ t with handles := t.handles.filter (·.handle ∉ hs) } : Tree σ ε).books := by
  rw [performAll, List.foldl_map]
  exact books_foldl_strikes books_close hs t

theorem books_close_dropRegistration (t : Tree σ ε) (hs : List Handle) (id : NodeId) :
    ((t.performAll (hs.map .close)).dropRegistration id).books =
      ({ t with
        registrations := t.registrations.filter (·.id ≠ id)
        handles := t.handles.filter (·.handle ∉ hs) } : Tree σ ε).books := by
  have hclosed := books_performAll_close t hs
  simp only [books, Books.mk.injEq] at hclosed ⊢
  obtain ⟨hsettings, hregistrations, hhandles, hid, hhandle⟩ := hclosed
  refine ⟨hsettings, ?_, hhandles, hid, hhandle⟩
  rw [dropRegistration, hregistrations]

/-! ## Where handles lead -/

/-- What an action adds to the table is a handle of a registration, and leads where that leads. -/
theorem mem_handles_perform (ht : t.Tidy) {a : Action σ} {o : OpenHandle}
    (ho : o ∈ (t.perform a).handles) :
    o ∈ t.handles ∨ ∃ r ∈ t.registrations, r.id = o.id ∧ r.node = o.node := by
  by_cases ha : IsHandled a
  · cases a with
    | openFile path access =>
        rcases sheds_or_opens ht path access with ⟨fault, v, hv, hsheds⟩ | ⟨new, v, hv, -⟩
        · rw [perform, hv] at ho
          exact .inl (hsheds.table.subset ho)
        · obtain ⟨canonical, r, opened, -, howner, hopen, -, rfl⟩ := openFile_eq_ok hv
          have hsheds := (sheds_noteOverlap t canonical).trans
            (sheds_openNode ((sheds_noteOverlap t canonical).tidy ht) r.node canonical access)
          rw [hopen] at hsheds
          rw [perform, hv, addHandle_eq] at ho
          rcases List.mem_append.mp ho with ho | ho
          · exact .inl (hsheds.table.subset ho)
          · rw [List.mem_singleton.mp ho]
            exact .inr ⟨r, (claims_of_owner? howner).1, rfl, rfl⟩
    | close h =>
        have hhandles : (t.close h).2.handles = t.handles.filter (·.handle ≠ h) :=
          congrArg Books.handles (books_close t h)
        rw [perform, hhandles] at ho
        exact .inl (List.mem_filter.mp ho).1
    | _ => exact ha.elim
  · exact .inl ((sheds_perform ht ha).table.subset ho)

/-- An id leads to one node, whether it is asked of a registration or of a handle. -/
structure IdsLead (t : Tree σ ε) : Prop where
  registration : ∀ r ∈ t.registrations, ∀ r' ∈ t.registrations, r.id = r'.id → r.node = r'.node
  handle : ∀ r ∈ t.registrations, ∀ o ∈ t.handles, r.id = o.id → r.node = o.node

theorem IdsLead.perform (h : t.IdsLead) (ht : InUse t) (a : Action σ) : (t.perform a).IdsLead := by
  obtain ⟨hregistered, hid⟩ := ht.registered
  by_cases ha : ∃ ref, a = .register ref
  · obtain ⟨ref, rfl⟩ := ha
    have hregistrations := (register_eq t ref).2.1
    have hhandles : (t.register ref).2.handles = t.handles :=
      congrArg Books.handles (books_register t ref)
    -- the id of the new registration has not been given before
    have hnew : ∀ r ∈ t.registrations, r.id ≠ ⟨t.nextId⟩ := by
      intro r hr he
      have hlt := hid r hr
      rw [he] at hlt
      exact Nat.lt_irrefl _ hlt
    constructor
    · intro r hr r' hr' he
      rw [Tree.perform, hregistrations, List.mem_append, List.mem_singleton] at hr hr'
      rcases hr with hr | rfl <;> rcases hr' with hr' | rfl
      · exact h.registration r hr r' hr' he
      · exact absurd he (hnew r hr)
      · exact absurd he.symm (hnew r' hr')
      · rfl
    · intro r hr o ho he
      rw [Tree.perform, hregistrations, List.mem_append, List.mem_singleton] at hr
      rw [Tree.perform, hhandles] at ho
      rcases hr with hr | rfl
      · exact h.handle r hr o ho he
      · obtain ⟨r', hr', hsame⟩ := List.any_eq_true.mp (hregistered o ho)
        exact absurd ((of_decide_eq_true hsame).trans he.symm) (hnew r' hr')
  · have hsub := (spends_perform t fun ref he => ha ⟨ref, he⟩).registrations.subset
    refine ⟨fun r hr r' hr' => h.registration r (hsub hr) r' (hsub hr'), ?_⟩
    intro r hr o ho he
    rcases mem_handles_perform ht.tidy ho with ho | ⟨r', hr', hsame, hnode⟩
    · exact h.handle r (hsub hr) o ho he
    · exact (h.registration r (hsub hr) r' hr' (he.trans hsame.symm)).trans hnode

theorem InUse.idsLead (h : InUse t) : t.IdsLead := by
  induction h with
  | empty settings publisher => exact ⟨nofun, nofun⟩
  | addNode n _ _ ih => exact ⟨ih.registration, ih.handle⟩
  | perform a ht ih => exact ih.perform ht a
  | direct _ _ _ ih => exact ⟨ih.registration, ih.handle⟩

/-! ## Closing in any order -/

/-- What is not open is not closed. -/
theorem performAll_close_of_not_mem {hs : List Handle}
    (h : ∀ o ∈ t.handles, o.handle ∉ hs) : t.performAll (hs.map .close) = t := by
  induction hs with
  | nil => rfl
  | cons handle hs ih =>
      have hfirst : t.handle? handle = none := by
        refine List.find?_eq_none.mpr fun o ho => ?_
        intro he
        exact h o ho (of_decide_eq_true he ▸ List.mem_cons_self)
      have hclose : (t.close handle).2 = t := by rw [close, takeHandle, hfirst]
      rw [List.map_cons, performAll_cons, perform, hclose]
      exact ih fun o ho hmem => h o ho (List.mem_cons_of_mem handle hmem)

section

variable {σ : Type} {t : Tree σ Empty}

/-- A node that has been closed is closed no more. -/
theorem closeNode_closeNode (t : Tree σ Empty) (ref : NodeRef) :
    ((t.closeNode ref).2.closeNode ref).2 = (t.closeNode ref).2 := by
  rcases hn : t.node? ref with _ | n
  · have hsame : (t.closeNode ref).2 = t := by rw [closeNode, hn]
    rw [hsame, hsame]
  · exact closeNode_of_idle n.closed.isBuiltIn (node?_closeNode_self hn) n.session?_closed

/-- Closing handles of one node comes to closing the node, if one of them is open. -/
theorem coincides_performAll_close {hs : List Handle} {ref : NodeRef}
    (hled : ∀ o ∈ t.handles, o.handle ∈ hs → o.node = ref)
    (hopen : ∃ o ∈ t.handles, o.handle ∈ hs) :
    Coincides (t.performAll (hs.map .close)) (t.closeNode ref).2 := by
  induction hs generalizing t with
  | nil =>
      obtain ⟨o, -, hmem⟩ := hopen
      cases hmem
  | cons handle hs ih =>
      rw [List.map_cons, performAll_cons, perform]
      rcases ht : t.takeHandle handle with _ | ⟨o, taken⟩
      · -- nothing is closed by the first one
        have hclose : (t.close handle).2 = t := by rw [close, ht]
        rw [hclose]
        apply ih fun o ho hmem => hled o ho (List.mem_cons_of_mem handle hmem)
        obtain ⟨o, ho, hmem⟩ := hopen
        refine ⟨o, ho, (List.mem_cons.mp hmem).resolve_left ?_⟩
        have hkept := List.filter_eq_self.mp (takeHandle_eq_none ht) o ho
        exact of_decide_eq_true hkept
      · obtain ⟨ho, hnumber, hrest⟩ := takeHandle_eq_some ht
        have hnode : o.node = ref := hled o ho (hnumber ▸ List.mem_cons_self)
        have hclose : (t.close handle).2 = (taken.closeNode ref).2 := by
          rw [close, ht, ← hnode]
        have hclosed : Coincides (taken.closeNode ref).2 (t.closeNode ref).2 :=
          Coincides.closeNode (hrest ▸ ⟨rfl, rfl⟩) ref
        rw [hclose]
        have hleft : ∀ o' ∈ (taken.closeNode ref).2.handles, o' ∈ t.handles := by
          intro o' ho'
          have hhandles := congrArg Books.handles (books_closeNode taken ref)
          replace hhandles : (taken.closeNode ref).2.handles = taken.handles := hhandles
          rw [hhandles, hrest] at ho'
          exact (List.mem_filter.mp ho').1
        by_cases hmore : ∃ o' ∈ (taken.closeNode ref).2.handles, o'.handle ∈ hs
        · have hnext := ih (fun o' ho' hmem =>
            hled o' (hleft o' ho') (List.mem_cons_of_mem handle hmem)) hmore
          rw [closeNode_closeNode] at hnext
          exact hnext.trans hclosed
        · rw [performAll_close_of_not_mem fun o' ho' hmem => hmore ⟨o', ho', hmem⟩]
          exact hclosed

/-! ## Removals -/

/-- What a removal is, step by step. -/
theorem unregister_of_registered {id : NodeId} (h : t.isRegistered id = true) : t.unregister id =
    (true, ((t.handlesOf id).foldl closeStale (t.dropRegistration id)).report
      (.unregistered id)) := by
  rw [unregister, if_pos h]
  rfl

/-- The numbers of a registration's handles are those of its entries in the table, and no others. -/
theorem mem_handlesOf (ht : t.Tidy) {id : NodeId} {o : OpenHandle} (ho : o ∈ t.handles) :
    o.handle ∈ t.handlesOf id ↔ o.id = id := by
  rw [handlesOf, List.mem_map]
  constructor
  · rintro ⟨o', ho', he⟩
    obtain ⟨ho', hid⟩ := List.mem_filter.mp ho'
    rw [← ht.eq_of_handle ho' ho he]
    exact of_decide_eq_true hid
  · intro hid
    exact ⟨o, List.mem_filter.mpr ⟨ho, decide_eq_true hid⟩, rfl⟩

/-- Closing the handles of a registration, in whatever order, closes its node, or no node if none of
them is open. -/
theorem coincides_close_handlesOf (ht : InUse t) {r : Registration} (hr : r ∈ t.registrations)
    {order : List Handle} (horder : order.Perm (t.handlesOf r.id)) :
    Coincides (t.performAll (order.map .close))
      (if (t.handlesOf r.id).isEmpty then t else (t.closeNode r.node).2) := by
  have hmem : ∀ o ∈ t.handles, o.handle ∈ order ↔ o.id = r.id := by
    intro o ho
    rw [horder.mem_iff, mem_handlesOf ht.tidy ho]
  split
  · next hnone =>
    rw [List.isEmpty_iff.mp hnone] at horder
    rw [horder.eq_nil]
    exact .refl t
  · next hsome =>
    apply coincides_performAll_close
    · intro o ho hclosed
      exact (ht.idsLead.handle r hr o ho ((hmem o ho).mp hclosed).symm).symm
    · obtain ⟨handle, hhandle⟩ := List.exists_mem_of_ne_nil _ (by simpa using hsome)
      obtain ⟨o, ho, rfl⟩ := List.mem_map.mp hhandle
      obtain ⟨ho, hid⟩ := List.mem_filter.mp ho
      exact ⟨o, ho, (hmem o ho).mpr (of_decide_eq_true hid)⟩

/-- Removing a registration is closing its handles, in any order and whether that fails or not, and
then dropping it: but for what is reported the tree is the same. The other registrations, the
handles of other ids and all other nodes are as they were. An id that is not registered is told
apart, and nothing is done. -/
theorem unregister_eq_closes (h : InUse t) (id : NodeId) :
    ((t.unregister id).1 = true ↔ ∃ r ∈ t.registrations, r.id = id) ∧
    ((t.unregister id).1 = true →
      (∀ order : List Handle, order.Perm (t.handlesOf id) →
        (t.unregister id).2.takeLog.2 =
          ((t.performAll (order.map .close)).dropRegistration id).takeLog.2) ∧
      (t.unregister id).2.registrations = t.registrations.filter (·.id ≠ id) ∧
      (t.unregister id).2.handles = t.handles.filter (·.id ≠ id) ∧
      (∀ ref, (∀ r ∈ t.registrations, r.id = id → r.node ≠ ref) →
        (t.unregister id).2.node? ref = t.node? ref)) ∧
    ((t.unregister id).1 = false → (t.unregister id).2 = t) := by
  have hthere : t.isRegistered id = true ↔ ∃ r ∈ t.registrations, r.id = id := by
    rw [isRegistered, List.any_eq_true]
    simp only [decide_eq_true_eq]
  by_cases hregistered : t.isRegistered id = true
  · have hremoved := unregister_of_registered hregistered
    obtain ⟨r, hr, rfl⟩ := hthere.mp hregistered
    have hbooks := books_unregister t r.id
    rw [if_pos hregistered] at hbooks
    have hnumbers : t.handles.filter (·.handle ∉ t.handlesOf r.id) =
        t.handles.filter (·.id ≠ r.id) := by
      refine List.filter_congr fun o ho => ?_
      simp only [mem_handlesOf h.tidy ho]
    -- the handles are closed after the drop as they would have been before it
    have hcloses : Coincides (t.unregister r.id).2
        (t.performAll ((t.handlesOf r.id).map .close)) := by
      have hdropped : Coincides (t.dropRegistration r.id) t := ⟨rfl, rfl⟩
      have hfold := hdropped.foldl_closeStale rfl (t.handlesOf r.id)
      rw [hremoved]
      exact ⟨hfold.nodes, hfold.publisher⟩
    have hnode := hcloses.trans (coincides_close_handlesOf h hr (List.Perm.refl _))
    refine ⟨?_, fun _ => ⟨?_, ?_, ?_, ?_⟩, ?_⟩
    · rw [hremoved]
      exact iff_of_true rfl ⟨r, hr, rfl⟩
    · intro order horder
      have hordered := hnode.trans (coincides_close_handlesOf h hr horder).symm
      have hdropped : Coincides (t.performAll (order.map .close))
          ((t.performAll (order.map .close)).dropRegistration r.id) := ⟨rfl, rfl⟩
      apply (hordered.trans hdropped).takeLog
      rw [hbooks, books_close_dropRegistration]
      simp only [horder.mem_iff]
    · exact congrArg Books.registrations hbooks
    · exact (congrArg Books.handles hbooks).trans hnumbers
    · intro ref hother
      rw [hnode.node? ref]
      split
      · rfl
      · exact node?_closeNode_of_ne t (hother r hr rfl).symm
    · rw [hremoved]
      exact fun hkept => absurd hkept.symm Bool.false_ne_true
  · have hsame : t.unregister id = (false, t) := by rw [unregister, if_neg hregistered]
    rw [hsame]
    refine ⟨?_, fun hgone => absurd hgone Bool.false_ne_true, fun _ => rfl⟩
    exact iff_of_false Bool.false_ne_true fun hr => hregistered (hthere.mpr hr)

/-- A file whose sink refuses everything. -/
def shredder : ReadWrite Unit where
  location := ⟨.fixed "/desk", "shredder", rfl⟩
  provider := .ofText fun _ => "nothing"
  sink _ s := (.error ⟨"jammed", []⟩, s)

/-- It is registered twice, and written through the first registration. -/
def office : Tree Unit Empty :=
  (addNode { publisher := () } (.readWrite shredder)).2.performAll
    [.register ⟨0⟩, .register ⟨0⟩, .openFile "/desk/shredder" .writing, .write ⟨1⟩ 0 #[7]]

theorem inUse_office : InUse office := by
  have hnew : Reachable (addNode { publisher := () } (.readWrite shredder : Node Unit Empty)).2 :=
    .addNode _ (.empty {} ()) ⟨rfl, rfl, rfl⟩
  exact (hnew.performAll _).inUse

/-- The handle cannot be closed without a fault, and goes with its registration nevertheless. The
other registration stays. -/
theorem unregister_eq_closes_office :
    (office.close ⟨1⟩).1 = .error (.ofFailure ⟨"jammed", []⟩) ∧
    (office.unregister ⟨1⟩).1 = true ∧
    (office.unregister ⟨1⟩).2.takeLog.2 =
      ((office.performAll [.close ⟨1⟩]).dropRegistration ⟨1⟩).takeLog.2 ∧
    (office.unregister ⟨1⟩).2.registrations = [⟨⟨2⟩, ⟨0⟩⟩] ∧
    (office.unregister ⟨1⟩).2.handles = [] ∧
    (office.unregister ⟨3⟩).2 = office := by
  have hfirst : ∃ r ∈ office.registrations, r.id = ⟨1⟩ := ⟨⟨⟨1⟩, ⟨0⟩⟩, by decide, rfl⟩
  have hthird : (office.unregister ⟨3⟩).1 = false := by decide
  have horder : [⟨1⟩].Perm (office.handlesOf ⟨1⟩) := .of_eq (by decide)
  obtain ⟨hthere, hremoved, -⟩ := unregister_eq_closes inUse_office ⟨1⟩
  obtain ⟨hsame, hregistrations, hhandles, -⟩ := hremoved (hthere.mpr hfirst)
  obtain ⟨-, -, hnothing⟩ := unregister_eq_closes inUse_office ⟨3⟩
  exact ⟨by rfl, hthere.mpr hfirst, hsame [⟨1⟩] horder, hregistrations, hhandles,
    hnothing hthird⟩

end

end LiveTree.Tree
