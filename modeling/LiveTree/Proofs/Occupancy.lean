import LiveTree.Proofs.Runs
import LiveTree.Proofs.Sessions
import Mathlib.Data.List.Nodup
import Mathlib.Data.List.Perm.Basic

/-!
# Handles and sessions

A session lives in its node, and the handle that stands for it in the tree's table. The invariant
that ties them together is `Matched`: the nodes with an open session are exactly those that some
entry of the table refers to, each by one entry.

In the middle of an operation a session may be without its handle: it has begun and is not in the
table yet, or its handle has been taken and it is about to be closed. The nodes of such sessions are
the *loose* ones, and the invariant carries a list of them. Beginning a session makes its node loose,
adding its handle ties it; taking a handle makes its node loose again, and closing the node settles
it. All else leaves the list as it is.

The main result, `handles_match_sessions`, is what follows between operations, where nothing is
loose.
-/

namespace LiveTree

namespace Tree

variable {σ ε : Type}

/-! ## What leaves every node as busy as it was -/

theorem busy_insertKey (t : Tree σ ε) (ref : NodeRef) (key : String) (value : Bytes)
    (other : NodeRef) : (t.insertKey ref key value).busy other = t.busy other := by
  unfold insertKey
  split
  · next n hn =>
    split
    · rfl
    · next m hm =>
      refine busy_setNode hn ?_ other
      unfold KeyStore.insert at hm
      split at hm <;> cases hm
      rfl
  · rfl

theorem busy_removeKey (t : Tree σ ε) (ref : NodeRef) (key : String) (other : NodeRef) :
    (t.removeKey ref key).busy other = t.busy other := by
  unfold removeKey
  split
  · next n hn =>
    refine busy_setNode hn ?_ other
    rfl
  · rfl

theorem busy_wake? {t t' : Tree σ ε} {p : Poll} {result : Except Fault Unit}
    (h : t.wake? p = some (result, t')) (other : NodeRef) : t'.busy other = t.busy other := by
  unfold wake? at h
  split at h
  · next n hn =>
    split at h
    · cases h
    · cases h
      rfl
    · next m hm =>
      cases h
      exact busy_setNode hn (by simp [Node.session?, ReadWrite.isSome_session_wake hm]) other
  · cases h
    rfl

variable [Foreign ε]

theorem busy_noteOverlap (t : Tree σ ε) (path : String) (ref : NodeRef) :
    (t.noteOverlap path).busy ref = t.busy ref := by
  rw [busy, node?_noteOverlap, busy]

/-- A write leaves its session open. -/
theorem busy_writeNode (t : Tree σ ε) (ref : NodeRef) (offset : Nat) (data : Bytes)
    (other : NodeRef) : (t.writeNode ref offset data).2.busy other = t.busy other := by
  unfold writeNode
  split
  · rfl
  · rfl
  · next n hn =>
    split
    · rfl
    · next m hw =>
      exact busy_setNode hn (by simp [Node.session?, ReadWrite.isSome_session_write hw]) other
  · next n hn =>
    split
    · rfl
    · next m hw =>
      exact busy_setNode hn (by simp [Node.session?, KeyStore.isSome_session_write hw]) other
  · next e removals hn =>
    split
    · rfl
    · refine busy_setNode hn ?_ other
      rfl

/-- A resize leaves the session open, if there is one. -/
theorem busy_resizeOn (t : Tree σ ε) (ref : NodeRef) (path : String) (size : Nat)
    (other : NodeRef) : (t.resizeOn ref path size).2.busy other = t.busy other := by
  unfold resizeOn
  split
  · rfl
  · rfl
  · next n hn =>
    split
    · rfl
    · next m hm =>
      exact busy_setNode hn (by simp [Node.session?, ReadWrite.isSome_session_resize hm]) other
    · split <;> rfl
  · next n hn =>
    split
    · rfl
    · next m hm =>
      exact busy_setNode hn (by simp [Node.session?, KeyStore.isSome_session_resize hm]) other
  · next e removals hn =>
    split
    · rfl
    · refine busy_setNode hn ?_ other
      rfl

theorem busy_poll (t : Tree σ ε) (ref : NodeRef) (goal : Poll.Goal) (other : NodeRef) :
    (t.poll ref goal).2.busy other = t.busy other := by
  unfold poll
  split
  · rfl
  · rfl
  · rfl
  · split <;> rfl
  · next e removals hn =>
    split
    · rfl
    · refine busy_setNode hn ?_ other
      rfl

theorem busy_look (t : Tree σ ε) (p : Poll) (other : NodeRef) :
    (t.look p).busy other = t.busy other := by
  unfold look finish?
  split
  · rfl
  · next h =>
    split at h
    · cases h
    · next hw =>
      cases h
      exact busy_wake? hw other
    · next hw =>
      cases h
      exact busy_wake? hw other

/-! ## The invariant -/

omit [Foreign ε] in
/-- The nodes that the entries of the table refer to. -/
def tied (t : Tree σ ε) : List NodeRef := t.handles.map (·.node)

/-- The nodes with an open session are those of the table's entries and the loose ones, each once.
Every entry has its own number, below the next one to be given. -/
structure Matched (loose : List NodeRef) (t : Tree σ ε) : Prop where
  numbered : ∀ o ∈ t.handles, o.handle.number < t.nextHandle
  distinct : (t.handles.map (·.handle)).Nodup
  apart : (loose ++ t.tied).Nodup
  busy_iff : ∀ ref, t.busy ref = true ↔ ref ∈ loose ++ t.tied

namespace Matched

variable {loose : List NodeRef} {t t' : Tree σ ε}

omit [Foreign ε] in
/-- Only the table of handles, its next number and the sessions matter. -/
theorem of_same (h : Matched loose t) (hh : t'.handles = t.handles)
    (hn : t'.nextHandle = t.nextHandle) (hs : ∀ ref, t'.busy ref = t.busy ref) :
    Matched loose t' := by
  obtain ⟨hnum, hdist, hapart, hbusy⟩ := h
  refine ⟨?_, ?_, ?_, ?_⟩
  · rw [hh, hn]
    exact hnum
  · rw [hh]
    exact hdist
  · rw [tied, hh]
    exact hapart
  · intro ref
    rw [hs, tied, hh]
    exact hbusy ref

omit [Foreign ε] in
theorem of_books (h : Matched loose t) (hb : t'.books = t.books)
    (hs : ∀ ref, t'.busy ref = t.busy ref) : Matched loose t' := by
  simp only [books, Books.mk.injEq] at hb
  exact h.of_same hb.2.2.1 hb.2.2.2.2 hs

omit [Foreign ε] in
/-- The order in which the loose nodes stand does not matter. -/
theorem perm {loose' : List NodeRef} (h : Matched loose t) (hp : loose.Perm loose') :
    Matched loose' t := by
  have happend := hp.append_right t.tied
  exact ⟨h.numbered, h.distinct, happend.nodup_iff.mp h.apart,
    fun ref => (h.busy_iff ref).trans happend.mem_iff⟩

/-- Closing a loose node settles it. -/
theorem closeNode {ref : NodeRef} (h : Matched (ref :: loose) t) :
    Matched loose (t.closeNode ref).2 := by
  have hb := books_closeNode t ref
  simp only [books, Books.mk.injEq] at hb
  obtain ⟨-, -, hh, -, hn⟩ := hb
  obtain ⟨hnot, hapart⟩ := List.nodup_cons.mp h.apart
  refine ⟨?_, ?_, ?_, ?_⟩
  · rw [hh, hn]
    exact h.numbered
  · rw [hh]
    exact h.distinct
  · rw [tied, hh]
    exact hapart
  · intro other
    rw [busy_closeNode, tied, hh, Bool.and_eq_true, h.busy_iff, decide_eq_true_eq,
      List.cons_append, List.mem_cons]
    constructor
    · rintro ⟨hne, he | hmem⟩
      · exact absurd he hne
      · exact hmem
    · intro hmem
      refine ⟨?_, .inr hmem⟩
      -- the node that was closed is of no entry, so no entry loses its session
      rintro rfl
      exact hnot hmem

omit [Foreign ε] in
/-- In a table without repeated numbers, an entry stands before the others: those with other
numbers. -/
theorem perm_others {handles : List OpenHandle} (hnodup : (handles.map (·.handle)).Nodup)
    {o : OpenHandle} (ho : o ∈ handles) :
    (o :: handles.filter (·.handle ≠ o.handle)).Perm handles := by
  induction handles with
  | nil => cases ho
  | cons first rest ih =>
      rw [List.map_cons, List.nodup_cons] at hnodup
      obtain ⟨hnot, hnodup⟩ := hnodup
      rcases List.mem_cons.mp ho with rfl | ho
      · -- nothing behind it bears its number
        have hall : rest.filter (·.handle ≠ o.handle) = rest := by
          refine List.filter_eq_self.mpr fun other hmem => ?_
          refine decide_eq_true ?_
          intro he
          exact hnot (he ▸ List.mem_map_of_mem hmem)
        rw [List.filter_cons_of_neg (by simp), hall]
      · have hne : first.handle ≠ o.handle := by
          intro he
          exact hnot (he ▸ List.mem_map_of_mem ho)
        rw [List.filter_cons_of_pos (by simpa using hne)]
        exact (List.Perm.swap first o _).trans ((ih hnodup ho).cons first)

omit [Foreign ε] in
theorem perm_takeHandle (h : Matched loose t) {number : Handle} {o : OpenHandle}
    (ht : t.takeHandle number = some (o, t')) : (o :: t'.handles).Perm t.handles := by
  obtain ⟨ho, rfl, rfl⟩ := takeHandle_eq_some ht
  exact perm_others h.distinct ho

omit [Foreign ε] in
/-- Taking a handle makes its node loose. -/
theorem takeHandle (h : Matched loose t) {number : Handle} {o : OpenHandle}
    (ht : t.takeHandle number = some (o, t')) : Matched (o.node :: loose) t' := by
  have hperm : (o.node :: loose ++ t'.tied).Perm (loose ++ t.tied) :=
    List.perm_middle.symm.trans (((h.perm_takeHandle ht).map _).append_left loose)
  obtain ⟨ho, rfl, rfl⟩ := takeHandle_eq_some ht
  have hsub : (t.handles.filter (·.handle ≠ o.handle)).Sublist t.handles := List.filter_sublist
  refine ⟨?_, ?_, hperm.nodup_iff.mpr h.apart, ?_⟩
  · intro other hmem
    exact h.numbered other (hsub.subset hmem)
  · exact (hsub.map _).nodup h.distinct
  · intro ref
    exact (h.busy_iff ref).trans hperm.mem_iff.symm

omit [Foreign ε] in
/-- Giving a loose node a handle ties it. -/
theorem addHandle {r : Registration} (h : Matched (r.node :: loose) t) (path : String) :
    Matched loose (t.addHandle r path).2 := by
  rw [addHandle_eq]
  have hperm : (loose ++ (t.tied ++ [r.node])).Perm (r.node :: loose ++ t.tied) := by
    rw [← List.append_assoc]
    exact List.perm_append_singleton _ _
  have htied : ({ t with
      handles := t.handles ++ [⟨⟨t.nextHandle⟩, r.id, r.node, path⟩]
      nextHandle := t.nextHandle + 1 } : Tree σ ε).tied = t.tied ++ [r.node] := by
    simp [tied]
  refine ⟨?_, ?_, ?_, ?_⟩
  · intro o ho
    rcases List.mem_append.mp ho with ho | ho
    · exact Nat.lt_succ_of_lt (h.numbered o ho)
    · rw [List.mem_singleton.mp ho]
      exact Nat.lt_succ_self _
  · rw [List.map_append, List.nodup_append]
    refine ⟨h.distinct, List.nodup_singleton _, ?_⟩
    rintro number hmem _ hnew rfl
    obtain ⟨o, ho, rfl⟩ := List.mem_map.mp hmem
    -- an entry with the new number would not have been below it
    have hlt := h.numbered o ho
    rw [List.mem_singleton.mp hnew] at hlt
    exact Nat.lt_irrefl _ hlt
  · rw [htied]
    exact hperm.nodup_iff.mpr h.apart
  · intro ref
    rw [htied]
    exact (h.busy_iff ref).trans hperm.mem_iff.symm

/-! ## What keeps the loose nodes loose -/

theorem closeStale (h : Matched loose t) (number : Handle) :
    Matched loose (t.closeStale number) := by
  unfold Tree.closeStale
  split
  · exact h
  · next o taken ht =>
    have hclosed := (h.takeHandle ht).closeNode
    split <;> next hc => rw [hc] at hclosed; exact hclosed.of_same rfl rfl fun _ => rfl

theorem foldl_closeStale (h : Matched loose t) (hs : List Handle) :
    Matched loose (hs.foldl Tree.closeStale t) := by
  induction hs generalizing t with
  | nil => exact h
  | cons number hs ih => exact ih (h.closeStale number)

theorem unregister (h : Matched loose t) (id : NodeId) : Matched loose (t.unregister id).2 := by
  unfold Tree.unregister
  split
  · have hdropped : Matched loose (t.dropRegistration id) := h.of_same rfl rfl fun _ => rfl
    exact (hdropped.foldl_closeStale _).of_same rfl rfl fun _ => rfl
  · exact h

/-- A provider may remove any registrations: their handles go, and with each its session. -/
theorem provide (h : Matched loose t) (p : Provider σ) : Matched loose (t.provide p).2 := by
  have hremovals : Matched loose (t.afterRemovals p) :=
    afterRemovals_induction (fun _ id h => h.unregister id) h p
  exact hremovals.of_books (books_provide t p) (busy_of_nodes (nodes_provide t p))

theorem fetch (h : Matched loose t) (source : Source σ) : Matched loose (t.fetch source).2 := by
  cases source with
  | provided p => exact h.provide p
  | held content => exact h

/-! ## Opening and closing -/

theorem openNode_error (h : Matched loose t) {ref : NodeRef} {path : String} {access : Access}
    {fault : Fault} (ho : t.openNode ref path access = (.error fault, t')) :
    Matched loose t' := by
  rcases openNode_eq_error ho with rfl | ⟨source, rfl⟩
  · exact h
  · exact h.fetch source

/-- Beginning a session on an idle node makes it loose. -/
theorem startSession (h : Matched loose t) {ref : NodeRef} {n : Node σ ε}
    (hn : t.node? ref = some n) (hidle : n.session? = none) {path : String} {access : Access}
    {content : Bytes}
    (hsome : (n.begin t.publisher path access content).session?.isSome = true) :
    Matched (ref :: loose) (t.startSession ref path access content) := by
  have hfree : ref ∉ loose ++ t.tied := by
    intro hmem
    have hbusy := (h.busy_iff ref).mpr hmem
    rw [busy_of_node? hn, hidle] at hbusy
    cases hbusy
  have hb := books_startSession t ref path access content
  simp only [books, Books.mk.injEq] at hb
  obtain ⟨-, -, hh, -, hnext⟩ := hb
  refine ⟨?_, ?_, ?_, ?_⟩
  · rw [hh, hnext]
    exact h.numbered
  · rw [hh]
    exact h.distinct
  · rw [tied, hh, List.cons_append]
    exact List.nodup_cons.mpr ⟨hfree, h.apart⟩
  · intro other
    rw [tied, hh, List.cons_append, List.mem_cons]
    by_cases he : other = ref
    · subst he
      simp [busy_of_node? (node?_startSession_self hn path access content), hsome]
    · have hsame := node?_startSession_of_ne t he path access content
      have hiff := h.busy_iff other
      rw [busy] at hiff ⊢
      rw [hsame, hiff]
      exact (or_iff_right he).symm

/-- A granted open makes the node loose. That it was idle when it was asked is not enough: the
provider has run since. -/
theorem openNode_ok {t t' : Tree σ Empty} (h : Matched loose t) {ref : NodeRef} {path : String}
    {access : Access} (ho : t.openNode ref path access = (.ok (), t')) :
    Matched (ref :: loose) t' := by
  obtain ⟨n, source, t₁, content, hn, hp, hf, rfl⟩ := openNode_eq_ok ho
  have hfetched : Matched loose t₁ := by
    have := h.fetch source
    rwa [hf] at this
  have hidle : n.session? = none := Node.session?_of_permit hp
  have hstill : t₁.node? ref = some n := node?_fetch_of_permit n.isBuiltIn hn hp hf
  exact hfetched.startSession hstill hidle (isSome_session?_begin n.isBuiltIn hp hf)

theorem undoOpen (h : Matched loose t) (o : OpenHandle) : Matched loose (t.undoOpen o) := by
  unfold Tree.undoOpen
  split
  · exact h
  · next ht =>
    have hclosed := (h.takeHandle ht).closeNode
    split <;> next hc => rw [hc] at hclosed; exact hclosed.of_same rfl rfl fun _ => rfl

theorem confirmOpen (h : Matched loose t) (o : OpenHandle) :
    Matched loose (t.confirmOpen o).2 := by
  unfold Tree.confirmOpen
  split
  · exact h
  · exact (h.undoOpen o).of_same rfl rfl fun _ => rfl

theorem openFile {t : Tree σ Empty} (h : Matched loose t) (path : String) (access : Access) :
    Matched loose (t.openFile path access).2 := by
  unfold Tree.openFile
  split
  · exact h
  · next path _ =>
    split
    · exact h
    · next r _ =>
      have hnoted : Matched loose (t.noteOverlap path) :=
        h.of_books (books_noteOverlap t path) (busy_noteOverlap t path)
      split
      · next ho => exact hnoted.openNode_error ho
      · next ho => exact ((hnoted.openNode_ok ho).addHandle path).confirmOpen _

theorem write (h : Matched loose t) (number : Handle) (offset : Nat) (data : Bytes) :
    Matched loose (t.write number offset data).2 := by
  unfold Tree.write
  split
  · exact h
  · next o _ =>
    split
    · exact h
    · exact h.of_books (books_writeNode t o.node offset data) (busy_writeNode t o.node offset data)

/-- A close settles its node even where the sink refuses what the session wrote. -/
theorem close (h : Matched loose t) (number : Handle) : Matched loose (t.close number).2 := by
  unfold Tree.close
  split
  · exact h
  · next ht => exact (h.takeHandle ht).closeNode

theorem readAll {t : Tree σ Empty} (h : Matched loose t) (path : String) :
    Matched loose (t.readAll path).2 := by
  unfold Tree.readAll
  have hopen := h.openFile path .reading
  split
  · next hs =>
    rw [hs] at hopen
    exact hopen
  · next number t' hs =>
    rw [hs] at hopen
    exact hopen.close number

theorem writeAll {t : Tree σ Empty} (h : Matched loose t) (path : String) (data : Bytes) :
    Matched loose (t.writeAll path data).2 := by
  unfold Tree.writeAll
  have hopen := h.openFile path .writing
  split
  · next hs =>
    rw [hs] at hopen
    exact hopen
  · next number t' hs =>
    rw [hs] at hopen
    exact (hopen.write number 0 data).close number

/-! ## Queries and changes -/

theorem sizeOn (h : Matched loose t) (ref : NodeRef) (path : String) :
    Matched loose (t.sizeOn ref path).2 := by
  unfold Tree.sizeOn
  split
  · exact h
  · split
    · exact h
    · exact h.provide _
  · split
    · exact h
    · exact h.provide _
  · exact h
  · exact h

theorem stat (h : Matched loose t) (path : String) : Matched loose (t.stat path).2 := by
  unfold Tree.stat
  split
  · exact h
  · next path _ =>
    split
    · next r _ =>
      have hnoted : Matched loose (t.noteOverlap path) :=
        h.of_books (books_noteOverlap t path) (busy_noteOverlap t path)
      have hsize := hnoted.sizeOn r.node path
      split <;> next hs => rwa [hs] at hsize
    · split <;> exact h

theorem truncate (h : Matched loose t) (path : String) (size : Nat) :
    Matched loose (t.truncate path size).2 := by
  unfold Tree.truncate
  split
  · exact h
  · next path _ =>
    split
    · exact h
    · next r _ =>
      refine h.of_books (by simp) fun ref => ?_
      rw [busy_resizeOn, busy_noteOverlap]

theorem «notify» (h : Matched loose t) (ref : NodeRef) : Matched loose (t.notify ref).2 := by
  unfold Tree.notify
  split
  · next n _ =>
    have hprovided := h.provide n.provider
    split
    · next hs =>
      rw [hs] at hprovided
      exact hprovided
    · next hs =>
      rw [hs] at hprovided
      split
      · next m hm =>
        split
        · exact hprovided
        · next announced ha =>
          obtain ⟨-, rfl⟩ := ReadWrite.announce?_eq_some ha
          refine hprovided.of_same rfl rfl fun other => busy_setNode hm ?_ other
          rfl
      · exact hprovided
  · exact h

theorem longPoll (h : Matched loose t) (number : Handle) (offset size : Nat) :
    Matched loose (t.longPoll number offset size).2 := by
  unfold Tree.longPoll
  split
  · exact h
  · next o _ => exact h.of_books (books_poll t o.node _) (busy_poll t o.node _)

theorem longPollAll (h : Matched loose t) (number : Handle) :
    Matched loose (t.longPollAll number).2 := by
  unfold Tree.longPollAll
  split
  · exact h
  · next o _ => exact h.of_books (books_poll t o.node _) (busy_poll t o.node _)

theorem register (h : Matched loose t) (ref : NodeRef) : Matched loose (t.register ref).2 := by
  unfold Tree.register
  dsimp only
  split <;> exact h.of_same rfl rfl fun _ => rfl

/-! ## Whole runs -/

/-- What is loose stays so in every action: an action ties what it makes loose, or closes it. -/
theorem perform {t : Tree σ Empty} (h : Matched loose t) (a : Action σ) :
    Matched loose (t.perform a) := by
  cases a with
  | register ref => exact h.register ref
  | unregister id => exact h.unregister id
  | openFile path access => exact h.openFile path access
  | read number offset size => exact h
  | write number offset data => exact h.write number offset data
  | close number => exact h.close number
  | longPoll number offset size => exact h.longPoll number offset size
  | longPollAll number => exact h.longPollAll number
  | look p => exact h.of_books (books_look t p) (busy_look t p)
  | readAll path => exact h.readAll path
  | writeAll path data => exact h.writeAll path data
  | truncate path size => exact h.truncate path size
  | stat path => exact h.stat path
  | list path => exact h
  | publish f => exact h.of_same rfl rfl fun _ => rfl
  | «notify» ref => exact h.notify ref
  | insert ref key value =>
      exact h.of_books (books_insertKey t ref key value) (busy_insertKey t ref key value)
  | remove ref key => exact h.of_books (books_removeKey t ref key) (busy_removeKey t ref key)
  | takeLog => exact h.of_same rfl rfl fun _ => rfl

omit [Foreign ε] in
/-- A new node comes without a session. -/
theorem addNode (h : Matched loose t) {n : Node σ ε} (hn : n.IsNew) :
    Matched loose (t.addNode n).2 := by
  refine h.of_same rfl rfl fun ref => ?_
  have hidle : n.session? = none := by
    cases n with
    | readOnly n => exact hn
    | readWrite n => simp [Node.session?, hn.1]
    | keyStore n => simp [Node.session?, hn.1]
    | foreign e removals => rfl
  rw [busy, busy, node?_addNode]
  split
  · next heq =>
    have hnone : t.node? ref = none := List.getElem?_eq_none (Nat.le_of_eq heq.symm)
    simp [hnone, hidle]
  · rfl

end Matched

/-- Between operations no session is without its handle. -/
theorem Reachable.matched {t : Tree σ Empty} (h : Reachable t) : Matched [] t := by
  induction h with
  | empty settings publisher =>
      refine ⟨nofun, List.nodup_nil, List.nodup_nil, fun ref => ?_⟩
      simp [busy, node?, tied]
  | addNode n _ hn ih => exact ih.addNode hn
  | perform a _ ih => exact ih.perform a

omit [Foreign ε] in
/-- An entry without a registration does not come about. -/
theorem Proceeds.isRegistered_of_mem {t t' : Tree σ ε} (h : Proceeds t t')
    (ht : ∀ o ∈ t.handles, t.isRegistered o.id = true) :
    ∀ o ∈ t'.handles, t'.isRegistered o.id = true := by
  intro o ho
  rcases h.settled o ho with hr | ⟨hold, hr⟩
  · exact hr
  · rw [ht o hold] at hr
    cases hr

omit [Foreign ε] in
/-- Nor does a registration whose id has not been given. -/
theorem Proceeds.id_lt {t t' : Tree σ ε} (h : Proceeds t t')
    (ht : ∀ r ∈ t.registrations, r.id.number < t.nextId) :
    ∀ r ∈ t'.registrations, r.id.number < t'.nextId := by
  intro r hr
  rcases h.registration r hr with hold | hnew
  · exact Nat.lt_of_lt_of_le (ht r hold) h.nextId
  · exact hnew.2

/-- Between operations every handle is of a registration that is there. -/
theorem Reachable.isRegistered_of_mem {t : Tree σ ε} (h : Reachable t) :
    ∀ o ∈ t.handles, t.isRegistered o.id = true := by
  induction h with
  | empty settings publisher => nofun
  | addNode n _ _ ih => exact ih
  | perform a _ ih => exact (proceeds_perform _ a).isRegistered_of_mem ih

/-- The id of every registration has been given, and will not be given again. -/
theorem Reachable.id_lt {t : Tree σ ε} (h : Reachable t) :
    ∀ r ∈ t.registrations, r.id.number < t.nextId := by
  induction h with
  | empty settings publisher => nofun
  | addNode n _ _ ih => exact ih
  | perform a _ ih => exact (proceeds_perform _ a).id_lt ih

/-- A file of a busy node cannot be opened, whatever the access. -/
theorem openFile_of_busy {t : Tree σ ε} {path canonical : String} {r : Registration}
    {n : Node σ ε} (hpath : Path.normalize path = .ok canonical)
    (howner : t.owner? canonical = some r) (hn : t.node? r.node = some n) (hb : n.IsBuiltIn)
    (hs : n.session?.isSome = true) (access : Access) :
    ∃ reason, (t.openFile path access).1 = .error (.accessConflict reason) := by
  have hclaims : n.matchesFile t.publisher canonical = true := by
    simpa [claims, hn] using (claims_of_owner? howner).2
  obtain ⟨reason, hp⟩ := n.permit_of_busy hb hclaims hs access
  refine ⟨reason, ?_⟩
  simp only [openFile, hpath, howner, openNode, node?_noteOverlap, hn, publisher_noteOverlap, hp]

/-- Between any two operations on a tree of built-in nodes, every handle is of a registration that
is there, no two handles are of the same node, and a node has a session open exactly when one handle
is of it. So a file whose owner has a handle cannot be opened, whatever the access. -/
theorem handles_match_sessions {t : Tree σ Empty} (h : Reachable t) :
    (∀ o ∈ t.handles, t.isRegistered o.id = true) ∧
    (t.handles.map (·.node)).Nodup ∧
    (∀ ref n, t.node? ref = some n →
      (n.session?.isSome = true ↔ t.handles.countP (·.node = ref) = 1)) ∧
    (∀ path canonical r access, Path.normalize path = .ok canonical →
      t.owner? canonical = some r → (∃ o ∈ t.handles, o.node = r.node) →
      ∃ reason, (t.openFile path access).1 = .error (.accessConflict reason)) := by
  have hmatched := h.matched
  have hnodup : t.tied.Nodup := hmatched.apart
  refine ⟨h.isRegistered_of_mem, hnodup, ?_, ?_⟩
  · intro ref n hn
    have hcount : t.handles.countP (·.node = ref) = t.tied.count ref := by
      rw [tied, List.count_eq_countP, List.countP_map]
      rfl
    rw [← busy_of_node? hn, hmatched.busy_iff ref, List.nil_append, hcount]
    constructor
    · exact List.count_eq_one_of_mem hnodup
    · intro hone
      exact List.count_pos_iff.mp (by omega)
  · rintro path canonical r access hpath howner ⟨o, ho, hnode⟩
    have hbusy : t.busy r.node = true := by
      rw [hmatched.busy_iff, List.nil_append, ← hnode]
      exact List.mem_map_of_mem ho
    rcases hn : t.node? r.node with _ | n
    · simp [busy, hn] at hbusy
    · rw [busy_of_node? hn] at hbusy
      exact openFile_of_busy hpath howner hn n.isBuiltIn hbusy access

/-- A file that can only be read. -/
def version : ReadOnly Unit where
  location := ⟨.fixed "/app", "version", rfl⟩
  provider := .ofText fun _ => "1"

/-- A tree with one read-only node, registered twice and then opened. -/
def twice : Tree Unit Empty :=
  [.register ⟨0⟩, .register ⟨0⟩, .openFile "/app/version" .reading].foldl perform
    (addNode { publisher := () } (.readOnly version)).2

/-- The handle came by the first registration; it is the only one of the node, and the node cannot
be opened again. -/
theorem handles_match_sessions_twice :
    Reachable twice ∧ twice.handles.map (·.id) = [⟨1⟩] ∧
      twice.handles.countP (·.node = ⟨0⟩) = 1 ∧
      ∃ reason, (twice.openFile "/app/version" .both).1 = .error (.accessConflict reason) := by
  have hreach : Reachable twice :=
    .perform (.openFile "/app/version" .reading) (.perform (.register ⟨0⟩)
      (.perform (.register ⟨0⟩) (.addNode (.readOnly version) (.empty {} ()) rfl)))
  obtain ⟨-, -, hiff, hconflict⟩ := handles_match_sessions hreach
  refine ⟨hreach, by decide, ?_, ?_⟩
  · obtain ⟨n, hn⟩ : ∃ n, twice.node? ⟨0⟩ = some n := Option.isSome_iff_exists.mp (by decide)
    refine (hiff ⟨0⟩ n hn).mp ?_
    rw [← busy_of_node? hn]
    decide
  · apply hconflict "/app/version" "/app/version" ⟨⟨1⟩, ⟨0⟩⟩ .both
    · decide
    · decide
    · decide

end Tree

end LiveTree
