import LiveTree.Proofs.Runs
import Mathlib.Logic.Function.Iterate

/-!
# An open beside a removal

`Tree.openFile` and `Tree.unregister` are made of small steps, and between any two of them another
caller may run. A `Race` is what there is in such a moment: the tree, how far an open and a removal
of one registration have come, and an account of what became of the session that the open began.

Whose turn it is is not determined. A turn belongs to the open, to the removal, or to other callers,
who may do anything to the tree but close the handle of the open. Given all turns, the open does
what `openFile` does, and the removal what `unregister` does.

Beginning a session is one step: the node is locked while its provider runs. What the provider
removes is removed within that step.
-/

namespace LiveTree

variable {σ ε : Type}

/-- How far an open has come: what it has to do next. -/
inductive Opening where
  /-- To look up the owner of the path. -/
  | looking (path : String) (access : Access)
  /-- To open the owner's node. -/
  | entering (r : Registration) (path : String) (access : Access)
  /-- To give the session that has begun a handle. -/
  | recording (r : Registration) (path : String)
  /-- To look whether the registration is still there. -/
  | checking (o : OpenHandle)
  /-- To take the handle back. -/
  | retracting (o : OpenHandle)
  /-- To close the node of the entry that was taken back. -/
  | closing (o taken : OpenHandle)
  | finished (result : Except Fault Handle)

/-- How far a removal has come: what it has to do next. -/
inductive Removal where
  /-- To take the registration out of the namespace. -/
  | dropping
  /-- To look for handles of the registration. -/
  | scanning
  /-- To take the handles that were found out of the table. -/
  | taking (stale : List Handle)
  /-- To close the node of an entry that was taken, and then to take the others. -/
  | closing (taken : OpenHandle) (stale : List Handle)
  | finished (found : Bool)

/-- A node was asked to end its session. -/
structure Closing where
  entry : OpenHandle
  /-- Whether there was a session to end. -/
  ended : Bool
deriving DecidableEq

/-- An open and a removal at work on one tree. -/
structure Race (σ : Type) where
  tree : Tree σ Empty
  /-- The registration that is being removed. -/
  target : NodeId
  opening : Opening
  removal : Removal := .dropping
  /-- The registration that the open was dispatched to. -/
  dispatched : Option Registration := none
  /-- Whether the open has begun a session on its node. -/
  begun : Bool := false
  /-- The entry that the open put into the table. -/
  entry : Option OpenHandle := none
  /-- The sessions that the two have ended, the last one first. -/
  closings : List Closing := []

/-! ## Turns -/

/-- Ends the session of an entry that was taken out of the table; a fault is only reported. -/
def Tree.shut [Foreign ε] (t : Tree σ ε) (o : OpenHandle) (warning : Fault → Event) : Tree σ ε :=
  match t.closeNode o.node with
  | (.ok (), t) => t
  | (.error fault, t) => t.report (warning fault)

namespace Race

/-- Ends the session of an entry that was taken out of the table, and keeps account of it. -/
def shut (s : Race σ) (o : OpenHandle) (warning : Fault → Event) : Race σ :=
  { s with
    tree := s.tree.shut o warning
    closings := ⟨o, s.tree.busy o.node⟩ :: s.closings }

/-- The open without its registration is over. -/
def lose (s : Race σ) (o : OpenHandle) : Race σ :=
  { s with
    tree := s.tree.report (.unregisteredDuringOpen o.path o.id)
    opening := .finished (.error (.notFound o.path)) }

/-- A turn of the open. -/
def open1 (s : Race σ) : Race σ :=
  match s.opening with
  | .looking path access =>
    match s.tree.owner? path with
    | none => { s with opening := .finished (.error (.notFound path)) }
    | some r =>
      { s with
        tree := s.tree.noteOverlap path
        opening := .entering r path access
        dispatched := some r }
  | .entering r path access =>
    match s.tree.openNode r.node path access with
    | (.error fault, t) => { s with tree := t, opening := .finished (.error fault) }
    | (.ok (), t) => { s with tree := t, opening := .recording r path, begun := true }
  | .recording r path =>
    let (o, t) := s.tree.addHandle r path
    { s with tree := t, opening := .checking o, entry := some o }
  | .checking o =>
    if s.tree.isRegistered o.id then { s with opening := .finished (.ok o.handle) }
    else { s with opening := .retracting o }
  | .retracting o =>
    match s.tree.takeHandle o.handle with
    | none => s.lose o
    | some (taken, t) => { s with tree := t, opening := .closing o taken }
  | .closing o taken => (s.shut taken (.closeAfterLostOpenFailed taken.path)).lose o
  | .finished _ => s

/-- A turn of the removal. -/
def remove1 (s : Race σ) : Race σ :=
  match s.removal with
  | .dropping =>
    if s.tree.isRegistered s.target then
      { s with tree := s.tree.dropRegistration s.target, removal := .scanning }
    else { s with removal := .finished false }
  | .scanning => { s with removal := .taking (s.tree.handlesOf s.target) }
  | .taking [] =>
    { s with tree := s.tree.report (.unregistered s.target), removal := .finished true }
  | .taking (h :: stale) =>
    match s.tree.takeHandle h with
    | none => { s with removal := .taking stale }
    | some (taken, t) => { s with tree := t, removal := .closing taken stale }
  | .closing taken stale =>
    { s.shut taken (.closeOnUnregisterFailed taken.path) with removal := .taking stale }
  | .finished _ => s

end Race

/-- Who is next, and what others do. -/
inductive Turn (σ : Type) where
  | opening
  | removal
  | others (a : Action σ)

namespace Race

/-- The race after a turn. -/
def turn (s : Race σ) : Turn σ → Race σ
  | .opening => s.open1
  | .removal => s.remove1
  | .others a => { s with tree := s.tree.perform a }

/-- Others leave the open's entry in the table. -/
def Allows (s : Race σ) : Turn σ → Prop
  | .others a => ∀ o, s.entry = some o → o ∈ s.tree.handles → o ∈ (s.tree.perform a).handles
  | _ => True

/-- What a race may come to. -/
inductive Run (start : Race σ) : Race σ → Prop where
  | start : Run start start
  | turn {s : Race σ} (next : Turn σ) : Run start s → s.Allows next → Run start (s.turn next)

/-! ## Each by itself -/

/-- Closing a stale handle is taking it and then ending its session. -/
theorem closeStale_eq_shut {t t' : Tree σ Empty} {h : Handle} {o : OpenHandle}
    (ht : t.takeHandle h = some (o, t')) :
    t.closeStale h = t'.shut o (.closeOnUnregisterFailed o.path) := by
  unfold Tree.closeStale
  split
  · next hnone =>
    rw [ht] at hnone
    cases hnone
  · next hsome =>
    rw [ht] at hsome
    cases hsome
    rfl

/-- So is undoing an open. -/
theorem undoOpen_eq_shut {t t' : Tree σ Empty} {o taken : OpenHandle}
    (ht : t.takeHandle o.handle = some (taken, t')) :
    t.undoOpen o = t'.shut taken (.closeAfterLostOpenFailed taken.path) := by
  unfold Tree.undoOpen
  split
  · next hnone =>
    rw [ht] at hnone
    cases hnone
  · next hsome =>
    rw [ht] at hsome
    cases hsome
    rfl

/-- An open that is over stays so. -/
theorem iterate_open1_of_finished {s : Race σ} {result : Except Fault Handle}
    (hs : s.opening = .finished result) (k : Nat) : open1^[k] s = s := by
  have hfixed : s.open1 = s := by
    unfold open1
    rw [hs]
  exact Function.iterate_fixed hfixed k

/-- Left to itself, an open whose handle is in the table ends as `confirmOpen` says. -/
theorem confirmOpen_alone {s : Race σ} {o : OpenHandle} (hs : s.opening = .checking o) :
    (open1^[3] s).opening = .finished (s.tree.confirmOpen o).1 ∧
      (open1^[3] s).tree = (s.tree.confirmOpen o).2 := by
  rw [Function.iterate_succ_apply]
  -- an open that stands is over after one turn, and one that is undone after three
  by_cases hreg : s.tree.isRegistered o.id = true
  · have hfirst : s.open1 = { s with opening := .finished (.ok o.handle) } := by
      simp only [open1, hs, hreg, if_true]
    rw [hfirst, iterate_open1_of_finished rfl]
    simp [Tree.confirmOpen, hreg]
  · have hfirst : s.open1 = { s with opening := .retracting o } := by
      simp only [open1, hs, hreg, Bool.false_eq_true, if_false]
    rw [hfirst, Function.iterate_succ_apply]
    simp only [Tree.confirmOpen, hreg, Bool.false_eq_true, if_false]
    rcases ht : s.tree.takeHandle o.handle with _ | ⟨taken, t⟩
    · simp [open1, lose, Tree.undoOpen, ht]
    · rw [undoOpen_eq_shut ht]
      simp [open1, shut, lose, ht]

/-- Left to itself, an open is `openFile`. -/
theorem openFile_alone {s : Race σ} {path canonical : String} {access : Access}
    (hpath : Path.normalize path = .ok canonical) (hs : s.opening = .looking canonical access) :
    (open1^[6] s).opening = .finished (s.tree.openFile path access).1 ∧
      (open1^[6] s).tree = (s.tree.openFile path access).2 := by
  simp only [Tree.openFile, hpath]
  rw [Function.iterate_succ_apply]
  rcases howner : s.tree.owner? canonical with _ | r
  · have hfirst : s.open1 = { s with opening := .finished (.error (.notFound canonical)) } := by
      simp only [open1, hs, howner]
    rw [hfirst, iterate_open1_of_finished rfl]
    exact ⟨rfl, rfl⟩
  · have hfirst : s.open1 = { s with
        tree := s.tree.noteOverlap canonical
        opening := .entering r canonical access
        dispatched := some r } := by
      simp only [open1, hs, howner]
    rw [hfirst, Function.iterate_succ_apply]
    rcases hopen : (s.tree.noteOverlap canonical).openNode r.node canonical access with
      ⟨fault | ⟨⟩, t⟩
    · simp only [open1, hopen]
      rw [iterate_open1_of_finished rfl]
      exact ⟨rfl, rfl⟩
    · simp only [open1, hopen]
      rw [Function.iterate_succ_apply]
      exact confirmOpen_alone rfl

/-- Left to itself, what follows the scan of a removal closes the handles that were found. -/
theorem closeStale_alone (stale : List Handle) {s : Race σ} (hs : s.removal = .taking stale) :
    ∃ k, (remove1^[k] s).removal = .finished true ∧ (remove1^[k] s).tree =
      (stale.foldl Tree.closeStale s.tree).report (.unregistered s.target) := by
  induction stale generalizing s with
  | nil =>
      refine ⟨1, ?_⟩
      simp [remove1, hs]
  | cons h stale ih =>
      rcases ht : s.tree.takeHandle h with _ | ⟨taken, t⟩
      · have hfirst : s.remove1 = { s with removal := .taking stale } := by
          simp only [remove1, hs, ht]
        have hsame : s.tree.closeStale h = s.tree := by
          simp only [Tree.closeStale, ht]
        obtain ⟨k, hk⟩ := ih (s := s.remove1) (by rw [hfirst])
        refine ⟨k + 1, ?_⟩
        rw [Function.iterate_succ_apply, List.foldl_cons, hsame]
        rw [hfirst] at hk ⊢
        exact hk
      · have hfirst : s.remove1 = { s with tree := t, removal := .closing taken stale } := by
          simp only [remove1, hs, ht]
        obtain ⟨k, hk⟩ := ih (s := s.remove1.remove1) (by rw [hfirst]; rfl)
        refine ⟨k + 2, ?_⟩
        rw [Function.iterate_succ_apply, Function.iterate_succ_apply, List.foldl_cons,
          closeStale_eq_shut ht]
        rw [hfirst] at hk ⊢
        exact hk

/-- Left to itself, a removal is `unregister`. -/
theorem unregister_alone {s : Race σ} (hs : s.removal = .dropping) :
    ∃ k, (remove1^[k] s).removal = .finished (s.tree.unregister s.target).1 ∧
      (remove1^[k] s).tree = (s.tree.unregister s.target).2 := by
  by_cases hreg : s.tree.isRegistered s.target = true
  · have hfirst : s.remove1 =
        { s with tree := s.tree.dropRegistration s.target, removal := .scanning } := by
      simp only [remove1, hs, hreg, if_true]
    obtain ⟨k, hk⟩ := closeStale_alone _ (s := s.remove1.remove1) (by rw [hfirst]; rfl)
    refine ⟨k + 2, ?_⟩
    rw [Function.iterate_succ_apply, Function.iterate_succ_apply]
    simp only [Tree.unregister, hreg, if_true]
    rw [hfirst] at hk ⊢
    exact hk
  · refine ⟨1, ?_⟩
    simp [remove1, hs, Tree.unregister, hreg]

end Race

end LiveTree
