import LiveTree.Proofs.Books
import LiveTree.Proofs.Nodes
import Mathlib.Logic.Function.Iterate

/-!
# How sessions begin and end

Sessions end in three ways: their handle is closed, their registration is removed, or a provider
removes their registration while it runs. All three come down to `Tree.closeNode`, which leaves a
node as `Node.closed` says. So whatever a provider removes, each node is afterwards as it was or
closed (`OnlyCloses`), and a node without a session is as it was.

Sessions begin in one way, `Tree.openNode`. It runs a provider between the permission and the
beginning, so what was found before the run has to be found again after it.
-/

namespace LiveTree

variable {σ ε : Type} [Foreign ε]

/-! ## What closing does to a node -/

/-- The node without its session. -/
def Node.closed : Node σ ε → Node σ ε
  | .readOnly n =>
    match n.close with
    | .error _ => .readOnly n
    | .ok (_, n) => .readOnly n
  | .readWrite n =>
    match n.close with
    | .error _ => .readWrite n
    | .ok (_, n) => .readWrite n
  | .keyStore n =>
    match n.close with
    | .error _ => .keyStore n
    | .ok (_, n) => .keyStore n
  | .foreign e removals => .foreign (Foreign.close e).2 removals

theorem Node.session?_closed (n : Node σ ε) : n.closed.session? = none := by
  cases n with
  | readOnly n =>
      rcases hs : n.session with _ | session <;>
        simp [closed, ReadOnly.close, session?, hs]
  | readWrite n =>
      rcases hs : n.session with _ | session <;>
        simp [closed, ReadWrite.close, session?, hs]
  | keyStore n =>
      rcases hs : n.session with _ | session <;>
        simp [closed, KeyStore.close, session?, hs]
  | foreign e removals => rfl

/-- Closing a built-in node that has no session changes nothing. -/
theorem Node.closed_of_idle {n : Node σ ε} (hb : n.IsBuiltIn) (h : n.session? = none) :
    n.closed = n := by
  cases n with
  | readOnly n =>
      have hs : n.session = none := h
      simp [closed, ReadOnly.close, hs]
  | readWrite n =>
      have hs : n.session = none := by simpa [session?] using h
      simp [closed, ReadWrite.close, hs]
  | keyStore n =>
      have hs : n.session = none := by simpa [session?] using h
      simp [closed, KeyStore.close, hs]
  | foreign e removals => exact hb.elim

theorem Node.isBuiltIn_closed {n : Node σ ε} (hb : n.IsBuiltIn) : n.closed.IsBuiltIn := by
  cases n with
  | foreign e removals => exact hb
  | _ => simp only [closed]; split <;> trivial

/-- So closing it again and again comes to closing it once, or not at all. -/
theorem Node.iterate_closed {n : Node σ ε} (hb : n.IsBuiltIn) (k : Nat) :
    closed^[k] n = n ∨ closed^[k] n = n.closed := by
  induction k with
  | zero => exact .inl rfl
  | succ k ih =>
      right
      rw [Function.iterate_succ_apply']
      rcases ih with ih | ih <;> rw [ih]
      exact closed_of_idle (isBuiltIn_closed hb) n.session?_closed

namespace Tree

theorem node?_closeNode_self {t : Tree σ ε} {ref : NodeRef} {n : Node σ ε}
    (h : t.node? ref = some n) : (t.closeNode ref).2.node? ref = some n.closed := by
  have hput : ∀ m : Node σ ε, (t.setNode ref m).node? ref = some m :=
    fun m => node?_setNode_self m h
  unfold closeNode
  rw [h]
  cases n with
  | readOnly n =>
      rcases hs : n.session with _ | session
      · simpa [ReadOnly.close, hs, Node.closed] using h
      · simpa [ReadOnly.close, hs, Node.closed] using hput _
  | readWrite n =>
      rcases hs : n.session with _ | session
      · simpa [ReadWrite.close, hs, Node.closed] using h
      · simp only [ReadWrite.close, hs, Node.closed]
        split
        · exact hput _
        · split <;> exact hput _
  | keyStore n =>
      rcases hs : n.session with _ | session
      · simpa [KeyStore.close, hs, Node.closed] using h
      · simpa [KeyStore.close, hs, Node.closed] using hput _
  | foreign e removals => exact hput _

theorem node?_closeNode_of_ne (t : Tree σ ε) {ref other : NodeRef} (h : other ≠ ref) :
    (t.closeNode ref).2.node? other = t.node? other := by
  have hput : ∀ m : Node σ ε, (t.setNode ref m).node? other = t.node? other :=
    fun m => node?_setNode_of_ne m h
  unfold closeNode
  split
  · rfl
  · split
    · rfl
    · exact hput _
  · split
    · rfl
    · dsimp only
      split
      · exact hput _
      · split <;> exact hput _
  · split
    · rfl
    · exact hput _
  · exact hput _

/-- After closing a node, that node is idle and every other one as busy as before. -/
theorem busy_closeNode (t : Tree σ ε) (ref other : NodeRef) :
    (t.closeNode ref).2.busy other = (other ≠ ref && t.busy other) := by
  by_cases he : other = ref
  · subst he
    rcases h : t.node? other with _ | n
    · simp [closeNode, busy, h]
    · simp [busy_of_node? (node?_closeNode_self h), Node.session?_closed]
  · simp [busy, node?_closeNode_of_ne t he, he]

/-- Taking a handle strikes its number off the table, and no other. -/
theorem handle?_ends {t taken : Tree σ ε} {handle other : Handle} {o : OpenHandle}
    (ht : t.takeHandle other = some (o, taken)) : (taken.closeNode o.node).2.handle? handle =
      if handle = other then none else t.handle? handle := by
  obtain ⟨-, -, rfl⟩ := takeHandle_eq_some ht
  have hhandles : (closeNode { t with handles := t.handles.filter (·.handle ≠ other) }
      o.node).2.handles = t.handles.filter (·.handle ≠ other) :=
    congrArg Books.handles (books_closeNode _ _)
  rw [handle?, hhandles, List.find?_filter, handle?]
  split
  · next he => simp [he]
  · next he =>
    congr 1
    funext o
    by_cases hsame : o.handle = handle
    · subst hsame
      simp [he]
    · simp [hsame]

/-! ## What removing registrations does to nodes -/

/-- Every node of `t'` is the one of `t`, closed any number of times. -/
def OnlyCloses (t t' : Tree σ ε) : Prop :=
  ∀ ref, ∃ k, t'.node? ref = (t.node? ref).map Node.closed^[k]

theorem OnlyCloses.of_nodes {t t' : Tree σ ε} (h : t'.nodes = t.nodes) : OnlyCloses t t' :=
  fun ref => ⟨0, by simp [node?, h]⟩

theorem OnlyCloses.trans {t u v : Tree σ ε} (h : OnlyCloses t u) (h' : OnlyCloses u v) :
    OnlyCloses t v := by
  intro ref
  obtain ⟨k, hk⟩ := h ref
  obtain ⟨k', hk'⟩ := h' ref
  refine ⟨k' + k, ?_⟩
  rw [hk', hk, Option.map_map, Function.iterate_add]

/-- A built-in node is left as it is, or closed once. -/
theorem OnlyCloses.node?_eq {t t' : Tree σ ε} (h : OnlyCloses t t') {ref : NodeRef}
    {n : Node σ ε} (hb : n.IsBuiltIn) (hn : t.node? ref = some n) :
    t'.node? ref = some n ∨ t'.node? ref = some n.closed := by
  obtain ⟨k, hk⟩ := h ref
  rw [hk, hn, Option.map_some]
  exact (Node.iterate_closed hb k).imp (congrArg some) (congrArg some)

/-- A built-in node without a session is left as it is. -/
theorem OnlyCloses.node?_of_idle {t t' : Tree σ ε} (h : OnlyCloses t t') {ref : NodeRef}
    {n : Node σ ε} (hb : n.IsBuiltIn) (hn : t.node? ref = some n) (hs : n.session? = none) :
    t'.node? ref = some n := by
  rcases h.node?_eq hb hn with h | h
  · exact h
  · rw [h, Node.closed_of_idle hb hs]

theorem onlyCloses_closeNode (t : Tree σ ε) (ref : NodeRef) :
    OnlyCloses t (t.closeNode ref).2 := by
  intro other
  by_cases he : other = ref
  · subst he
    rcases h : t.node? other with _ | n
    · exact ⟨0, by simp [closeNode, h]⟩
    · exact ⟨1, node?_closeNode_self h⟩
  · exact ⟨0, by simp [node?_closeNode_of_ne t he]⟩

theorem onlyCloses_closeStale (t : Tree σ ε) (h : Handle) : OnlyCloses t (t.closeStale h) := by
  unfold closeStale
  split
  · exact .of_nodes rfl
  · next o taken ht =>
    obtain ⟨-, -, rfl⟩ := takeHandle_eq_some ht
    have hclose := onlyCloses_closeNode
      { t with handles := t.handles.filter (·.handle ≠ h) } o.node
    split <;> next hc => rw [hc] at hclose; exact hclose

theorem onlyCloses_foldl_closeStale (stale : List Handle) (t : Tree σ ε) :
    OnlyCloses t (stale.foldl closeStale t) := by
  induction stale generalizing t with
  | nil => exact .of_nodes rfl
  | cons h stale ih => exact (onlyCloses_closeStale t h).trans (ih _)

theorem onlyCloses_unregister (t : Tree σ ε) (id : NodeId) :
    OnlyCloses t (t.unregister id).2 := by
  unfold unregister
  split
  · have hdropped : OnlyCloses t (t.dropRegistration id) := .of_nodes rfl
    exact hdropped.trans (onlyCloses_foldl_closeStale _ _)
  · exact .of_nodes rfl

theorem onlyCloses_afterRemovals (t : Tree σ ε) (p : Provider σ) :
    OnlyCloses t (t.afterRemovals p) := by
  refine afterRemovals_induction ?_ (.of_nodes rfl) p
  intro t' id h
  exact h.trans (onlyCloses_unregister t' id)

theorem onlyCloses_provide (t : Tree σ ε) (p : Provider σ) : OnlyCloses t (t.provide p).2 :=
  (onlyCloses_afterRemovals t p).trans (.of_nodes (nodes_provide t p))

theorem onlyCloses_fetch (t : Tree σ ε) (source : Source σ) :
    OnlyCloses t (t.fetch source).2 := by
  cases source with
  | provided p => exact onlyCloses_provide t p
  | held content => exact .of_nodes rfl

/-- A node that was idle before a provider ran is idle after it. -/
theorem session?_of_onlyCloses {t t' : Tree σ ε} (h : OnlyCloses t t') {ref : NodeRef}
    {n m : Node σ ε} (hn : t.node? ref = some n) (hm : t'.node? ref = some m)
    (hidle : n.session? = none) :
    m.session? = none := by
  obtain ⟨k, hk⟩ := h ref
  rw [hn, Option.map_some, hm] at hk
  cases hk
  cases k with
  | zero => exact hidle
  | succ k =>
      rw [Function.iterate_succ_apply']
      exact Node.session?_closed _

/-! ## After a close -/

/-- A node that is idle stays so while things are only closed. -/
theorem busy_of_onlyCloses {t t' : Tree σ ε} (h : OnlyCloses t t') {ref : NodeRef}
    (hidle : t.busy ref = false) : t'.busy ref = false := by
  obtain ⟨k, hk⟩ := h ref
  rcases hn : t.node? ref with _ | n
  · rw [hn, Option.map_none] at hk
    simp [busy, hk]
  · rw [hn, Option.map_some] at hk
    rw [busy_of_node? hn, Option.isSome_eq_false_iff, Option.isNone_iff_eq_none] at hidle
    rw [busy_of_node? hk, session?_of_onlyCloses h hn hk hidle, Option.isSome_none]

/-- A handle that is closed leaves its node idle, whether the close fails or not. -/
theorem busy_close {t : Tree σ ε} {h : Handle} {o : OpenHandle} (ho : t.handle? h = some o) :
    (t.close h).2.busy o.node = false := by
  simp [close, takeHandle, ho, busy_closeNode]

theorem busy_closeStale {t : Tree σ ε} {h : Handle} {o : OpenHandle} (ho : t.handle? h = some o) :
    (t.closeStale h).busy o.node = false := by
  have hclosed := busy_closeNode { t with handles := t.handles.filter (·.handle ≠ h) } o.node o.node
  unfold closeStale takeHandle
  rw [ho]
  dsimp only
  split <;> next hc =>
    rw [hc] at hclosed
    simpa using hclosed

/-- So does each handle of a registration that is removed. -/
theorem busy_unregister {t : Tree σ ε} {h : Handle} {o : OpenHandle} (ho : t.handle? h = some o)
    (hregistered : t.isRegistered o.id = true) : (t.unregister o.id).2.busy o.node = false := by
  have hfold : ∀ (stale : List Handle) (t : Tree σ ε), t.handle? h = some o → h ∈ stale →
      (stale.foldl closeStale t).busy o.node = false := by
    intro stale
    induction stale with
    | nil => exact fun _ _ hmem => absurd hmem List.not_mem_nil
    | cons first stale ih =>
        intro t ho hmem
        by_cases hfirst : first = h
        · -- its turn has come, and the others only close
          subst hfirst
          exact busy_of_onlyCloses (onlyCloses_foldl_closeStale stale _) (busy_closeStale ho)
        · refine ih _ ?_ ((List.mem_cons.mp hmem).resolve_left (Ne.symm hfirst))
          unfold closeStale
          rcases ht : t.takeHandle first with _ | ⟨other, taken⟩
          · exact ho
          · have hends : (taken.closeNode other.node).2.handle? h = _ := handle?_ends ht
            rw [if_neg (Ne.symm hfirst), ho] at hends
            dsimp only
            split <;> next hc => rw [hc] at hends; exact hends
  have hstale : h ∈ t.handlesOf o.id := by
    have hhandle : o.handle = h := by simpa using List.find?_some ho
    rw [← hhandle]
    exact List.mem_map_of_mem
      (List.mem_filter.mpr ⟨List.mem_of_find?_eq_some ho, decide_eq_true rfl⟩)
  unfold unregister
  rw [if_pos hregistered]
  exact hfold _ _ ho hstale

/-! ## What a provider leaves of a read-write node -/

/-- A read-write node that was closed any number of times has at most taken the step of closing. -/
theorem step_of_onlyCloses {t t' : Tree σ ε} {ref : NodeRef} {n : ReadWrite σ}
    (hn : t.node? ref = some (.readWrite n))
    (h : ∃ k, t'.node? ref = (t.node? ref).map Node.closed^[k]) :
    ∃ m, ReadWrite.Step .nothing n m ∧ t'.node? ref = some (.readWrite m) := by
  obtain ⟨k, hk⟩ := h
  rw [hk, hn, Option.map_some]
  rcases Node.iterate_closed (n := (.readWrite n : Node σ ε)) trivial k with hsame | hclosed
  · rw [hsame]
    exact ⟨n, .rest n, rfl⟩
  · rw [hclosed]
    rcases hc : n.close with fault | ⟨session, m⟩
    · refine ⟨n, .rest n, ?_⟩
      simp only [Node.closed, hc]
    · refine ⟨m, .close hc, ?_⟩
      simp only [Node.closed, hc]

theorem step_provide {t : Tree σ ε} {ref : NodeRef} {n : ReadWrite σ}
    (hn : t.node? ref = some (.readWrite n)) (p : Provider σ) :
    ∃ m, ReadWrite.Step .nothing n m ∧ (t.provide p).2.node? ref = some (.readWrite m) :=
  step_of_onlyCloses hn (onlyCloses_provide t p ref)

/-- An announcement is made by a node that has run its provider, and that may have been closed by
it. -/
theorem notify_of_provide {t supplied : Tree σ ε} {ref : NodeRef} {n m : ReadWrite σ}
    {value : Bytes}
    (hn : t.node? ref = some (.readWrite n)) (hp : t.provide n.provider = (.ok value, supplied))
    (hm : supplied.node? ref = some (.readWrite m)) :
    (m.announce? value = none ∧ t.notify ref = (.ok false, supplied)) ∨
    (∃ announced, m.announce? value = some announced ∧ ∃ e, t.notify ref =
      (.ok true, (supplied.setNode ref (.readWrite announced)).report e)) := by
  unfold «notify»
  rw [hn]
  dsimp only
  rw [hp]
  dsimp only
  rw [hm]
  dsimp only
  rcases ha : m.announce? value with _ | announced
  · exact .inl ⟨rfl, rfl⟩
  · exact .inr ⟨announced, rfl, _, rfl⟩

/-! ## Beginning a session -/

/-- A session has begun after a granted open: the node was idle when it was asked, whatever its
provider removed it is so still, and now a session stands on what was supplied. -/
theorem openNode_eq_ok {t t' : Tree σ ε} {ref : NodeRef} {path : String} {access : Access}
    (h : t.openNode ref path access = (.ok (), t')) :
    ∃ n source t₁ content, t.node? ref = some n ∧ n.permit t.publisher path access = .ok source ∧
      t.fetch source = (.ok content, t₁) ∧ t' = t₁.startSession ref path access content := by
  unfold openNode at h
  split at h
  · cases h
  · next n hn =>
    split at h
    · cases h
    · next source hp =>
      split at h
      · cases h
      · next content t₁ hf =>
        cases h
        exact ⟨n, source, t₁, content, hn, hp, hf, rfl⟩

/-- Whatever is removed while the content of a granted open is fetched, the node was idle when it was
asked, and is as it was. -/
theorem node?_fetch_of_permit {t t' : Tree σ ε} {ref : NodeRef} {n : Node σ ε} {path : String}
    {access : Access} {source : Source σ} {content : Bytes} (hb : n.IsBuiltIn)
    (hn : t.node? ref = some n) (hp : n.permit t.publisher path access = .ok source)
    (hf : t.fetch source = (.ok content, t')) : t'.node? ref = some n := by
  have hcloses := onlyCloses_fetch t source
  rw [hf] at hcloses
  exact hcloses.node?_of_idle hb hn (Node.session?_of_permit hp)

/-- When an open of a node fails, at most a provider has been run. -/
theorem openNode_eq_error {t t' : Tree σ ε} {ref : NodeRef} {path : String} {access : Access}
    {fault : Fault} (h : t.openNode ref path access = (.error fault, t')) :
    t' = t ∨ ∃ source, t' = (t.fetch source).2 := by
  unfold openNode at h
  split at h
  · cases h
    exact .inl rfl
  · split at h
    · cases h
      exact .inl rfl
    · next source _ =>
      split at h
      · next hf =>
        cases h
        exact .inr ⟨source, by rw [hf]⟩
      · cases h

/-- What is left of an open that succeeds: a session on the owner's node, and an entry in the table
behind the others. -/
theorem openFile_eq_ok {t t' : Tree σ ε} {path : String} {access : Access} {handle : Handle}
    (h : t.openFile path access = (.ok handle, t')) :
    ∃ canonical r opened, Path.normalize path = .ok canonical ∧ t.owner? canonical = some r ∧
      (t.noteOverlap canonical).openNode r.node canonical access = (.ok (), opened) ∧
      handle = ⟨opened.nextHandle⟩ ∧ t' = (opened.addHandle r canonical).2 := by
  unfold openFile at h
  split at h
  · cases h
  · next canonical hpath =>
    split at h
    · cases h
    · next r howner =>
      split at h
      · cases h
      · next opened ho =>
        rw [addHandle_eq] at h
        dsimp only [confirmOpen] at h
        split at h
        · cases h
          exact ⟨canonical, r, opened, hpath, howner, ho, rfl, rfl⟩
        · cases h

/-- What a node is once a session has been started on it. -/
theorem node?_startSession_self {t : Tree σ ε} {ref : NodeRef} {n : Node σ ε}
    (h : t.node? ref = some n) (path : String) (access : Access) (content : Bytes) :
    (t.startSession ref path access content).node? ref =
      some (n.begin t.publisher path access content) := by
  unfold startSession
  rw [h]
  dsimp only
  split <;> exact node?_setNode_self _ h

theorem node?_startSession_of_ne (t : Tree σ ε) {ref other : NodeRef} (h : other ≠ ref)
    (path : String) (access : Access) (content : Bytes) :
    (t.startSession ref path access content).node? other = t.node? other := by
  unfold startSession
  split
  · rfl
  · dsimp only
    split <;> exact node?_setNode_of_ne _ h

/-- A node that granted an open has a session once that is begun. Only a key store looks at the path
again to begin one, and what it gives to read it gives without running anything. -/
theorem isSome_session?_begin {t t' : Tree σ ε} {n : Node σ ε} (hb : n.IsBuiltIn) {path : String}
    {access : Access} {source : Source σ} {content : Bytes}
    (hp : n.permit t.publisher path access = .ok source)
    (hf : t.fetch source = (.ok content, t')) :
    (n.begin t'.publisher path access content).session?.isSome = true := by
  cases n with
  | readOnly n => rfl
  | readWrite n => rfl
  | keyStore n =>
      obtain ⟨held, hheld, rfl⟩ := map_eq_ok.mp hp
      cases hf
      obtain ⟨⟨key, hkey⟩, -⟩ := KeyStore.permit_eq_ok hheld
      simp [Node.begin, KeyStore.begin, Node.session?, hkey]
  | foreign e removals => exact hb.elim

/-! ## Handles without a session -/

/-- No operation through the handle does anything but fail. -/
structure IsDead (t : Tree σ ε) (h : Handle) : Prop where
  read : ∀ offset size, t.read h offset size = .error .noSession
  write : ∀ offset data, t.write h offset data = (.error .noSession, t)
  longPoll : ∀ offset size, t.longPoll h offset size = (.answered (.error .noSession), t)
  longPollAll : t.longPollAll h = (.answered (.error .noSession), t)
  close : t.close h = (.error .noSession, t)

theorem IsDead.of_handle? {t : Tree σ ε} {h : Handle} (hgone : t.handle? h = none) :
    t.IsDead h where
  read offset size := by
    rw [Tree.read, reader, hgone, Reader.upTo]
    rfl
  write offset data := by rw [Tree.write, hgone]
  longPoll offset size := by rw [Tree.longPoll, hgone]
  longPollAll := by rw [Tree.longPollAll, hgone]
  close := by rw [Tree.close, takeHandle, hgone]

end Tree

end LiveTree
