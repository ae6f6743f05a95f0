import LiveTree.Proofs.Runs
import LiveTree.Proofs.Sessions

/-!
# Strokes

Whatever is done to a tree, or to one of its nodes past the tree, comes down to *strokes*: the least
that happens to one node, each with a `Mark` that says what it is. What every stroke keeps is kept
by all that is done.

A stroke that begins a session is on a node that is `free`. With the nodes that were idle when
something was begun, this says that no session has begun on a node that was busy before it, whatever
removals have closed meanwhile. And what the publisher itself does to its state is `quiet`, so that
its calls can be told apart from what the tree has called.

What removals close, the publisher decides when it is asked for them. So the marks of what is done
are known beforehand up to the ends of sessions only: these are its `Trace.deeds`. A removal does
nothing else (`closings_unregister`).
-/

namespace LiveTree

variable {σ ε : Type}

/-- What happens to a node. -/
inductive Mark where
  /-- Its provider is run. -/
  | supplied
  | opened (access : Access)
  /-- A write into the pending buffer of the session has succeeded. -/
  | wrote (offset : Nat) (data : Bytes)
  /-- The pending buffer of the session has been cut. -/
  | cut (size : Nat)
  /-- The file is truncated to nothing, and no session writes it. -/
  | cleared
  /-- The session ends. -/
  | closed
  | announced (value : Bytes)
  /-- The session sees the announced value. -/
  | caughtUp
deriving DecidableEq

/-- What has happened, each with the node that it happened to. -/
abbrev Trace := List (NodeRef × Mark)

/-- The node whose provider was run. -/
def Mark.supplier? : NodeRef × Mark → Option NodeRef
  | (ref, .supplied) => some ref
  | _ => none

/-- The nodes whose providers were run, in order. -/
def Trace.runs (trace : Trace) : List NodeRef := trace.filterMap Mark.supplier?

@[simp] theorem Trace.runs_nil : Trace.runs [] = [] := rfl

theorem Trace.runs_append (trace later : Trace) :
    Trace.runs (trace ++ later) = trace.runs ++ later.runs :=
  List.filterMap_append

/-- What has happened, but for the ends of sessions. -/
def Trace.deeds (trace : Trace) : Trace := trace.filter fun e => e.2 ≠ .closed

theorem Trace.deeds_append (trace later : Trace) :
    Trace.deeds (trace ++ later) = trace.deeds ++ later.deeds :=
  List.filter_append ..

/-- No provider runs at the end of a session. -/
theorem Trace.runs_deeds (trace : Trace) : trace.deeds.runs = trace.runs := by
  unfold runs deeds
  rw [List.filterMap_filter]
  congr 1
  funext ⟨ref, mark⟩
  cases mark <;> rfl

/-- What the session reads, and what it may do. -/
def Session.view (s : Session) : Bytes × Access := (s.snapshot, s.access)

namespace Node

/-- The provider of the node. -/
def provider? : Node σ ε → Option (Provider σ)
  | .readOnly n => some n.provider
  | .readWrite n => some n.provider
  | _ => none

/-- What the node's session reads, and what it may do. -/
def view? (n : Node σ ε) : Option (Bytes × Access) := n.session?.map Session.view

theorem provider?_closed [Foreign ε] (n : Node σ ε) : n.closed.provider? = n.provider? := by
  cases n with
  | readOnly n =>
      rcases hs : n.session with _ | session <;> simp [closed, ReadOnly.close, hs, provider?]
  | readWrite n =>
      rcases hs : n.session with _ | session <;> simp [closed, ReadWrite.close, hs, provider?]
  | keyStore n =>
      rcases hs : n.session with _ | session <;> simp [closed, KeyStore.close, hs, provider?]
  | foreign e removals => rfl

end Node

/-- What the publisher itself does to its state is quiet. -/
def Action.Quiet (quiet : (σ → σ) → Prop) : Action σ → Prop
  | .publish f => quiet f
  | _ => True

theorem Action.Quiet.of_all {quiet : (σ → σ) → Prop} (h : ∀ f, quiet f) (a : Action σ) :
    a.Quiet quiet := by
  cases a with
  | publish f => exact h f
  | _ => trivial

namespace Tree

variable [Foreign ε]

/-! ## Strokes -/

/-- The least that happens to a tree, with what it means for a node. -/
inductive Stroke (quiet : (σ → σ) → Prop) (free : NodeRef → Prop) :
    Trace → Tree σ ε → Tree σ ε → Prop where
  /-- Neither a node nor the publisher is touched. -/
  | rests {t t' : Tree σ ε} (nodes : t'.nodes = t.nodes) (publisher : t'.publisher = t.publisher) :
      Stroke quiet free [] t t'
  | publishes {t : Tree σ ε} {f : σ → σ} (h : quiet f) :
      Stroke quiet free [] t { t with publisher := f t.publisher }
  | supplies {t : Tree σ ε} {ref : NodeRef} {n : Node σ ε} {p : Provider σ}
      (hn : t.node? ref = some n) (hp : n.provider? = some p) (infos : List NodeInfo) :
      Stroke quiet free [(ref, .supplied)] t { t with publisher := (p.supply infos t.publisher).2 }
  | begins {t : Tree σ ε} {ref : NodeRef} {n : Node σ ε} (hn : t.node? ref = some n)
      (idle : n.session? = none) (hfree : free ref) (path : String) (access : Access)
      (content : Bytes) :
      Stroke quiet free [(ref, .opened access)] t (t.startSession ref path access content)
  | writes {t t' : Tree σ ε} {ref : NodeRef} {n : ReadWrite σ} {offset count : Nat} {data : Bytes}
      (hn : t.node? ref = some (.readWrite n))
      (h : t.writeNode ref offset data = (.ok count, t')) :
      Stroke quiet free [(ref, .wrote offset data)] t t'
  | cuts {t t' : Tree σ ε} {ref : NodeRef} {n : ReadWrite σ} {path : String} {size : Nat}
      (hn : t.node? ref = some (.readWrite n)) (hw : n.writer?.isSome = true)
      (h : t.resizeOn ref path size = (.ok (), t')) :
      Stroke quiet free [(ref, .cut size)] t t'
  | clears {t : Tree σ ε} {ref : NodeRef} {n : ReadWrite σ} {path : String}
      (hn : t.node? ref = some (.readWrite n)) (hw : n.writer? = none)
      (hfile : n.location.matchesFile t.publisher path = true) :
      Stroke quiet free [(ref, .cleared)] t (t.resizeOn ref path 0).2
  | closes {t : Tree σ ε} {ref : NodeRef} (busy : t.busy ref = true) :
      Stroke quiet free [(ref, .closed)] t (t.closeNode ref).2
  | announces {t : Tree σ ε} {ref : NodeRef} {n m : ReadWrite σ} {value : Bytes}
      (hn : t.node? ref = some (.readWrite n)) (h : n.announce? value = some m) :
      Stroke quiet free [(ref, .announced value)] t (t.setNode ref (.readWrite m))
  | wakes {t : Tree σ ε} {ref : NodeRef} {n m : ReadWrite σ} {ticket : Ticket}
      (hn : t.node? ref = some (.readWrite n)) (h : n.wake? ticket = some (.ok m)) :
      Stroke quiet free [(ref, .caughtUp)] t (t.setNode ref (.readWrite m))
  /-- Something is done to a key store, which leaves its session what it reads. -/
  | keys {t : Tree σ ε} {ref : NodeRef} {n m : KeyStore σ} (hn : t.node? ref = some (.keyStore n))
      (h : n.Step m)
      (same : (Node.keyStore m : Node σ ε).view? = (Node.keyStore n : Node σ ε).view?) :
      Stroke quiet free [] t (t.setNode ref (.keyStore m))
  | foreign {t : Tree σ ε} {ref : NodeRef} {e : ε} {removals : σ → List NodeId}
      (hn : t.node? ref = some (.foreign e removals)) (e' : ε) :
      Stroke quiet free [] t (t.setNode ref (.foreign e' removals))

/-- Any number of strokes. -/
inductive Strokes (quiet : (σ → σ) → Prop) (free : NodeRef → Prop) :
    Trace → Tree σ ε → Tree σ ε → Prop where
  | none (t : Tree σ ε) : Strokes quiet free [] t t
  | more {trace later : Trace} {t u v : Tree σ ε} : Strokes quiet free trace t u →
      Stroke quiet free later u v → Strokes quiet free (trace ++ later) t v

variable {quiet : (σ → σ) → Prop} {free : NodeRef → Prop} {trace later : Trace}
  {t t' u v : Tree σ ε}

theorem Stroke.strokes (h : Stroke quiet free trace t t') : Strokes quiet free trace t t' :=
  .more (.none t) h

theorem Strokes.trans (h : Strokes quiet free trace t u) (h' : Strokes quiet free later u v) :
    Strokes quiet free (trace ++ later) t v := by
  induction h' with
  | none => rwa [List.append_nil]
  | more _ hlast ih =>
      rw [← List.append_assoc]
      exact .more (ih h) hlast

/-! ## Removals -/

/-- Strokes that do nothing but close. -/
def Closings (quiet : (σ → σ) → Prop) (free : NodeRef → Prop) (t t' : Tree σ ε) : Prop :=
  ∃ trace, Strokes quiet free trace t t' ∧ ∀ e ∈ trace, e.2 = .closed

theorem Closings.rests (nodes : t'.nodes = t.nodes) (publisher : t'.publisher = t.publisher) :
    Closings quiet free t t' :=
  ⟨[], (Stroke.rests nodes publisher).strokes, List.forall_mem_nil _⟩

theorem Closings.trans (h : Closings quiet free t u) (h' : Closings quiet free u v) :
    Closings quiet free t v := by
  obtain ⟨trace, hstrokes, hclosed⟩ := h
  obtain ⟨later, hstrokes', hclosed'⟩ := h'
  refine ⟨trace ++ later, hstrokes.trans hstrokes', ?_⟩
  intro e he
  exact (List.mem_append.mp he).elim (hclosed e) (hclosed' e)

/-- Closing a built-in node that has no session does nothing to the tree. -/
theorem closeNode_of_idle {ref : NodeRef} {n : Node σ ε} (hb : n.IsBuiltIn)
    (hn : t.node? ref = some n) (hidle : n.session? = none) : (t.closeNode ref).2 = t := by
  unfold closeNode
  rw [hn]
  cases n with
  | readOnly n =>
      have hs : n.session = none := hidle
      simp [ReadOnly.close, hs]
  | readWrite n =>
      have hs : n.session = none := by simpa [Node.session?] using hidle
      simp [ReadWrite.close, hs]
  | keyStore n =>
      have hs : n.session = none := by simpa [Node.session?] using hidle
      simp [KeyStore.close, hs]
  | foreign e removals => exact hb.elim

theorem closings_closeNode (t : Tree σ ε) (ref : NodeRef) :
    Closings quiet free t (t.closeNode ref).2 := by
  by_cases hbusy : t.busy ref = true
  · refine ⟨_, (Stroke.closes hbusy).strokes, ?_⟩
    simp
  · rcases hn : t.node? ref with _ | n
    · have hsame : (t.closeNode ref).2 = t := by simp [closeNode, hn]
      rw [hsame]
      exact .rests rfl rfl
    · have hidle : n.session? = none := by simpa [busy_of_node? hn] using hbusy
      cases n with
      | foreign e removals =>
          have hclose : (t.closeNode ref).2 =
              t.setNode ref (.foreign (Foreign.close e).2 removals) := by simp [closeNode, hn]
          rw [hclose]
          exact ⟨[], (Stroke.foreign hn _).strokes, List.forall_mem_nil _⟩
      | _ =>
          rw [closeNode_of_idle (by trivial) hn hidle]
          exact .rests rfl rfl

/-- A handle is taken, and the session of its node ends. -/
theorem closings_taken {h : Handle} {o : OpenHandle} {taken : Tree σ ε}
    (ht : t.takeHandle h = some (o, taken)) : Closings quiet free t (taken.closeNode o.node).2 := by
  have htaken : Closings quiet free t taken := by
    obtain ⟨-, -, rfl⟩ := takeHandle_eq_some ht
    exact .rests rfl rfl
  exact htaken.trans (closings_closeNode taken o.node)

/-- And a failure of that is reported. -/
theorem closings_reporting {h : Handle} {o : OpenHandle} {taken : Tree σ ε}
    (ht : t.takeHandle h = some (o, taken)) (failed : Fault → Event) :
    Closings quiet free t (match taken.closeNode o.node with
      | (.ok (), t) => t
      | (.error fault, t) => t.report (failed fault)) := by
  have hclose : Closings quiet free t (taken.closeNode o.node).2 := closings_taken ht
  split
  · next hc =>
    rw [hc] at hclose
    exact hclose
  · next hc =>
    rw [hc] at hclose
    exact hclose.trans (.rests rfl rfl)

theorem closings_close (t : Tree σ ε) (h : Handle) : Closings quiet free t (t.close h).2 := by
  unfold close
  split
  · exact .rests rfl rfl
  · next ht => exact closings_taken ht

theorem closings_closeStale (t : Tree σ ε) (h : Handle) :
    Closings quiet free t (t.closeStale h) := by
  unfold closeStale
  split
  · exact .rests rfl rfl
  · next ht =>
    exact closings_reporting ht _

/-- A removal closes the handles of its registration, and nothing else happens to a node. -/
theorem closings_unregister (t : Tree σ ε) (id : NodeId) :
    Closings quiet free t (t.unregister id).2 := by
  have hfold : ∀ (stale : List Handle) (t : Tree σ ε),
      Closings quiet free t (stale.foldl closeStale t) := by
    intro stale
    induction stale with
    | nil => exact fun t => .rests rfl rfl
    | cons h stale ih => exact fun t => (closings_closeStale t h).trans (ih _)
  unfold unregister
  split
  · have hdropped : Closings quiet free t (t.dropRegistration id) := .rests rfl rfl
    exact hdropped.trans ((hfold _ _).trans (.rests rfl rfl))
  · exact .rests rfl rfl

theorem closings_afterRemovals (t : Tree σ ε) (p : Provider σ) :
    Closings quiet free t (t.afterRemovals p) := by
  refine afterRemovals_induction ?_ (.rests rfl rfl) p
  intro t' id h
  exact h.trans (closings_unregister t' id)

theorem closings_undoOpen (t : Tree σ ε) (o : OpenHandle) :
    Closings quiet free t (t.undoOpen o) := by
  unfold undoOpen
  split
  · exact .rests rfl rfl
  · next ht =>
    exact closings_reporting ht _

theorem closings_confirmOpen (t : Tree σ ε) (o : OpenHandle) :
    Closings quiet free t (t.confirmOpen o).2 := by
  unfold confirmOpen
  split
  · exact .rests rfl rfl
  · exact (closings_undoOpen t o).trans (.rests rfl rfl)

end Tree

end LiveTree
