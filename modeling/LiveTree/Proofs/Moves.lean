import LiveTree.Proofs.Courses
import Mathlib.Data.Option.Basic
import Mathlib.Logic.Relation

/-!
# How nodes move

Whatever is done to a tree, each of its nodes moves by steps of its own (`Node.Step`), and stays
where it is. So a property of single nodes that every step keeps, and that new nodes have, is one
that the nodes of every tree have (`InUse.forall_node`), also if nodes are used past the tree.
-/

namespace LiveTree

open Relation (ReflTransGen)

variable {σ ε : Type} [Foreign ε]

/-- Closing is a step, or nothing. -/
theorem Node.moves_closed (n : Node σ ε) : ReflTransGen Node.Step n n.closed := by
  cases n with
  | readOnly n =>
      rcases h : n.close with fault | ⟨session, m⟩
      · simpa only [closed, h] using .refl
      · simpa only [closed, h] using .single (.readOnly (.close h))
  | readWrite n =>
      rcases h : n.close with fault | ⟨session, m⟩
      · simpa only [closed, h] using .refl
      · simpa only [closed, h] using .single (.readWrite (.close h))
  | keyStore n =>
      rcases h : n.close with fault | ⟨session, m⟩
      · simpa only [closed, h] using .refl
      · simpa only [closed, h] using .single (.keyStore (.close h))
  | foreign e removals => exact .single (.foreign e _ removals)

theorem Node.moves_iterate_closed (n : Node σ ε) (k : Nat) :
    ReflTransGen Node.Step n (closed^[k] n) := by
  induction k with
  | zero => exact .refl
  | succ k ih =>
      rw [Function.iterate_succ_apply']
      exact ih.trans (moves_closed _)

namespace Tree

variable {t t' : Tree σ ε}

/-- Each node of `t'` is one of `t` in the same place, after any number of steps. -/
def Moves (t t' : Tree σ ε) : Prop :=
  ∀ ref, Option.Rel (ReflTransGen Node.Step) (t.node? ref) (t'.node? ref)

omit [Foreign ε] in
theorem Moves.of_nodes (h : t'.nodes = t.nodes) : Moves t t' := by
  intro ref
  rw [node?, node?, h]
  rcases t.nodes[ref.index]? with _ | n
  · exact .none
  · exact .some .refl

omit [Foreign ε] in
theorem Moves.refl (t : Tree σ ε) : Moves t t := .of_nodes rfl

omit [Foreign ε] in
theorem Moves.trans {t u v : Tree σ ε} (h : Moves t u) (h' : Moves u v) : Moves t v := by
  intro ref
  have h := h ref
  have h' := h' ref
  revert h h'
  rcases t.node? ref with _ | n <;> rcases u.node? ref with _ | m <;>
    rcases v.node? ref with _ | l <;> rintro (hs | _) (hs' | _)
  · exact .none
  · exact .some (hs.trans hs')

omit [Foreign ε] in
/-- A node that takes steps is put in its place. -/
theorem Moves.setNode {ref : NodeRef} {n m : Node σ ε} (hn : t.node? ref = some n)
    (h : ReflTransGen Node.Step n m) : Moves t (t.setNode ref m) := by
  intro other
  by_cases he : other = ref
  · subst he
    rw [node?_setNode_self m hn, hn]
    exact .some h
  · rw [node?_setNode_of_ne m he]
    exact Moves.refl t other

theorem Moves.of_onlyCloses (h : OnlyCloses t t') : Moves t t' := by
  intro ref
  obtain ⟨k, hk⟩ := h ref
  rw [hk]
  rcases t.node? ref with _ | n
  · exact .none
  · exact .some (n.moves_iterate_closed k)

/-! ## Strokes -/

/-- A session that begins is a step of its node, which was idle. -/
theorem moves_startSession {ref : NodeRef} {n : Node σ ε} (hn : t.node? ref = some n)
    (hidle : n.session? = none) (path : String) (access : Access) (content : Bytes) :
    Moves t (t.startSession ref path access content) := by
  have hput := Moves.setNode hn (.single (Node.step_begin hidle t.publisher path access content))
  unfold startSession
  rw [hn]
  dsimp only
  split
  · exact hput
  · exact hput.trans (.of_nodes rfl)

/-- A write that succeeds on a read-write node is one of its session. -/
theorem writeNode_eq_ok {ref : NodeRef} {n : ReadWrite σ} {offset count : Nat} {data : Bytes}
    (hn : t.node? ref = some (.readWrite n)) (h : t.writeNode ref offset data = (.ok count, t')) :
    ∃ m, n.write offset data = .ok m ∧ t' = t.setNode ref (.readWrite m) := by
  rcases hw : n.write offset data with fault | m
  · simp [writeNode, hn, hw] at h
  · simp only [writeNode, hn, hw] at h
    cases h
    exact ⟨m, rfl, rfl⟩

/-- A resize that succeeds while a session writes is one of the session's buffer. -/
theorem resizeOn_eq_ok {ref : NodeRef} {n : ReadWrite σ} {path : String} {size : Nat}
    (hn : t.node? ref = some (.readWrite n)) (hw : n.writer?.isSome = true)
    (h : t.resizeOn ref path size = (.ok (), t')) :
    ∃ m, n.resize t.publisher path size = .ok (m, none) ∧ t' = t.setNode ref (.readWrite m) := by
  rcases hr : n.resize t.publisher path size with fault | ⟨m, content⟩
  · simp [resizeOn, hn, hr] at h
  · rcases ReadWrite.resize_cases hr with ⟨-, rfl⟩ | ⟨hnone, -⟩
    · simp only [resizeOn, hn, hr] at h
      cases h
      exact ⟨m, rfl, rfl⟩
    · rw [hnone] at hw
      cases hw

/-- A truncation to nothing while no session writes goes to the sink, and does nothing else. -/
theorem resizeOn_of_clear {ref : NodeRef} {n : ReadWrite σ} {path : String}
    (hn : t.node? ref = some (.readWrite n)) (hw : n.writer? = none)
    (hfile : n.location.matchesFile t.publisher path = true) :
    (t.resizeOn ref path 0).2 = { t with publisher := (n.sink #[] t.publisher).2 } := by
  have hresize : n.resize t.publisher path 0 = .ok (n, some #[]) := by
    simp [ReadWrite.resize, Location.check_eq_ok.mpr hfile, hw]
  simp only [resizeOn, hn, hresize]
  rcases n.sink #[] t.publisher with ⟨failure | ⟨⟩, s⟩ <;> rfl

/-- Every stroke moves the node that it is on, and no other. -/
theorem Stroke.moves {quiet : (σ → σ) → Prop} {free : NodeRef → Prop} {trace : Trace}
    (h : Stroke quiet free trace t t') : Moves t t' := by
  cases h with
  | rests nodes publisher => exact .of_nodes nodes
  | publishes h => exact .of_nodes rfl
  | supplies hn hp infos => exact .of_nodes rfl
  | begins hn idle hfree path access content => exact moves_startSession hn idle path access content
  | writes hn h =>
      obtain ⟨m, hw, rfl⟩ := writeNode_eq_ok hn h
      exact .setNode hn (.single (.readWrite (.write hw)))
  | cuts hn hw h =>
      obtain ⟨m, hr, rfl⟩ := resizeOn_eq_ok hn hw h
      exact .setNode hn (.single (.readWrite (.resize hr)))
  | clears hn hw hfile =>
      rw [resizeOn_of_clear hn hw hfile]
      exact .of_nodes rfl
  | closes busy => exact .of_onlyCloses (onlyCloses_closeNode t _)
  | announces hn h => exact .setNode hn (.single (.readWrite (.announce h)))
  | wakes hn h => exact .setNode hn (.single (.readWrite (.wake h)))
  | keys hn h same => exact .setNode hn (.single (.keyStore h))
  | foreign hn e' => exact .setNode hn (.single (.foreign _ e' _))

theorem Strokes.moves {quiet : (σ → σ) → Prop} {free : NodeRef → Prop} {trace : Trace}
    (h : Strokes quiet free trace t t') : Moves t t' := by
  induction h with
  | none t => exact .refl t
  | more _ hlast ih => exact ih.trans hlast.moves

/-! ## Whole runs -/

theorem moves_perform (t : Tree σ ε) (a : Action σ) : Moves t (t.perform a) := by
  obtain ⟨trace, hstrokes, -⟩ :=
    course_perform t a (.of_all (fun _ => trivial) a) (fun _ _ => trivial)
  exact hstrokes.moves

/-- What is done to a node past the tree leaves the books as they were, removals apart. -/
theorem proceeds_use (t : Tree σ ε) (u : Use σ) : Proceeds t (t.use u) := by
  cases u with
  | through a => exact proceeds_perform t a
  | opens ref path access => exact proceeds_openNode t ref path access
  | reads ref offset size => exact .refl t
  | writes ref offset data => exact .of_books (books_writeNode t ref offset data)
  | resizes ref path size => exact .of_books (books_resizeOn t ref path size)
  | sizes ref path => exact proceeds_sizeOn t ref path
  | polls ref goal => exact .of_books (books_poll t ref goal)
  | closes ref => exact .of_books (books_closeNode t ref)

/-- The trees that come out of an empty one when nodes are used directly as well: whoever made a
node may open, write and close it past the tree. What providers and sinks do meanwhile to the
publisher's state is an action of its own. -/
inductive InUse : Tree σ ε → Prop where
  | empty (settings : TreeSettings) (publisher : σ) : InUse { settings, publisher }
  | addNode {t : Tree σ ε} (n : Node σ ε) : InUse t → n.IsNew → InUse (t.addNode n).2
  | perform {t : Tree σ ε} (a : Action σ) : InUse t → InUse (t.perform a)
  | direct {t : Tree σ ε} {ref : NodeRef} {n m : Node σ ε} :
      InUse t → t.node? ref = some n → Node.Step n m → InUse (t.setNode ref m)

theorem Reachable.inUse (h : Reachable t) : InUse t := by
  induction h with
  | empty settings publisher => exact .empty settings publisher
  | addNode n _ hn ih => exact .addNode n ih hn
  | perform a _ ih => exact .perform a ih

omit [Foreign ε] in
/-- Where every node was, and moved, every step's property still holds. -/
theorem Moves.forall_node {P : Node σ ε → Prop} (hstep : ∀ n m, P n → Node.Step n m → P m)
    (h : Moves t t') (ht : ∀ ref n, t.node? ref = some n → P n) :
    ∀ ref n, t'.node? ref = some n → P n := by
  intro ref m hm
  have hrel := h ref
  rw [hm] at hrel
  rcases hn : t.node? ref with _ | n
  · rw [hn] at hrel
    cases hrel
  · rw [hn] at hrel
    rcases hrel with hmoves | _
    -- the induction is on the steps that the node took, from where it was
    clear hm
    induction hmoves with
    | refl => exact ht ref n hn
    | tail _ hs ih => exact hstep _ _ ih hs

/-- What every step of a node keeps, and every new node has, holds of the nodes of every tree. -/
theorem InUse.forall_node {P : Node σ ε → Prop} (hnew : ∀ n, n.IsNew → P n)
    (hstep : ∀ n m, P n → Node.Step n m → P m) (h : InUse t) :
    ∀ ref n, t.node? ref = some n → P n := by
  induction h with
  | empty settings publisher =>
      intro ref n hn
      simp [node?] at hn
  | @addNode t new _ hn ih =>
      intro ref n hget
      rw [node?_addNode] at hget
      split at hget
      · cases hget
        exact hnew _ hn
      · exact ih ref n hget
  | @perform t a _ ih => exact (moves_perform t a).forall_node hstep ih
  | direct _ hn hs ih => exact (Moves.setNode hn (.single hs)).forall_node hstep ih

theorem Reachable.forall_node {P : Node σ ε → Prop} (hnew : ∀ n, n.IsNew → P n)
    (hstep : ∀ n m, P n → Node.Step n m → P m) (h : Reachable t) :
    ∀ ref n, t.node? ref = some n → P n :=
  h.inUse.forall_node hnew hstep

/-- The numbers of all open handles have been given, and will not be given again. -/
theorem InUse.numbered (h : InUse t) : t.Numbered := by
  induction h with
  | empty settings publisher => nofun
  | addNode n _ _ ih => exact ih
  | @perform t a _ ih => exact (proceeds_perform t a).numbered ih
  | direct _ _ _ ih => exact ih

end Tree

end LiveTree
