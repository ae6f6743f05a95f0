import LiveTree.Connection
import LiveTree.Proofs.Balance
import LiveTree.Proofs.Occupancy
import Mathlib

/-!
# Watches beside each other

Any number of connections to one tree, without an order among them. A request other than `watch` is
one step. A watch takes several: the open, the beginning of the poll, its end, and the reply, which
comes when the handle is closed. Between any two of them the client may send a line or hang up, other
connections may have their steps, and the publisher may do anything to the tree. Only the opening and
the closing of handles is left to the server. A poll that is still under way when its watch has been
cancelled is one of others: they may look at any poll at any time.

A watch knows the entry that it was given. What a turn can do to the table and the watches is said
once, by `Effect`: it sheds, it opens a handle for a watch, or it closes the handle of one
(`leads_turn`). From this it follows that the table and the pending watches stay *assigned* to each
other (`Run.balanced`), and that no handle is given twice (`Run.advances`). So a watch that is over
has left nothing behind (`watches_hold_handles`).
-/

namespace LiveTree

/-- How far a watch has come. -/
inductive Watch.Progress where
  | opened
  | polling (poll : Poll)
  /-- The poll is over, and the reply is not written yet. -/
  | answered

/-- A watch that was given a handle. -/
structure Watch where
  handle : Handle
  /-- What stood in the table for the handle when it was given. -/
  entry : Option OpenHandle
  progress : Watch.Progress := .opened

/-- What a connection is at, seen between the steps of a watch. -/
inductive Stage where
  /-- Waiting for a request. -/
  | idle
  | watching (w : Watch)
  | ended

/-- A tree and the connections to it, by their numbers. -/
structure Traffic (σ : Type) where
  tree : Tree σ Empty
  stage : Nat → Stage := fun _ => .idle

namespace Traffic

variable {σ : Type}

/-! ## Steps -/

/-- The traffic with another tree, and one connection at another stage. -/
def step (s : Traffic σ) (id : Nat) (stage : Stage) (t : Tree σ Empty) : Traffic σ :=
  ⟨t, Function.update s.stage id stage⟩

/-- Opens the file of a watch. -/
def openWatch (s : Traffic σ) (id : Nat) (path : String) : Traffic σ :=
  match s.tree.openFile path .reading with
  | (.error _, t) => s.step id .idle t
  | (.ok h, t) => s.step id (.watching ⟨h, t.handle? h, .opened⟩) t

/-- Closes the handle of a watch that is over. -/
def closeWatch (s : Traffic σ) (id : Nat) (w : Watch) (stage : Stage) : Traffic σ :=
  s.step id stage (Connection.closeQuietly s.tree w.handle)

/-- Serves a line; of a watch only the open is done. -/
def request (s : Traffic σ) (id : Nat) (line : Bytes) : Traffic σ :=
  match Text.Utf8.decode line with
  | .error _ => s.step id .ended s.tree
  | .ok text =>
    match Request.parse text with
    | .error _ => s
    | .ok .quit => s.step id .ended s.tree
    | .ok (.watch path) => s.openWatch id path
    | .ok request => s.step id .idle (Connection.execute s.tree request).2

/-- Takes a line of a client. During a watch it cancels the watch, whatever it says. -/
def receive (s : Traffic σ) (id : Nat) (line : Bytes) : Traffic σ :=
  match s.stage id with
  | .idle => s.request id line
  | .watching w =>
    match Text.Utf8.decode line with
    | .error _ => s.closeWatch id w .ended
    | .ok _ => s.closeWatch id w .idle
  | .ended => s

/-- Goes on with a watch: begins its poll, looks whether the poll has an answer, or ends the watch
with its reply. -/
def goOn (s : Traffic σ) (id : Nat) : Traffic σ :=
  match s.stage id with
  | .watching ⟨h, entry, .opened⟩ =>
    match s.tree.longPollAll h with
    | (.answered _, t) => s.step id (.watching ⟨h, entry, .answered⟩) t
    | (.waiting poll, t) => s.step id (.watching ⟨h, entry, .polling poll⟩) t
  | .watching ⟨h, entry, .polling poll⟩ =>
    match s.tree.finish? poll with
    | none => s
    | some (_, t) => s.step id (.watching ⟨h, entry, .answered⟩) t
  | .watching ⟨h, entry, .answered⟩ => s.closeWatch id ⟨h, entry, .answered⟩ .idle
  | _ => s

/-- Takes the end of a client's input. -/
def hangUp (s : Traffic σ) (id : Nat) : Traffic σ :=
  match s.stage id with
  | .watching w => s.closeWatch id w .ended
  | _ => s.step id .ended s.tree

/-- Who is next, and with what. -/
inductive Turn (σ : Type) where
  | line (id : Nat) (line : Bytes)
  /-- The server goes on with the watch of a connection. -/
  | watch (id : Nat)
  | hangUp (id : Nat)
  | others (a : Action σ)
  | newNode (n : Node σ Empty)

/-- The traffic after a turn. -/
def turn (s : Traffic σ) : Turn σ → Traffic σ
  | .line id line => s.receive id line
  | .watch id => s.goOn id
  | .hangUp id => s.hangUp id
  | .others a => { s with tree := s.tree.perform a }
  | .newNode n => { s with tree := (s.tree.addNode n).2 }

/-- Others open no handles and close none. -/
def Turn.Allowed : Turn σ → Prop
  | .others a => ¬ Tree.IsHandled a
  | .newNode n => n.IsNew
  | _ => True

/-- What the traffic may come to. -/
inductive Run (start : Traffic σ) : Traffic σ → Prop where
  | start : Run start start
  | turn {s : Traffic σ} (next : Turn σ) : Run start s → next.Allowed → Run start (s.turn next)

/-- No connection has begun anything, and nobody else has a handle. -/
structure IsStart (s : Traffic σ) : Prop where
  reachable : s.tree.Reachable
  noHandles : s.tree.handles = []
  idle : ∀ id, s.stage id = .idle

theorem Run.trans {s u v : Traffic σ} (h : Run s u) (h' : Run u v) : Run s v := by
  induction h' with
  | start => exact h
  | turn next _ hallowed ih => exact .turn next ih hallowed

/-! ## Pending watches -/

end Traffic

/-- The entry of a watch that is pending. -/
def Stage.held? : Stage → Option OpenHandle
  | .watching w => w.entry
  | _ => none

/-- A watch has the entry of its handle. -/
def Stage.Named : Stage → Prop
  | .watching w => ∃ o, w.entry = some o ∧ o.handle = w.handle
  | _ => True

namespace Traffic

variable {s : Traffic σ} {id : Nat} {stage : Stage} {t : Tree σ Empty}

/-- The entries of the watches that are pending. -/
def held? (s : Traffic σ) (id : Nat) : Option OpenHandle := (s.stage id).held?

@[simp] theorem held?_step (s : Traffic σ) (id : Nat) (stage : Stage) (t : Tree σ Empty) :
    (s.step id stage t).held? = Function.update s.held? id stage.held? := by
  funext other
  show (Function.update s.stage id stage other).held? = _
  rw [Function.update_apply, Function.update_apply]
  split <;> rfl

theorem held?_eq (s : Traffic σ) {id : Nat} {stage : Stage} (h : s.stage id = stage) :
    s.held? id = stage.held? := by
  show (s.stage id).held? = stage.held?
  rw [h]

/-- A request that is served at once is one action, which leaves nobody with a handle. -/
theorem execute_eq_perform (t : Tree σ Empty) (r : Request) :
    ∃ a, ¬ Tree.IsHandled a ∧ (Connection.execute t r).2 = t.perform a := by
  cases r with
  | list path => exact ⟨.list path, not_false, rfl⟩
  | stat path => exact ⟨.stat path, not_false, rfl⟩
  | cat path => exact ⟨.readAll path, not_false, rfl⟩
  | put path data => exact ⟨.writeAll path data, not_false, rfl⟩
  | truncate path size => exact ⟨.truncate path size, not_false, rfl⟩
  | watch path => exact ⟨.list path, not_false, rfl⟩
  | quit => exact ⟨.list "/", not_false, rfl⟩

/-- The tree can be reached, and every watch has the entry of its handle. -/
structure Proper (s : Traffic σ) : Prop where
  reachable : s.tree.Reachable
  named : ∀ id, (s.stage id).Named

/-- All that a turn can do to the table and the watches. -/
inductive Effect (s s' : Traffic σ) : Prop where
  | sheds (tree : Tree.Sheds s.tree s'.tree) (held : s'.held? = s.held?)
  | opens {id : Nat} {o : OpenHandle} (free : s.held? id = none) (tree : Tree.Opens s.tree s'.tree o)
      (held : s'.held? = Function.update s.held? id (some o))
  | closes {id : Nat} {o : OpenHandle} (own : s.held? id = some o)
      (tree : s'.tree = (s.tree.close o.handle).2)
      (held : s'.held? = Function.update s.held? id none)

/-- What a turn leads to. -/
structure Leads (s s' : Traffic σ) : Prop where
  proper : s'.Proper
  effect : Effect s s'

namespace Proper

theorem tidy (h : s.Proper) : s.tree.Tidy :=
  ⟨h.reachable.matched.numbered, h.reachable.matched.distinct⟩

/-- The watch of a connection has an entry, which is the one of its handle. -/
theorem exists_held (h : s.Proper) {w : Watch} (hw : s.stage id = .watching w) :
    ∃ o, w.entry = some o ∧ o.handle = w.handle ∧ s.held? id = some o := by
  have hnamed := h.named id
  rw [hw] at hnamed
  obtain ⟨o, hentry, hhandle⟩ := hnamed
  exact ⟨o, hentry, hhandle, (s.held?_eq hw).trans hentry⟩

/-- Who holds an entry has a watch. -/
theorem exists_watch (h : s.Proper) {o : OpenHandle} (ho : s.held? id = some o) :
    ∃ w, s.stage id = .watching w ∧ w.handle = o.handle := by
  rcases hstage : s.stage id with _ | w | _
  · rw [s.held?_eq hstage] at ho
    cases ho
  · obtain ⟨o', -, hhandle, ho'⟩ := h.exists_held hstage
    rw [ho] at ho'
    cases ho'
    exact ⟨w, rfl, hhandle.symm⟩
  · rw [s.held?_eq hstage] at ho
    cases ho

theorem step (h : s.Proper) (hreach : t.Reachable) (hnamed : stage.Named) :
    (s.step id stage t).Proper := by
  refine ⟨hreach, ?_⟩
  intro other
  show (Function.update s.stage id stage other).Named
  rw [Function.update_apply]
  split
  · exact hnamed
  · exact h.named other

/-! ## One turn -/

/-- A step of a connection by which it is given no handle and ends no watch. -/
theorem step_perform (h : s.Proper) {a : Action σ} (ha : ¬ Tree.IsHandled a)
    (hnamed : stage.Named) (hheld : stage.held? = s.held? id) :
    Leads s (s.step id stage (s.tree.perform a)) := by
  refine ⟨h.step (h.reachable.perform a) hnamed, .sheds (Tree.sheds_perform h.tidy ha) ?_⟩
  rw [held?_step, hheld, Function.update_eq_self]

/-- A step of a connection that leaves the tree alone. -/
theorem step_tree (h : s.Proper) (hnamed : stage.Named) (hheld : stage.held? = s.held? id) :
    Leads s (s.step id stage s.tree) :=
  h.step_perform (a := .list "/") not_false hnamed hheld

theorem stay (h : s.Proper) : Leads s s := ⟨h, .sheds (.refl s.tree) rfl⟩

/-- Opening leaves nothing, or gives the watch its entry. -/
theorem openWatch (h : s.Proper) (hidle : s.stage id = .idle) (path : String) :
    Leads s (s.openWatch id path) := by
  have hreach : (s.tree.openFile path .reading).2.Reachable :=
    h.reachable.perform (.openFile path .reading)
  have hfree : s.held? id = none := s.held?_eq hidle
  unfold Traffic.openWatch
  rcases Tree.sheds_or_opens h.tidy path .reading with ⟨fault, t, ho, hs⟩ | ⟨o, t, ho, hopens⟩
  · rw [ho] at hreach ⊢
    refine ⟨h.step hreach trivial, .sheds hs ?_⟩
    rw [held?_step]
    show Function.update s.held? id none = s.held?
    rw [← hfree, Function.update_eq_self]
  · rw [ho] at hreach ⊢
    have hmatched := hreach.matched
    have hentry : t.handle? o.handle = some o :=
      Tree.Tidy.handle?_eq_some ⟨hmatched.numbered, hmatched.distinct⟩ hopens.mem
    dsimp only
    rw [hentry]
    exact ⟨h.step hreach ⟨o, rfl, rfl⟩, .opens hfree hopens (held?_step s id _ t)⟩

/-- However a watch ends, its handle goes. -/
theorem closeWatch (h : s.Proper) {w : Watch} (hw : s.stage id = .watching w)
    (hnamed : stage.Named) (hfree : stage.held? = none) :
    Leads s (s.closeWatch id w stage) := by
  obtain ⟨o, -, hhandle, hheld⟩ := h.exists_held hw
  refine ⟨h.step (h.reachable.perform (.close w.handle)) hnamed, .closes hheld ?_ ?_⟩
  · rw [hhandle]
    rfl
  · rw [← hfree]
    exact held?_step s id stage _

theorem request (h : s.Proper) (hidle : s.stage id = .idle) (line : Bytes) :
    Leads s (s.request id line) := by
  have hfree : none = s.held? id := (s.held?_eq hidle).symm
  unfold Traffic.request
  split
  · exact h.step_tree trivial hfree
  · split
    · exact h.stay
    · exact h.step_tree trivial hfree
    · next path _ => exact h.openWatch hidle path
    · next r _ _ _ =>
      obtain ⟨a, ha, he⟩ := execute_eq_perform s.tree r
      rw [he]
      exact h.step_perform ha trivial hfree

theorem receive (h : s.Proper) (id : Nat) (line : Bytes) : Leads s (s.receive id line) := by
  unfold Traffic.receive
  split
  · next hidle => exact h.request hidle line
  · next w hw =>
    split
    · exact h.closeWatch hw trivial rfl
    · exact h.closeWatch hw trivial rfl
  · exact h.stay

/-- A watch keeps its entry until it ends. -/
theorem goOn (h : s.Proper) (id : Nat) : Leads s (s.goOn id) := by
  have hon : ∀ {number entry progress}, s.stage id = .watching ⟨number, entry, progress⟩ →
      ∀ (a : Action σ) (next : Watch.Progress), ¬ Tree.IsHandled a →
      Leads s (s.step id (.watching ⟨number, entry, next⟩) (s.tree.perform a)) := by
    intro number entry progress hw a next ha
    have hnamed := h.named id
    rw [hw] at hnamed
    exact h.step_perform ha hnamed (s.held?_eq hw).symm
  unfold Traffic.goOn
  split
  · next number entry hw =>
    split
    · next t ho =>
      have htree : t = s.tree.perform (.longPollAll number) := (congrArg Prod.snd ho).symm
      exact htree ▸ hon hw (.longPollAll number) .answered not_false
    · next poll t ho =>
      have htree : t = s.tree.perform (.longPollAll number) := (congrArg Prod.snd ho).symm
      exact htree ▸ hon hw (.longPollAll number) (.polling poll) not_false
  · next number entry poll hw =>
    split
    · exact h.stay
    · next t ho =>
      have htree : t = s.tree.perform (.look poll) := by
        show t = s.tree.look poll
        rw [Tree.look, ho]
      exact htree ▸ hon hw (.look poll) .answered not_false
  · next hw => exact h.closeWatch hw trivial rfl
  · exact h.stay

theorem hangUp (h : s.Proper) (id : Nat) : Leads s (s.hangUp id) := by
  unfold Traffic.hangUp
  rcases hstage : s.stage id with _ | w | _
  · exact h.step_tree trivial (s.held?_eq hstage).symm
  · exact h.closeWatch hstage trivial rfl
  · exact h.step_tree trivial (s.held?_eq hstage).symm

end Proper

/-- All that can happen. -/
theorem leads_turn (h : s.Proper) {next : Turn σ} (hallowed : next.Allowed) :
    Leads s (s.turn next) := by
  cases next with
  | line id line => exact h.receive id line
  | watch id => exact h.goOn id
  | hangUp id => exact h.hangUp id
  | others a =>
      exact ⟨⟨h.reachable.perform a, h.named⟩, .sheds (Tree.sheds_perform h.tidy hallowed) rfl⟩
  | newNode n => exact ⟨⟨h.reachable.addNode n hallowed, h.named⟩, .sheds (.of_books rfl) rfl⟩

/-! ## Runs -/

/-- The table belongs to the pending watches. -/
structure Balanced (s : Traffic σ) : Prop extends s.Proper where
  assigned : s.tree.Assigned s.held?

theorem IsStart.balanced (h : s.IsStart) : s.Balanced := by
  have hnone : ∀ id o, s.held? id ≠ some o := by
    intro id o ho
    rw [s.held?_eq (h.idle id)] at ho
    cases ho
  refine ⟨⟨h.reachable, ?_⟩, ⟨?_, ?_, ?_, ?_⟩⟩
  · intro id
    rw [h.idle id]
    trivial
  · intro o ho
    rw [h.noHandles] at ho
    cases ho
  · intro id id' o o' ho
    exact absurd ho (hnone id o)
  · intro id o ho
    exact absurd ho (hnone id o)
  · intro id o ho
    exact absurd ho (hnone id o)

/-- Whatever a turn does, every entry keeps its one watch. -/
theorem Balanced.leads {s' : Traffic σ} (h : s.Balanced) (hl : Leads s s') : s'.Balanced := by
  refine ⟨hl.proper, ?_⟩
  rcases hl.effect with ⟨htree, hheld⟩ | ⟨hfree, htree, hheld⟩ | ⟨hown, htree, hheld⟩
  · rw [hheld]
    exact h.assigned.sheds htree
  · rw [hheld]
    apply h.assigned.opens hfree htree
    obtain ⟨r, hr, he⟩ := List.any_eq_true.mp htree.registered
    rw [← of_decide_eq_true he]
    exact hl.proper.reachable.id_lt r hr
  · rw [hheld, htree]
    exact h.assigned.close hown

theorem Run.balanced {start : Traffic σ} (hrun : Run start s) (h : start.Balanced) :
    s.Balanced := by
  induction hrun with
  | start => exact h
  | turn next _ hallowed ih => exact ih.leads (leads_turn ih.toProper hallowed)

/-- Numbers are given on and on, and who holds an entry held it before, or has a new number. -/
structure Advances (s s' : Traffic σ) : Prop where
  nextHandle : s.tree.nextHandle ≤ s'.tree.nextHandle
  fresh : ∀ id o, s'.held? id = some o →
    s.held? id = some o ∨ s.tree.nextHandle ≤ o.handle.number

theorem Advances.trans {u v : Traffic σ} (h : Advances s u) (h' : Advances u v) :
    Advances s v := by
  refine ⟨Nat.le_trans h.nextHandle h'.nextHandle, ?_⟩
  intro id o ho
  rcases h'.fresh id o ho with hold | hnew
  · exact h.fresh id o hold
  · exact .inr (Nat.le_trans h.nextHandle hnew)

theorem Leads.advances {s' : Traffic σ} (h : Leads s s') : Advances s s' := by
  rcases h.effect with ⟨htree, hheld⟩ | ⟨hfree, htree, hheld⟩ | ⟨hown, htree, hheld⟩
  · refine ⟨htree.proceeds.nextHandle, ?_⟩
    intro id o ho
    rw [hheld] at ho
    exact .inl ho
  · refine ⟨htree.proceeds.nextHandle, ?_⟩
    intro id o ho
    rw [hheld] at ho
    rcases Tree.eq_some_of_update ho with ⟨-, ⟨⟩⟩ | ⟨-, hold⟩
    · exact .inr htree.fresh.1
    · exact .inl hold
  · refine ⟨?_, ?_⟩
    · rw [htree]
      exact (Tree.proceeds_close s.tree _).nextHandle
    · intro id o ho
      rw [hheld] at ho
      rcases Tree.eq_some_of_update ho with ⟨-, ⟨⟩⟩ | ⟨-, hold⟩
      exact .inl hold

theorem Run.advances {s' : Traffic σ} (hrun : Run s s') (h : s.Balanced) : Advances s s' := by
  induction hrun with
  | start => exact ⟨Nat.le_refl _, fun id o ho => .inl ho⟩
  | turn next hrun hallowed ih =>
      exact ih.trans (leads_turn (hrun.balanced h).toProper hallowed).advances

/-- At any time, and whatever has happened, every open handle is that of exactly one pending watch;
a pending watch has the handle that it was given, once, unless its registration is gone; no two
handles are of the same node. And when a watch is over, its handle is open no more and never will be.
-/
theorem watches_hold_handles {start s : Traffic σ} (hstart : start.IsStart)
    (hrun : Run start s) :
    (∀ o ∈ s.tree.handles, ∃! id, ∃ w, s.stage id = .watching w ∧ w.handle = o.handle) ∧
    (∀ id w, s.stage id = .watching w → ∃ o, w.entry = some o ∧ o.handle = w.handle ∧
      (s.tree.isRegistered o.id = true →
        o ∈ s.tree.handles ∧ s.tree.handles.countP (·.handle = w.handle) = 1)) ∧
    (s.tree.handles.map (·.node)).Nodup ∧
    (∀ id w s', s.stage id = .watching w → Run s s' →
      (∀ w', s'.stage id = .watching w' → w'.handle ≠ w.handle) →
      ∀ o ∈ s'.tree.handles, o.handle ≠ w.handle) := by
  have h := hrun.balanced hstart.balanced
  refine ⟨?_, ?_, h.reachable.matched.apart, ?_⟩
  · intro o ho
    obtain ⟨id, hid⟩ := h.assigned.held o ho
    refine ⟨id, h.exists_watch hid, ?_⟩
    rintro other ⟨w, hw, hhandle⟩
    obtain ⟨o', -, hhandle', ho'⟩ := h.exists_held hw
    exact h.assigned.apart other id o' o ho' hid (hhandle'.trans hhandle)
  · intro id w hw
    obtain ⟨o, hentry, hhandle, ho⟩ := h.exists_held hw
    refine ⟨o, hentry, hhandle, ?_⟩
    intro hr
    have hmem := h.assigned.kept id o ho hr
    refine ⟨hmem, ?_⟩
    have hcount : s.tree.handles.countP (·.handle = w.handle) =
        (s.tree.handles.map (·.handle)).count w.handle := by
      rw [List.count_eq_countP, List.countP_map]
      rfl
    rw [hcount, ← hhandle]
    exact List.count_eq_one_of_mem h.tidy.distinct (List.mem_map_of_mem hmem)
  · intro id w s' hw hrun' hover o' ho' hhandle'
    obtain ⟨o, -, hhandle, ho⟩ := h.exists_held hw
    have h' := hrun'.balanced h
    obtain ⟨id', hid'⟩ := h'.assigned.held o' ho'
    -- who holds the number now held it then
    rcases (hrun'.advances h).fresh id' o' hid' with hold | hnew
    · have hsame : id' = id := h.assigned.apart id' id o' o hold ho (hhandle'.trans hhandle.symm)
      obtain ⟨w', hw', heq⟩ := h'.exists_watch (hsame ▸ hid')
      exact hover w' hw' (heq.trans hhandle')
    · have hgiven := (h.assigned.given id o ho).1
      rw [hhandle, ← hhandle'] at hgiven
      omega

/-- A file whose value can be watched. -/
def tide : ReadWrite Bytes where
  location := ⟨.fixed "/sea", "tide", rfl⟩
  provider := { supply := fun _ s => (.ok s, s) }
  sink := fun content _ => (.ok (), content)

/-- An empty tree. -/
def shore : Tree Bytes Empty := { publisher := #[1] }

/-- A tree with that file, before anybody connects. -/
def harbour : Traffic Bytes where
  tree := (shore.addNode (.readWrite tide)).2.perform (.register ⟨0⟩)

/-- The first client watches the file, and the poll has begun. -/
def moored : Traffic Bytes :=
  (harbour.turn (.line 0 (.ofString "watch /sea/tide"))).turn (.watch 0)

/-- The second client asks for the content, and then the first one cancels its watch. -/
def sailed : Traffic Bytes :=
  (moored.turn (.line 1 (.ofString "cat /sea/tide"))).turn (.line 0 (.ofString "enough"))

/-- The watch that is pending has the only handle, also while the other client is refused; after the
line that cancels it the handle is gone. -/
theorem watches_hold_handles_tide :
    harbour.IsStart ∧ Run harbour moored ∧
      (∃ w, moored.stage 0 = .watching w ∧
        moored.tree.handles.countP (·.handle = w.handle) = 1 ∧
        (∃! id, ∃ w', moored.stage id = .watching w' ∧ w'.handle = w.handle) ∧
        ∀ o ∈ sailed.tree.handles, o.handle ≠ w.handle) := by
  have hnode : (shore.addNode (.readWrite tide)).2.Reachable :=
    .addNode _ (.empty {} #[1]) ⟨rfl, rfl, rfl⟩
  have hstart : harbour.IsStart := ⟨.perform (.register ⟨0⟩) hnode, rfl, fun _ => rfl⟩
  have hrun : Run harbour moored := .turn _ (.turn _ .start trivial) trivial
  have hlater : Run moored sailed := .turn _ (.turn _ .start trivial) trivial
  obtain ⟨hheld, hpending, -, hover⟩ := watches_hold_handles hstart hrun
  have hwatch : harbour.turn (.line 0 (.ofString "watch /sea/tide")) =
      harbour.openWatch 0 "/sea/tide" := by
    have hline : Text.Utf8.decode (.ofString "watch /sea/tide") = .ok "watch /sea/tide" := by cbv
    show harbour.request 0 _ = _
    rw [request, hline]
    rfl
  have hw : moored.stage 0 = .watching ⟨⟨1⟩, some ⟨⟨1⟩, ⟨1⟩, ⟨0⟩, "/sea/tide"⟩,
      .polling ⟨⟨0⟩, ⟨1, 0⟩, .whole ⟨1⟩⟩⟩ := by
    rw [moored, hwatch]
    rfl
  obtain ⟨o, ho, -, hkept⟩ := hpending 0 _ hw
  cases ho
  have hregistered : moored.tree.isRegistered ⟨1⟩ = true := by
    rw [moored, hwatch]
    rfl
  obtain ⟨hmem, hcount⟩ := hkept hregistered
  refine ⟨hstart, hrun, _, hw, hcount, hheld _ hmem, ?_⟩
  apply hover 0 _ sailed hw hlater
  have hother : moored.turn (.line 1 (.ofString "cat /sea/tide")) =
      moored.step 1 .idle (Connection.execute moored.tree (.cat "/sea/tide")).2 := by
    have hidle : moored.stage 1 = .idle := by
      rw [moored, hwatch]
      rfl
    have hline : Text.Utf8.decode (.ofString "cat /sea/tide") = .ok "cat /sea/tide" := by cbv
    show moored.receive 1 _ = _
    rw [receive, hidle]
    show moored.request 1 _ = _
    rw [request, hline]
    rfl
  have hcancelled : sailed.stage 0 = .idle := by
    have hline : Text.Utf8.decode (.ofString "enough") = .ok "enough" := by cbv
    have hstill : (moored.step 1 .idle (Connection.execute moored.tree (.cat "/sea/tide")).2).stage
        0 = .watching _ := hw
    rw [sailed, hother]
    show (receive _ 0 _).stage 0 = .idle
    rw [receive, hstill]
    dsimp only
    rw [hline]
    rfl
  intro w' hw'
  rw [hcancelled] at hw'
  cases hw'

end Traffic

end LiveTree
