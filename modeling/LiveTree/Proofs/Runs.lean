import LiveTree.Proofs.Books

/-!
# Runs of a tree

Everything that callers and the publisher can do to a tree is an `Action`, and a tree is *reachable*
when it came out of an empty one by taking in new nodes and performing actions, in any order and any
number. Sessions are opened, written and closed through the tree alone: no action reaches past it to
a node's own session.

A reader that has to wait does so between actions. It begins by one action and looks again, any
number of times, by `look`; whatever else happens may happen in between.
-/

namespace LiveTree

/-- Something done to a tree. -/
inductive Action (σ : Type) where
  | register (node : NodeRef)
  | unregister (id : NodeId)
  | openFile (path : String) (access : Access)
  | read (h : Handle) (offset size : Nat)
  | write (h : Handle) (offset : Nat) (data : Bytes)
  | close (h : Handle)
  | longPoll (h : Handle) (offset size : Nat)
  | longPollAll (h : Handle)
  /-- A reader that waits looks whether it may go on. -/
  | look (p : Poll)
  | readAll (path : String)
  | writeAll (path : String) (data : Bytes)
  | truncate (path : String) (size : Nat)
  | stat (path : String)
  | list (path : String)
  /-- The publisher's own state changes. -/
  | publish (f : σ → σ)
  /-- The publisher announces the value of a read-write node. -/
  | notify (node : NodeRef)
  /-- The publisher sets a key of a key store. -/
  | insert (node : NodeRef) (key : String) (value : Bytes)
  /-- The publisher takes a key of a key store away. -/
  | remove (node : NodeRef) (key : String)
  /-- What has been reported is taken. -/
  | takeLog

variable {σ ε : Type}

/-- A node as its publisher makes it. -/
def Node.IsNew : Node σ ε → Prop
  | .readOnly n => n.session = none
  | .readWrite n => n.session = none ∧ n.published = {} ∧ n.nextSession = 1
  | .keyStore n => n.session = none ∧ n.entries = []
  | .foreign _ _ => True

namespace Tree

/-! ## The publisher's side of a key store -/

/-- Sets a key of the key store `ref` leads to. -/
def insertKey (t : Tree σ ε) (ref : NodeRef) (key : String) (value : Bytes) : Tree σ ε :=
  match t.node? ref with
  | some (.keyStore n) =>
    match n.insert key value with
    | .error _ => t
    | .ok n => t.setNode ref (.keyStore n)
  | _ => t

/-- Takes a key of the key store `ref` leads to away. -/
def removeKey (t : Tree σ ε) (ref : NodeRef) (key : String) : Tree σ ε :=
  match t.node? ref with
  | some (.keyStore n) => t.setNode ref (.keyStore (n.remove key))
  | _ => t

theorem books_insertKey (t : Tree σ ε) (ref : NodeRef) (key : String) (value : Bytes) :
    (t.insertKey ref key value).books = t.books := by
  unfold insertKey
  split
  · split <;> rfl
  · rfl

theorem books_removeKey (t : Tree σ ε) (ref : NodeRef) (key : String) :
    (t.removeKey ref key).books = t.books := by
  unfold removeKey
  split <;> rfl

/-! ## Actions -/

variable [Foreign ε]

/-- The tree after a reader that waits has looked. -/
def look (t : Tree σ ε) (p : Poll) : Tree σ ε :=
  match t.finish? p with
  | none => t
  | some (_, t) => t

/-- The tree after an action. -/
def perform (t : Tree σ ε) : Action σ → Tree σ ε
  | .register ref => (t.register ref).2
  | .unregister id => (t.unregister id).2
  | .openFile path access => (t.openFile path access).2
  | .read _ _ _ => t
  | .write h offset data => (t.write h offset data).2
  | .close h => (t.close h).2
  | .longPoll h offset size => (t.longPoll h offset size).2
  | .longPollAll h => (t.longPollAll h).2
  | .look p => t.look p
  | .readAll path => (t.readAll path).2
  | .writeAll path data => (t.writeAll path data).2
  | .truncate path size => (t.truncate path size).2
  | .stat path => (t.stat path).2
  | .list _ => t
  | .publish f => { t with publisher := f t.publisher }
  | .notify ref => (t.notify ref).2
  | .insert ref key value => t.insertKey ref key value
  | .remove ref key => t.removeKey ref key
  | .takeLog => t.takeLog.2

/-- The trees that come out of an empty one. -/
inductive Reachable : Tree σ ε → Prop where
  | empty (settings : TreeSettings) (publisher : σ) : Reachable { settings, publisher }
  | addNode {t : Tree σ ε} (n : Node σ ε) : Reachable t → n.IsNew → Reachable (t.addNode n).2
  | perform {t : Tree σ ε} (a : Action σ) : Reachable t → Reachable (t.perform a)

theorem books_look (t : Tree σ ε) (p : Poll) : (t.look p).books = t.books := by
  unfold look
  split
  · rfl
  · next h => exact books_finish? h

/-- Every action proceeds. -/
theorem proceeds_perform (t : Tree σ ε) (a : Action σ) : Proceeds t (t.perform a) := by
  cases a with
  | register ref => exact proceeds_register t ref
  | unregister id => exact proceeds_unregister t id
  | openFile path access => exact proceeds_openFile t path access
  | read h offset size => exact .refl t
  | write h offset data => exact proceeds_write t h offset data
  | close h => exact proceeds_close t h
  | longPoll h offset size => exact proceeds_longPoll t h offset size
  | longPollAll h => exact proceeds_longPollAll t h
  | look p => exact .of_books (books_look t p)
  | readAll path => exact proceeds_readAll t path
  | writeAll path data => exact proceeds_writeAll t path data
  | truncate path size => exact proceeds_truncate t path size
  | stat path => exact proceeds_stat t path
  | list path => exact .refl t
  | publish f => exact .of_books rfl
  | «notify» ref => exact proceeds_notify t ref
  | insert ref key value => exact .of_books (books_insertKey t ref key value)
  | remove ref key => exact .of_books (books_removeKey t ref key)
  | takeLog => exact .of_books rfl

end Tree

end LiveTree
