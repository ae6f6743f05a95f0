import LiveTree.Tree.Sessions

/-!
# Watching

Announcing changes, and waiting for them. A reader that waits is a `Poll`: the node it waits on, its
place in the wait, and what it wants to read once a change has been announced. `finish?` looks at a
poll and answers it as soon as it can be.
-/

namespace LiveTree

/-- What a reader wants of the next value. -/
inductive Poll.Goal where
  /-- One part, as the node gives it. -/
  | part (offset size : Nat)
  /-- A range. -/
  | range (offset size : Nat)
  /-- All of it, read on through the handle. -/
  | whole (handle : Handle)
deriving DecidableEq, Repr

/-- A reader that waits. -/
structure Poll where
  node : NodeRef
  ticket : Ticket
  goal : Poll.Goal
deriving DecidableEq, Repr

/-- How a poll begins: with an answer at once, or with waiting. -/
inductive Poll.Start where
  | answered (result : Except Fault Bytes)
  | waiting (poll : Poll)

namespace Tree

variable {σ ε : Type} [Foreign ε]

/-! ### Announcing -/

/-- Runs the provider of a read-write node and announces its value, unless that is the last one
known. Tells whether it was announced. -/
def «notify» (t : Tree σ ε) (ref : NodeRef) : Except Fault Bool × Tree σ ε :=
  match t.node? ref with
  | some (.readWrite n) =>
    match t.provide n.provider with
    | (.error fault, t) => (.error fault, t)
    | (.ok value, t) =>
      match t.node? ref with
      | some (.readWrite n) =>
        match n.announce? value with
        | none => (.ok false, t)
        | some n =>
          (.ok true, (t.setNode ref (.readWrite n)).report
            (.announced (n.location.filePath t.publisher) n.published.generation))
      | _ => (.ok false, t)
  | _ => (.error (.unsupported "change notification"), t)

/-! ### Reading what was waited for -/

/-- Reads a range of the node's content: one part first, and on behind it only if that came back
full and more is wanted. -/
def readRange (r : Reader) (offset size : Nat) : Except Fault Bytes :=
  match r.read offset (min size readChunk) with
  | .error fault => .error fault
  | .ok first =>
    if first.size = min size readChunk ∧ first.size < size then r.upTo offset size first
    else .ok first

/-- Reads the first part of the node's content, and if that came back full all that follows through
the handle. -/
def readWhole (r : Reader) (t : Tree σ ε) (h : Handle) : Except Fault Bytes :=
  match readRange r 0 readChunk with
  | .error fault => .error fault
  | .ok first =>
    if first.size < readChunk then .ok first else (t.drain h first.size).map (first ++ ·)

/-- What the reader gets once its session sees the new value. -/
def harvest (t : Tree σ ε) (ref : NodeRef) : Poll.Goal → Except Fault Bytes
  | .part offset size => (t.nodeReader ref).read offset size
  | .range offset size => readRange (t.nodeReader ref) offset size
  | .whole h => readWhole (t.nodeReader ref) t h

/-! ### Polls -/

/-- Begins a poll on the node. -/
def poll (t : Tree σ ε) (ref : NodeRef) (goal : Poll.Goal) : Poll.Start × Tree σ ε :=
  match t.node? ref with
  | none => (.answered (.error .noSession), t)
  | some (.readOnly _) | some (.keyStore _) =>
    (.answered (.error (.unsupported "long-poll read")), t)
  | some (.readWrite n) =>
    match n.ticket with
    | .error fault => (.answered (.error fault), t)
    | .ok ticket => (.waiting ⟨ref, ticket, goal⟩, t)
  | some (.foreign e removals) =>
    match Foreign.wake e with
    | .error fault => (.answered (.error fault), t)
    | .ok e =>
      let t := t.setNode ref (.foreign e removals)
      (.answered (t.harvest ref goal), t)

/-- Begins a poll for a range through a handle. -/
def longPoll (t : Tree σ ε) (h : Handle) (offset size : Nat) : Poll.Start × Tree σ ε :=
  match t.handle? h with
  | none => (.answered (.error .noSession), t)
  | some o => t.poll o.node (.range offset size)

/-- Begins a poll for a whole content through a handle. -/
def longPollAll (t : Tree σ ε) (h : Handle) : Poll.Start × Tree σ ε :=
  match t.handle? h with
  | none => (.answered (.error .noSession), t)
  | some o => t.poll o.node (.whole h)

/-- Lets the session of a waiting reader see the announced value: `none` while there is nothing new.
-/
def wake? (t : Tree σ ε) (p : Poll) : Option (Except Fault Unit × Tree σ ε) :=
  match t.node? p.node with
  | some (.readWrite n) =>
    match n.wake? p.ticket with
    | none => none
    | some (.error fault) => some (.error fault, t)
    | some (.ok n) => some (.ok (), t.setNode p.node (.readWrite n))
  | _ => some (.error .noSession, t)

/-- The answer of a poll: `none` while it has to wait. -/
def finish? (t : Tree σ ε) (p : Poll) : Option (Except Fault Bytes × Tree σ ε) :=
  match t.wake? p with
  | none => none
  | some (.error fault, t) => some (.error fault, t)
  | some (.ok (), t) => some (t.harvest p.node p.goal, t)

end Tree

end LiveTree
