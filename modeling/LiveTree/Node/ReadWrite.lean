import LiveTree.Publisher
import LiveTree.Session

/-!
# Read-write nodes

One file that is read through a provider and written through a sink, and at the same time a channel
for changes. What a session writes reaches the sink in one piece when the session closes.

The node remembers the last value it handed out or announced, and counts the announcements. A
session remembers the count it has seen. A reader that waits is let through when the count has moved
on, and then sees the last announced value; closing its session ends the wait.
-/

namespace LiveTree

variable {σ : Type}

/-- The session of a read-write node. -/
structure LiveSession where
  /-- Sessions of one node are numbered from 1. -/
  number : Nat
  inner : Session
  /-- The count of announcements the snapshot belongs to. -/
  observed : Nat
deriving DecidableEq, Repr

/-- What a read-write node has made known. -/
structure Published where
  /-- The last value handed to a reader or announced. -/
  last : Option Bytes := none
  /-- How many announcements there have been. -/
  generation : Nat := 0
  /-- The session that may wait for the next one. -/
  live : Option Nat := none
deriving DecidableEq, Repr

/-- A file that can be read, written and waited for. -/
structure ReadWrite (σ : Type) where
  location : Location σ
  provider : Provider σ
  sink : Sink σ
  session : Option LiveSession := none
  published : Published := {}
  nextSession : Nat := 1

/-- A reader's place in the wait for a change: its session, and the count of announcements that
session had seen when the wait began. -/
structure Ticket where
  session : Nat
  observed : Nat
deriving DecidableEq, Repr

namespace ReadWrite

/-! ### Sessions -/

/-- Fails unless `path` may be opened with `access`. For reading, the provider has to be run. -/
def permit (n : ReadWrite σ) (s : σ) (path : String) (access : Access) :
    Except Fault (Source σ) := do
  n.location.check s path
  if !access.read && !access.write then throw (.accessConflict "no access mode requested")
  if n.session.isSome then throw (.accessConflict (path ++ " already has an open session"))
  return if access.read then .provided n.provider else .held #[]

/-- The node with a session on `content`. A session that reads makes `content` the last value. -/
def begin (n : ReadWrite σ) (s : σ) (access : Access) (content : Bytes) : ReadWrite σ :=
  { n with
    session := some
      { number := n.nextSession
        inner := ⟨n.location.filePath s, access, content, #[], false⟩
        observed := n.published.generation }
    published := { n.published with
      last := if access.read then some content else n.published.last
      live := some n.nextSession }
    nextSession := n.nextSession + 1 }

/-- What the session reads. -/
def read (n : ReadWrite σ) (offset size : Nat) : Except Fault Bytes :=
  match n.session with
  | none => .error .noSession
  | some session => session.inner.read offset size

/-- The node after a write into the session's pending buffer. -/
def write (n : ReadWrite σ) (offset : Nat) (data : Bytes) : Except Fault (ReadWrite σ) :=
  match n.session with
  | none => .error .noSession
  | some session => do
    let inner ← session.inner.write offset data
    return { n with session := some { session with inner } }

/-- A session that writes, if one is open. -/
def writer? (n : ReadWrite σ) : Option LiveSession :=
  n.session.filter (·.inner.access.write)

/-- Resizes `path`: the node afterwards, and what goes to the sink. A session that writes has its
pending buffer cut; without one only a truncation to nothing is possible, through the sink. -/
def resize (n : ReadWrite σ) (s : σ) (path : String) (size : Nat) :
    Except Fault (ReadWrite σ × Option Bytes) := do
  n.location.check s path
  match n.writer? with
  | some session =>
    let inner ← session.inner.truncate size
    return ({ n with session := some { session with inner } }, none)
  | none =>
    if size ≠ 0 then
      throw (.unsupported ("resizing " ++ path ++ " to " ++ toString size ++ " bytes"))
    return (n, some #[])

/-- The session that ends, and the node without it. What the session commits is still to be handed
to the sink; whether the sink takes it makes no difference to the node. -/
def close (n : ReadWrite σ) : Except Fault (LiveSession × ReadWrite σ) :=
  match n.session with
  | none => .error .noSession
  | some session => .ok (session, { n with
      session := none
      published := { n.published with
        live := if n.published.live = some session.number then none else n.published.live } })

/-! ### Changes -/

/-- The node after announcing `value`; `none` if that is the last value anyway. -/
def announce? (n : ReadWrite σ) (value : Bytes) : Option (ReadWrite σ) :=
  if n.published.last = some value then none
  else some { n with published := { n.published with
    last := some value, generation := n.published.generation + 1 } }

/-- The place in the wait that the session's reader takes. -/
def ticket (n : ReadWrite σ) : Except Fault Ticket :=
  match n.session with
  | none => .error .noSession
  | some session =>
    if session.inner.access.read then .ok ⟨session.number, session.observed⟩
    else .error (.accessConflict (session.inner.path ++ " not opened for reading"))

/-- What becomes of a reader that waits: `none` while it has to go on waiting, a fault if its
session has ended, and otherwise the node whose session sees the last announced value. -/
def wake? (n : ReadWrite σ) (ticket : Ticket) : Option (Except Fault (ReadWrite σ)) :=
  if n.published.live ≠ some ticket.session then some (.error .noSession)
  else if n.published.generation = ticket.observed then none
  else match n.session.filter (·.number = ticket.session) with
    | none => some (.error .noSession)
    | some session => some (.ok { n with session := some { session with
        inner := { session.inner with snapshot := n.published.last.getD #[] }
        observed := n.published.generation } })

end ReadWrite

end LiveTree
