import LiveTree.Connection

/-!
# The service

Any number of connections to one tree. Whatever happens, input, the end of an input or a step of the
publisher, afterwards every watch that can be answered is answered. What is to be written to the
clients comes out in order, each piece with the connection it belongs to.
-/

namespace LiveTree

/-- A tree and the connections to it. -/
structure Service (σ ε : Type) where
  tree : Tree σ ε
  /-- In the order in which they were accepted. -/
  connections : List (Nat × Connection) := []
  nextConnection : Nat := 0

namespace Service

variable {σ ε : Type} [Foreign ε]

/-- What is to be written, and to which connections. -/
abbrev Output := List (Nat × Bytes)

/-- What is to be written to one connection; nothing if there are no octets. -/
def writing (id : Nat) (octets : Bytes) : Output := if octets.isEmpty then [] else [(id, octets)]

/-- Answers the watches among `connections` that can be answered. -/
def settleAll (t : Tree σ ε) :
    List (Nat × Connection) → Output × List (Nat × Connection) × Tree σ ε
  | [] => ([], [], t)
  | (id, c) :: rest =>
    let (reply, c, t) := c.settle t
    let (output, rest, t) := settleAll t rest
    (writing id reply ++ output, (id, c) :: rest, t)

/-- Answers the watches that can be answered. -/
def settle (s : Service σ ε) : Output × Service σ ε :=
  let (output, connections, tree) := settleAll s.tree s.connections
  (output, { s with connections, tree })

/-- Takes a new connection in. -/
def accept (s : Service σ ε) : Nat × Service σ ε :=
  (s.nextConnection, { s with
    connections := s.connections ++ [(s.nextConnection, {})]
    nextConnection := s.nextConnection + 1 })

/-- The connection of that number. -/
def connection? (s : Service σ ε) (id : Nat) : Option Connection := s.connections.lookup id

/-- The service with another state of a connection. -/
def setConnection (s : Service σ ε) (id : Nat) (c : Connection) : Service σ ε :=
  { s with connections := s.connections.map fun p => if p.1 = id then (id, c) else p }

/-- Takes input of a connection. -/
def receive (s : Service σ ε) (id : Nat) (input : Bytes) : Output × Service σ ε :=
  match s.connection? id with
  | none => ([], s)
  | some c =>
    let (reply, c, tree) := c.receive s.tree input
    let (output, s) := ({ s with tree }.setConnection id c).settle
    (writing id reply ++ output, s)

/-- Takes the end of a connection's input. The connection is over. -/
def hangUp (s : Service σ ε) (id : Nat) : Output × Service σ ε :=
  match s.connection? id with
  | none => ([], s)
  | some c =>
    let (reply, _, tree) := c.finish s.tree
    let connections := s.connections.filter (·.1 ≠ id)
    let (output, s) := { s with tree, connections }.settle
    (writing id reply ++ output, s)

/-- Lets the publisher act on the tree. -/
def act (s : Service σ ε) (f : Tree σ ε → Tree σ ε) : Output × Service σ ε :=
  { s with tree := f s.tree }.settle

/-- Whether a connection takes no more requests. -/
def isClosed (s : Service σ ε) (id : Nat) : Bool :=
  match s.connection? id with
  | none => true
  | some c => c.phase = .closed

end Service

end LiveTree
