import LiveTree.Event
import LiveTree.Node

/-!
# The tree

A tree holds nodes, and makes a namespace of those that are registered. A node may be registered
more than once, or not at all; a registration names its node by a reference, so what happens to a
node through one registration shows through the others too. An open session that was asked for
through the tree is known by a handle.

References that lead to no node are harmless: such a registration claims nothing, and such a handle
has no session.
-/

namespace LiveTree

/-- Leads to a node of a tree. -/
structure NodeRef where
  index : Nat
deriving DecidableEq, Repr

/-- The number of an open session. -/
structure Handle where
  number : Nat
deriving DecidableEq, Repr

/-- How the handle is written. -/
def Handle.label (h : Handle) : String := "fh#" ++ toString h.number

/-- A node's place in the namespace. -/
structure Registration where
  id : NodeId
  node : NodeRef
deriving DecidableEq, Repr

/-- A session opened through the tree. -/
structure OpenHandle where
  handle : Handle
  id : NodeId
  node : NodeRef
  path : String
deriving DecidableEq, Repr

/-- Nodes, registrations and open handles over a publisher's state. -/
structure Tree (σ ε : Type) where
  settings : TreeSettings := {}
  publisher : σ
  nodes : List (Node σ ε) := []
  /-- In the order of registration, which decides between several nodes that claim a file. -/
  registrations : List Registration := []
  handles : List OpenHandle := []
  nextId : Nat := 1
  nextHandle : Nat := 1
  /-- What has been reported and not been taken yet, in order. -/
  log : List Event := []

namespace Tree

variable {σ ε : Type}

/-! ### Parts -/

/-- The node `ref` leads to. -/
def node? (t : Tree σ ε) (ref : NodeRef) : Option (Node σ ε) := t.nodes[ref.index]?

/-- The tree with another node in the place of the one `ref` leads to. -/
def setNode (t : Tree σ ε) (ref : NodeRef) (n : Node σ ε) : Tree σ ε :=
  { t with nodes := t.nodes.set ref.index n }

/-- Takes a node in, without registering it. -/
def addNode (t : Tree σ ε) (n : Node σ ε) : NodeRef × Tree σ ε :=
  (⟨t.nodes.length⟩, { t with nodes := t.nodes ++ [n] })

/-- Reports an event. -/
def report (t : Tree σ ε) (e : Event) : Tree σ ε := { t with log := t.log ++ [e] }

/-- Takes what has been reported. -/
def takeLog (t : Tree σ ε) : List Event × Tree σ ε := (t.log, { t with log := [] })

/-- The open handle of that number. -/
def handle? (t : Tree σ ε) (h : Handle) : Option OpenHandle := t.handles.find? (·.handle = h)

/-- Takes an open handle out of the table. -/
def takeHandle (t : Tree σ ε) (h : Handle) : Option (OpenHandle × Tree σ ε) :=
  match t.handle? h with
  | none => none
  | some o => some (o, { t with handles := t.handles.filter (·.handle ≠ h) })

/-- Whether a registration has that id. -/
def isRegistered (t : Tree σ ε) (id : NodeId) : Bool := t.registrations.any (·.id = id)

variable [Foreign ε]

/-- The registered nodes, in order. -/
def listing (t : Tree σ ε) : List NodeInfo :=
  t.registrations.filterMap fun r =>
    (t.node? r.node).map fun n => ⟨r.id, n.kind, n.directory t.publisher⟩

/-! ### Ends of sessions -/

/-- Ends the session of the node: commits what it wrote, and reports. The session is over even if
the commit fails. -/
def closeNode (t : Tree σ ε) (ref : NodeRef) : Except Fault Unit × Tree σ ε :=
  match t.node? ref with
  | none => (.error .noSession, t)
  | some (.readOnly n) =>
    match n.close with
    | .error fault => (.error fault, t)
    | .ok (session, n) =>
      (.ok (), (t.setNode ref (.readOnly n)).report (.readOnlyClosed session.path))
  | some (.readWrite n) =>
    match n.close with
    | .error fault => (.error fault, t)
    | .ok (session, closed) =>
      let path := session.inner.path
      let t := t.setNode ref (.readWrite closed)
      match session.inner.commit? with
      | none => (.ok (), t.report (.readWriteClosed path session.number))
      | some content =>
        match n.sink content t.publisher with
        | (.ok (), s) =>
          (.ok (), (({ t with publisher := s }).report (.committed path content.size)).report
            (.readWriteClosed path session.number))
        | (.error failure, s) =>
          (.error (.ofFailure failure),
            (({ t with publisher := s }).report (.commitFailed path (.ofFailure failure))).report
              (.readWriteClosed path session.number))
  | some (.keyStore n) =>
    match n.close with
    | .error fault => (.error fault, t)
    | .ok (session, n) =>
      (.ok (), (t.setNode ref (.keyStore n)).report (.keyStoreClosed session.key))
  | some (.foreign e removals) =>
    ((Foreign.close e).1, t.setNode ref (.foreign (Foreign.close e).2 removals))

/-! ### Registrations -/

/-- Registers a node. -/
def register (t : Tree σ ε) (ref : NodeRef) : NodeId × Tree σ ε :=
  let id : NodeId := ⟨t.nextId⟩
  let t := match t.node? ref with
    | none => t
    | some n => t.report (.registered id n.kind (n.directory t.publisher))
  (id, { t with registrations := t.registrations ++ [⟨id, ref⟩], nextId := t.nextId + 1 })

/-- Takes the registration out of the namespace. -/
def dropRegistration (t : Tree σ ε) (id : NodeId) : Tree σ ε :=
  { t with registrations := t.registrations.filter (·.id ≠ id) }

/-- The handles opened through a registration. -/
def handlesOf (t : Tree σ ε) (id : NodeId) : List Handle :=
  (t.handles.filter (·.id = id)).map (·.handle)

/-- Closes a handle whose registration is gone. -/
def closeStale (t : Tree σ ε) (h : Handle) : Tree σ ε :=
  match t.takeHandle h with
  | none => t
  | some (o, t) =>
    match t.closeNode o.node with
    | (.ok (), t) => t
    | (.error fault, t) => t.report (.closeOnUnregisterFailed o.path fault)

/-- Removes a registration and closes the handles opened through it. Tells whether there was one. -/
def unregister (t : Tree σ ε) (id : NodeId) : Bool × Tree σ ε :=
  if t.isRegistered id then
    let t := t.dropRegistration id
    let t := (t.handlesOf id).foldl closeStale t
    (true, t.report (.unregistered id))
  else (false, t)

/-! ### Contents -/

/-- Runs a provider, after removing the registrations it asks to remove. -/
def provide (t : Tree σ ε) (p : Provider σ) : Except Fault Bytes × Tree σ ε :=
  let t := (p.removals t.publisher).foldl (fun t id => (t.unregister id).2) t
  match p.supply t.listing t.publisher with
  | (.ok content, s) => (.ok content, { t with publisher := s })
  | (.error failure, s) => (.error (.ofFailure failure), { t with publisher := s })

/-- The content a source stands for. -/
def fetch (t : Tree σ ε) : Source σ → Except Fault Bytes × Tree σ ε
  | .provided p => t.provide p
  | .held content => (.ok content, t)

end Tree

end LiveTree
