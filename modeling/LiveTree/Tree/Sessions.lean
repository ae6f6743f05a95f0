import LiveTree.Tree.Namespace

/-!
# Sessions

Opening, reading, writing and closing, through handles or on a node directly. Opening through the
tree is a sequence of small steps: find the owner, open the node, put the handle into the table, and
look whether the owner is still registered. The last step matters when the owner's registration went
away meanwhile: then the open is undone.
-/

namespace LiveTree.Tree

variable {σ ε : Type} [Foreign ε]

/-! ### On one node -/

/-- What is reported when the node's session has begun. -/
def openedEvent? (path : String) (access : Access) : Node σ ε → Option Event
  | .readOnly n => n.session.map fun session => .readOnlyOpened path session.snapshot.size
  | .readWrite n => n.session.map fun session => .readWriteOpened path access session.number
  | .keyStore n => n.session.map fun session => .keyStoreOpened session.inner.path access
  | .foreign _ _ => none

/-- Begins a session on `content` on the node, and reports it. -/
def startSession (t : Tree σ ε) (ref : NodeRef) (path : String) (access : Access)
    (content : Bytes) : Tree σ ε :=
  match t.node? ref with
  | none => t
  | some n =>
    let n := n.begin t.publisher path access content
    let t := t.setNode ref n
    match openedEvent? path access n with
    | none => t
    | some e => t.report e

/-- Opens `path` on the node. -/
def openNode (t : Tree σ ε) (ref : NodeRef) (path : String) (access : Access) :
    Except Fault Unit × Tree σ ε :=
  match t.node? ref with
  | none => (.error (.notFound path), t)
  | some n =>
    match n.permit t.publisher path access with
    | .error fault => (.error fault, t)
    | .ok source =>
      match t.fetch source with
      | (.error fault, t) => (.error fault, t)
      | (.ok content, t) => (.ok (), t.startSession ref path access content)

/-- The reader of the node's session. -/
def nodeReader (t : Tree σ ε) (ref : NodeRef) : Reader :=
  match t.node? ref with
  | none => .failing .noSession
  | some n => n.reader

/-- Writes into the pending buffer of the node's session; tells how many octets were taken. -/
def writeNode (t : Tree σ ε) (ref : NodeRef) (offset : Nat) (data : Bytes) :
    Except Fault Nat × Tree σ ε :=
  match t.node? ref with
  | none => (.error .noSession, t)
  | some (.readOnly n) => (.error (n.writeFault t.publisher), t)
  | some (.readWrite n) =>
    match n.write offset data with
    | .error fault => (.error fault, t)
    | .ok n => (.ok data.size, t.setNode ref (.readWrite n))
  | some (.keyStore n) =>
    match n.write offset data with
    | .error fault => (.error fault, t)
    | .ok n => (.ok data.size, t.setNode ref (.keyStore n))
  | some (.foreign e removals) =>
    match Foreign.write e offset data with
    | .error fault => (.error fault, t)
    | .ok (count, e) => (.ok count, t.setNode ref (.foreign e removals))

/-! ### Through handles -/

/-- Gives a session that has begun on the registration's node a handle. -/
def addHandle (t : Tree σ ε) (r : Registration) (path : String) : OpenHandle × Tree σ ε :=
  let o : OpenHandle := ⟨⟨t.nextHandle⟩, r.id, r.node, path⟩
  (o, { t with handles := t.handles ++ [o], nextHandle := t.nextHandle + 1 })

/-- Undoes an open whose registration went away, unless the handle has been closed already. -/
def undoOpen (t : Tree σ ε) (o : OpenHandle) : Tree σ ε :=
  match t.takeHandle o.handle with
  | none => t
  | some (o, t) =>
    match t.closeNode o.node with
    | (.ok (), t) => t
    | (.error fault, t) => t.report (.closeAfterLostOpenFailed o.path fault)

/-- The last step of an open: it stands only if the registration is still there. -/
def confirmOpen (t : Tree σ ε) (o : OpenHandle) : Except Fault Handle × Tree σ ε :=
  if t.isRegistered o.id then (.ok o.handle, t)
  else (.error (.notFound o.path), (t.undoOpen o).report (.unregisteredDuringOpen o.path o.id))

/-- Opens the file at the path. -/
def openFile (t : Tree σ ε) (path : String) (access : Access) : Except Fault Handle × Tree σ ε :=
  match Path.normalize path with
  | .error fault => (.error fault, t)
  | .ok path =>
    match t.owner? path with
    | none => (.error (.notFound path), t)
    | some r =>
      match (t.noteOverlap path).openNode r.node path access with
      | (.error fault, t) => (.error fault, t)
      | (.ok (), t) =>
        let (o, t) := t.addHandle r path
        t.confirmOpen o

/-- The reader of an open handle. -/
def reader (t : Tree σ ε) (h : Handle) : Reader :=
  match t.handle? h with
  | none => .failing .noSession
  | some o => t.nodeReader o.node

/-- Reads up to `size` octets at `offset`. -/
def read (t : Tree σ ε) (h : Handle) (offset size : Nat) : Except Fault Bytes :=
  (t.reader h).upTo offset size #[]

/-- Offsets are words of 64 bits, and an end beyond them counts as the largest. -/
def writeEnd (offset length : Nat) : Nat := min (offset + length) 18446744073709551615

/-- Writes into the pending buffer; tells how many octets were taken. -/
def write (t : Tree σ ε) (h : Handle) (offset : Nat) (data : Bytes) :
    Except Fault Nat × Tree σ ε :=
  match t.handle? h with
  | none => (.error .noSession, t)
  | some o =>
    if t.settings.maxWriteBytes < writeEnd offset data.size then
      (.error (.tooLarge t.settings.maxWriteBytes), t)
    else t.writeNode o.node offset data

/-- Ends the session of the handle. -/
def close (t : Tree σ ε) (h : Handle) : Except Fault Unit × Tree σ ε :=
  match t.takeHandle h with
  | none => (.error .noSession, t)
  | some (o, t) => t.closeNode o.node

/-! ### Whole contents -/

/-- Reads all that stands at and behind `position`, through the handle. -/
def drain (t : Tree σ ε) (h : Handle) (position : Nat) : Except Fault Bytes :=
  (t.reader h).drain position

/-- The first fault of two results, else the first value. -/
def firstFault {α : Type} (first : Except Fault α) (second : Except Fault Unit) : Except Fault α :=
  match first, second with
  | .error fault, _ => .error fault
  | .ok _, .error fault => .error fault
  | .ok value, .ok () => .ok value

/-- Opens the file, reads all of it and closes it. -/
def readAll (t : Tree σ ε) (path : String) : Except Fault Bytes × Tree σ ε :=
  match t.openFile path .reading with
  | (.error fault, t) => (.error fault, t)
  | (.ok h, t) =>
    let content := t.drain h 0
    let (closed, t) := t.close h
    (firstFault content closed, t)

/-- Opens the file, writes `data` as all of it and closes it. -/
def writeAll (t : Tree σ ε) (path : String) (data : Bytes) : Except Fault Nat × Tree σ ε :=
  match t.openFile path .writing with
  | (.error fault, t) => (.error fault, t)
  | (.ok h, t) =>
    let (written, t) := t.write h 0 data
    let (closed, t) := t.close h
    (firstFault written closed, t)

end LiveTree.Tree
