import LiveTree.Publisher
import LiveTree.Session

/-!
# Read-only nodes

One file whose content a provider supplies. The provider runs once per open, and what it supplied
stays the content of that session.
-/

namespace LiveTree

variable {σ : Type}

/-- A file that can only be read. -/
structure ReadOnly (σ : Type) where
  location : Location σ
  provider : Provider σ
  session : Option Session := none

namespace ReadOnly

/-- Fails unless `path` may be opened with `access`; then the provider has to be run. -/
def permit (n : ReadOnly σ) (s : σ) (path : String) (access : Access) :
    Except Fault (Source σ) := do
  n.location.check s path
  if access.write then throw (.accessConflict (path ++ " is read-only"))
  if !access.read then throw (.accessConflict "no access mode requested")
  if n.session.isSome then throw (.accessConflict (path ++ " already has an open session"))
  return .provided n.provider

/-- The node with a session on `content`. -/
def begin (n : ReadOnly σ) (s : σ) (access : Access) (content : Bytes) : ReadOnly σ :=
  { n with session := some ⟨n.location.filePath s, access, content, #[], false⟩ }

/-- Resizing is refused. -/
def resize (n : ReadOnly σ) (s : σ) (path : String) : Except Fault Unit := do
  n.location.check s path
  throw (.unsupported (path ++ " is read-only"))

/-- What the session reads. -/
def read (n : ReadOnly σ) (offset size : Nat) : Except Fault Bytes :=
  match n.session with
  | none => .error .noSession
  | some session => session.read offset size

/-- The fault of every write. -/
def writeFault (n : ReadOnly σ) (s : σ) : Fault :=
  .unsupported (n.location.filePath s ++ " is read-only")

/-- The session that ends, and the node without it. -/
def close (n : ReadOnly σ) : Except Fault (Session × ReadOnly σ) :=
  match n.session with
  | none => .error .noSession
  | some session => .ok (session, { n with session := none })

end ReadOnly

end LiveTree
