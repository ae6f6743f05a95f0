import LiveTree.NameMap
import LiveTree.Publisher
import LiveTree.Session

/-!
# Key stores

A directory in which every key is a file. Keys are not declared: closing a session that writes
creates the key. One session at a time is open on the whole store.
-/

namespace LiveTree

variable {σ : Type}

/-- The session of a key store. -/
structure KeySession where
  key : String
  inner : Session
deriving DecidableEq, Repr

/-- A directory of keys. -/
structure KeyStore (σ : Type) where
  directory : Directory σ
  entries : NameMap Bytes := []
  session : Option KeySession := none

namespace KeyStore

/-! ### The publisher's side -/

/-- The value of `key`. -/
def get? (n : KeyStore σ) (key : String) : Option Bytes := n.entries.get? key

/-- Sets `key`, without a session. -/
def insert (n : KeyStore σ) (key : String) (value : Bytes) : Except Fault (KeyStore σ) :=
  if Path.isValidName key then .ok { n with entries := n.entries.insert key value }
  else .error (.invalidPath key)

/-- Takes `key` away. -/
def remove (n : KeyStore σ) (key : String) : KeyStore σ :=
  { n with entries := n.entries.erase key }

/-- All keys, in order. -/
def keys (n : KeyStore σ) : List String := n.entries.names

/-! ### Places -/

/-- The key that `path` addresses, whether it has a value or not. -/
def keyFor? (n : KeyStore σ) (s : σ) (path : String) : Option String :=
  if Path.parent (Path.clean path) = some (n.directory.resolve s) then
    (Path.fileName (Path.clean path)).filter Path.isValidName
  else none

/-- The key that `path` addresses, or a fault. -/
def requireKey (n : KeyStore σ) (s : σ) (path : String) : Except Fault String :=
  match n.keyFor? s path with
  | some key => .ok key
  | none => .error (.notFound path)

/-- Whether `path` is the directory or lies above it. -/
def coversDirectory (n : KeyStore σ) (s : σ) (path : String) : Bool :=
  Path.isAncestorOrSelf (Path.clean path) (n.directory.resolve s)

/-- Whether `path` addresses a key. -/
def matchesFile (n : KeyStore σ) (s : σ) (path : String) : Bool := (n.keyFor? s path).isSome

/-- The keys if `path` is the directory, else the name on the way to it. -/
def children (n : KeyStore σ) (s : σ) (path : String) : List String :=
  if Path.clean path == n.directory.resolve s then n.keys
  else (Path.nextComponent (Path.clean path) (n.directory.resolve s)).toList

/-! ### Sessions -/

/-- The value a size query looks at. A key never written is not there. -/
def content (n : KeyStore σ) (s : σ) (path : String) : Except Fault Bytes := do
  let key ← n.requireKey s path
  match n.get? key with
  | some value => return value
  | none => throw (.notFound path)

/-- Fails unless `path` may be opened with `access`; else what the session will read. Reading alone
needs the key to be there. -/
def permit (n : KeyStore σ) (s : σ) (path : String) (access : Access) : Except Fault Bytes := do
  let key ← n.requireKey s path
  if !access.read && !access.write then throw (.accessConflict "no access mode requested")
  if let some session := n.session then
    throw (.accessConflict ("key store busy with " ++ session.inner.path))
  if !access.read then return #[]
  match n.get? key with
  | some value => return value
  | none => if access.write then return #[] else throw (.notFound path)

/-- The store with a session on `content` for the key that `path` addresses. -/
def begin (n : KeyStore σ) (s : σ) (path : String) (access : Access) (content : Bytes) :
    KeyStore σ :=
  match n.keyFor? s path with
  | none => n
  | some key =>
    { n with
      session := some
        ⟨key, ⟨Path.join (n.directory.resolve s) key, access, content, #[], false⟩⟩ }

/-- What the session reads. -/
def read (n : KeyStore σ) (offset size : Nat) : Except Fault Bytes :=
  match n.session with
  | none => .error .noSession
  | some session => session.inner.read offset size

/-- The store after a write into the session's pending buffer. -/
def write (n : KeyStore σ) (offset : Nat) (data : Bytes) : Except Fault (KeyStore σ) :=
  match n.session with
  | none => .error .noSession
  | some session => do
    let inner ← session.inner.write offset data
    return { n with session := some { session with inner } }

/-- A session that writes `key`, if one is open. -/
def writer? (n : KeyStore σ) (key : String) : Option KeySession :=
  n.session.filter (fun session => session.key = key && session.inner.access.write)

/-- Resizes `path`: the pending buffer of a session that writes it, else its value. Neither can
grow. -/
def resize (n : KeyStore σ) (s : σ) (path : String) (size : Nat) :
    Except Fault (KeyStore σ) := do
  let key ← n.requireKey s path
  match n.writer? key with
  | some session =>
    let inner ← session.inner.truncate size
    return { n with session := some { session with inner } }
  | none =>
    match n.get? key with
    | none => throw (.notFound path)
    | some value =>
      if value.size < size then
        throw (.unsupported ("growing " ++ path ++ " to " ++ toString size ++ " bytes"))
      return { n with entries := n.entries.insert key (value.take size) }

/-- What the end of a session leaves of the entries: a session that wrote replaces the value of its
key, and one that could have written makes sure that the key is there. -/
def settled (entries : NameMap Bytes) (session : KeySession) : NameMap Bytes :=
  if session.inner.access.write then
    match session.inner.commit? with
    | some value => entries.insert session.key value
    | none => entries.alter session.key (·.getD #[])
  else entries

/-- The session that ends, and the store without it. -/
def close (n : KeyStore σ) : Except Fault (KeySession × KeyStore σ) :=
  match n.session with
  | none => .error .noSession
  | some session =>
    .ok (session, { n with session := none, entries := settled n.entries session })

end KeyStore

end LiveTree
