import LiveTree.Node.Foreign
import LiveTree.Node.KeyStore
import LiveTree.Node.ReadOnly
import LiveTree.Node.Reader
import LiveTree.Node.ReadWrite

/-!
# Nodes

A node of any kind, and the questions that every kind answers: which paths it covers, what a query
or an open of a path needs, and what its session reads.
-/

namespace LiveTree

variable {σ ε : Type}

/-- A node: one of the three built-in kinds, or a foreign one together with the registrations that
opening it removes. -/
inductive Node (σ ε : Type) where
  | readOnly (n : ReadOnly σ)
  | readWrite (n : ReadWrite σ)
  | keyStore (n : KeyStore σ)
  | foreign (e : ε) (removals : σ → List NodeId)

namespace Node

variable [Foreign ε]

/-! ### Places -/

/-- Which kind of node it is. -/
def kind : Node σ ε → NodeKind
  | readOnly _ => .readOnly
  | readWrite _ => .readWrite
  | keyStore _ => .keyStore
  | foreign e _ => Foreign.kind e

/-- The directory of the node now. -/
def directory (s : σ) : Node σ ε → String
  | readOnly n => n.location.directory.resolve s
  | readWrite n => n.location.directory.resolve s
  | keyStore n => n.directory.resolve s
  | foreign e _ => Foreign.directory e

/-- Whether `path` is the node's directory or lies above it. -/
def coversDirectory (s : σ) (path : String) : Node σ ε → Bool
  | readOnly n => n.location.coversDirectory s path
  | readWrite n => n.location.coversDirectory s path
  | keyStore n => n.coversDirectory s path
  | foreign e _ => Foreign.coversDirectory e path

/-- Whether `path` is a file of the node. -/
def matchesFile (s : σ) (path : String) : Node σ ε → Bool
  | readOnly n => n.location.matchesFile s path
  | readWrite n => n.location.matchesFile s path
  | keyStore n => n.matchesFile s path
  | foreign e _ => Foreign.matchesFile e path

/-- The names directly under `path` that the node knows of. -/
def children (s : σ) (path : String) : Node σ ε → List String
  | readOnly n => n.location.children s path
  | readWrite n => n.location.children s path
  | keyStore n => n.children s path
  | foreign e _ => Foreign.children e path

/-- Whether `path` accepts writes. -/
def isWritable (s : σ) (path : String) : Node σ ε → Bool
  | readOnly _ => false
  | readWrite n => n.location.matchesFile s path
  | keyStore n => n.matchesFile s path
  | foreign e _ => Foreign.isWritable e path

/-! ### Sessions -/

/-- Fails unless `path` may be opened with `access`; else where the content to read comes from. -/
def permit (s : σ) (path : String) (access : Access) : Node σ ε → Except Fault (Source σ)
  | readOnly n => n.permit s path access
  | readWrite n => n.permit s path access
  | keyStore n => (n.permit s path access).map .held
  | foreign e removals => (Foreign.permit e path access).map fun _ =>
      .provided ⟨removals, fun _ s => (.ok #[], s)⟩

/-- The node with a session on `content`. -/
def begin (s : σ) (path : String) (access : Access) (content : Bytes) : Node σ ε → Node σ ε
  | readOnly n => readOnly (n.begin s access content)
  | readWrite n => readWrite (n.begin s access content)
  | keyStore n => keyStore (n.begin s path access content)
  | foreign e removals => foreign (Foreign.begin e path access) removals

/-- What can be read in the node's session. -/
def read (n : Node σ ε) (offset size : Nat) : Except Fault Bytes :=
  match n with
  | readOnly n => n.read offset size
  | readWrite n => n.read offset size
  | keyStore n => n.read offset size
  | foreign e _ => Foreign.read e offset size

/-- The open session of a built-in node. -/
def session? : Node σ ε → Option Session
  | readOnly n => n.session
  | readWrite n => n.session.map (·.inner)
  | keyStore n => n.session.map (·.inner)
  | foreign _ _ => none

/-- Nothing is read from the node's session at or past this offset. -/
def extent : Node σ ε → Nat
  | foreign e _ => Foreign.extent e
  | n => (n.session?.map (·.snapshot.size)).getD 0

theorem read_past (n : Node σ ε) (offset size : Nat) (part : Bytes)
    (h : n.read offset size = .ok part) (he : n.extent ≤ offset) : part = #[] := by
  have held : ∀ s : Session, s.read offset size = .ok part → s.snapshot.size ≤ offset →
      part = #[] := by
    intro s hs hl
    unfold Session.read at hs
    split at hs
    · cases hs
      exact Bytes.slice_eq_empty_of_size_le hl size
    · cases hs
  cases n with
  | readOnly n =>
    simp only [read, ReadOnly.read, extent, session?] at h he
    split at h
    · cases h
    · next s hs => exact held s h (by simpa [hs] using he)
  | readWrite n =>
    simp only [read, ReadWrite.read, extent, session?] at h he
    split at h
    · cases h
    · next s hs => exact held s.inner h (by simpa [hs] using he)
  | keyStore n =>
    simp only [read, KeyStore.read, extent, session?] at h he
    split at h
    · cases h
    · next s hs => exact held s.inner h (by simpa [hs] using he)
  | foreign e _ => exact Foreign.read_past e offset size part h he

/-- The reader of the node's session. -/
def reader (n : Node σ ε) : Reader := ⟨n.read, n.extent, n.read_past⟩

end Node

end LiveTree
