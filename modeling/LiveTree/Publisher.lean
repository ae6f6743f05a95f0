import LiveTree.Bytes
import LiveTree.Fault
import LiveTree.Path
import LiveTree.Text.Utf8

/-!
# Publishers

The program that publishes values has a state of its own, of any type `σ`. A node reaches it in
three ways: a provider reads a content out of it, a sink puts a content into it, and a directory
that moves is computed from it.
-/

namespace LiveTree

/-- The number a node got when it was registered. -/
structure NodeId where
  number : Nat
deriving DecidableEq, Repr

/-- How the id is written. -/
def NodeId.label (id : NodeId) : String := "node#" ++ toString id.number

/-- The kinds of nodes. -/
inductive NodeKind where
  | readOnly | readWrite | keyStore
deriving DecidableEq, Repr

namespace NodeKind

/-- Name of the kind. -/
def label : NodeKind → String
  | .readOnly => "read-only"
  | .readWrite => "read-write"
  | .keyStore => "key-store"

/-- The kind of that name. -/
def ofLabel? (text : String) : Option NodeKind :=
  [readOnly, readWrite, keyStore].find? (·.label == text)

theorem ofLabel?_label (k : NodeKind) : ofLabel? k.label = some k := by
  cases k <;> decide

end NodeKind

/-- A registered node as others see it. -/
structure NodeInfo where
  id : NodeId
  kind : NodeKind
  directory : String
deriving DecidableEq, Repr

variable {σ : Type}

/-! ### Providers and sinks -/

/-- Produces a content on demand. It may look at the registered nodes, it may fail, and running it
may change the publisher's state. Before that it may ask for registrations to be removed. -/
structure Provider (σ : Type) where
  /-- The registrations a run removes first. -/
  removals : σ → List NodeId := fun _ => []
  supply : List NodeInfo → σ → Except Failure Bytes × σ

/-- Receives a whole content. -/
abbrev Sink (σ : Type) := Bytes → σ → Except Failure Unit × σ

/-- The provider of a text that is always there. -/
def Provider.ofText (text : σ → String) : Provider σ where
  supply _ s := (.ok (Bytes.ofString (text s)), s)

/-- A sink that takes text only, and refuses octets that are none. -/
def Sink.ofText (store : String → σ → Except Failure Unit × σ) : Sink σ := fun octets s =>
  match Text.Utf8.decode octets with
  | .ok text => store text s
  | .error defect => (.error ⟨defect.message, []⟩, s)

/-! ### Places -/

/-- Where a node lives: a fixed directory, or one computed whenever it is asked for. -/
inductive Directory (σ : Type) where
  | fixed (text : String)
  | moving (text : σ → String)

/-- The directory now, in canonical form. -/
def Directory.resolve (d : Directory σ) (s : σ) : String :=
  match d with
  | .fixed text => Path.clean text
  | .moving text => Path.clean (text s)

/-- The place of a node that serves exactly one file. -/
structure Location (σ : Type) where
  directory : Directory σ
  name : String
  valid : Path.isValidName name = true

namespace Location

/-- The place of `name` in `directory`, if `name` can be a file name. -/
def of (directory : Directory σ) (name : String) : Except Fault (Location σ) :=
  if valid : Path.isValidName name = true then .ok ⟨directory, name, valid⟩
  else .error (.invalidPath name)

/-- The path of the file. -/
def filePath (l : Location σ) (s : σ) : String := Path.join (l.directory.resolve s) l.name

/-- Whether `path` is the directory of the file or lies above it. -/
def coversDirectory (l : Location σ) (s : σ) (path : String) : Bool :=
  Path.isAncestorOrSelf (Path.clean path) (l.directory.resolve s)

/-- Whether `path` is the file. -/
def matchesFile (l : Location σ) (s : σ) (path : String) : Bool :=
  Path.clean path == l.filePath s

/-- The names directly under `path` on the way to the file. -/
def children (l : Location σ) (s : σ) (path : String) : List String :=
  if Path.clean path == l.directory.resolve s then [l.name]
  else (Path.nextComponent (Path.clean path) (l.directory.resolve s)).toList

/-- Fails unless `path` is the file. -/
def check (l : Location σ) (s : σ) (path : String) : Except Fault Unit :=
  if l.matchesFile s path then .ok () else .error (.notFound path)

end Location

/-! ### Contents -/

/-- Where a content comes from: a provider that has to be run, or octets already at hand. -/
inductive Source (σ : Type) where
  | provided (p : Provider σ)
  | held (content : Bytes)

end LiveTree
